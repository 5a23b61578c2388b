import Pagefold.Disk

/-!
# Disks with the same outline

Where a path leads does not depend on what the files hold, and whether a file can be read depends
only on whether it holds a text.

* `Entry.outline`, `Tree.outline`: what is known of an entry and of a tree without the bytes of
  files;
* `Tree.walk_congr_outline`: trees with the same outline lead to the same places;
* `Disk.SameOutline`: disks with the same outline;
* `Disk.SameOutline.isFile_eq`, `Disk.SameOutline.readText_cases`: they have the same files, and the
  same of them can be read.
-/

namespace Pagefold

/-- What is known of an entry whose bytes are not known. -/
inductive Outline where
  /-- A regular file, and whether it holds a text. -/
  | file (isText : Bool)
  | folder
  | link (target : Path)
deriving Repr, DecidableEq

def Entry.outline : Entry → Outline
  | .file bytes => .file (String.fromUTF8? bytes).isSome
  | .folder => .folder
  | .link target => .link target

/-- Entries of one kind are the same, but for the bytes of files. -/
theorem Entry.outline_cases {e e' : Entry} (h : e.outline = e'.outline) :
    e = e' ∨ ∃ b b', e = .file b ∧ e' = .file b' ∧
      (String.fromUTF8? b).isSome = (String.fromUTF8? b').isSome := by
  cases e with
  | file b =>
    cases e' with
    | file b' => exact .inr ⟨b, b', rfl, rfl, Outline.file.inj h⟩
    | folder => simp [outline] at h
    | link q => simp [outline] at h
  | folder => cases e' <;> simp_all [outline]
  | link q => cases e' <;> simp_all [outline]

namespace Tree

/-- What stands at a location, without the bytes of a file. -/
def outline (t : Tree) (l : Location) : Option Outline := (t.at? l).map Entry.outline

theorem map_lookup (es : List (Location × Entry)) (l : Location) :
    (es.lookup l).map Entry.outline = (es.map fun m => (m.1, m.2.outline)).lookup l := by
  induction es with
  | nil => rfl
  | cons m es ih =>
    rw [List.map_cons, List.lookup_cons, List.lookup_cons, ← ih]
    split <;> rfl

variable {t t' : Tree} {l : Location}

theorem at?_cases (h : t.outline l = t'.outline l) :
    t.at? l = t'.at? l ∨ ∃ b b', t.at? l = some (.file b) ∧ t'.at? l = some (.file b') ∧
      (String.fromUTF8? b).isSome = (String.fromUTF8? b').isSome := by
  unfold outline at h
  cases ht : t.at? l with
  | none =>
    rw [ht, Option.map_none, eq_comm, Option.map_eq_none_iff] at h
    exact .inl h.symm
  | some e =>
    rw [ht, Option.map_some, eq_comm, Option.map_eq_some_iff] at h
    obtain ⟨e', ht', he⟩ := h
    rw [ht']
    rcases Entry.outline_cases he with rfl | ⟨b', b, rfl, rfl, hb⟩
    · exact .inl rfl
    · exact .inr ⟨b, b', rfl, rfl, hb.symm⟩

theorem advance_congr (h : ∀ l, t.outline l = t'.outline l) (purpose : Purpose) (l : Location)
    (ss : List Step) : t.advance purpose l ss = t'.advance purpose l ss := by
  induction ss generalizing l with
  | nil => rfl
  | cons s ss ih =>
    rcases at?_cases (h l) with hl | ⟨b, b', hl, hl', -⟩
    · cases ht : t'.at? l with
      | none => simp only [advance, hl, ht]
      | some e =>
        cases e with
        | file b => simp only [advance, hl, ht]
        | link q => simp only [advance, hl, ht]
        | folder =>
          cases s with
          | stay => simp only [advance, hl, ht, ih]
          | slash => simp only [advance, hl, ht, ih]
          | up => simp only [advance, hl, ht, ih]
          | down n =>
            -- The name leads to the same entry, or to a file, from which no step leads on.
            rcases at?_cases (h (l ++ [n])) with hn | ⟨b, b', hn, hn', -⟩
            · simp only [advance, hl, ht, hn, ih]
            · simp only [advance, hl, ht, hn, hn', ih]
    · simp only [advance, hl, hl']

/-- Trees with the same outline lead to the same places. -/
theorem walk_congr_outline (h : ∀ l, t.outline l = t'.outline l) (purpose : Purpose) (links : Nat)
    (l : Location) (ss : List Step) : t.walk purpose links l ss = t'.walk purpose links l ss := by
  induction links generalizing l ss with
  | zero => rw [walk, walk, advance_congr h]
  | succ links ih =>
    rw [walk, walk, advance_congr h]
    split
    · rfl
    · rfl
    · exact ih _ _

end Tree

namespace Disk

/-- Two disks have the same outline, and relative paths start at the same place. -/
structure SameOutline (d d' : Disk) : Prop where
  here : d.here = d'.here
  outline : ∀ l, d.tree.outline l = d'.tree.outline l

namespace SameOutline

theorem of_entries {es es' : List (Location × Entry)} (here : Location)
    (h : es.map (fun m => (m.1, m.2.outline)) = es'.map fun m => (m.1, m.2.outline)) :
    SameOutline ⟨⟨es⟩, here⟩ ⟨⟨es'⟩, here⟩ where
  here := rfl
  outline l := by
    unfold Tree.outline Tree.at?
    split
    · rfl
    · rw [Tree.map_lookup, h, ← Tree.map_lookup]

variable {d d' : Disk} (h : SameOutline d d') (p : Path)
include h

theorem absolute_eq : d.absolute p = d'.absolute p := by
  rw [absolute, absolute, h.here]

theorem reach_eq (purpose : Purpose) : d.reach p purpose = d'.reach p purpose := by
  have hstart : d.start p = d'.start p := by rw [start, start, h.here]
  simp only [reach, hstart, Tree.walk_congr_outline h.outline]

/-- The same is found at a path, but for the bytes of a file. -/
theorem entry_cases (purpose : Purpose) :
    d.entry p purpose = d'.entry p purpose ∨
    ∃ l b b', d.entry p purpose = .ok (l, .file b) ∧ d'.entry p purpose = .ok (l, .file b') ∧
      (String.fromUTF8? b).isSome = (String.fromUTF8? b').isSome := by
  simp only [entry, h.reach_eq p purpose]
  rcases d'.reach p purpose with why | ⟨l⟩ | ⟨folder, n⟩
  · exact .inl rfl
  · simp only
    rcases Tree.at?_cases (h.outline l) with hl | ⟨b, b', hl, hl', hb⟩
    · exact .inl (by rw [hl])
    · exact .inr ⟨l, b, b', by rw [hl], by rw [hl'], hb⟩
  · exact .inl rfl

theorem isFile_eq : d.isFile p = d'.isFile p := by
  rcases h.entry_cases p .content with hp | ⟨l, b, b', hp, hp', -⟩
  · rw [isFile, isFile, hp]
  · rw [isFile, isFile, hp, hp']

/-- A file cannot be read for the same reason on both disks, or it can be read on both. -/
theorem readText_cases :
    (∃ why, d.readText p = .error why ∧ d'.readText p = .error why) ∨
    ∃ t t', d.readText p = .ok t ∧ d'.readText p = .ok t' := by
  rcases h.entry_cases p .content with hp | ⟨l, b, b', hp, hp', hb⟩
  · have hsame : d.readText p = d'.readText p := by
      rw [readText, readText, readBytes, readBytes, hp]
    rw [hsame]
    cases d'.readText p with
    | error why => exact .inl ⟨why, rfl, rfl⟩
    | ok t => exact .inr ⟨t, t, rfl, rfl⟩
  · simp only [readText, readBytes, hp, hp']
    cases ht : String.fromUTF8? b with
    | none =>
      rw [ht, Option.isSome_none, eq_comm, Option.isSome_eq_false_iff, Option.isNone_iff_eq_none]
        at hb
      rw [hb]
      exact .inl ⟨.notText, rfl, rfl⟩
    | some t =>
      rw [ht, Option.isSome_some, eq_comm, Option.isSome_iff_exists] at hb
      obtain ⟨t', ht'⟩ := hb
      rw [ht']
      exact .inr ⟨t.toList, t'.toList, rfl, rfl⟩

end SameOutline

end Disk

end Pagefold
