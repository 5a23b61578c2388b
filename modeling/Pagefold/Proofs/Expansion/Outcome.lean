import Mathlib.Data.List.Dedup
import Mathlib.Logic.Function.Iterate
import Mathlib.Logic.Relation
import Pagefold.Proofs.Disk.Reach
import Pagefold.Proofs.Expansion.Includes

/-!
# How an expansion ends

An expansion ends well exactly when all files that it reaches can be read, none of them includes
itself on some way, and none of them is on the chain already. It nests no deeper than the tree has
files.

* `Expansion.Reaches`, `Disk.Readable`: the files that an expansion reaches, and those with a text;
* `Expansion.ok_iff_of_canonical`, `Expansion.resolveFile_error`,
  `Expansion.circular_of_readable`: when a file can be expanded, and the faults;
* `Tree.files`, `Chain.remaining`: the files that a chain may still take;
* `Expansion.iterate_resolveStep`: how deep an expansion nests;
* `Expansion.resolveFile_outcome`: all of this.
-/

namespace Pagefold

def Disk.Readable (d : Disk) (f : Path) : Prop := ∃ t, d.readText f = .ok t

open Relation (ReflTransGen TransGen)

namespace Expansion

/-- A file is reached from another one through includes. -/
def Reaches (s : StarterSettings) (d : Disk) : Path → Path → Prop := ReflTransGen (Includes s d)

variable {s : StarterSettings} {d : Disk} {v : Chain} {f p : Path} {t : Text}

theorem canonical_of_reaches {g : Path} (hf : f.Canonical) (h : Reaches s d f g) :
    g.Canonical := by
  induction h with
  | refl => exact hf
  | tail _ hg ih => exact canonical_of_includes ih hg

/-! ## Steps of an expansion -/

/-- A path is expanded as its absolute form is. -/
theorem resolveFile_of_absolute [Matcher] (h : d.absolute p = .ok f) :
    resolveFile s d v p = resolveFile s d v f := by
  have hf : d.absolute f = .ok f := Disk.absolute_of_canonical (Disk.absolute_canonical h)
  rw [resolveFile_eq, resolveFile_eq, resolveStep, resolveStep, h, hf]

theorem resolveFile_of_has [Matcher] (hf : f.Canonical) (hv : v.has f = true) :
    resolveFile s d v f = .fail (.circularInclude f (v.fromFirst ++ [f])) := by
  rw [resolveFile_eq, resolveStep, Disk.absolute_of_canonical hf]
  simp [hv]

theorem resolveFile_of_unreadable [Matcher] {why : Refusal} (hf : f.Canonical)
    (hv : v.has f = false) (ht : d.readText f = .error why) :
    resolveFile s d v f = .fail (.fileNotFound f why) := by
  rw [resolveFile_eq, resolveStep, Disk.absolute_of_canonical hf]
  simp [hv, ht]

theorem resolveFile_of_readable [Matcher] (hf : f.Canonical) (hv : v.has f = false)
    (ht : d.readText f = .ok t) :
    resolveFile s d v f = expandBody s (resolveFile s d (f :: v)) d (folderOf f) t := by
  rw [resolveFile_eq, resolveStep, Disk.absolute_of_canonical hf]
  simp [hv, ht]

theorem has_cons {g : Path} : Chain.has (f :: v) g = (g.same f || v.has g) := rfl

theorem same_self (f : Path) : f.same f = true := by simp [Path.same]

/-! ## When a file can be expanded -/

/-- The files reached from a file are the file itself and those reached from what it includes. -/
theorem forall_reaches_iff {Q : Path → Prop} (ht : d.readText f = .ok t) :
    (∀ g, Reaches s d f g → Q g) ↔
      Q f ∧ ∀ c ∈ children s d (folderOf f) t, ∀ g, Reaches s d c g → Q g := by
  constructor
  · intro h
    exact ⟨h f .refl, fun c hc g hg => h g (.head ⟨t, ht, hc⟩ hg)⟩
  · rintro ⟨hf, h⟩ g hg
    rcases ReflTransGen.cases_head hg with rfl | ⟨c, ⟨t', ht', hc⟩, hg⟩
    · exact hf
    · rw [ht] at ht'
      cases ht'
      exact h c hc g hg

/-- A file includes itself on some way exactly when it is reached from what it includes. -/
theorem includes_itself_iff (ht : d.readText f = .ok t) :
    TransGen (Includes s d) f f ↔ ∃ c ∈ children s d (folderOf f) t, Reaches s d c f := by
  rw [TransGen.head'_iff]
  constructor
  · rintro ⟨c, ⟨t', ht', hc⟩, hg⟩
    rw [ht] at ht'
    cases ht'
    exact ⟨c, hc, hg⟩
  · rintro ⟨c, hc, hg⟩
    exact ⟨c, ⟨t, ht, hc⟩, hg⟩

/-- A file can be expanded exactly when each file that it reaches can be read, does not include
itself on some way, and is not on the chain. -/
theorem ok_iff_of_canonical [Matcher] (hf : f.Canonical) :
    (∃ u, (resolveFile s d v f).result = .ok u) ↔
      ∀ g, Reaches s d f g →
        d.Readable g ∧ ¬ TransGen (Includes s d) g g ∧ v.has g = false := by
  -- The chain grows with each file, and a file on it is one that must not be reached again.
  induction v using Chain.extend_induction d generalizing f with
  | h v ih =>
    cases hv : v.has f with
    | true =>
      rw [resolveFile_of_has hf hv]
      constructor
      · rintro ⟨u, hu⟩
        cases hu
      · intro h
        have := (h f .refl).2.2
        rw [hv] at this
        cases this
    | false =>
      cases ht : d.readText f with
      | error why =>
        rw [resolveFile_of_unreadable hf hv ht]
        constructor
        · rintro ⟨u, hu⟩
          cases hu
        · intro h
          obtain ⟨u, hu⟩ := (h f .refl).1
          rw [ht] at hu
          cases hu
      | ok t =>
        have hstep : ∀ c ∈ children s d (folderOf f) t,
            ((∃ u, (resolveFile s d (f :: v) c).result = .ok u) ↔ ∀ g, Reaches s d c g →
              d.Readable g ∧ ¬ TransGen (Includes s d) g g ∧ Chain.has (f :: v) g = false) :=
          fun c hc => ih f t hv ht (canonical_of_mem_children (canonical_folderOf hf) hc)
        rw [resolveFile_of_readable hf hv ht, expandBody_ok_iff, forall₂_congr hstep,
          forall_reaches_iff ht, includes_itself_iff ht]
        constructor
        · intro h
          refine ⟨⟨⟨t, ht⟩, ?_, hv⟩, fun c hc g hg => ?_⟩
          · rintro ⟨c, hc, hcf⟩
            have := (h c hc f hcf).2.2
            simp [has_cons, same_self] at this
          · obtain ⟨hr, hcycle, hg'⟩ := h c hc g hg
            rw [has_cons, Bool.or_eq_false_iff] at hg'
            exact ⟨hr, hcycle, hg'.2⟩
        · rintro ⟨⟨-, hcycle, -⟩, h⟩ c hc g hg
          obtain ⟨hr, hgg, hg'⟩ := h c hc g hg
          refine ⟨hr, hgg, ?_⟩
          rw [has_cons, hg', Bool.or_false, ← Bool.not_eq_true]
          intro hsame
          have hcg := canonical_of_reaches (canonical_of_mem_children (canonical_folderOf hf) hc) hg
          rw [Path.eq_of_same hcg hf hsame] at hg
          exact hcycle ⟨c, hc, hg⟩

/-! ## The faults of an expansion -/

/-- An expansion only fails for a file that cannot be read or for one that is on the chain. -/
theorem resolveFile_error [Matcher] {e : Fault} (h : (resolveFile s d v p).result = .error e) :
    (∃ q why, e = .fileNotFound q why) ∨ ∃ q ch, e = .circularInclude q ch := by
  -- By induction on the chain, which grows with each file that is read.
  induction v using Chain.extend_induction d generalizing p with
  | h v ih =>
    cases hp : d.absolute p with
    | error why =>
      rw [resolveFile_eq, resolveStep, hp] at h
      cases h
      exact .inl ⟨p, why, rfl⟩
    | ok f =>
      have hf := Disk.absolute_canonical hp
      rw [resolveFile_of_absolute hp] at h
      cases hv : v.has f with
      | true =>
        rw [resolveFile_of_has hf hv] at h
        cases h
        exact .inr ⟨f, _, rfl⟩
      | false =>
        cases ht : d.readText f with
        | error why =>
          rw [resolveFile_of_unreadable hf hv ht] at h
          cases h
          exact .inl ⟨f, why, rfl⟩
        | ok t =>
          rw [resolveFile_of_readable hf hv ht] at h
          obtain ⟨c, -, hc⟩ := expandBody_error h
          exact ih f t hv ht hc

/-- Where all files that are reached can be read, an expansion only fails for one that is on the
chain. -/
theorem circular_of_readable [Matcher] {e : Fault} (hf : f.Canonical)
    (hr : ∀ g, Reaches s d f g → d.Readable g)
    (h : (resolveFile s d v f).result = .error e) : ∃ q ch, e = .circularInclude q ch := by
  induction v using Chain.extend_induction d generalizing f with
  | h v ih =>
    obtain ⟨t, ht⟩ := hr f .refl
    cases hv : v.has f with
    | true =>
      rw [resolveFile_of_has hf hv] at h
      cases h
      exact ⟨f, _, rfl⟩
    | false =>
      rw [resolveFile_of_readable hf hv ht] at h
      obtain ⟨c, hc, he⟩ := expandBody_error h
      have hcanonical := canonical_of_mem_children (canonical_folderOf hf) hc
      exact ih f t hv ht hcanonical ((forall_reaches_iff ht).1 hr |>.2 c hc) he

end Expansion

/-! ## How deep an expansion nests -/

/-- The locations of the regular files of a tree. -/
def Tree.files (t : Tree) : List Location :=
  (t.entries.map Prod.fst).dedup.filter fun l =>
    match t.at? l with
    | some (.file _) => true
    | _ => false

theorem Tree.mem_files {t : Tree} {l : Location} {bytes : ByteArray}
    (h : t.at? l = some (.file bytes)) : l ∈ t.files := by
  rw [files, List.mem_filter, h, List.mem_dedup]
  refine ⟨?_, rfl⟩
  have hl : l ≠ [] := by
    rintro rfl
    cases h
  exact List.mem_map_of_mem (mem_entries hl h)

/-- How many files of a tree are not on the way. -/
def Chain.remaining (t : Tree) (v : Chain) : Nat :=
  (t.files.filter fun l => !v.has (Disk.pathOf l)).length

theorem Chain.remaining_le (t : Tree) (v : Chain) : v.remaining t ≤ t.files.length :=
  List.length_filter_le _ _

/-- A file that can be read leaves fewer files when it is taken. -/
theorem Chain.remaining_cons_lt {d : Disk} (hd : d.tree.LinkFree) {v : Chain} {f : Path} {t : Text}
    (hf : f.Canonical) (hv : v.has f = false) (ht : d.readText f = .ok t) :
    Chain.remaining d.tree (f :: v) < v.remaining d.tree := by
  obtain ⟨l, hl, rfl⟩ := hf
  obtain ⟨bytes, hbytes, -⟩ := Disk.at?_of_readText hd hl ht
  have hmem : l ∈ d.tree.files := Tree.mem_files hbytes
  refine Chain.length_filter_lt (fun x hx => ?_) hmem (by simp [hv]) ?_
  · rw [Expansion.has_cons, Bool.not_or, Bool.and_eq_true] at hx
    exact hx.2
  · rw [Expansion.has_cons, Expansion.same_self]
    rfl

namespace Expansion

/-- An expansion nests no deeper than there are files that are not on the way: what is answered
below that does not matter. -/
theorem iterate_resolveStep [Matcher] {s : StarterSettings} {d : Disk} (hd : d.tree.LinkFree)
    (deeper : Chain → Path → Recorded Text) {n : Nat} {v : Chain} (h : v.remaining d.tree < n)
    (p : Path) : (resolveStep s d)^[n] deeper v p = resolveFile s d v p := by
  induction n generalizing v p with
  | zero => omega
  | succ n ih =>
    rw [Function.iterate_succ_apply', resolveFile_eq]
    cases hp : d.absolute p with
    | error why => rw [resolveStep, resolveStep, hp]
    | ok f =>
      cases hv : v.has f with
      | true => simp only [resolveStep, hp, hv, if_true]
      | false =>
        cases ht : d.readText f with
        | error why => simp only [resolveStep, hp, hv, ht, Bool.false_eq_true, if_false]
        | ok t =>
          have hlt := Chain.remaining_cons_lt hd (Disk.absolute_canonical hp) hv ht
          have hbelow : (resolveStep s d)^[n] deeper (f :: v) = resolveFile s d (f :: v) :=
            funext fun q => ih (by omega) q
          simp only [resolveStep, hp, hv, ht, Bool.false_eq_true, if_false, hbelow]

/-- In a tree without links, an expansion nests at most one deeper than there are files. It ends well
exactly when each file that it reaches can be read, does not include itself on some way, and is not
on the chain already. Otherwise a file cannot be read or is on the chain, and it is the latter where
all files can be read. -/
theorem resolveFile_outcome [Matcher] (s : StarterSettings) (d : Disk) (hd : d.tree.LinkFree)
    (v : Chain) (p : Path) :
    (∀ deeper : Chain → Path → Recorded Text,
      (resolveStep s d)^[d.tree.files.length + 1] deeper v p = resolveFile s d v p) ∧
    ((∃ t, (resolveFile s d v p).result = .ok t) ↔
      ∃ f, d.absolute p = .ok f ∧ ∀ g, Reaches s d f g →
        d.Readable g ∧ ¬ TransGen (Includes s d) g g ∧ v.has g = false) ∧
    (∀ e, (resolveFile s d v p).result = .error e →
      (∃ q why, e = .fileNotFound q why) ∨ ∃ q ch, e = .circularInclude q ch) ∧
    (∀ f e, d.absolute p = .ok f → (∀ g, Reaches s d f g → d.Readable g) →
      (resolveFile s d v p).result = .error e → ∃ q ch, e = .circularInclude q ch) := by
  refine ⟨?_, ?_, fun e => resolveFile_error, ?_⟩
  · intro deeper
    exact iterate_resolveStep hd deeper (Nat.lt_succ_of_le (v.remaining_le d.tree)) p
  · cases hp : d.absolute p with
    | error why =>
      rw [resolveFile_eq, resolveStep, hp]
      constructor
      · rintro ⟨t, ht⟩
        cases ht
      · rintro ⟨f, hf, -⟩
        cases hf
    | ok f =>
      rw [resolveFile_of_absolute hp, ok_iff_of_canonical (Disk.absolute_canonical hp)]
      constructor
      · exact fun h => ⟨f, rfl, h⟩
      · rintro ⟨f', hf', h⟩
        cases hf'
        exact h
  · intro f e hp hr h
    rw [resolveFile_of_absolute hp] at h
    exact circular_of_readable (Disk.absolute_canonical hp) hr h

def loopSite : Disk := ⟨⟨[(["a".toList], .file "@@include('a')".toUTF8)]⟩, []⟩

theorem loopSite_includes : Includes {} loopSite ⟨"/a".toList⟩ ⟨"/a".toList⟩ :=
  ⟨"@@include('a')".toList, by rfl, by decide⟩

section

attribute [local instance] Matcher.unlimited

theorem resolveFile_outcome_of_loop :
    loopSite.tree.LinkFree ∧
    (∀ deeper : Chain → Path → Recorded Text,
      (resolveStep {} loopSite)^[2] deeper [] ⟨"/a".toList⟩
        = resolveFile {} loopSite [] ⟨"/a".toList⟩) ∧
    ¬ ∃ t, (resolveFile {} loopSite [] ⟨"/a".toList⟩).result = .ok t := by
  have hd : loopSite.tree.LinkFree := Tree.linkFree_of_entries (by simp [loopSite])
  have h := resolveFile_outcome {} loopSite hd [] ⟨"/a".toList⟩
  refine ⟨hd, h.1, ?_⟩
  intro hok
  obtain ⟨f, hf, hg⟩ := h.2.1.1 hok
  have habs : loopSite.absolute ⟨"/a".toList⟩ = .ok ⟨"/a".toList⟩ := by rfl
  rw [habs] at hf
  cases hf
  exact (hg _ .refl).2.1 (.single loopSite_includes)

end

end Expansion

end Pagefold
