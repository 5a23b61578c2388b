import Mathlib.Data.List.Induction
import Mathlib.Logic.Relation
import Pagefold.Proofs.Disk.Reach

/-!
# Disks that grow

Whatever makes something on a disk does so by putting entries where nothing is, one by one, and by
giving files other bytes. What such a growth leaves as it was is said here, for every growth.

* `Tree.WellFormed`, `Disk.WellFormed`: entries have names and lie in folders, and so does the place
  where relative paths start;
* `Disk.Adds`, `Disk.Grows`: one entry put, and any number of them, where `Q` says which ones;
* `Disk.Grows.tree_extends`, `Disk.Grows.wellFormed`, `Disk.Grows.at?_eq_or`: what is known afterwards.
-/

namespace Pagefold

namespace Tree

/-- Each entry of a tree has names that a path can have, and lies in a folder. -/
structure WellFormed (t : Tree) : Prop where
  names : ∀ l e, t.at? l = some e → ∀ n ∈ l, IsName n
  parents : ∀ l n e, t.at? (l ++ [n]) = some e → t.at? l = some .folder

variable {t : Tree} {l m : Location}

theorem wellFormed_of_entries (h : ∀ x ∈ t.entries, (∀ n ∈ x.1, IsName n) ∧
    t.at? x.1.dropLast = some .folder) : t.WellFormed where
  names l e hl n hn := by
    have hne : l ≠ [] := by
      rintro rfl
      cases hn
    exact (h _ (mem_entries hne hl)).1 n hn
  parents l n e hl := by
    have hparent := (h _ (mem_entries (by simp) hl)).2
    rwa [List.dropLast_concat] at hparent

theorem child_not_above (l : Location) (n : Text) : ¬ l ++ [n] <+: l := by
  intro h
  have hlength := h.length_le
  rw [List.length_append, List.length_singleton] at hlength
  omega

/-- What is above an entry is a folder. -/
theorem WellFormed.folder_above (ht : t.WellFormed) {e : Entry} (hm : t.at? m = some e)
    (hlm : l <+: m) (hne : l ≠ m) : t.at? l = some .folder := by
  obtain ⟨r, rfl⟩ := hlm
  induction r using List.reverseRecOn generalizing e with
  | nil => simp at hne
  | append_singleton r n ih =>
    rw [← List.append_assoc] at hm
    have hparent := ht.parents (l ++ r) n e hm
    by_cases hr : l = l ++ r
    · rw [hr]
      exact hparent
    · exact ih hparent hr

theorem WellFormed.folder_dropLast (ht : t.WellFormed) (hl : t.at? l = some .folder) :
    t.at? l.dropLast = some .folder := by
  rcases List.eq_nil_or_concat l with rfl | ⟨m, n, rfl⟩
  · exact hl
  · rw [List.concat_eq_append] at hl ⊢
    rw [List.dropLast_concat]
    exact ht.parents m n _ hl

theorem WellFormed.none_below (ht : t.WellFormed) (hl : t.at? l = none) (hlm : l <+: m) :
    t.at? m = none := by
  by_contra hm
  obtain ⟨e, he⟩ := Option.ne_none_iff_exists'.1 hm
  by_cases hne : l = m
  · rw [hne] at hl
    exact hm hl
  · have := ht.folder_above he hlm hne
    rw [hl] at this
    cases this

theorem at?_put_of_ne_nil {e : Entry} (hl : l ≠ []) :
    (t.put l e).at? m = if m = l then some e else t.at? m := by
  by_cases hm : m = []
  · subst hm
    rw [if_neg (Ne.symm hl)]
    rfl
  · exact at?_put hm

/-- An entry can be put in a folder, in the place of anything but a folder. -/
theorem WellFormed.put (ht : t.WellFormed) (hn : ∀ n ∈ l, IsName n) (hl : l ≠ [])
    (hparent : t.at? l.dropLast = some .folder) (hplace : t.at? l ≠ some .folder) (e : Entry) :
    (t.put l e).WellFormed where
  names m e' hm := by
    rw [at?_put_of_ne_nil hl] at hm
    split at hm
    · next heq => exact heq ▸ hn
    · exact ht.names m e' hm
  parents m n e' hm := by
    have hfolder : t.at? m = some .folder := by
      rw [at?_put_of_ne_nil hl] at hm
      split at hm
      · next heq => rwa [← heq, List.dropLast_concat] at hparent
      · exact ht.parents m n e' hm
    have hne : m ≠ l := by
      rintro rfl
      exact hplace hfolder
    rw [at?_put_of_ne_nil hl, if_neg hne, hfolder]

end Tree

namespace Disk

variable {Q : Location → Entry → Prop} {d d' : Disk} {l : Location}

/-- Relative paths start in a folder. -/
structure WellFormed (d : Disk) : Prop where
  tree : d.tree.WellFormed
  here : d.tree.at? d.here = some .folder

/-- One entry is put on a disk: a file or a folder where nothing was, or a file with other bytes. -/
inductive Adds (Q : Location → Entry → Prop) (d : Disk) : Disk → Prop
  | fresh {l n e} : d.tree.at? l = some .folder → IsName n → d.tree.at? (l ++ [n]) = none →
      (∀ q, e ≠ .link q) → Q (l ++ [n]) e → Adds Q d (d.put (l ++ [n]) e)
  | rewritten {l bytes bytes'} : d.tree.at? l = some (.file bytes) → Q l (.file bytes') →
      Adds Q d (d.put l (.file bytes'))

/-- Entries are put on a disk, one after the other. -/
def Grows (Q : Location → Entry → Prop) : Disk → Disk → Prop := Relation.ReflTransGen (Adds Q)

theorem ne_nil_of_file {bytes : ByteArray} (h : d.tree.at? l = some (.file bytes)) : l ≠ [] := by
  rintro rfl
  cases h

/-! ## One entry -/

namespace Adds

theorem here_eq (h : Adds Q d d') : d'.here = d.here := by
  cases h <;> rfl

theorem at?_eq_or (h : Adds Q d d') (l : Location) :
    d'.tree.at? l = d.tree.at? l ∨ ∃ e, d'.tree.at? l = some e ∧ Q l e ∧ (∀ q, e ≠ .link q) ∧
      (d.tree.at? l = none ∨
        ∃ bytes bytes', d.tree.at? l = some (.file bytes) ∧ e = .file bytes') := by
  cases h with
  | @fresh m n e hm hn hfree he hQ =>
    by_cases hl : l = m ++ [n]
    · subst hl
      refine .inr ⟨e, ?_, hQ, he, .inl hfree⟩
      rw [put, Tree.at?_put_of_ne_nil (by simp), if_pos rfl]
    · left
      rw [put, Tree.at?_put_of_ne_nil (by simp), if_neg hl]
  | @rewritten m bytes bytes' hm hQ =>
    by_cases hl : l = m
    · subst hl
      refine .inr ⟨.file bytes', ?_, hQ, by simp, .inr ⟨bytes, bytes', hm, rfl⟩⟩
      rw [put, Tree.at?_put_of_ne_nil (ne_nil_of_file hm), if_pos rfl]
    · left
      rw [put, Tree.at?_put_of_ne_nil (ne_nil_of_file hm), if_neg hl]

theorem tree_extends (h : Adds Q d d') : d.tree.Extends d'.tree where
  folder l hl := by
    rcases h.at?_eq_or l with hsame | ⟨e, -, -, -, hnone | ⟨bytes, bytes', hfile, -⟩⟩
    · rw [hsame, hl]
    · simp [hl] at hnone
    · simp [hl] at hfile
  link l q hl := by
    rcases h.at?_eq_or l with hsame | ⟨e, -, -, -, hnone | ⟨bytes, bytes', hfile, -⟩⟩
    · rw [hsame, hl]
    · simp [hl] at hnone
    · simp [hl] at hfile
  file l bytes hl := by
    rcases h.at?_eq_or l with hsame | ⟨e, he, -, -, hnone | ⟨bytes', bytes'', -, rfl⟩⟩
    · exact ⟨bytes, by rw [hsame, hl]⟩
    · simp [hl] at hnone
    · exact ⟨bytes'', he⟩

theorem wellFormed (h : Adds Q d d') (hd : d.tree.WellFormed) : d'.tree.WellFormed := by
  cases h with
  | @fresh m n e hm hn hfree he hQ =>
    refine hd.put (fun n' hn' => ?_) (by simp) ?_ (by simp [hfree]) e
    · rcases List.mem_append.1 hn' with hmem | hmem
      · exact hd.names m _ hm n' hmem
      · rw [List.mem_singleton.1 hmem]
        exact hn
    · rw [List.dropLast_concat, hm]
  | @rewritten m bytes bytes' hm hQ =>
    have hne := ne_nil_of_file hm
    refine hd.put (hd.names m _ hm) hne ?_ (by simp [hm]) _
    obtain ⟨k, n, rfl⟩ := (List.eq_nil_or_concat m).resolve_left hne
    rw [List.concat_eq_append] at hm ⊢
    rw [List.dropLast_concat]
    exact hd.parents k n _ hm

end Adds

/-! ## Any number of entries -/

namespace Grows

theorem refl (d : Disk) : Grows Q d d := Relation.ReflTransGen.refl

theorem of_adds (h : Adds Q d d') : Grows Q d d' := Relation.ReflTransGen.single h

theorem trans {d'' : Disk} (h : Grows Q d d') (h' : Grows Q d' d'') : Grows Q d d'' :=
  Relation.ReflTransGen.trans h h'

theorem imp {Q' : Location → Entry → Prop} (hQ : ∀ l e, Q l e → Q' l e) (h : Grows Q d d') :
    Grows Q' d d' := by
  refine Relation.ReflTransGen.mono (fun x y hxy => ?_) _ _ h
  cases hxy with
  | fresh hl hn hfree he hx => exact .fresh hl hn hfree he (hQ _ _ hx)
  | rewritten hl hx => exact .rewritten hl (hQ _ _ hx)

theorem here_eq (h : Grows Q d d') : d'.here = d.here := by
  induction h with
  | refl => rfl
  | tail _ hstep ih => exact hstep.here_eq.trans ih

theorem start_eq (h : Grows Q d d') (p : Path) : d'.start p = d.start p := by
  rw [start, start, h.here_eq]

theorem tree_extends (h : Grows Q d d') : d.tree.Extends d'.tree := by
  induction h with
  | refl => exact .refl _
  | tail _ hstep ih => exact ih.trans hstep.tree_extends

theorem wellFormed (h : Grows Q d d') (hd : d.tree.WellFormed) : d'.tree.WellFormed := by
  induction h with
  | refl => exact hd
  | tail _ hstep ih => exact hstep.wellFormed ih

theorem at?_eq_or (h : Grows Q d d') (l : Location) :
    d'.tree.at? l = d.tree.at? l ∨ ∃ e, d'.tree.at? l = some e ∧ Q l e ∧ (∀ q, e ≠ .link q) ∧
      (d.tree.at? l = none ∨
        ∃ bytes bytes', d.tree.at? l = some (.file bytes) ∧ e = .file bytes') := by
  induction h with
  | refl => exact .inl rfl
  | @tail x y hx hstep ih =>
    rcases hstep.at?_eq_or l with hsame | ⟨e, he, hQ, hlink, hbefore⟩
    · rw [hsame]
      exact ih
    · refine .inr ⟨e, he, hQ, hlink, ?_⟩
      rcases hbefore with hnone | ⟨bytes, bytes', hfile, rfl⟩
      · exact .inl ((tree_extends hx).none_of_none hnone)
      · rcases ih with hsame | ⟨e', he', -, -, hnone | ⟨bytes₁, -, hfile₁, -⟩⟩
        · exact .inr ⟨bytes, bytes', hsame ▸ hfile, rfl⟩
        · exact .inl hnone
        · exact .inr ⟨bytes₁, bytes', hfile₁, rfl⟩

theorem at?_eq (h : Grows Q d d') (hl : ∀ e, ¬ Q l e) : d'.tree.at? l = d.tree.at? l := by
  rcases h.at?_eq_or l with hsame | ⟨e, -, hQ, -⟩
  · exact hsame
  · exact absurd hQ (hl e)

theorem keeps (h : Grows Q d d') {e : Entry} (hl : d.tree.at? l = some e)
    (hQ : ∀ bytes, ¬ Q l (.file bytes)) : d'.tree.at? l = some e := by
  rcases h.at?_eq_or l with hsame | ⟨e', -, hQ', -, hnone | ⟨bytes, bytes', -, rfl⟩⟩
  · rw [hsame, hl]
  · rw [hnone] at hl
    cases hl
  · exact absurd hQ' (hQ bytes')

theorem link_before (h : Grows Q d d') {q : Path} (hl : d'.tree.at? l = some (.link q)) :
    d.tree.at? l = some (.link q) := by
  rcases h.at?_eq_or l with hsame | ⟨e, he, -, hlink, -⟩
  · rw [← hsame, hl]
  · rw [he] at hl
    exact absurd (Option.some.inj hl) (hlink q)

theorem linkFree (h : Grows Q d d') (hd : d.tree.LinkFree) : d'.tree.LinkFree :=
  fun l q hl => hd l q (h.link_before hl)

end Grows

end Disk

end Pagefold
