import Pagefold.Proofs.Text.Leftmost

/-!
# Changes made at once

Changes of a text say between which bytes something else is to be put. They are all made in one pass,
which copies the other characters, and in which order they are listed does not matter.

* `Text.Change`, `Text.patch`: a change, and a text with several changes;
* `Text.patch_congr`: the same changes make the same text;
* `Pattern.patch_changes`: replacing the matches of a pattern is such a pass.
-/

namespace Pagefold

namespace Text

/-- A change of a text: what is put between two bytes of it. -/
structure Change where
  start : Nat
  stop : Nat
  new : Text

/-- The changes of a text that starts at byte `n`, when `skip` bytes of it are still to be passed. -/
def patchFrom (changes : List Change) : Nat → Nat → Text → Text
  | _, _, [] => []
  | n, skip, c :: t =>
    if 0 < skip then patchFrom changes (n + c.utf8Size) (skip - c.utf8Size) t
    else
      match changes.find? fun x => x.start == n with
      | some x => x.new ++ patchFrom changes (n + c.utf8Size) (x.stop - n - c.utf8Size) t
      | none => c :: patchFrom changes (n + c.utf8Size) 0 t

/-- A text with changes: wherever one starts, what it puts there is written and what it covers is
passed, and every other character is copied. -/
def patch (changes : List Change) (t : Text) : Text := patchFrom changes 0 0 t

variable {changes changes' : List Change} {s t : Text} {n : Nat}

/-! ## One change at a time -/

theorem patchFrom_skip (changes : List Change) (n : Nat) (s t : Text) :
    patchFrom changes n s.byteSize (s ++ t) = patchFrom changes (n + s.byteSize) 0 t := by
  induction s generalizing n with
  | nil => rfl
  | cons c s ih =>
    have hpos : 0 < byteSize (c :: s) := byteSize_pos (List.cons_ne_nil c s)
    rw [List.cons_append, patchFrom, if_pos hpos, byteSize_cons, Nat.add_sub_cancel_left, ih,
      Nat.add_assoc]

theorem patchFrom_congr (h : ∀ i, n ≤ i →
      (changes.find? fun x => x.start == i) = changes'.find? fun x => x.start == i) (skip : Nat) :
    patchFrom changes n skip t = patchFrom changes' n skip t := by
  induction t generalizing n skip with
  | nil => rfl
  | cons c t ih =>
    have hrest (skip : Nat) : patchFrom changes (n + c.utf8Size) skip t
        = patchFrom changes' (n + c.utf8Size) skip t :=
      ih (fun i hi => h i (Nat.le_of_add_right_le hi)) skip
    rw [patchFrom, patchFrom, h n (Nat.le_refl n)]
    simp only [hrest]

/-- A change that stands `k` bytes further on. -/
def Change.shift (k : Nat) (x : Change) : Change := ⟨k + x.start, k + x.stop, x.new⟩

theorem find?_shift (changes : List Change) (k n : Nat) :
    ((changes.map (Change.shift k)).find? fun x => x.start == k + n)
      = (changes.find? fun x => x.start == n).map (Change.shift k) := by
  rw [List.find?_map]
  congr 2
  funext x
  simp [Change.shift]

theorem patchFrom_shift (changes : List Change) (k n skip : Nat) (t : Text) :
    patchFrom (changes.map (Change.shift k)) (k + n) skip t = patchFrom changes n skip t := by
  induction t generalizing n skip with
  | nil => rfl
  | cons c t ih =>
    rw [patchFrom, patchFrom, find?_shift]
    simp only [Nat.add_assoc, ih]
    split
    · rfl
    · cases changes.find? fun x => x.start == n with
      | none => rfl
      | some x =>
        have hskip : (Change.shift k x).stop - (k + n) = x.stop - n := by
          simp only [Change.shift]
          omega
        simp only [Option.map_some, hskip]
        rfl

theorem find?_shift_of_lt (changes : List Change) {k : Nat} (h : n < k) :
    ((changes.map (Change.shift k)).find? fun x => x.start == n) = none := by
  rw [List.find?_eq_none]
  intro x hx
  obtain ⟨y, -, rfl⟩ := List.mem_map.1 hx
  simp only [Change.shift, beq_iff_eq]
  omega

theorem patch_cons (changes : List Change) (c : Char) (t : Text) :
    patch (changes.map (Change.shift c.utf8Size)) (c :: t) = c :: patch changes t := by
  have hrest := patchFrom_shift changes c.utf8Size 0 0 t
  rw [Nat.add_zero] at hrest
  rw [patch, patchFrom, if_neg (Nat.lt_irrefl 0), find?_shift_of_lt changes (Char.utf8Size_pos c)]
  simp only [Nat.zero_add, hrest]
  rfl

/-- The change of a beginning is made, and then the changes of what follows. -/
theorem patch_append (changes : List Change) (hs : s ≠ []) (new t : Text) :
    patch (⟨0, s.byteSize, new⟩ :: changes.map (Change.shift s.byteSize)) (s ++ t)
      = new ++ patch changes t := by
  obtain ⟨c, u, rfl⟩ := List.exists_cons_of_ne_nil hs
  generalize hall : ⟨0, byteSize (c :: u), new⟩ :: changes.map (Change.shift (byteSize (c :: u))) = all
  have hfirst : (all.find? fun x => x.start == 0) = some ⟨0, byteSize (c :: u), new⟩ := by
    rw [← hall]
    rfl
  -- Behind the text that it covers, the first change plays no part.
  have hlater : ∀ i, byteSize (c :: u) + 0 ≤ i → (all.find? fun x => x.start == i)
      = (changes.map (Change.shift (byteSize (c :: u)))).find? fun x => x.start == i := by
    intro i hi
    have hpos := byteSize_pos hs
    rw [← hall, List.find?_cons_of_neg]
    simp only [beq_iff_eq]
    omega
  have hcovered : byteSize (c :: u) - 0 - c.utf8Size = byteSize u := by
    rw [byteSize_cons]
    omega
  calc patch all (c :: u ++ t)
      = new ++ patchFrom all (0 + c.utf8Size) (byteSize (c :: u) - 0 - c.utf8Size) (u ++ t) := by
        rw [patch, List.cons_append, patchFrom, if_neg (Nat.lt_irrefl 0), hfirst]
    _ = new ++ patchFrom all (byteSize (c :: u) + 0) 0 t := by
        rw [hcovered, patchFrom_skip, byteSize_cons, Nat.zero_add, Nat.add_zero]
    _ = new ++ patch changes t := by
        rw [patchFrom_congr hlater, patchFrom_shift, patch]

/-! ## Changes in any order -/

def Apart (changes : List Change) : Prop :=
  ∀ x ∈ changes, ∀ y ∈ changes, x.start = y.start → x = y

theorem Apart.find?_eq_some_iff (h : Apart changes) {x : Change} :
    (changes.find? fun x => x.start == n) = some x ↔ x ∈ changes ∧ x.start = n := by
  constructor
  · intro hx
    exact ⟨List.mem_of_find?_eq_some hx, by simpa using List.find?_some hx⟩
  · rintro ⟨hx, rfl⟩
    cases hy : changes.find? fun y => y.start == x.start with
    | none =>
      have := List.find?_eq_none.1 hy x hx
      simp at this
    | some y =>
      have hstart : y.start = x.start := by simpa using List.find?_some hy
      rw [h y (List.mem_of_find?_eq_some hy) x hx hstart]

/-- The same changes, in whatever order, make the same text. -/
theorem patch_congr (h : Apart changes) (hmem : ∀ x, x ∈ changes ↔ x ∈ changes') (t : Text) :
    patch changes t = patch changes' t := by
  have h' : Apart changes' := fun x hx y hy => h x ((hmem x).2 hx) y ((hmem y).2 hy)
  refine patchFrom_congr (fun i _ => ?_) 0
  ext x
  rw [h.find?_eq_some_iff, h'.find?_eq_some_iff, hmem]

end Text

namespace Pattern

open Text

variable {α : Type} (p : Pattern α) (f : α → Text)

/-- The changes that put `f v` in the place of every match of value `v`. -/
def changes (t : Text) : List Change := (p.located t).map fun m => ⟨m.1, m.2.1, f m.2.2⟩

variable {p} {r s t : Text} {c : Char} {v : α}

theorem changes_of_none (h : p.read? (c :: t) = none) :
    p.changes f (c :: t) = (p.changes f t).map (Change.shift c.utf8Size) := by
  rw [changes, changes, p.located_of_none h, List.map_map, List.map_map]
  rfl

theorem changes_of_some (h : p.read? (s ++ r) = some (v, r)) : p.changes f (s ++ r)
    = ⟨0, s.byteSize, f v⟩ :: (p.changes f r).map (Change.shift s.byteSize) := by
  rw [changes, changes, p.located_of_some h rfl, List.map_cons, List.map_map, List.map_map]
  rfl

theorem apart_changes (p : Pattern α) (f : α → Text) (t : Text) : Apart (p.changes f t) := by
  have hstands := (p.leftmost_located t).stands
  intro x hx y hy hstart
  obtain ⟨m, hm, rfl⟩ := List.mem_map.1 hx
  obtain ⟨k, hk, rfl⟩ := List.mem_map.1 hy
  rw [StandsAt.unique p.reads_unique (hstands m hm) (hstands k hk) hstart]

/-- Changing all matches in one pass is replacing them. -/
theorem patch_changes (p : Pattern α) (f : α → Text) (t : Text) :
    patch (p.changes f t) t = p.replace f t := by
  induction t using p.read_induction with
  | nil => rfl
  | plain c t hr ih => rw [changes_of_none f hr, patch_cons, p.replace_of_none hr, ih]
  | hit t v r hr ih =>
    obtain ⟨s, hs, rfl⟩ := p.exists_source hr
    rw [changes_of_some f hr, patch_append _ hs, p.replace_of_some hr, ih]

end Pattern

end Pagefold
