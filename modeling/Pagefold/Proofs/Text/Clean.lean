import Pagefold.Proofs.Text.Leftmost

/-!
# Clean cuts

A text is cut between two characters. The cut is clean if no match stands over it. Then the two
parts are read on their own, although reading may look as far ahead as it likes, if only the pattern
keeps to what it takes.

* `Pattern.CleanCut`: no match of the whole text starts before the cut and stops behind it;
* `Pattern.Contained`: a match does not depend on what follows it, and more text behind a match
  leaves some match in its place;
* `Pattern.CleanCut.pieces`, `Pattern.CleanCut.located`: the pieces of the whole are those of the
  parts, and the matches of the second part stand as many bytes further on.
-/

namespace Pagefold.Pattern

open Text

variable {α : Type} {p : Pattern α} {a b r : Text} {c : Char} {v : α}

/-- No match stands over the place between two texts. -/
def CleanCut (p : Pattern α) (a b : Text) : Prop :=
  ∀ m ∈ p.located (a ++ b), ¬ (m.1 < a.byteSize ∧ a.byteSize < m.2.1)

/-- What is read keeps to itself: a match that ends within a text is read off that text alone, and
where a match is read, some match is read in front of any text. -/
structure Contained (p : Pattern α) : Prop where
  cut : ∀ {a b r v}, p.read? (a ++ b) = some (v, r ++ b) → p.read? a = some (v, r)
  extend : ∀ {a} b, (p.read? a).isSome = true → (p.read? (a ++ b)).isSome = true

/-! ## Cuts further on -/

theorem CleanCut.of_none (h : p.CleanCut (c :: a) b) (hr : p.read? (c :: (a ++ b)) = none) :
    p.CleanCut a b := by
  intro m hm hover
  refine h (shift c.utf8Size m) ?_ ?_
  · rw [List.cons_append, p.located_of_none hr]
    exact List.mem_map_of_mem hm
  · rw [byteSize_cons]
    exact ⟨Nat.add_lt_add_left hover.1 _, Nat.add_lt_add_left hover.2 _⟩

theorem CleanCut.of_some {s : Text} (h : p.CleanCut (s ++ r) b)
    (hr : p.read? (s ++ (r ++ b)) = some (v, r ++ b)) : p.CleanCut r b := by
  intro m hm hover
  refine h (shift (byteSize s) m) ?_ ?_
  · rw [List.append_assoc, p.located_of_some hr rfl]
    exact List.mem_cons_of_mem _ (List.mem_map_of_mem hm)
  · rw [byteSize_append]
    exact ⟨Nat.add_lt_add_left hover.1 _, Nat.add_lt_add_left hover.2 _⟩

/-- A match at the front of the whole ends before a clean cut, so it is read off the first part. -/
theorem CleanCut.read? (h : p.CleanCut a b) (hp : p.Contained) (ha : a ≠ [])
    (hr : p.read? (a ++ b) = some (v, r)) : ∃ r', r = r' ++ b ∧ p.read? a = some (v, r') := by
  obtain ⟨s, -, hs⟩ := p.exists_source hr
  have hfirst : (0, byteSize s, v) ∈ p.located (a ++ b) := by
    rw [p.located_of_some hr hs]
    exact List.mem_cons_self
  have hstop : byteSize s ≤ a.byteSize :=
    Nat.le_of_not_lt fun hlt => h _ hfirst ⟨byteSize_pos ha, hlt⟩
  obtain ⟨r', rfl⟩ : s <+: a :=
    prefix_of_byteSize_le ⟨r, hs.symm⟩ (List.prefix_append a b) hstop
  rw [List.append_assoc] at hs
  obtain rfl := List.append_cancel_left hs
  exact ⟨r', rfl, hp.cut hr⟩

/-! ## The parts of a text -/

/-- The pieces of a text are the pieces of its parts. -/
theorem CleanCut.pieces (h : p.CleanCut a b) (hp : p.Contained) :
    p.pieces (a ++ b) = p.pieces a ++ p.pieces b := by
  induction a using p.read_induction with
  | nil => rfl
  | plain c a hr ih =>
    have hread : p.read? (c :: (a ++ b)) = none := by
      cases hread : p.read? (c :: (a ++ b)) with
      | none => rfl
      | some m =>
        obtain ⟨r, -, hsome⟩ := h.read? hp (List.cons_ne_nil c a) hread
        rw [hr] at hsome
        cases hsome
    rw [List.cons_append, p.pieces_of_none hread, p.pieces_of_none hr, ih (h.of_none hread),
      List.cons_append]
  | hit a v r hr ih =>
    have ha : a ≠ [] := by
      rintro rfl
      rw [p.read?_nil] at hr
      cases hr
    -- The match may look different in front of more text, but it cannot reach over the cut.
    obtain ⟨⟨w, u⟩, hread⟩ :=
      Option.isSome_iff_exists.1 (hp.extend b (Option.isSome_iff_exists.2 ⟨_, hr⟩))
    obtain ⟨r', rfl, hsame⟩ := h.read? hp ha hread
    rw [hr] at hsame
    cases hsame
    obtain ⟨s, -, rfl⟩ := p.exists_source hr
    rw [p.pieces_of_some hread (List.append_assoc s r b), p.pieces_of_some hr rfl,
      ih (h.of_some (by rwa [List.append_assoc] at hread)), List.cons_append]

theorem foldl_place_fst (ps : List (Piece α)) (n : Nat) (found : List (Nat × Nat × α)) :
    (ps.foldl place (n, found)).1 = n + byteSize (ps.flatMap Piece.source) := by
  induction ps generalizing n found with
  | nil => rfl
  | cons piece ps ih =>
    rw [List.foldl_cons, List.flatMap_cons, byteSize_append, ← Nat.add_assoc]
    cases piece with
    | plain c => exact ih _ _
    | hit s v => exact ih _ _

/-- The matches of a text are those of its parts, the later ones as many bytes further on as the
first part has. -/
theorem CleanCut.located (h : p.CleanCut a b) (hp : p.Contained) :
    p.located (a ++ b) = p.located a ++ (p.located b).map (shift a.byteSize) := by
  have hplace : ((p.pieces a).foldl place (0, [])).1 = a.byteSize := by
    rw [foldl_place_fst, p.flatMap_source_pieces, Nat.zero_add]
  have hsecond := foldl_place (p.pieces b) a.byteSize ((p.pieces a).foldl place (0, [])).2
  rw [← hplace] at hsecond ⊢
  rw [Pattern.located, Pattern.located, Pattern.located, h.pieces hp, List.foldl_append, hsecond,
    List.reverse_append, List.map_reverse]

end Pagefold.Pattern
