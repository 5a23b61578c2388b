import Pagefold.Proofs.Text.Leftmost

/-!
# Where matches stand

A search goes on behind each match, so it can miss what starts inside of one. Of a pattern whose
matches never start inside each other it finds every match.

* `Text.positions`: at how many positions of a text something stands;
* `Pattern.Avoids`, `Pattern.Avoids.stop_le`: no match of a pattern starts inside one of another;
* `Pattern.Solitary`: no match of a pattern starts inside another one;
* `Pattern.Solitary.length_hits`, `Pattern.Solitary.mem_located_iff`: of such a pattern a search finds
  the matches at all positions.
-/

namespace Pagefold

variable {P Q : Text → Prop} [DecidablePred P] [DecidablePred Q] {a t : Text} {c : Char}

namespace Text

/-- At how many positions of a text, its end among them, stands what `P` tells. -/
def positions (P : Text → Prop) [DecidablePred P] (t : Text) : Nat := t.tails.countP (P ·)

theorem positions_cons (P : Text → Prop) [DecidablePred P] (c : Char) (t : Text) :
    positions P (c :: t) = positions P t + if P (c :: t) then 1 else 0 := by
  simp only [positions, List.tails, List.countP_cons, decide_eq_true_eq]

theorem positions_congr (h : ∀ u, P u ↔ Q u) (t : Text) : positions P t = positions Q t := by
  simp only [positions, h]

end Text

namespace Pattern

open Text

variable {α : Type} {p : Pattern α}

/-- A match stands at the front of a text. -/
def Matches (p : Pattern α) (u : Text) : Prop := (p.read? u).isSome = true

instance (p : Pattern α) : DecidablePred p.Matches :=
  fun u => inferInstanceAs (Decidable ((p.read? u).isSome = true))

/-- No match of `q` starts inside a match of `p`. -/
def Avoids {β : Type} (q : Pattern β) (p : Pattern α) : Prop :=
  ∀ s v r, p.read? (s ++ r) = some (v, r) → q.Barren s.tail r

/-- No match starts inside another one. -/
def Solitary (p : Pattern α) : Prop := p.Avoids p

theorem solitary_of_start (hstart : ∀ d u, d ≠ c → p.read? (d :: u) = none)
    (h : ∀ s v r, p.read? (s ++ r) = some (v, r) → c ∉ s.tail) : p.Solitary :=
  fun s v r hr => barren_of_start hstart (h s v r hr) r

/-! ## Counts -/

theorem Barren.positions (h : p.Barren a t) :
    positions p.Matches (a ++ t) = positions p.Matches t := by
  induction a with
  | nil => rfl
  | cons c a ih =>
    obtain ⟨hc, ha⟩ := barren_cons.1 h
    have hnot : ¬ p.Matches (c :: (a ++ t)) := by simp [Matches, hc]
    rw [List.cons_append, positions_cons, if_neg hnot, Nat.add_zero, ih ha]

/-- A search finds a match at every position where one stands. -/
theorem Solitary.length_hits (h : p.Solitary) (t : Text) :
    (p.hits t).length = positions p.Matches t := by
  induction t using p.read_induction with
  | nil =>
    have hnot : ¬ p.Matches [] := by simp [Matches]
    simp [Text.positions, hnot]
  | plain c t hr ih =>
    have hnot : ¬ p.Matches (c :: t) := by simp [Matches, hr]
    rw [p.hits_of_none hr, ih, positions_cons, if_neg hnot, Nat.add_zero]
  | hit t v r hr ih =>
    obtain ⟨s, hs, rfl⟩ := p.exists_source hr
    obtain ⟨c, s, rfl⟩ := List.exists_cons_of_ne_nil hs
    have hmatch : p.Matches (c :: (s ++ r)) := by
      rw [List.cons_append] at hr
      simp [Matches, hr]
    -- Behind its first character, the match has no position of another one.
    have htail : p.Barren s r := h (c :: s) v r hr
    rw [p.hits_of_some hr, List.length_cons, ih, List.cons_append, positions_cons, if_pos hmatch,
      htail.positions]

/-! ## Matches in front of others -/

/-- What follows a match does not matter for it. -/
def Firm (p : Pattern α) : Prop :=
  ∀ s v r r', p.read? (s ++ r) = some (v, r) → p.read? (s ++ r') = some (v, r')

/-- In front of a match that none of its own runs into, a pattern reads what it reads alone. -/
theorem Avoids.cutBetween {β : Type} {q : Pattern β} (h : q.Avoids p) (hp : p.Firm)
    (ht : q.Matches t) (a : Text) : p.CutBetween a t := by
  intro x hne _
  cases hread : p.read? (x ++ t) with
  | none =>
    cases halone : p.read? x with
    | none => rfl
    | some m =>
      obtain ⟨s, -, rfl⟩ := p.exists_source halone
      rw [List.append_assoc, hp s m.1 m.2 (m.2 ++ t) halone] at hread
      cases hread
  | some m =>
    obtain ⟨v, w⟩ := m
    obtain ⟨s, -, hs⟩ := p.exists_source hread
    have hshort {z : Text} (hx : x = s ++ z) (hw : w = z ++ t) :
        some (v, w) = (p.read? x).map fun m => (m.1, m.2 ++ t) := by
      rw [hs] at hread
      rw [hx, hp s v w z hread, hw]
      rfl
    rcases List.append_eq_append_iff.1 hs with ⟨z, rfl, rfl⟩ | ⟨z, hx, hw⟩
    · by_cases hz : z = []
      · subst hz
        exact hshort (z := []) (by simp) (by simp)
      · -- The match would go on in the one that follows.
        obtain ⟨c, x, rfl⟩ := List.exists_cons_of_ne_nil hne
        rw [hs] at hread
        have hnone := h _ v w hread z hz ⟨x, rfl⟩
        rw [Matches, hnone] at ht
        cases ht
    · exact hshort hx hw

/-! ## Places -/

/-- A match that starts behind the start of another one starts behind its end. -/
theorem Avoids.stop_le {β : Type} {q : Pattern β} (h : q.Avoids p) {m : Nat × Nat × α}
    {k : Nat × Nat × β} (hm : StandsAt p.Reads t m) (hk : StandsAt q.Reads t k) (hlt : m.1 < k.1) :
    m.2.1 ≤ k.1 := by
  obtain ⟨a, s, r, rfl, hread, hstart, hstop⟩ := hm
  obtain ⟨b, u, w, ht, hread', hstart', -⟩ := hk
  by_contra hover
  obtain ⟨x, rfl⟩ : a <+: b :=
    prefix_of_byteSize_le (List.prefix_append a _) ⟨u ++ w, ht.symm⟩ (by omega)
  rw [byteSize_append] at hstart'
  rw [List.append_assoc] at ht
  have hrest : s ++ r = x ++ (u ++ w) := List.append_cancel_left ht
  obtain ⟨d, rfl⟩ : x <+: s :=
    prefix_of_byteSize_le ⟨u ++ w, hrest.symm⟩ (List.prefix_append s r) (by omega)
  rw [byteSize_append] at hstop
  have hx : x ≠ [] := by
    rintro rfl
    rw [byteSize_nil] at hstart'
    omega
  have hd : d ≠ [] := by
    rintro rfl
    rw [byteSize_nil] at hstop
    omega
  -- What is left of the first match is not its beginning, so nothing is read there.
  obtain ⟨c, x, rfl⟩ := List.exists_cons_of_ne_nil hx
  have hnone := h _ _ _ hread d hd ⟨x, rfl⟩
  rw [List.append_assoc] at hrest
  rw [List.append_cancel_left hrest, ← Option.not_isSome_iff_eq_none] at hnone
  exact hnone (Option.isSome_iff_exists.2 ⟨_, hread'⟩)

/-- A search finds every match that stands in a text. -/
theorem Solitary.mem_located_iff (h : p.Solitary) {m : Nat × Nat × α} :
    m ∈ p.located t ↔ StandsAt p.Reads t m := by
  have hfound := p.leftmost_located t
  refine ⟨hfound.stands m, fun hm => ?_⟩
  obtain ⟨k, hk, hle, hlt⟩ := hfound.covers m hm (Nat.zero_le _)
  have hsame : k.1 = m.1 := by
    by_contra hne
    have := h.stop_le (hfound.stands k hk) hm (by omega)
    omega
  rwa [← StandsAt.unique p.reads_unique (hfound.stands k hk) hm hsame]

end Pattern

end Pagefold
