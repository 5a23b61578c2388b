import Mathlib.Data.List.Infix
import Pagefold.Proofs.Text.First
import Pagefold.Proofs.Text.Matches

/-!
# In how many places a text stands

A text with no ending that is a beginning of it cannot overlap with itself, so it stands in as many
places as it is found. A text whose first character does not come again in it is one, and its places
in two texts remain when these are put together.

* `Text.places`: in how many places of a text another one stands;
* `Text.Unbordered`: a text that cannot overlap with itself;
* `Text.barren_of_places_le`, `Text.length_hits_literal`: what is searched for starts in its places
  only, and it is found in all of them;
* `Text.places_append_le`, `Text.places_cut`: texts put together, and a text cut in two;
* `Pattern.Spares`, `Pattern.Spares.places_le`: a replacement that takes no place away.
-/

namespace Pagefold

namespace Text

/-- In how many places of a text `needle` stands, if it is not empty. -/
def places (needle : Text) : Text → Nat
  | [] => 0
  | c :: t => (if needle <+: c :: t then 1 else 0) + places needle t

variable {needle s t m r : Text} {c : Char}

@[simp] theorem places_nil : places needle [] = 0 := rfl

theorem places_cons_of_pos (h : needle <+: c :: t) :
    places needle (c :: t) = places needle t + 1 := by
  rw [places, if_pos h, Nat.add_comm]

theorem places_cons_of_neg (h : ¬ needle <+: c :: t) :
    places needle (c :: t) = places needle t := by
  rw [places, if_neg h, Nat.zero_add]

theorem places_le_cons (needle : Text) (c : Char) (t : Text) :
    places needle t ≤ places needle (c :: t) := by
  rw [places]
  omega

theorem places_le_append (needle s t : Text) : places needle t ≤ places needle (s ++ t) := by
  induction s with
  | nil => exact Nat.le_refl _
  | cons c s ih => exact Nat.le_trans ih (places_le_cons needle c (s ++ t))

theorem places_append_le (needle s t : Text) :
    places needle s + places needle t ≤ places needle (s ++ t) := by
  induction s with
  | nil => simp
  | cons c s ih =>
    by_cases h : needle <+: c :: s
    · have happend : needle <+: c :: (s ++ t) := h.trans (List.prefix_append (c :: s) t)
      rw [List.cons_append, places_cons_of_pos h, places_cons_of_pos happend]
      omega
    · rw [List.cons_append, places_cons_of_neg h]
      exact Nat.le_trans ih (places_le_cons needle c (s ++ t))

theorem places_lt (hne : needle ≠ []) (t : Text) :
    places needle t < places needle (needle ++ t) := by
  obtain ⟨c, u, rfl⟩ := List.exists_cons_of_ne_nil hne
  have hprefix : c :: u <+: c :: (u ++ t) := List.prefix_append (c :: u) t
  rw [List.cons_append, places_cons_of_pos hprefix]
  exact Nat.lt_succ_of_le (places_le_append (c :: u) u t)

theorem places_eq_zero_iff (hne : needle ≠ []) : places needle t = 0 ↔ ¬ needle <:+: t := by
  constructor
  · rintro h ⟨s, r, rfl⟩
    have hpos := places_lt hne r
    have hle := places_le_append needle s (needle ++ r)
    rw [← List.append_assoc, h] at hle
    omega
  · intro h
    induction t with
    | nil => rfl
    | cons c t ih =>
      rw [List.infix_cons_iff, not_or] at h
      rw [places_cons_of_neg h.1, ih h.2]

/-- Where no place starts in a text, there are no more places with it in front. -/
theorem places_append_of_none (h : ∀ u, u ≠ [] → u <:+ s → ¬ needle <+: u ++ t) :
    places needle (s ++ t) = places needle t := by
  induction s with
  | nil => rfl
  | cons c s ih =>
    have hfirst : ¬ needle <+: c :: (s ++ t) :=
      h (c :: s) (List.cons_ne_nil c s) (List.suffix_refl _)
    have hrest := ih fun u hne hu => h u hne (hu.trans (List.suffix_cons c s))
    rw [List.cons_append, places_cons_of_neg hfirst, hrest]

theorem places_append_of_not_mem (hs : c ∉ s) (t : Text) :
    places (c :: m) (s ++ t) = places (c :: m) t := by
  refine places_append_of_none fun u hne hu hpre => ?_
  obtain ⟨d, u, rfl⟩ := List.exists_cons_of_ne_nil hne
  obtain rfl := (List.cons_prefix_cons.1 hpre).1
  exact hs (hu.subset List.mem_cons_self)

/-! ## Texts that do not overlap with themselves -/

/-- No ending of a text is a beginning of it, but for all of it. -/
def Unbordered (needle : Text) : Prop := ∀ u, u ≠ [] → u <:+ needle → u <+: needle → u = needle

theorem unbordered_of_not_mem (hc : c ∉ m) : Unbordered (c :: m) := by
  intro u hne hu hpre
  rcases List.suffix_cons_iff.1 hu with heq | hm
  · exact heq
  · obtain ⟨d, u, rfl⟩ := List.exists_cons_of_ne_nil hne
    obtain rfl := (List.cons_prefix_cons.1 hpre).1
    exact absurd (hm.subset List.mem_cons_self) hc

/-- Such a text that is put in front stands there, and in no other place that was not there. -/
theorem Unbordered.places_append (h : Unbordered needle) (hne : needle ≠ []) (t : Text) :
    places needle (needle ++ t) = places needle t + 1 := by
  obtain ⟨c, m, rfl⟩ := List.exists_cons_of_ne_nil hne
  have hprefix : c :: m <+: c :: (m ++ t) := List.prefix_append (c :: m) t
  rw [List.cons_append, places_cons_of_pos hprefix, places_append_of_none]
  intro u hu0 hu hpre
  have hsuffix : u <:+ c :: m := hu.trans (List.suffix_cons c m)
  have hu' : u <+: c :: m :=
    List.prefix_of_prefix_length_le (List.prefix_append u t) hpre hsuffix.length_le
  have hlength := hu.length_le
  rw [h u hu0 hsuffix hu', List.length_cons] at hlength
  omega

/-! ## Literal texts -/

theorem literal_read?_append (hne : needle ≠ []) (t : Text) :
    (Pattern.literal needle).read? (needle ++ t) = some ((), t) := by
  change Pattern.literal? needle (needle ++ t) = _
  rw [Pattern.literal?, if_neg hne, dropPrefix?_self_append]
  rfl

theorem text_eq_of_literal_read? {u : Unit} (h : (Pattern.literal needle).read? t = some (u, r)) :
    t = needle ++ r := by
  change Pattern.literal? needle t = _ at h
  unfold Pattern.literal? at h
  split at h
  · cases h
  · obtain ⟨r', hr', heq⟩ := Option.map_eq_some_iff.1 h
    cases heq
    exact dropPrefix?_eq_some_iff.1 hr'

theorem literal_read?_eq_none (h : ¬ needle <+: t) : (Pattern.literal needle).read? t = none := by
  rw [Option.eq_none_iff_forall_ne_some]
  rintro ⟨u, r⟩ hr
  exact h ⟨r, (text_eq_of_literal_read? hr).symm⟩

/-- Where a text stands in no place more for what is put in front, none starts there. -/
theorem barren_of_places_le (h : places needle (s ++ t) ≤ places needle t) :
    (Pattern.literal needle).Barren s t := by
  induction s with
  | nil => exact Pattern.barren_nil
  | cons c s ih =>
    have hrest := places_le_append needle s t
    have hfirst := places_le_cons needle c (s ++ t)
    rw [List.cons_append] at h
    refine Pattern.barren_cons.2 ⟨literal_read?_eq_none fun hpre => ?_, ih (by omega)⟩
    rw [places_cons_of_pos hpre] at h
    omega

/-- What is found in a text is found in all its places. -/
theorem length_hits_literal (h : Unbordered needle) (hne : needle ≠ []) (t : Text) :
    ((Pattern.literal needle).hits t).length = places needle t := by
  induction t using (Pattern.literal needle).read_induction with
  | nil => rfl
  | plain d t hr ih =>
    rw [Pattern.hits_of_none _ hr, ih, places_cons_of_neg]
    rintro ⟨r, hr'⟩
    rw [← hr', literal_read?_append hne] at hr
    cases hr
  | hit t u r hr ih =>
    -- The search goes on behind what it found, where it could only miss a place that starts in it.
    rw [Pattern.hits_of_some _ hr, List.length_cons, ih, text_eq_of_literal_read? hr,
      h.places_append hne]

/-- A text that is cut before the character where places start keeps them. -/
theorem places_cut (hc : c ∉ m) (s t : Text) :
    places (c :: m) (s ++ c :: t) = places (c :: m) s + places (c :: m) (c :: t) := by
  induction s with
  | nil => simp
  | cons d s ih =>
    -- A place that starts in front of the cut does not reach it.
    have hiff : c :: m <+: d :: (s ++ c :: t) ↔ c :: m <+: d :: s := by
      refine ⟨fun h => ?_, fun h => h.trans (List.prefix_append (d :: s) (c :: t))⟩
      obtain ⟨rfl, hm⟩ := List.cons_prefix_cons.1 h
      have hcut : s ++ [c] <+: s ++ c :: t := ⟨t, by simp⟩
      rcases List.prefix_or_prefix_of_prefix hm hcut with hle | hle
      · rcases List.prefix_concat_iff.1 hle with rfl | hle
        · exact absurd (by simp) hc
        · exact List.cons_prefix_cons.2 ⟨rfl, hle⟩
      · exact absurd (hle.subset (by simp)) hc
    rw [List.cons_append, places, places, ih]
    simp only [hiff]
    omega

end Text

namespace Pattern

open Text

variable {α : Type} {p : Pattern α} {f : α → Text} {c : Char} {m : Text}

/-- No match takes a part of the text `c :: m`: none has the character `c` in it, and none starts in
`m`. -/
structure Spares (p : Pattern α) (c : Char) (m : Text) : Prop where
  not_mem : ∀ s v r, p.read? (s ++ r) = some (v, r) → c ∉ s
  barren : ∀ r, p.Barren m r

/-- Matches start with some keywords of which none starts in `m`. -/
theorem Spares.of_keywords (kws : List Text)
    (hkws : ∀ kw ∈ kws, ∀ u ∈ m.tails, u ≠ [] → ¬ kw <+: u ∧ ¬ u <+: kw)
    (h : ∀ s v r, p.read? (s ++ r) = some (v, r) → c ∉ s ∧ ∃ kw ∈ kws, kw <+: s) :
    p.Spares c m where
  not_mem s v r hr := (h s v r hr).1
  barren r u hne hu := by
    cases hread : p.read? (u ++ r) with
    | none => rfl
    | some match' =>
      obtain ⟨v, r'⟩ := match'
      obtain ⟨s, -, hs⟩ := p.exists_source hread
      rw [hs] at hread
      obtain ⟨-, kw, hkw, hprefix⟩ := h s v r' hread
      have hkw' : kw <+: u ++ r := hs ▸ hprefix.trans (List.prefix_append s r')
      -- A keyword at this place would begin what is left of `m`, or run through all of it.
      obtain ⟨hshort, hlong⟩ := hkws kw hkw u ((List.mem_tails u m).2 hu) hne
      rcases List.prefix_or_prefix_of_prefix hkw' (List.prefix_append u r) with hle | hle
      · exact absurd hle hshort
      · exact absurd hle hlong

/-- A replacement of such matches takes no place away. -/
theorem Spares.places_le (h : p.Spares c m) (t : Text) :
    places (c :: m) t ≤ places (c :: m) (p.replace f t) := by
  induction t using p.read_induction with
  | nil => exact Nat.le_refl _
  | plain d t hr ih =>
    rw [p.replace_of_none hr]
    by_cases hplace : c :: m <+: d :: t
    · obtain ⟨rfl, r, rfl⟩ := List.cons_prefix_cons.1 hplace
      have hkept : c :: m <+: c :: p.replace f (m ++ r) := by
        rw [(h.barren r).replace]
        exact List.prefix_append (c :: m) (p.replace f r)
      rw [places_cons_of_pos hplace, places_cons_of_pos hkept]
      omega
    · rw [places_cons_of_neg hplace]
      exact Nat.le_trans ih (places_le_cons _ _ _)
  | hit t v r hr ih =>
    obtain ⟨s, -, rfl⟩ := p.exists_source hr
    rw [p.replace_of_some hr, places_append_of_not_mem (h.not_mem s v r hr)]
    exact Nat.le_trans ih (places_le_append _ _ _)

end Pattern

end Pagefold
