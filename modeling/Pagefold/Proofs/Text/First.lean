import Pagefold.Text

/-!
# First places

A text is searched for another one from left to right. Where it stands first is said without the
search: it stands there, and wherever else it stands is no further to the left.

* `Text.CutAt`: a text cut around the first place of another one;
* `Text.cut?_eq_some_iff`, `Text.cut?_eq_none_iff`: what the search finds is that place, and it
  finds nothing only where there is none;
* `Text.CutAt.unique`: there is one first place.
-/

namespace Pagefold.Text

variable {needle seen t before after before' after' : Text} {c : Char}

/-! ## The search, one character at a time -/

theorem cutFrom_eq (needle seen t : Text) :
    cutFrom needle seen t = (cut? needle t).map fun m => (seen.reverse ++ m.1, m.2) := by
  rw [cut?]
  induction t generalizing seen with
  | nil =>
    rw [cutFrom, cutFrom]
    split
    · simp
    · rfl
  | cons c t ih =>
    rw [cutFrom, cutFrom]
    split
    · simp
    · rw [ih, ih [c], Option.map_map]
      congr 1
      funext m
      simp

theorem cut?_nil (needle : Text) :
    cut? needle [] = if needle = [] then some ([], []) else none := rfl

theorem cut?_front (h : c :: t = needle ++ after) :
    cut? needle (c :: t) = some ([], after) := by
  rw [cut?, cutFrom, dropPrefix?_eq_some_iff.2 h]
  rfl

theorem cut?_further (h : ¬ needle <+: c :: t) :
    cut? needle (c :: t) = (cut? needle t).map fun m => (c :: m.1, m.2) := by
  rw [cut?, cutFrom, dropPrefix?_eq_none_iff.2 h]
  exact cutFrom_eq needle [c] t

/-! ## First places -/

/-- A text cut around the first place of another one: before that, it stands nowhere. -/
structure CutAt (needle t before after : Text) : Prop where
  text_eq : t = before ++ needle ++ after
  first : ∀ a b, t = a ++ needle ++ b → before <+: a

theorem CutAt.unique (h : CutAt needle t before after) (h' : CutAt needle t before' after') :
    before = before' ∧ after = after' := by
  have hle := h.first _ _ h'.text_eq
  have hge := h'.first _ _ h.text_eq
  obtain rfl := hle.eq_of_length_le hge.length_le
  exact ⟨rfl, List.append_cancel_left (h.text_eq.symm.trans h'.text_eq)⟩

theorem CutAt.infix (h : CutAt needle t before after) : needle <:+: t :=
  ⟨before, after, h.text_eq.symm⟩

theorem CutAt.front (needle after : Text) : CutAt needle (needle ++ after) [] after where
  text_eq := rfl
  first _ _ _ := List.nil_prefix

/-- In front of a place, a character matters only where the text stands right there. -/
theorem CutAt.cons_iff (h : ¬ needle <+: c :: t) :
    CutAt needle (c :: t) before after ↔
      ∃ rest, before = c :: rest ∧ CutAt needle t rest after := by
  constructor
  · rintro ⟨htext, hfirst⟩
    cases before with
    | nil => exact absurd ⟨after, htext.symm⟩ h
    | cons d rest =>
      obtain ⟨rfl, rfl⟩ := List.cons.inj htext
      refine ⟨rest, rfl, rfl, fun a b hab => ?_⟩
      have hlonger := hfirst (c :: a) b (congrArg (c :: ·) hab)
      exact (List.cons_prefix_cons.1 hlonger).2
  · rintro ⟨rest, rfl, rfl, hfirst⟩
    refine ⟨rfl, fun a b hab => ?_⟩
    cases a with
    | nil => exact absurd ⟨b, hab.symm⟩ h
    | cons d a =>
      obtain ⟨rfl, htail⟩ := List.cons.inj hab
      exact List.cons_prefix_cons.2 ⟨rfl, hfirst a b htail⟩

/-- A search finds the first place. -/
theorem cut?_eq_some_iff : cut? needle t = some (before, after) ↔ CutAt needle t before after := by
  induction t generalizing before after with
  | nil =>
    rw [cut?_nil]
    constructor
    · intro h
      split at h
      · next hnil =>
        cases h
        subst hnil
        exact CutAt.front [] []
      · cases h
    · intro h
      have htext := h.text_eq.symm
      simp only [List.append_eq_nil_iff] at htext
      obtain ⟨⟨rfl, rfl⟩, rfl⟩ := htext
      rfl
  | cons c t ih =>
    by_cases hpre : needle <+: c :: t
    · obtain ⟨rest, hrest⟩ := hpre
      rw [cut?_front hrest.symm, Option.some.injEq, Prod.mk.injEq]
      have hfront := CutAt.front needle rest
      rw [hrest] at hfront
      constructor
      · rintro ⟨rfl, rfl⟩
        exact hfront
      · exact hfront.unique
    · rw [cut?_further hpre, Option.map_eq_some_iff, CutAt.cons_iff hpre]
      constructor
      · rintro ⟨m, hm, heq⟩
        cases heq
        exact ⟨m.1, rfl, ih.1 hm⟩
      · rintro ⟨rest, rfl, hrest⟩
        exact ⟨(rest, after), ih.2 hrest, rfl⟩

theorem cut?_eq_none_iff : cut? needle t = none ↔ ¬ needle <:+: t := by
  induction t with
  | nil =>
    rw [cut?_nil, List.infix_nil]
    split
    · next h => exact iff_of_false (Option.some_ne_none _) (not_not_intro h)
    · next h => exact iff_of_true rfl h
  | cons c t ih =>
    rw [List.infix_cons_iff, not_or]
    by_cases hpre : needle <+: c :: t
    · obtain ⟨rest, hrest⟩ := hpre
      rw [cut?_front hrest.symm]
      exact iff_of_false (Option.some_ne_none _) fun h => h.1 ⟨rest, hrest⟩
    · rw [cut?_further hpre, Option.map_eq_none_iff, ih]
      exact ⟨fun h => ⟨hpre, h⟩, fun h => h.2⟩

theorem exists_cutAt (h : needle <:+: t) : ∃ before after, CutAt needle t before after := by
  cases hcut : cut? needle t with
  | none => exact absurd h (cut?_eq_none_iff.1 hcut)
  | some parts => exact ⟨parts.1, parts.2, cut?_eq_some_iff.1 hcut⟩

theorem contains_iff : contains needle t = true ↔ needle <:+: t := by
  rw [contains, Option.isSome_iff_ne_none, ne_eq, cut?_eq_none_iff, Classical.not_not]

end Pagefold.Text
