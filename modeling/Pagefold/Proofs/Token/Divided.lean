import Pagefold.Proofs.Token.Leftover

/-!
# Texts divided at their tokens

A text falls into its tokens and the gaps around them. Removing the tokens leaves the gaps, and it
leaves all of each gap. A token can come up only where two gaps close up.

* `Token.Divided`: a text by its gaps and its tokens;
* `Token.exists_divided`: every text is divided in this way;
* `Token.Divided.strip_eq`: what is removed are the tokens, and what is left are the gaps;
* `Token.Meets`: gaps that make a marker with a name character when they close up;
* `Token.present_flatten_iff`: a token comes up exactly where gaps meet like that;
* `Token.strip_divided`: all of it together.
-/

namespace Pagefold.Token

open Text

variable {a b g n t u : Text} {c : Char} {gaps tokens : List Text}

/-- A text is divided at its tokens: it is a gap, or a gap, a token with all of its name, and a
divided text that does not go on with the name. No token starts within a gap. -/
inductive Divided : Text → List Text → List Text → Prop where
  | gap {g : Text} (hg : ¬ Present g) : Divided g [g] []
  | token {g n t : Text} {gaps tokens : List Text} (hg : ¬ Present g) (hne : n ≠ [])
      (hrun : IsRun n) (hend : ∀ c ∈ t.head?, isNameChar c = false) (h : Divided t gaps tokens) :
      Divided (g ++ Context.marker ++ n ++ t) (g :: gaps) ((Context.marker ++ n) :: tokens)

/-! ## Where tokens start -/

theorem not_present_nil : ¬ Present [] := by
  rintro ⟨before, c, after, -, h⟩
  simp at h

theorem present_token (hne : n ≠ []) (hrun : IsRun n) (g t : Text) :
    Present (g ++ Context.marker ++ n ++ t) := by
  obtain ⟨c, n, rfl⟩ := List.exists_cons_of_ne_nil hne
  exact ⟨g, c, n ++ t, isRun_iff.1 hrun c List.mem_cons_self, by simp⟩

theorem read?_of_not_present (h : ¬ Present t) : ∀ u, u <:+ t → pattern.read? u = none := by
  rintro u ⟨s, rfl⟩
  rw [Option.eq_none_iff_forall_ne_some]
  rintro ⟨v, r⟩ hread
  obtain ⟨n, hne, hrun, -, rfl, -⟩ := exists_name_of_read? hread
  have hpresent := present_token hne hrun [] r
  rw [List.nil_append] at hpresent
  exact h (hpresent.append s)

/-- In front of a place where nothing is read, a gap can be longer. -/
theorem not_present_cons (hr : pattern.read? (c :: (g ++ t)) = none) (hg : ¬ Present g) :
    ¬ Present (c :: g) := by
  rw [present_cons_iff]
  rintro (⟨d, u, hd, rfl, rfl⟩ | h)
  · have hread := read?_run (n := [d]) (isRun_iff.2 (by simpa using hd)) (by simp) (u ++ t)
    rw [show Context.marker ++ [d] ++ (u ++ t) = '@' :: ('@' :: d :: u ++ t) from rfl, hr] at hread
    cases hread
  · exact hg h

/-! ## Dividing a text -/

/-- A character where nothing is read belongs to the first gap. -/
theorem Divided.cons (h : Divided t gaps tokens) (hr : pattern.read? (c :: t) = none) :
    ∃ g gaps', gaps = g :: gaps' ∧ Divided (c :: t) ((c :: g) :: gaps') tokens := by
  cases h with
  | gap hg =>
    refine ⟨t, [], rfl, .gap (not_present_cons (t := []) ?_ hg)⟩
    rw [List.append_nil, hr]
  | @token g n t gaps tokens hg hne hrun hend h =>
    rw [List.append_assoc, List.append_assoc] at hr
    have hdivided := Divided.token (not_present_cons hr hg) hne hrun hend h
    exact ⟨g, gaps, rfl, hdivided⟩

theorem exists_divided (t : Text) : ∃ gaps tokens, Divided t gaps tokens := by
  induction t using pattern.read_induction with
  | nil => exact ⟨_, _, .gap not_present_nil⟩
  | plain c t hr ih =>
    obtain ⟨gaps, tokens, h⟩ := ih
    obtain ⟨g, gaps', -, hdivided⟩ := h.cons hr
    exact ⟨_, _, hdivided⟩
  | hit t v r hr ih =>
    obtain ⟨gaps, tokens, h⟩ := ih
    obtain ⟨n, hne, hrun, -, rfl, hend⟩ := exists_name_of_read? hr
    have hdivided := Divided.token not_present_nil hne hrun hend h
    rw [List.nil_append] at hdivided
    exact ⟨_, _, hdivided⟩

/-! ## Removing the tokens -/

theorem Divided.strip_eq (h : Divided t gaps tokens) :
    stripped t = gaps.flatten ∧ pattern.hits t = tokens := by
  -- By induction on the division: nothing is read in a gap, and behind it a token is.
  induction h with
  | @gap g hg =>
    have hread := read?_of_not_present hg
    have hbarren : pattern.Barren g [] := fun u _ hu => by rw [List.append_nil, hread u hu]
    refine ⟨?_, ?_⟩
    · rw [List.flatten_singleton]
      exact Pattern.replace_eq_self hread
    · rw [← List.append_nil g, hbarren.hits]
      rfl
  | @token g n t gaps tokens hg hne hrun hend h ih =>
    have hread := read?_of_not_present hg
    have hbarren : pattern.Barren g [] := fun u _ hu => by rw [List.append_nil, hread u hu]
    have htoken : pattern.read? ('@' :: '@' :: (n ++ t)) = some (Context.marker ++ n, t) := by
      have := read?_run hrun hne t
      rwa [takeWhile_eq_nil hend, dropWhile_eq_self hend, List.append_nil,
        List.append_assoc] at this
    refine ⟨?_, ?_⟩
    · rw [(strip_run hrun hne g t).1, dropWhile_eq_self hend, ih.1, List.flatten_cons]
      congr 1
      exact Pattern.replace_eq_self hread
    · rw [Pattern.append_marker, (cutBefore (n ++ t)).hits, pattern.hits_of_some htoken, ih.2,
        ← List.append_nil g, hbarren.hits]
      rfl

theorem Divided.length_le (h : Divided t gaps tokens) :
    gaps.flatten.length + tokens.length ≤ t.length := by
  induction h with
  | gap hg => simp
  | token hg hne hrun hend h ih =>
    have hmarker : Context.marker.length = 2 := rfl
    simp only [List.flatten_cons, List.length_append, List.length_cons]
    omega

theorem Divided.flatten_eq_iff (h : Divided t gaps tokens) : gaps.flatten = t ↔ tokens = [] := by
  constructor
  · intro heq
    have hle := h.length_le
    rw [heq] at hle
    exact List.eq_nil_of_length_eq_zero (by omega)
  · rintro rfl
    cases h with
    | gap hg => exact List.flatten_singleton

theorem Divided.present_iff (h : Divided t gaps tokens) : Present t ↔ tokens ≠ [] := by
  cases h with
  | gap hg => simp [hg]
  | @token g n t gaps tokens hg hne hrun hend h =>
    exact iff_of_true (present_token hne hrun g t) (List.cons_ne_nil _ _)

theorem sortedUnique_eq_nil_iff {ts : List Text} : sortedUnique ts = [] ↔ ts = [] := by
  simp only [List.eq_nil_iff_forall_not_mem, mem_sortedUnique]

/-- Tokens are told exactly where the text is changed. -/
theorem strip_eq_self_iff (t : Text) : (strip t).2 = [] ↔ (strip t).1 = t := by
  obtain ⟨gaps, tokens, h⟩ := exists_divided t
  rw [show (strip t).1 = gaps.flatten from h.strip_eq.1, h.flatten_eq_iff, strip, h.strip_eq.2,
    sortedUnique_eq_nil_iff]

theorem strip_ne_self_iff (t : Text) : (strip t).1 ≠ t ↔ Present t := by
  obtain ⟨gaps, tokens, h⟩ := exists_divided t
  rw [show (strip t).1 = gaps.flatten from h.strip_eq.1, ne_eq, h.flatten_eq_iff, h.present_iff]

/-! ## Gaps that close up -/

/-- A gap that ends with an `@` and a later one that starts with an `@` and a name character have
only empty gaps between them. -/
def Meets (gaps : List Text) : Prop :=
  ∃ before g k h after, gaps = before ++ g :: (List.replicate k [] ++ h :: after) ∧
    g.getLast? = some '@' ∧ ∃ c r, isNameChar c = true ∧ h = '@' :: c :: r

/-- In two texts together a token starts within one of them, or one character in front of the
second, if that does not go on with a name. -/
theorem present_append_iff (hb : ∀ c ∈ b.head?, isNameChar c = false) :
    Present (a ++ b) ↔ Present a ∨ Present b ∨
      a.getLast? = some '@' ∧ ∃ c r, isNameChar c = true ∧ b = '@' :: c :: r := by
  constructor
  · rintro ⟨before, c, after, hc, h⟩
    rw [List.append_assoc] at h
    change a ++ b = before ++ '@' :: '@' :: c :: after at h
    rcases List.append_eq_append_iff.1 h with ⟨z, rfl, rfl⟩ | ⟨z, rfl, hz⟩
    · exact .inr (.inl ⟨z, c, after, hc, by simp [Context.marker]⟩)
    · -- The second text starts behind none, one, two or all three of the characters.
      rcases z with _ | ⟨x, _ | ⟨y, _ | ⟨d, z⟩⟩⟩
      · exact .inr (.inl ⟨[], c, after, hc, hz.symm⟩)
      · obtain ⟨rfl, rfl⟩ := List.cons.inj hz
        exact .inr (.inr ⟨List.getLast?_concat, c, after, hc, rfl⟩)
      · simp only [List.cons_append, List.nil_append, List.cons.injEq] at hz
        rw [← hz.2.2] at hb
        rw [hb c rfl] at hc
        cases hc
      · simp only [List.cons_append, List.cons.injEq] at hz
        obtain ⟨rfl, rfl, rfl, -⟩ := hz
        exact .inl ⟨before, c, z, hc, by simp [Context.marker]⟩
  · rintro (⟨before, c, after, hc, rfl⟩ | h | ⟨hlast, c, r, hc, rfl⟩)
    · exact ⟨before, c, after ++ b, hc, by simp⟩
    · exact h.append a
    · obtain ⟨before, rfl⟩ := List.getLast?_eq_some_iff.1 hlast
      exact ⟨before, c, r, hc, by simp [Context.marker]⟩

/-- Texts put together start with a character exactly when the first that is not empty does. -/
theorem flatten_eq_cons_iff {texts : List Text} :
    texts.flatten = c :: u ↔
      ∃ k h after, texts = List.replicate k [] ++ (c :: h) :: after ∧ u = h ++ after.flatten := by
  induction texts with
  | nil => simp
  | cons t texts ih =>
    cases t with
    | nil =>
      rw [List.flatten_cons, List.nil_append, ih]
      constructor
      · rintro ⟨k, h, after, rfl, rfl⟩
        exact ⟨k + 1, h, after, rfl, rfl⟩
      · rintro ⟨_ | k, h, after, heq, rfl⟩
        · cases heq
        · exact ⟨k, h, after, (List.cons.inj heq).2, rfl⟩
    | cons d t =>
      rw [List.flatten_cons, List.cons_append]
      constructor
      · intro heq
        obtain ⟨rfl, rfl⟩ := List.cons.inj heq
        exact ⟨0, t, texts, rfl, rfl⟩
      · rintro ⟨_ | k, h, after, heq, rfl⟩
        · cases heq
          rfl
        · cases (List.cons.inj heq).1

/-- If no text starts with a name character, all of them together do not either. -/
theorem head?_flatten (h : ∀ g ∈ gaps, ∀ c ∈ g.head?, isNameChar c = false) :
    ∀ c ∈ gaps.flatten.head?, isNameChar c = false := by
  intro c hc
  obtain ⟨u, hu⟩ := List.head?_eq_some_iff.1 hc
  obtain ⟨k, r, after, rfl, -⟩ := flatten_eq_cons_iff.1 hu
  exact h (c :: r) (by simp) c rfl

theorem meets_cons_iff : Meets (g :: gaps) ↔ Meets gaps ∨
    g.getLast? = some '@' ∧ ∃ k h after, gaps = List.replicate k [] ++ h :: after ∧
      ∃ c r, isNameChar c = true ∧ h = '@' :: c :: r := by
  constructor
  · rintro ⟨_ | ⟨x, before⟩, g', k, h, after, heq, hlast, hstart⟩
    · obtain ⟨rfl, rfl⟩ := List.cons.inj heq
      exact .inr ⟨hlast, k, h, after, rfl, hstart⟩
    · obtain ⟨rfl, rfl⟩ := List.cons.inj heq
      exact .inl ⟨before, g', k, h, after, rfl, hlast, hstart⟩
  · rintro (⟨before, g', k, h, after, rfl, hrest⟩ | ⟨hlast, k, h, after, rfl, hstart⟩)
    · exact ⟨g :: before, g', k, h, after, rfl, hrest⟩
    · exact ⟨[], g, k, h, after, rfl, hlast, hstart⟩

/-- Where no gap has a token and no gap but the first goes on with a name, a token comes up exactly
where gaps meet. -/
theorem present_flatten_iff (hgaps : ∀ g ∈ gaps, ¬ Present g)
    (hheads : ∀ g ∈ gaps.tail, ∀ c ∈ g.head?, isNameChar c = false) :
    Present gaps.flatten ↔ Meets gaps := by
  induction gaps with
  | nil =>
    refine iff_of_false not_present_nil ?_
    rintro ⟨before, g, k, h, after, heq, -⟩
    simp at heq
  | cons g gaps ih =>
    rw [List.tail_cons] at hheads
    have hmeets := ih (fun h hh => hgaps h (List.mem_cons_of_mem g hh))
      fun h hh => hheads h (List.mem_of_mem_tail hh)
    rw [List.flatten_cons, present_append_iff (head?_flatten hheads), meets_cons_iff, hmeets]
    have hg := hgaps g List.mem_cons_self
    simp only [hg, false_or]
    refine or_congr_right (and_congr_right fun _ => ?_)
    constructor
    · rintro ⟨c, r, hc, heq⟩
      obtain ⟨k, h, after, rfl, hr⟩ := flatten_eq_cons_iff.1 heq
      refine ⟨k, '@' :: h, after, rfl, ?_⟩
      cases h with
      | nil =>
        -- Then a later gap starts with the name character.
        have hafter : ∀ c ∈ after.flatten.head?, isNameChar c = false :=
          head?_flatten fun g hg => hheads g (by simp [hg])
        rw [List.nil_append] at hr
        rw [← hr] at hafter
        rw [hafter c rfl] at hc
        cases hc
      | cons d h =>
        obtain ⟨rfl, -⟩ := List.cons.inj hr
        exact ⟨c, h, hc, rfl⟩
    · rintro ⟨k, h, after, rfl, c, r, hc, rfl⟩
      exact ⟨c, r ++ after.flatten, hc, by simp⟩

/-! ## The gaps of a text -/

theorem Divided.not_present (h : Divided t gaps tokens) : ∀ g ∈ gaps, ¬ Present g := by
  induction h with
  | gap hg => exact List.forall_mem_singleton.2 hg
  | token hg hne hrun hend h ih => exact List.forall_mem_cons.2 ⟨hg, ih⟩

theorem Divided.exists_first (h : Divided t gaps tokens) :
    ∃ g later, gaps = g :: later ∧ g <+: t := by
  cases h with
  | gap hg => exact ⟨t, [], rfl, List.prefix_refl t⟩
  | @token g n t gaps tokens hg hne hrun hend h =>
    exact ⟨g, gaps, rfl, by simp only [List.append_assoc, List.prefix_append]⟩

theorem Divided.head?_later (h : Divided t gaps tokens) :
    ∀ g ∈ gaps.tail, ∀ c ∈ g.head?, isNameChar c = false := by
  induction h with
  | gap hg => simp
  | @token g n t gaps tokens hg hne hrun hend h ih =>
    obtain ⟨first, later, rfl, r, rfl⟩ := h.exists_first
    refine List.forall_mem_cons.2 ⟨fun c hc => hend c ?_, ih⟩
    obtain ⟨u, rfl⟩ := List.head?_eq_some_iff.1 hc
    rfl

/-- Every text is divided into gaps and tokens, such that removing its tokens leaves the gaps and
tells the tokens in strictly ascending order, and tells none exactly where the text stays as it is.
Doing it once more changes what was left exactly where two gaps made a token when they closed up. -/
theorem strip_divided (t : Text) : ∃ gaps tokens, Divided t gaps tokens ∧
    (strip t).1 = gaps.flatten ∧
    (strip t).2.Pairwise (· < ·) ∧ (∀ x, x ∈ (strip t).2 ↔ x ∈ tokens) ∧
    ((strip t).2 = [] ↔ (strip t).1 = t) ∧
    ((strip (strip t).1).1 ≠ (strip t).1 ↔ Meets gaps) := by
  obtain ⟨gaps, tokens, h⟩ := exists_divided t
  have htext : (strip t).1 = gaps.flatten := h.strip_eq.1
  refine ⟨gaps, tokens, h, htext, pairwise_sortedUnique _, fun x => ?_, strip_eq_self_iff t, ?_⟩
  · rw [strip, mem_sortedUnique, h.strip_eq.2]
  · rw [strip_ne_self_iff, htext]
    exact present_flatten_iff h.not_present h.head?_later

/-- Two tokens stand between the characters of a marker, and a third one comes up. -/
example : strip "a@@@x@@y@z".toList = ("a@@z".toList, ["@@x".toList, "@@y".toList]) ∧
    (strip "a@@z".toList).1 = "a".toList := by decide

end Pagefold.Token
