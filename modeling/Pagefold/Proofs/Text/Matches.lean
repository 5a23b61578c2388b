import Mathlib.Data.List.Forall2
import Pagefold.Text.Pattern

/-!
# Where matches start

A text is read from left to right, so what its matches are depends on where they can start.

* `Pattern.read_induction`: induction over a text along its matches;
* `Pattern.Barren`: no match starts in the first of two texts; it is then passed character by
  character;
* `Pattern.CutBetween`, `Pattern.CutBefore`, `Pattern.CutBetween.pieces`: no match reaches over a
  place, so the texts before and behind it are read on their own;
* `Pattern.located_of_some`: the matches behind a first one stand where they stand in the rest;
* `Pattern.prefix_of_prefix_replace`, `Pattern.suffix_replace`: beginnings and endings of a text in
  which matches were replaced;
* `Pattern.InStep`, `Pattern.forall₂_hits`: two texts that are read in step have related matches.
-/

namespace Pagefold.Pattern

variable {α : Type} (p : Pattern α) {f : α → Text} {a r s t : Text} {c : Char} {v : α}

@[simp] theorem read?_nil : p.read? [] = none := by
  cases h : p.read? [] with
  | none => rfl
  | some m =>
    have := (p.proper h).2
    simp at this

theorem exists_source (h : p.read? t = some (v, r)) : ∃ s, s ≠ [] ∧ t = s ++ r := by
  obtain ⟨⟨s, rfl⟩, hlt⟩ := p.proper h
  refine ⟨s, ?_, rfl⟩
  rintro rfl
  simp at hlt

/-- Induction over a text as it is read: character by character, and match by match. -/
theorem read_induction {P : Text → Prop} (nil : P [])
    (plain : ∀ c t, p.read? (c :: t) = none → P t → P (c :: t))
    (hit : ∀ t v r, p.read? t = some (v, r) → P r → P t) (t : Text) : P t := by
  match t with
  | [] => exact nil
  | c :: t =>
    cases hr : p.read? (c :: t) with
    | none => exact plain c t hr (read_induction nil plain hit t)
    | some m =>
      have : m.2.length < t.length + 1 := (p.proper hr).2
      exact hit (c :: t) m.1 m.2 hr (read_induction nil plain hit m.2)
termination_by t.length

/-! ## Matches and replacements, one at a time -/

@[simp] theorem hits_nil : p.hits [] = [] := rfl

theorem hits_of_none (h : p.read? (c :: t) = none) : p.hits (c :: t) = p.hits t := by
  rw [hits, p.pieces_of_none h]
  rfl

theorem hits_of_some (h : p.read? t = some (v, r)) : p.hits t = v :: p.hits r := by
  obtain ⟨s, -, ht⟩ := p.exists_source h
  rw [hits, p.pieces_of_some h ht]
  rfl

@[simp] theorem replace_nil : p.replace f [] = [] := rfl

theorem replace_of_none (h : p.read? (c :: t) = none) :
    p.replace f (c :: t) = c :: p.replace f t := by
  rw [replace, p.pieces_of_none h]
  rfl

theorem replace_of_some (h : p.read? t = some (v, r)) :
    p.replace f t = f v ++ p.replace f r := by
  obtain ⟨s, -, ht⟩ := p.exists_source h
  rw [replace, p.pieces_of_some h ht]
  rfl

theorem exists_read_of_mem_hits (h : v ∈ p.hits t) : ∃ u r, u <:+ t ∧ p.read? u = some (v, r) := by
  induction t using p.read_induction with
  | nil => cases h
  | plain c t hr ih =>
    rw [p.hits_of_none hr] at h
    obtain ⟨u, r, hu, hread⟩ := ih h
    exact ⟨u, r, hu.trans (List.suffix_cons c t), hread⟩
  | hit t w r hr ih =>
    rw [p.hits_of_some hr] at h
    rcases List.mem_cons.1 h with rfl | h
    · exact ⟨t, r, List.suffix_refl t, hr⟩
    · obtain ⟨u, r', hu, hread⟩ := ih h
      exact ⟨u, r', hu.trans (p.proper hr).1, hread⟩

/-- At a character outside the matches no match starts. -/
theorem read?_of_plain_suffix {ps : List (Piece α)} (h : (Piece.plain c :: ps) <:+ p.pieces t) :
    p.read? (c :: ps.flatMap Piece.source) = none := by
  induction t using p.read_induction with
  | nil => simp at h
  | plain d t hr ih =>
    rw [p.pieces_of_none hr] at h
    rcases List.suffix_cons_iff.1 h with heq | h
    · cases heq
      rw [p.flatMap_source_pieces]
      exact hr
    · exact ih h
  | hit t v r hr ih =>
    obtain ⟨s, -, ht⟩ := p.exists_source hr
    rw [p.pieces_of_some hr ht] at h
    rcases List.suffix_cons_iff.1 h with heq | h
    · cases heq
    · exact ih h

/-! ## Texts in which no match starts -/

/-- No match starts in `a` where `t` follows. -/
def Barren (a t : Text) : Prop := ∀ u, u ≠ [] → u <:+ a → p.read? (u ++ t) = none

variable {p}

theorem barren_nil : p.Barren [] t := fun _ hne hu => absurd (List.suffix_nil.1 hu) hne

theorem barren_cons : p.Barren (c :: a) t ↔ p.read? (c :: (a ++ t)) = none ∧ p.Barren a t := by
  constructor
  · intro h
    exact ⟨h (c :: a) (by simp) (List.suffix_refl _),
      fun u hne hu => h u hne (hu.trans (List.suffix_cons c a))⟩
  · rintro ⟨hc, ha⟩ u hne hu
    rcases List.suffix_cons_iff.1 hu with rfl | hu
    · exact hc
    · exact ha u hne hu

/-- Nothing starts where the character that matches start with is not. -/
theorem barren_of_start {d : Char} (hstart : ∀ c u, c ≠ d → p.read? (c :: u) = none) (ha : d ∉ a)
    (t : Text) : p.Barren a t := by
  induction a with
  | nil => exact barren_nil
  | cons c a ih =>
    rw [List.mem_cons, not_or] at ha
    exact barren_cons.2 ⟨hstart c _ (Ne.symm ha.1), ih ha.2⟩

theorem Barren.hits (h : p.Barren a t) : p.hits (a ++ t) = p.hits t := by
  induction a with
  | nil => rfl
  | cons c a ih =>
    rw [barren_cons] at h
    rw [List.cons_append, p.hits_of_none h.1, ih h.2]

theorem Barren.replace (h : p.Barren a t) : p.replace f (a ++ t) = a ++ p.replace f t := by
  induction a with
  | nil => rfl
  | cons c a ih =>
    rw [barren_cons] at h
    rw [List.cons_append, p.replace_of_none h.1, ih h.2]
    rfl

theorem replace_eq_self (h : ∀ u, u <:+ t → p.read? u = none) : p.replace f t = t := by
  have hbarren : p.Barren t [] := fun u _ hu => by rw [List.append_nil, h u hu]
  have := hbarren.replace (f := f)
  rwa [List.append_nil, replace_nil, List.append_nil] at this

/-! ## Texts that are read on their own -/

/-- What starts in `a` is read in front of `u` as if it stood alone. -/
def CutBetween (p : Pattern α) (a u : Text) : Prop :=
  ∀ x, x ≠ [] → x <:+ a → p.read? (x ++ u) = (p.read? x).map fun m => (m.1, m.2 ++ u)

theorem CutBetween.of_suffix {u x : Text} (h : p.CutBetween a u) (hx : x <:+ a) :
    p.CutBetween x u := fun y hne hy => h y hne (hy.trans hx)

theorem CutBetween.pieces {u : Text} (h : p.CutBetween a u) :
    p.pieces (a ++ u) = p.pieces a ++ p.pieces u := by
  induction a using p.read_induction with
  | nil => rfl
  | plain c a hr ih =>
    have hread : p.read? (c :: (a ++ u)) = none := by
      simpa [hr] using h (c :: a) (by simp) (List.suffix_refl _)
    rw [List.cons_append, p.pieces_of_none hread, p.pieces_of_none hr,
      ih (h.of_suffix (List.suffix_cons c a)), List.cons_append]
  | hit a v r hr ih =>
    obtain ⟨s, hs, rfl⟩ := p.exists_source hr
    have hread := h (s ++ r) (by simp [hs]) (List.suffix_refl _)
    rw [hr, Option.map_some] at hread
    rw [p.pieces_of_some hread (List.append_assoc s r u), p.pieces_of_some hr rfl,
      ih (h.of_suffix (List.suffix_append s r)), List.cons_append]

theorem CutBetween.hits {u : Text} (h : p.CutBetween a u) :
    p.hits (a ++ u) = p.hits a ++ p.hits u := by
  rw [Pattern.hits, h.pieces, List.filterMap_append]
  rfl

theorem CutBetween.replace {u : Text} (h : p.CutBetween a u) :
    p.replace f (a ++ u) = p.replace f a ++ p.replace f u := by
  rw [Pattern.replace, h.pieces, List.flatMap_append]
  rfl

/-- Whatever stands in front of `u` is read as if it stood alone. -/
def CutBefore (p : Pattern α) (u : Text) : Prop :=
  ∀ a, a ≠ [] → p.read? (a ++ u) = (p.read? a).map fun m => (m.1, m.2 ++ u)

theorem CutBefore.between {u : Text} (h : p.CutBefore u) (a : Text) : p.CutBetween a u :=
  fun x hne _ => h x hne

theorem CutBefore.hits {u : Text} (h : p.CutBefore u) (a : Text) :
    p.hits (a ++ u) = p.hits a ++ p.hits u := (h.between a).hits

theorem CutBefore.replace {u : Text} (h : p.CutBefore u) (a : Text) :
    p.replace f (a ++ u) = p.replace f a ++ p.replace f u := (h.between a).replace

variable (p)

theorem occursIn_eq_false_iff : p.occursIn t = false ↔ ∀ u, u <:+ t → p.read? u = none := by
  induction t with
  | nil => simp [occursIn]
  | cons c t ih =>
    rw [occursIn, Bool.or_eq_false_iff, ih]
    simp only [List.suffix_cons_iff, forall_eq_or_imp, Option.isSome_eq_false_iff,
      Option.isNone_iff_eq_none]

/-! ## Where matches stand -/

def shift (n : Nat) (m : Nat × Nat × α) : Nat × Nat × α := (n + m.1, n + m.2.1, m.2.2)

theorem foldl_place (ps : List (Piece α)) (n : Nat) (found : List (Nat × Nat × α)) :
    (ps.foldl place (n, found)).2 = (ps.foldl place (0, [])).2.map (shift n) ++ found := by
  induction ps generalizing n found with
  | nil => rfl
  | cons piece ps ih =>
    rw [List.foldl_cons, List.foldl_cons]
    cases piece with
    | plain c =>
      simp only [place, Nat.zero_add]
      rw [ih, ih (Piece.plain c : Piece α).source.byteSize, List.append_nil, List.map_map]
      congr 2
      funext m
      simp only [shift, Function.comp, Nat.add_assoc]
    | hit s v =>
      simp only [place, Nat.zero_add]
      rw [ih, ih (Piece.hit s v).source.byteSize, List.map_append, List.map_map,
        List.append_assoc]
      congr 2
      funext m
      simp only [shift, Function.comp, Nat.add_assoc]

theorem located_of_some (h : p.read? t = some (v, r)) (ht : t = s ++ r) :
    p.located t = (0, s.byteSize, v) :: (p.located r).map (shift s.byteSize) := by
  rw [located, located, p.pieces_of_some h ht, List.foldl_cons, foldl_place]
  simp [place, Piece.source]

theorem located_of_none (h : p.read? (c :: t) = none) :
    p.located (c :: t) = (p.located t).map (shift c.utf8Size) := by
  rw [located, located, p.pieces_of_none h, List.foldl_cons, foldl_place]
  simp [place, Piece.source]

/-- Behind a passage in which no match starts, the matches stand as many bytes further on. -/
theorem Barren.located {p : Pattern α} (h : p.Barren a t) :
    p.located (a ++ t) = (p.located t).map (shift a.byteSize) := by
  induction a with
  | nil =>
    have hzero : (shift 0 : Nat × Nat × α → _) = id := funext fun m => by simp [shift]
    simp [hzero]
  | cons c a ih =>
    rw [barren_cons] at h
    rw [List.cons_append, p.located_of_none h.1, ih h.2, List.map_map]
    congr 1
    funext m
    simp [shift, Nat.add_assoc]

/-! ## Beginnings and endings of a text with replacements -/

/-- A beginning of the outcome stood at the front before, if no replacement agrees with it from any
of its places on. -/
theorem prefix_of_prefix_replace {w : Text} (h : w <+: p.replace f t)
    (hw : ∀ u, u ≠ [] → u <:+ w → ∀ t' v r, p.read? t' = some (v, r) → ∀ z, ¬ u <+: f v ++ z) :
    w <+: t := by
  induction w generalizing t with
  | nil => exact List.nil_prefix
  | cons x w ih =>
    cases t with
    | nil => simp at h
    | cons c t =>
      cases hr : p.read? (c :: t) with
      | some m =>
        obtain ⟨v, r⟩ := m
        rw [p.replace_of_some hr] at h
        exact absurd h (hw (x :: w) (by simp) (List.suffix_refl _) _ v r hr _)
      | none =>
        rw [p.replace_of_none hr, List.cons_prefix_cons] at h
        rw [List.cons_prefix_cons]
        exact ⟨h.1, ih h.2 fun u hne hu => hw u hne (hu.trans (List.suffix_cons x w))⟩

/-- An ending of the outcome is the outcome of an ending, or starts behind the first character of a
replacement. -/
theorem suffix_replace {u : Text} (h : u <:+ p.replace f t) :
    (∃ t', t' <:+ t ∧ u = p.replace f t') ∨
      ∃ t' v r x y, t' <:+ t ∧ p.read? t' = some (v, r) ∧ f v = x ++ y ∧ x ≠ [] ∧ y ≠ [] ∧
        u = y ++ p.replace f r := by
  induction t using p.read_induction with
  | nil => exact .inl ⟨[], List.suffix_refl _, by simpa using h⟩
  | plain c t hr ih =>
    rw [p.replace_of_none hr] at h
    rcases List.suffix_cons_iff.1 h with rfl | h
    · exact .inl ⟨c :: t, List.suffix_refl _, (p.replace_of_none hr).symm⟩
    · rcases ih h with ⟨t', ht', hu⟩ | ⟨t', v, r, x, y, ht', hrest⟩
      · exact .inl ⟨t', ht'.trans (List.suffix_cons c t), hu⟩
      · exact .inr ⟨t', v, r, x, y, ht'.trans (List.suffix_cons c t), hrest⟩
  | hit t v r hr ih =>
    have hwhole := p.replace_of_some (f := f) hr
    obtain ⟨x, hx⟩ := h
    rw [hwhole, List.append_eq_append_iff] at hx
    rcases hx with ⟨y, hfv, hu⟩ | ⟨y, hx, hr'⟩
    · -- The ending starts within the replacement, or right at its front or behind it.
      by_cases hx0 : x = []
      · exact .inl ⟨t, List.suffix_refl _, by rw [hwhole, hu, hfv, hx0, List.nil_append]⟩
      · by_cases hy0 : y = []
        · exact .inl ⟨r, (p.proper hr).1, by rw [hu, hy0, List.nil_append]⟩
        · exact .inr ⟨t, v, r, x, y, List.suffix_refl _, hr, hfv, hx0, hy0, hu⟩
    · rcases ih ⟨y, hr'.symm⟩ with ⟨t', ht', hu⟩ | ⟨t', v', r', x', y', ht', hrest⟩
      · exact .inl ⟨t', ht'.trans (p.proper hr).1, hu⟩
      · exact .inr ⟨t', v', r', x', y', ht'.trans (p.proper hr).1, hrest⟩

/-! ## Two texts in step -/

/-- Two texts are at their ends, or are read on for a while: through passages in which no match starts,
through related matches, or up to a bad match in the first. What follows is as `next` says. -/
inductive InStep (next : Text → Text → Prop) (related : α → α → Prop) (bad : α → Prop) :
    Text → Text → Prop where
  | finish : InStep next related bad [] []
  | pass {a b t u : Text} (hne : a ≠ []) (ha : p.Barren a t) (hb : p.Barren b u) (h : next t u) :
      InStep next related bad (a ++ t) (b ++ u)
  | hit {t u r s : Text} {v w : α} (ht : p.read? t = some (v, r)) (hu : p.read? u = some (w, s))
      (hvw : related v w) (h : next r s) : InStep next related bad t u
  | stop {t u r : Text} {v : α} (ht : p.read? t = some (v, r)) (hv : bad v) :
      InStep next related bad t u

/-- The matches of two texts that are read in step are related one by one, unless there is a bad
one. -/
theorem forall₂_hits {next : Text → Text → Prop} {related : α → α → Prop} {bad : α → Prop}
    (hnext : ∀ t u, next t u → p.InStep next related bad t u) {t u : Text} (h : next t u) :
    List.Forall₂ related (p.hits t) (p.hits u) ∨ ∃ v ∈ p.hits t, bad v := by
  cases hnext t u h with
  | finish => exact .inl .nil
  | @pass a b t u hne ha hb hrest =>
    have : t.length < (a ++ t).length := by
      have := List.length_pos_iff.2 hne
      simp only [List.length_append]
      omega
    rw [ha.hits, hb.hits]
    exact forall₂_hits hnext hrest
  | @hit _ _ r _ v _ ht hu hvw hrest =>
    have : r.length < t.length := (p.proper ht).2
    rw [p.hits_of_some ht, p.hits_of_some hu]
    rcases forall₂_hits hnext hrest with hall | ⟨x, hx, hbad⟩
    · exact .inl (.cons hvw hall)
    · exact .inr ⟨x, List.mem_cons_of_mem v hx, hbad⟩
  | stop ht hv =>
    rw [p.hits_of_some ht]
    exact .inr ⟨_, List.mem_cons_self, hv⟩
termination_by t.length

end Pagefold.Pattern
