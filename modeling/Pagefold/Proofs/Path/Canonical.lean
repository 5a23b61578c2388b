import Mathlib.Data.List.Basic
import Mathlib.Data.List.TakeWhile
import Pagefold.Expansion
import Pagefold.Proofs.Path.Steps

/-!
# Canonical paths

The normal form of an absolute path is the path of the location where its steps lead on paper. So a
file has one canonical path, and two canonical paths are the same text as soon as they have the same
components.

* `Path.last_segment_cases`: the last segment of a path that leads anywhere;
* `Path.walked_of_parent?`: the steps of a path and of its parent;
* `Path.fileName?_cases`: the name of a file is the last one of its path;
* `Path.Canonical`: the path of a location;
* `Path.normalize_of_isAbsolute`: the normal form of an absolute path is canonical;
* `Disk.absolute_canonical`, `Disk.absolute_eq`, `Disk.absolute_of_canonical`: absolute forms are the
  canonical paths.
-/

namespace Pagefold

namespace Path

/-! ## Segments -/

theorem isIdle_of_isName {n : Text} (h : IsName n) : isIdle n = false := by
  obtain ⟨h₁, -, h₃, -⟩ := h
  simp [isIdle, h₁, h₃]

theorem segment_cases (s : Text) :
    isIdle s = true ∨ s = ['.', '.'] ∨
      Step.ofSegment? s = some (.down s) ∧ innerComponent? s = some (.name s) ∧
        firstComponent s = .name s := by
  by_cases hidle : isIdle s = true
  · exact .inl hidle
  by_cases hup : s = ['.', '.']
  · exact .inr (.inl hup)
  have hidle' : s ≠ [] ∧ s ≠ ['.'] := by simpa [isIdle, not_or] using hidle
  refine .inr (.inr ⟨?_, ?_, ?_⟩)
  · simp [Step.ofSegment?, hidle', hup]
  · simp [innerComponent?, hidle, hup]
  · simp [firstComponent, hidle', hup]

theorem ofSegment?_isSome {s : Text} (h : s ≠ []) : ∃ x, Step.ofSegment? s = some x := by
  simp only [Step.ofSegment?, h, if_false]
  split
  · exact ⟨_, rfl⟩
  · split <;> exact ⟨_, rfl⟩

/-- A list of segments falls into a part that ends with a segment of its own and idle ones. -/
theorem exists_idle_suffix (ss : List Text) :
    ∃ idle, ss = (ss.reverse.dropWhile isIdle).reverse ++ idle ∧ ∀ s ∈ idle, isIdle s = true := by
  refine ⟨(ss.reverse.takeWhile isIdle).reverse, ?_, ?_⟩
  · rw [← List.reverse_append, List.takeWhile_append_dropWhile, List.reverse_reverse]
  · intro s hs
    exact List.mem_takeWhile_imp (List.mem_reverse.1 hs)

/-- Segments are idle, or one of them is the last that is not. -/
theorem last_segment_cases (ss : List Text) :
    (ss.reverse.dropWhile isIdle = [] ∧ ∀ s ∈ ss, isIdle s = true) ∨
      ∃ before last idle, ss = before ++ last :: idle ∧
        ss.reverse.dropWhile isIdle = last :: before.reverse ∧ isIdle last = false ∧
        ∀ s ∈ idle, isIdle s = true := by
  obtain ⟨idle, hsplit, hidle⟩ := exists_idle_suffix ss
  have hlast := List.head?_dropWhile_not isIdle ss.reverse
  generalize ss.reverse.dropWhile isIdle = back at hsplit hlast ⊢
  cases back with
  | nil =>
    rw [List.reverse_nil, List.nil_append] at hsplit
    exact .inl ⟨rfl, hsplit ▸ hidle⟩
  | cons last before =>
    rw [List.reverse_cons, List.append_assoc] at hsplit
    refine .inr ⟨before.reverse, last, idle, hsplit, ?_, ?_, hidle⟩
    · rw [List.reverse_reverse]
    · simpa using hlast

/-! ## Parents -/

theorem isAbsolute_joined {s : Text} {ss : List Text} (hs : '/' ∉ s) :
    isAbsolute ⟨Text.joined ['/'] (s :: ss)⟩ = decide (s = [] ∧ ss ≠ []) := by
  cases ss with
  | nil =>
    cases s with
    | nil => rfl
    | cons c s =>
      simp only [List.mem_cons, not_or] at hs
      simp [isAbsolute, Text.joined, Ne.symm hs.1]
  | cons r rs =>
    cases s with
    | nil => simp [isAbsolute, Text.joined]
    | cons c s =>
      simp only [List.mem_cons, not_or] at hs
      simp [isAbsolute, Text.joined, Ne.symm hs.1]

theorem isAbsolute_of_segments {p : Path} {first : Text} {rest : List Text}
    (h : p.segments = first :: rest) : p.isAbsolute = decide (first = [] ∧ rest ≠ []) := by
  have hp : p = ⟨Text.joined ['/'] (first :: rest)⟩ := by rw [← h, joined_segments]
  have hfirst : '/' ∉ first := not_mem_of_mem_segments (h ▸ List.mem_cons_self)
  rw [hp, isAbsolute_joined hfirst]

theorem steps_ne_nil {p : Path} (h : p.text ≠ []) : p.steps ≠ [] := by
  obtain ⟨t⟩ := p
  obtain ⟨u, c, ht⟩ := (List.eq_nil_or_concat t).resolve_left h
  rw [List.concat_eq_append] at ht
  subst ht
  rw [steps_eq]
  by_cases hc : c = '/'
  · simp [endStep, hc]
  · obtain ⟨init, s, hs, hne⟩ := segments_ne_of_getLast? (t := u) hc
    obtain ⟨x, hx⟩ := ofSegment?_isSome hne
    simp [walked, hs, hx]

/-- A path without a parent is empty, or leads to the root. -/
theorem walked_of_parent?_eq_none {p : Path} (hp : p.text ≠ []) (h : p.parent? = none) :
    p.isAbsolute = true ∧ ∃ j, p.walked = List.replicate j .stay := by
  obtain ⟨first, rest, hss⟩ := List.exists_cons_of_ne_nil p.segments_ne_nil
  rw [isAbsolute_of_segments hss, walked, hss]
  unfold parent? at h
  rw [hss] at h
  simp only at h
  rcases last_segment_cases rest with ⟨hback, hidle⟩ | ⟨before, last, idle, -, hback, -⟩
  · rw [hback] at h
    simp only at h
    split at h
    · next hfirst =>
      subst hfirst
      obtain ⟨j, hj⟩ := Step.filterMap_ofSegment?_of_isIdle hidle
      have hne : rest ≠ [] := by
        rintro rfl
        rw [← joined_segments, hss] at hp
        exact hp rfl
      exact ⟨by simp [hne], j, by rw [List.filterMap_cons_none rfl, hj]⟩
    · cases h
  · rw [hback] at h
    simp only at h
    split at h <;> cases h

theorem parent?_isSome_of_down_mem {p : Path} {n : Text} (h : .down n ∈ p.walked) :
    p.parent?.isSome = true := by
  by_contra hnone
  rw [Option.not_isSome_iff_eq_none] at hnone
  have hp : p.text ≠ [] := by
    intro hnil
    have : p = ⟨[]⟩ := by rw [← hnil]
    rw [this, walked_nil] at h
    simp at h
  obtain ⟨-, j, hj⟩ := walked_of_parent?_eq_none hp hnone
  rw [hj] at h
  cases List.eq_of_mem_replicate h

/-- The parent of a path keeps the first of its segments. -/
theorem walked_of_kept {first : Text} {kept : List Text} (h : ∀ s ∈ first :: kept, '/' ∉ s)
    {q : Path} (hq : q = if first = [] && kept = [] then ⟨['/']⟩
      else ⟨Text.joined ['/'] (first :: kept)⟩) :
    q.isAbsolute = decide (first = []) ∧
      q.walked = (first :: kept).filterMap Step.ofSegment? := by
  subst hq
  split
  · next hroot =>
    simp only [Bool.and_eq_true, decide_eq_true_eq] at hroot
    obtain ⟨rfl, rfl⟩ := hroot
    exact ⟨rfl, rfl⟩
  · next hroot =>
    simp only [Bool.and_eq_true, decide_eq_true_eq, not_and] at hroot
    refine ⟨?_, ?_⟩
    · rw [isAbsolute_joined (h first List.mem_cons_self)]
      simp only [decide_eq_decide, and_iff_left_iff_imp]
      exact hroot
    · rw [walked, segments_joined h (by simp)]

/-- A path takes the steps of its parent and one more; there may be steps that stay around it. -/
theorem walked_of_parent? {p q : Path} (h : p.parent? = some q) :
    q.isAbsolute = p.isAbsolute ∧ ∃ i x j,
      p.walked = q.walked ++ List.replicate i .stay ++ x :: List.replicate j .stay := by
  obtain ⟨first, rest, hss⟩ := List.exists_cons_of_ne_nil p.segments_ne_nil
  have hslash : ∀ s ∈ first :: rest, '/' ∉ s :=
    fun s hs => not_mem_of_mem_segments (hss ▸ hs)
  rw [isAbsolute_of_segments hss]
  unfold parent? at h
  unfold walked
  rw [hss] at h ⊢
  simp only at h
  rcases last_segment_cases rest with
    ⟨hback, hidle⟩ | ⟨before, last, idle, hrest, hback, hlast, hidle⟩
  · -- nothing but the first segment
    rw [hback] at h
    simp only at h
    split at h
    · cases h
    · next hfirst =>
      cases h
      obtain ⟨j, hj⟩ := Step.filterMap_ofSegment?_of_isIdle hidle
      obtain ⟨x, hx⟩ := ofSegment?_isSome hfirst
      refine ⟨by simp [hfirst, isAbsolute], 0, x, j, ?_⟩
      rw [List.filterMap_cons_some hx, hj]
      rfl
  · have hne : last ≠ [] := by
      rintro rfl
      cases hlast
    obtain ⟨x, hx⟩ := ofSegment?_isSome hne
    obtain ⟨j, hj⟩ := Step.filterMap_ofSegment?_of_isIdle hidle
    obtain ⟨around, hbefore, haround⟩ := exists_idle_suffix before
    obtain ⟨i, hi⟩ := Step.filterMap_ofSegment?_of_isIdle haround
    have hsplit : first :: rest =
        (first :: (before.reverse.dropWhile isIdle).reverse) ++ around ++ last :: idle := by
      rw [hrest, List.cons_append, ← hbefore]
      rfl
    rw [hback] at h
    simp only at h
    generalize before.reverse.dropWhile isIdle = kept at h hsplit
    have hkept : ∀ s ∈ first :: kept.reverse, '/' ∉ s := by
      intro s hs
      refine hslash s ?_
      rw [hsplit]
      exact List.mem_append_left _ (List.mem_append_left _ hs)
    have hq : q = if first = [] && kept.reverse = [] then ⟨['/']⟩
        else ⟨Text.joined ['/'] (first :: kept.reverse)⟩ := by
      split at h
      · next hroot =>
        cases h
        rw [if_pos (by simpa using hroot)]
      · next hroot =>
        cases h
        rw [if_neg (by simpa using hroot)]
    obtain ⟨habs, hwalked⟩ := walked_of_kept hkept hq
    refine ⟨?_, i, x, j, ?_⟩
    · rw [habs, hrest]
      simp
    · rw [walked] at hwalked
      rw [hwalked, hsplit, List.filterMap_append, List.filterMap_append, hi,
        List.filterMap_cons_some hx, hj]

/-! ## The name of a file -/

theorem components_of_segments {p : Path} {first : Text} {rest : List Text} (hp : p.text ≠ [])
    (h : p.segments = first :: rest) :
    p.components = firstComponent first :: rest.filterMap innerComponent? := by
  unfold components
  rw [h]
  cases ht : p.text with
  | nil => exact absurd ht hp
  | cons c t => rfl

theorem filterMap_innerComponent?_of_isIdle {ss : List Text} (h : ∀ s ∈ ss, isIdle s = true) :
    ss.filterMap innerComponent? = [] :=
  List.filterMap_eq_nil_iff.2 fun s hs => by rw [innerComponent?, if_pos (h s hs)]

/-- A path without `..` has no names in it, or the last one is the name of its file. -/
theorem fileName?_cases {p : Path} (hup : .up ∉ p.walked) :
    (∃ j, p.walked = List.replicate j .stay) ∨
      ∃ ss n j, p.walked = ss ++ .down n :: List.replicate j .stay ∧ p.fileName? = some n := by
  by_cases hp : p.text = []
  · obtain rfl : p = ⟨[]⟩ := by rw [← hp]
    exact .inl ⟨0, rfl⟩
  obtain ⟨first, rest, hss⟩ := List.exists_cons_of_ne_nil p.segments_ne_nil
  have hup' : ∀ s ∈ first :: rest, s ≠ ['.', '.'] := by
    rintro s hs rfl
    exact hup (List.mem_filterMap.2 ⟨['.', '.'], hss ▸ hs, rfl⟩)
  unfold fileName? walked
  rw [components_of_segments hp hss, hss]
  rcases last_segment_cases rest with ⟨-, hidle⟩ | ⟨before, last, idle, hrest, -, hlast, hidle⟩
  · -- All segments but the first one are idle.
    obtain ⟨j, hj⟩ := Step.filterMap_ofSegment?_of_isIdle hidle
    rw [filterMap_innerComponent?_of_isIdle hidle, List.getLast?_singleton]
    rcases segment_cases first with hfirst | hfirst | ⟨hstep, -, hcomp⟩
    · rcases Step.ofSegment?_of_isIdle hfirst with hstep | hstep
      · exact .inl ⟨j, by rw [List.filterMap_cons_none hstep, hj]⟩
      · exact .inl ⟨j + 1, by rw [List.filterMap_cons_some hstep, hj, List.replicate_succ]⟩
    · exact absurd hfirst (hup' _ List.mem_cons_self)
    · refine .inr ⟨[], first, j, ?_, by rw [hcomp]⟩
      rw [List.filterMap_cons_some hstep, hj, List.nil_append]
  · -- The last segment that is not idle is a name, since it does not go up.
    obtain ⟨j, hj⟩ := Step.filterMap_ofSegment?_of_isIdle hidle
    rcases segment_cases last with hlast' | hlast' | ⟨hstep, hcomp, -⟩
    · rw [hlast] at hlast'
      cases hlast'
    · exact absurd hlast' (hup' _ (by rw [hrest]; simp))
    · refine .inr ⟨(first :: before).filterMap Step.ofSegment?, last, j, ?_, ?_⟩
      · rw [hrest, ← List.cons_append, List.filterMap_append, List.filterMap_cons_some hstep, hj]
      · rw [hrest, List.filterMap_append, List.filterMap_cons_some hcomp,
          filterMap_innerComponent?_of_isIdle hidle, ← List.cons_append, List.getLast?_concat]

/-! ## The path of a location -/

theorem components_slash (t : Text) :
    components ⟨'/' :: t⟩ = .root :: (segments ⟨t⟩).filterMap innerComponent? := by
  simp [components, segments_slash, firstComponent]

theorem segments_joined_of_isName {l : Location} (hl : ∀ n ∈ l, IsName n) :
    segments ⟨Text.joined ['/'] l⟩ = if l = [] then [[]] else l := by
  by_cases h : l = []
  · subst h
    rfl
  · rw [if_neg h, segments_joined (fun n hn => (hl n hn).2.1) h]

theorem segments_pathOf {l : Location} (hl : ∀ n ∈ l, IsName n) :
    (Disk.pathOf l).segments = [] :: if l = [] then [[]] else l := by
  rw [Disk.pathOf, segments_slash, segments_joined_of_isName hl]

theorem walked_pathOf {l : Location} (hl : ∀ n ∈ l, IsName n) :
    (Disk.pathOf l).walked = l.map .down := by
  rw [walked, segments_pathOf hl]
  split
  · next h =>
    subst h
    rfl
  · rw [List.filterMap_cons_none rfl, ← List.filterMap_eq_map]
    exact List.filterMap_congr fun n hn => Step.ofSegment?_of_isName (hl n hn)

theorem isAbsolute_pathOf (l : Location) : (Disk.pathOf l).isAbsolute = true := rfl

theorem components_pathOf {l : Location} (hl : ∀ n ∈ l, IsName n) :
    (Disk.pathOf l).components = .root :: l.map .name := by
  rw [Disk.pathOf, components_slash, segments_joined_of_isName hl]
  split
  · next h =>
    subst h
    rfl
  · rw [← List.filterMap_eq_map]
    refine congrArg _ (List.filterMap_congr fun n hn => ?_)
    have hn := hl n hn
    simp [innerComponent?, isIdle_of_isName hn, hn.2.2.2]

theorem parent?_pathOf_append {l : Location} {n : Text} (hl : ∀ m ∈ l ++ [n], IsName m) :
    (Disk.pathOf (l ++ [n])).parent? = some (Disk.pathOf l) := by
  have hn : isIdle n = false := isIdle_of_isName (hl n (by simp))
  have hkept : l.reverse.dropWhile isIdle = l.reverse := by
    refine List.dropWhile_eq_self_iff.2 fun h => ?_
    rw [isIdle_of_isName (hl _ ?_)]
    · simp
    · exact List.mem_append_left _ (List.mem_reverse.1 (List.getElem_mem h))
  simp only [parent?, segments_pathOf hl, List.append_eq_nil_iff, List.cons_ne_nil, and_false,
    if_false, List.reverse_append, List.reverse_cons, List.reverse_nil, List.nil_append,
    List.cons_append, List.dropWhile_cons, hn, Bool.false_eq_true, hkept, List.reverse_reverse]
  by_cases h : l = []
  · subst h
    rfl
  · simp [h, Disk.pathOf, Text.joined, List.intercalate_cons_of_ne_nil]

/-! ## Normal forms -/

/-- The stack of components for a location. -/
def stackOf (l : Location) : List Component := (.root :: l.map .name).reverse

theorem push_stackOf_parent (l : Location) : push (stackOf l) .parent = stackOf l.dropLast := by
  rcases List.eq_nil_or_concat l with rfl | ⟨m, n, rfl⟩
  · rfl
  · simp [stackOf, push]

theorem foldl_push_stackOf (ss : List Text) (l : Location) :
    (ss.filterMap innerComponent?).foldl push (stackOf l)
      = stackOf (Step.leadAll l (ss.filterMap Step.ofSegment?)) := by
  -- Segment by segment: an idle one stays, `..` goes up, and any other one is a name.
  induction ss generalizing l with
  | nil => rfl
  | cons s ss ih =>
    by_cases h₁ : s = []
    · subst h₁
      exact ih l
    · by_cases h₂ : s = ['.']
      · subst h₂
        exact ih l
      · by_cases h₃ : s = ['.', '.']
        · subst h₃
          have hi : innerComponent? ['.', '.'] = some .parent := rfl
          have hs : Step.ofSegment? ['.', '.'] = some .up := rfl
          rw [List.filterMap_cons_some hi, List.filterMap_cons_some hs, List.foldl_cons,
            push_stackOf_parent, ih]
          rfl
        · have hi : innerComponent? s = some (.name s) := by
            simp [innerComponent?, isIdle, h₁, h₂, h₃]
          have hs : Step.ofSegment? s = some (.down s) := by
            simp [Step.ofSegment?, h₁, h₂, h₃]
          have hp : push (stackOf l) (.name s) = stackOf (l ++ [s]) := by
            cases h : stackOf l <;> simp_all [stackOf, push]
          rw [List.filterMap_cons_some hi, List.filterMap_cons_some hs, List.foldl_cons, hp, ih]
          rfl

/-- The normal form of an absolute path is the path of the location where it leads on paper. -/
theorem normalize_of_isAbsolute {p : Path} (h : p.isAbsolute = true) :
    p.normalize = Disk.pathOf (Step.leadAll [] p.walked) := by
  obtain ⟨_ | ⟨c, t⟩⟩ := p
  · simp [isAbsolute] at h
  · obtain rfl : c = '/' := by simpa [isAbsolute] using h
    have hn : normalComponents (components ⟨'/' :: t⟩)
        = .root :: (Step.leadAll [] (walked ⟨t⟩)).map .name := by
      rw [normalComponents, components_slash, List.foldl_cons,
        show push [] Component.root = stackOf [] from rfl, foldl_push_stackOf]
      simp [stackOf, walked]
    rw [normalize, hn, walked_slash, ofComponents, List.map_map]
    have ht : Component.text ∘ Component.name = id := rfl
    rw [ht, List.map_id, Disk.pathOf]

def Canonical (p : Path) : Prop := ∃ l : Location, (∀ n ∈ l, IsName n) ∧ p = Disk.pathOf l

theorem canonical_normalize {p : Path} (h : p.isAbsolute = true) : p.normalize.Canonical := by
  refine ⟨Step.leadAll [] p.walked, ?_, normalize_of_isAbsolute h⟩
  exact Step.isName_of_mem_leadAll (by simp) fun n hn => isName_of_down_mem_walked hn

theorem normalize_of_canonical {p : Path} (h : p.Canonical) : p.normalize = p := by
  obtain ⟨l, hl, rfl⟩ := h
  rw [normalize_of_isAbsolute (isAbsolute_pathOf l), walked_pathOf hl, Step.leadAll_map_down,
    List.nil_append]

theorem isAbsolute_of_canonical {p : Path} (h : p.Canonical) : p.isAbsolute = true := by
  obtain ⟨l, -, rfl⟩ := h
  rfl

theorem eq_of_same {p q : Path} (hp : p.Canonical) (hq : q.Canonical) (h : p.same q = true) :
    p = q := by
  obtain ⟨l, hl, rfl⟩ := hp
  obtain ⟨m, hm, rfl⟩ := hq
  rw [same, decide_eq_true_eq, components_pathOf hl, components_pathOf hm] at h
  have hinj : Function.Injective Component.name := fun _ _ h => by cases h; rfl
  rw [List.map_injective_iff.2 hinj (List.cons.inj h).2]

theorem join_of_isAbsolute (base : Path) {p : Path} (h : p.isAbsolute = true) :
    base.join p = p := by
  simp [join, h]

theorem isAbsolute_join_of_isAbsolute {base : Path} (p : Path) (h : base.isAbsolute = true) :
    (base.join p).isAbsolute = true := by
  cases hp : p.isAbsolute with
  | true => rw [join_of_isAbsolute base hp, hp]
  | false =>
    rw [isAbsolute_join base hp, h]
    rintro hb
    simp [isAbsolute, hb] at h

theorem canonical_included {folder : Path} (h : folder.Canonical) (raw : Text) :
    (folder.included raw).Canonical :=
  canonical_normalize (isAbsolute_join_of_isAbsolute _ (isAbsolute_of_canonical h))

end Path

theorem Expansion.folderOf_pathOf {l : Location} (hl : ∀ n ∈ l, IsName n) :
    folderOf (Disk.pathOf l) = Disk.pathOf l.dropLast := by
  rcases List.eq_nil_or_concat l with rfl | ⟨m, n, hm⟩
  · rfl
  · rw [List.concat_eq_append] at hm
    subst hm
    rw [folderOf, Path.parent?_pathOf_append hl, List.dropLast_concat]
    rfl

theorem Expansion.canonical_folderOf {p : Path} (h : p.Canonical) : (folderOf p).Canonical := by
  obtain ⟨l, hl, rfl⟩ := h
  exact ⟨l.dropLast, fun n hn => hl n (List.dropLast_subset l hn), folderOf_pathOf hl⟩

namespace Disk

/-- An absolute form is canonical. -/
theorem absolute_canonical {d : Disk} {p file : Path} (h : d.absolute p = .ok file) :
    file.Canonical := by
  unfold absolute at h
  split at h
  · simp at h
  · cases h
    exact Path.canonical_normalize
      (Path.isAbsolute_join_of_isAbsolute p (Path.isAbsolute_pathOf d.here))

/-- The absolute form of a path is the path of where it leads on paper. -/
theorem absolute_eq {d : Disk} {p file : Path} (hhere : ∀ n ∈ d.here, IsName n)
    (h : d.absolute p = .ok file) : file = pathOf (Step.leadAll (d.start p) p.walked) := by
  unfold absolute at h
  split at h
  · cases h
  · cases h
    have habs := Path.isAbsolute_join_of_isAbsolute p (Path.isAbsolute_pathOf d.here)
    rw [Path.normalize_of_isAbsolute habs]
    cases hp : p.isAbsolute with
    | true => rw [Path.join_of_isAbsolute _ hp, start, if_pos hp]
    | false =>
      rw [Path.walked_join _ hp, Path.walked_pathOf hhere, Step.leadAll_append,
        Step.leadAll_map_down, List.nil_append, start, hp, if_neg Bool.false_ne_true]

theorem absolute_of_canonical {d : Disk} {p : Path} (h : p.Canonical) : d.absolute p = .ok p := by
  have ha := Path.isAbsolute_of_canonical h
  have hne : p.text ≠ [] := by
    intro hp
    simp [Path.isAbsolute, hp] at ha
  rw [absolute, if_neg hne, Path.join_of_isAbsolute _ ha, Path.normalize_of_canonical h]

end Disk

end Pagefold
