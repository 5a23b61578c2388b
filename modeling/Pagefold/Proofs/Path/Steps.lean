import Pagefold.Disk.Edit

/-!
# The steps of a path

A path is walked step by step. Where its steps lead on paper, whatever is on the disk, is a location
of its own.

* `IsName`: what a name in a folder looks like;
* `Step.lead`, `Step.leadAll`: where steps lead on paper, `..` being the folder above;
* `Path.walked`: the steps of a path without the slash at its end, and `Path.steps_eq`, what the
  slash adds;
* `Path.walked_join`, `Path.walked_join_name`: the steps of a path below another one.
-/

namespace Pagefold

/-- A text that can be the name of an entry of a folder. -/
def IsName (n : Text) : Prop := n ≠ [] ∧ '/' ∉ n ∧ n ≠ ['.'] ∧ n ≠ ['.', '.']

instance (n : Text) : Decidable (IsName n) := by unfold IsName; infer_instance

namespace Step

/-! ## Where steps lead on paper -/

def lead (l : Location) : Step → Location
  | .stay => l
  | .slash => l
  | .up => l.dropLast
  | .down n => l ++ [n]

def leadAll (l : Location) (ss : List Step) : Location := ss.foldl lead l

@[simp] theorem leadAll_nil (l : Location) : leadAll l [] = l := rfl

@[simp] theorem leadAll_cons (l : Location) (s : Step) (ss : List Step) :
    leadAll l (s :: ss) = leadAll (s.lead l) ss := rfl

@[simp] theorem leadAll_append (l : Location) (ss rs : List Step) :
    leadAll l (ss ++ rs) = leadAll (leadAll l ss) rs := List.foldl_append

theorem leadAll_map_down (l ns : Location) : leadAll l (ns.map .down) = l ++ ns := by
  induction ns generalizing l with
  | nil => simp
  | cons n ns ih => simp [ih, lead]

@[simp] theorem leadAll_replicate_stay (l : Location) (k : Nat) :
    leadAll l (List.replicate k .stay) = l := by
  induction k with
  | zero => rfl
  | succ k ih => simpa [List.replicate_succ, lead] using ih

/-- Steps that never go up lead to a place below where they start. -/
theorem prefix_leadAll {ss : List Step} (h : .up ∉ ss) (l : Location) : l <+: leadAll l ss := by
  induction ss generalizing l with
  | nil => exact List.prefix_refl l
  | cons s ss ih =>
    have hs : .up ∉ ss := fun hm => h (List.mem_cons_of_mem _ hm)
    refine List.IsPrefix.trans ?_ (ih hs (s.lead l))
    cases s with
    | up => exact absurd List.mem_cons_self h
    | down n => exact List.prefix_append l [n]
    | stay => exact List.prefix_refl l
    | slash => exact List.prefix_refl l

theorem isName_of_mem_leadAll {ss : List Step} {l : Location} (hl : ∀ n ∈ l, IsName n)
    (hs : ∀ n, .down n ∈ ss → IsName n) : ∀ n ∈ leadAll l ss, IsName n := by
  induction ss generalizing l with
  | nil => exact hl
  | cons s ss ih =>
    refine ih ?_ fun n hn => hs n (List.mem_cons_of_mem _ hn)
    cases s with
    | up => exact fun n hn => hl n (List.dropLast_subset l hn)
    | down m =>
      intro n hn
      rcases List.mem_append.1 hn with hn | hn
      · exact hl n hn
      · rw [List.mem_singleton.1 hn]
        exact hs m List.mem_cons_self
    | stay => exact hl
    | slash => exact hl

/-! ## The steps of segments -/

theorem ofSegment?_of_isName {n : Text} (h : IsName n) : ofSegment? n = some (.down n) := by
  obtain ⟨h₁, -, h₃, h₄⟩ := h
  simp [ofSegment?, h₁, h₃, h₄]

theorem ofSegment?_of_isIdle {s : Text} (h : Path.isIdle s = true) :
    ofSegment? s = none ∨ ofSegment? s = some .stay := by
  simp only [Path.isIdle, Bool.or_eq_true, decide_eq_true_eq] at h
  rcases h with rfl | rfl
  · exact .inl rfl
  · exact .inr rfl

theorem filterMap_ofSegment?_of_isIdle {ss : List Text} (h : ∀ s ∈ ss, Path.isIdle s = true) :
    ∃ k, ss.filterMap ofSegment? = List.replicate k .stay := by
  induction ss with
  | nil => exact ⟨0, rfl⟩
  | cons s ss ih =>
    obtain ⟨k, hk⟩ := ih fun r hr => h r (List.mem_cons_of_mem _ hr)
    rcases ofSegment?_of_isIdle (h s List.mem_cons_self) with hs | hs
    · exact ⟨k, by simp [hs, hk]⟩
    · exact ⟨k + 1, by simp [hs, hk, List.replicate_succ]⟩

theorem isName_of_ofSegment? {s n : Text} (hs : '/' ∉ s) (h : ofSegment? s = some (.down n)) :
    IsName n := by
  unfold ofSegment? at h
  split at h
  · simp at h
  · split at h
    · simp at h
    · split at h
      · simp at h
      · next h₁ h₂ h₃ =>
        cases h
        exact ⟨h₁, hs, h₂, h₃⟩

end Step

namespace Path

/-! ## Segments -/

theorem segments_ne_nil (p : Path) : p.segments ≠ [] := List.splitOn_ne_nil _ _

theorem segments_append_slash (a b : Text) :
    segments ⟨a ++ '/' :: b⟩ = segments ⟨a⟩ ++ segments ⟨b⟩ :=
  List.splitOn_append_cons_self a b

theorem segments_slash (t : Text) : segments ⟨'/' :: t⟩ = [] :: segments ⟨t⟩ :=
  segments_append_slash [] t

theorem segments_of_not_mem {t : Text} (h : '/' ∉ t) : segments ⟨t⟩ = [t] :=
  List.splitOn_eq_singleton h

theorem joined_segments (p : Path) : Text.joined ['/'] p.segments = p.text :=
  List.intercalate_splitOn '/'

theorem segments_joined {ss : List Text} (h : ∀ s ∈ ss, '/' ∉ s) (hne : ss ≠ []) :
    segments ⟨Text.joined ['/'] ss⟩ = ss :=
  List.splitOn_intercalate '/' h hne

theorem not_mem_of_mem_segments {p : Path} {s : Text} (h : s ∈ p.segments) : '/' ∉ s := by
  obtain ⟨t⟩ := p
  induction t generalizing s with
  | nil =>
    simp only [segments, Text.splitAtChar, List.splitOn_nil, List.mem_singleton] at h
    simp [h]
  | cons c t ih =>
    by_cases hc : c = '/'
    · subst hc
      rw [segments_slash] at h
      rcases List.mem_cons.1 h with rfl | h
      · simp
      · exact ih h
    · simp only [segments, Text.splitAtChar, List.splitOn_cons_eq_if_modifyHead, beq_iff_eq, hc,
        if_false] at h
      cases hs : t.splitOn '/' with
      | nil => exact absurd hs (List.splitOn_ne_nil _ _)
      | cons u us =>
        rw [hs, List.modifyHead_cons] at h
        rcases List.mem_cons.1 h with rfl | h
        · have hu : '/' ∉ u := ih (by simp [segments, Text.splitAtChar, hs])
          simpa [Ne.symm hc] using hu
        · exact ih (by simp [segments, Text.splitAtChar, hs, h])

theorem segments_ne_of_getLast? {t : Text} {c : Char} (hc : c ≠ '/') :
    ∃ init s, segments ⟨t ++ [c]⟩ = init ++ [s] ∧ s ≠ [] := by
  induction t with
  | nil => exact ⟨[], [c], by rw [List.nil_append, segments_of_not_mem (by simp [hc.symm])]; rfl, by simp⟩
  | cons d t ih =>
    obtain ⟨init, s, hs, hne⟩ := ih
    by_cases hd : d = '/'
    · subst hd
      exact ⟨[] :: init, s, by rw [List.cons_append, segments_slash, hs]; rfl, hne⟩
    · have hm : segments ⟨(d :: t) ++ [c]⟩ = (segments ⟨t ++ [c]⟩).modifyHead (d :: ·) := by
        simp [segments, Text.splitAtChar, List.splitOn_cons_eq_if_modifyHead, hd]
      rw [hm, hs]
      cases init with
      | nil => exact ⟨[], d :: s, rfl, by simp⟩
      | cons u us => exact ⟨(d :: u) :: us, s, rfl, hne⟩

/-! ## Steps -/

/-- The steps of a path without the slash at its end. -/
def walked (p : Path) : List Step := p.segments.filterMap Step.ofSegment?

/-- The step of the slash at the end of a path. -/
def endStep (p : Path) : List Step := if p.text.getLast? = some '/' then [.slash] else []

theorem endStep_cases (p : Path) : p.endStep = [] ∨ p.endStep = [.slash] := by
  unfold endStep
  split
  · exact .inr rfl
  · exact .inl rfl

theorem steps_eq (p : Path) : p.steps = p.walked ++ p.endStep := by
  obtain ⟨t⟩ := p
  rcases List.eq_nil_or_concat t with rfl | ⟨u, c, ht⟩
  · rfl
  · rw [List.concat_eq_append] at ht
    subst ht
    by_cases hc : c = '/'
    · subst hc
      simp [steps, walked, endStep, segments_append_slash, segments_of_not_mem (t := []),
        Step.ofSegment?]
    · obtain ⟨init, s, hs, hne⟩ := segments_ne_of_getLast? (t := u) hc
      have he : endStep ⟨u ++ [c]⟩ = [] := by simp [endStep, hc]
      rw [he, List.append_nil]
      simp only [steps, walked, hs, List.dropLast_concat, List.getLast?_concat,
        List.filterMap_append]
      cases s with
      | nil => exact absurd rfl hne
      | cons a s => cases h : Step.ofSegment? (a :: s) <;> simp [h]

theorem isName_of_down_mem_walked {p : Path} {n : Text} (h : .down n ∈ p.walked) : IsName n := by
  obtain ⟨s, hs, hn⟩ := List.mem_filterMap.1 h
  exact Step.isName_of_ofSegment? (not_mem_of_mem_segments hs) hn

theorem isName_of_down_mem_steps {p : Path} {n : Text} (h : .down n ∈ p.steps) : IsName n := by
  rw [steps_eq, List.mem_append] at h
  refine isName_of_down_mem_walked (h.resolve_right fun he => ?_)
  unfold endStep at he
  split at he <;> simp at he

@[simp] theorem leadAll_endStep (p : Path) (l : Location) : Step.leadAll l p.endStep = l := by
  unfold endStep
  split <;> rfl

theorem leadAll_steps (p : Path) (l : Location) :
    Step.leadAll l p.steps = Step.leadAll l p.walked := by
  rw [steps_eq, Step.leadAll_append, leadAll_endStep]

/-! ## Below a folder -/

theorem walked_append_slash (a b : Text) :
    walked ⟨a ++ '/' :: b⟩ = walked ⟨a⟩ ++ walked ⟨b⟩ := by
  simp only [walked, segments_append_slash, List.filterMap_append]

theorem walked_nil : walked ⟨[]⟩ = [] := rfl

theorem walked_slash (t : Text) : walked ⟨'/' :: t⟩ = walked ⟨t⟩ := walked_append_slash [] t

theorem walked_of_isName {n : Text} (h : IsName n) : walked ⟨n⟩ = [.down n] := by
  rw [walked, segments_of_not_mem h.2.1]
  simp [Step.ofSegment?_of_isName h]

/-- The steps of a path below a folder are those of the folder and then its own. -/
theorem walked_join (base : Path) {p : Path} (h : p.isAbsolute = false) :
    (base.join p).walked = base.walked ++ p.walked := by
  obtain ⟨b⟩ := base
  obtain ⟨t⟩ := p
  simp only [join, h, Bool.false_eq_true, if_false]
  split
  · next hb =>
    simp only [Bool.or_eq_true, decide_eq_true_eq] at hb
    rcases hb with rfl | hb
    · rfl
    · -- the slash is there already
      obtain ⟨b', rfl⟩ := List.getLast?_eq_some_iff.1 hb
      rw [walked_append_slash, walked_nil, List.append_nil, List.append_assoc,
        List.singleton_append, walked_append_slash]
  · exact walked_append_slash b t

theorem isAbsolute_join (base : Path) {p : Path} (h : p.isAbsolute = false)
    (hb : base.text ≠ []) : (base.join p).isAbsolute = base.isAbsolute := by
  obtain ⟨_ | ⟨c, b⟩⟩ := base
  · exact absurd rfl hb
  · simp only [join, h, Bool.false_eq_true, if_false]
    split <;> simp [isAbsolute]

theorem endStep_join_nil {base : Path} (h : base.text ≠ []) :
    (base.join ⟨[]⟩).endStep = [.slash] := by
  have ha : isAbsolute ⟨[]⟩ = false := rfl
  simp only [join, ha, Bool.false_eq_true, if_false, h, decide_false, Bool.false_or,
    decide_eq_true_eq]
  split
  · next hlast => simp [endStep, hlast]
  · simp [endStep]

theorem isAbsolute_of_isName {n : Text} (h : IsName n) : isAbsolute ⟨n⟩ = false := by
  obtain ⟨-, h, -, -⟩ := h
  cases n with
  | nil => rfl
  | cons c n =>
    simp only [List.mem_cons, not_or] at h
    simp [isAbsolute, Ne.symm h.1]

theorem walked_join_name (p : Path) {n : Text} (hn : IsName n) :
    (p.join ⟨n⟩).walked = p.walked ++ [.down n] := by
  rw [walked_join p (isAbsolute_of_isName hn), walked_of_isName hn]

end Path

end Pagefold
