import Pagefold.Proofs.Path.Canonical

/-!
# The paths above a path

The parent of an absolute path is a beginning of it, and the paths above a path are its parent and the
paths above that one.

* `Path.Points`: an absolute path without `..`, and the location where it leads on paper;
* `Path.parent?_of_isAbsolute`: the text of a parent;
* `Path.ancestors_of_parent?`: the paths above a path, one at a time.
-/

namespace Pagefold

namespace Text

theorem joined_prefix (sep : Text) {ss : List Text} (h : ss ≠ []) (rs : List Text) :
    joined sep ss <+: joined sep (ss ++ rs) := by
  induction ss with
  | nil => exact absurd rfl h
  | cons s ss ih =>
    cases ss with
    | nil =>
      cases rs with
      | nil => exact List.prefix_refl _
      | cons r rs => simp [joined, List.intercalate_cons_of_ne_nil]
    | cons t ss =>
      have hstep : ∀ us, joined sep (s :: t :: us) = s ++ sep ++ joined sep (t :: us) :=
        fun us => List.intercalate_cons_of_ne_nil (by simp)
      rw [List.cons_append, List.cons_append, hstep, hstep, List.prefix_append_right_inj]
      exact ih (by simp)

end Text

namespace Path

variable {p q : Path} {l : Location} {n : Text}

/-! ## Locations on paper -/

/-- An absolute path that never goes up leads to a location on paper. -/
structure Points (p : Path) (l : Location) : Prop where
  absolute : p.isAbsolute = true
  noUp : .up ∉ p.walked
  place : Step.leadAll [] p.walked = l

theorem Points.text_ne_nil (h : p.Points l) : p.text ≠ [] := by
  intro hnil
  have habs := h.absolute
  rw [isAbsolute, hnil] at habs
  cases habs

theorem Points.start_eq (h : p.Points l) (d : Disk) : d.start p = [] := by
  rw [Disk.start, if_pos h.absolute]

theorem Points.join (h : p.Points l) (hn : IsName n) : (p.join ⟨n⟩).Points (l ++ [n]) where
  absolute := by
    rw [isAbsolute_join p (isAbsolute_of_isName hn) h.text_ne_nil]
    exact h.absolute
  noUp := by
    rw [walked_join_name p hn]
    simpa using h.noUp
  place := by
    rw [walked_join_name p hn, Step.leadAll_append, h.place]
    rfl

theorem Points.join_nil (h : p.Points l) : (p.join ⟨[]⟩).Points l where
  absolute := by
    rw [isAbsolute_join p rfl h.text_ne_nil]
    exact h.absolute
  noUp := by
    rw [walked_join p rfl, walked_nil, List.append_nil]
    exact h.noUp
  place := by
    rw [walked_join p rfl, walked_nil, List.append_nil]
    exact h.place

theorem slash_not_mem_walked (p : Path) : .slash ∉ p.walked := by
  intro h
  obtain ⟨s, -, hs⟩ := List.mem_filterMap.1 h
  unfold Step.ofSegment? at hs
  split at hs
  · cases hs
  · split at hs
    · cases hs
    · split at hs <;> cases hs

theorem Points.exists_last (h : p.Points l) (hl : l ≠ []) (hlast : p.walked.getLast? ≠ some .stay) :
    ∃ ss n folder, p.walked = ss ++ [.down n] ∧ Step.leadAll [] ss = folder ∧ l = folder ++ [n] := by
  rcases List.eq_nil_or_concat p.walked with hnil | ⟨ss, x, hss⟩
  · have hplace := h.place
    rw [hnil] at hplace
    exact absurd hplace.symm hl
  · rw [List.concat_eq_append] at hss
    have hmem : x ∈ p.walked := by simp [hss]
    cases x with
    | stay => exact absurd (by rw [hss, List.getLast?_concat]) hlast
    | up => exact absurd hmem h.noUp
    | slash => exact absurd hmem p.slash_not_mem_walked
    | down n =>
      refine ⟨ss, n, _, hss, rfl, ?_⟩
      rw [← h.place, hss, Step.leadAll_append]
      rfl

/-! ## Parents -/

/-- The parent of an absolute path is a beginning of its text, and ends with no `.`. -/
theorem parent?_of_isAbsolute (habs : p.isAbsolute = true) (h : p.parent? = some q) :
    q.text <+: p.text ∧ q.walked.getLast? ≠ some .stay := by
  obtain ⟨first, rest, hss⟩ := List.exists_cons_of_ne_nil p.segments_ne_nil
  have hslash : ∀ s ∈ first :: rest, '/' ∉ s :=
    fun s hs => not_mem_of_mem_segments (hss ▸ hs)
  have htext : p.text = Text.joined ['/'] (first :: rest) := by rw [← hss, joined_segments]
  obtain ⟨rfl, hrest⟩ : first = [] ∧ rest ≠ [] := by
    rwa [isAbsolute_of_segments hss, decide_eq_true_eq] at habs
  unfold parent? at h
  rw [hss] at h
  simp only at h
  rcases last_segment_cases rest with ⟨hback, -⟩ | ⟨before, last, idle, hsplit, hback, -, -⟩
  · rw [hback] at h
    cases h
  · rw [hback] at h
    simp only at h
    obtain ⟨around, hbefore, -⟩ := exists_idle_suffix before
    have hhead := List.head?_dropWhile_not isIdle before.reverse
    generalize before.reverse.dropWhile isIdle = kept at h hbefore hhead
    cases kept with
    | nil =>
      cases h
      -- Only the slash of the root is left.
      refine ⟨?_, by simp [walked_slash, walked_nil]⟩
      rw [isAbsolute, decide_eq_true_eq] at habs
      obtain ⟨t, ht⟩ := List.head?_eq_some_iff.1 habs
      exact ⟨t, ht.symm⟩
    | cons k ks =>
      cases h
      have hk : isIdle k = false := by simpa using hhead
      have hall : [] :: rest = ([] :: (k :: ks).reverse) ++ (around ++ last :: idle) := by
        rw [hsplit, hbefore]
        simp
      constructor
      · rw [htext, hall]
        exact Text.joined_prefix _ (by simp) _
      · have hsegments : segments ⟨Text.joined ['/'] ([] :: (k :: ks).reverse)⟩
            = ([] :: ks.reverse) ++ [k] := by
          rw [segments_joined (fun s hs => hslash s ?_) (by simp)]
          · simp
          · rw [hall]
            exact List.mem_append_left _ hs
        obtain ⟨x, hx, hstay⟩ : ∃ x, Step.ofSegment? k = some x ∧ x ≠ .stay := by
          rcases segment_cases k with hidle | rfl | ⟨hstep, -, -⟩
          · rw [hidle] at hk
            cases hk
          · exact ⟨.up, rfl, by simp⟩
          · exact ⟨.down k, hstep, by simp⟩
        rw [walked, hsegments, List.filterMap_append, List.filterMap_cons_some hx,
          List.filterMap_nil, List.getLast?_concat]
        simpa using hstay

/-- The steps of a path that ends with a name are those of its parent, and then the name. -/
theorem walked_of_parent?_of_last {ss : List Step} (h : p.parent? = some q)
    (hp : p.walked = ss ++ [.down n]) : ∃ i, ss = q.walked ++ List.replicate i .stay := by
  obtain ⟨-, i, x, j, hwalked⟩ := walked_of_parent? h
  refine ⟨i, ?_⟩
  cases j with
  | zero =>
    rw [hp, List.replicate_zero] at hwalked
    exact (List.append_inj' hwalked rfl).1
  | succ j =>
    rw [hp, List.replicate_succ', ← List.cons_append, ← List.append_assoc] at hwalked
    have hlast := (List.append_inj' hwalked rfl).2
    simp at hlast

/-! ## Ancestors -/

theorem length_walked_lt (h : p.parent? = some q) : q.walked.length < p.walked.length := by
  obtain ⟨-, i, x, j, hwalked⟩ := walked_of_parent? h
  rw [hwalked]
  simp only [List.length_append, List.length_cons]
  omega

theorem ancestorsWithin_eq {i j : Nat} (hi : p.walked.length < i) (hj : p.walked.length < j) :
    ancestorsWithin i p = ancestorsWithin j p := by
  induction i generalizing p j with
  | zero => omega
  | succ i ih =>
    obtain ⟨j, rfl⟩ := Nat.exists_eq_succ_of_ne_zero (Nat.ne_zero_of_lt hj)
    rw [ancestorsWithin, ancestorsWithin]
    cases hq : p.parent? with
    | none => rfl
    | some q =>
      have hlt := length_walked_lt hq
      simp only
      rw [ih (p := q) (j := j) (by omega) (by omega)]

theorem length_walked_le (p : Path) : p.walked.length ≤ p.segments.length :=
  List.length_filterMap_le _ _

theorem ancestors_of_parent? (h : p.parent? = some q) : p.ancestors = p :: q.ancestors := by
  have hp := p.length_walked_le
  have hlt := length_walked_lt h
  rw [ancestors, ancestorsWithin, h]
  simp only
  rw [ancestors, ancestorsWithin_eq (p := q) (by omega)]
  exact Nat.lt_succ_of_le q.length_walked_le

end Path

end Pagefold
