import Mathlib.Data.List.Induction
import Pagefold.Flatten
import Pagefold.Proofs.Path.Canonical

/-!
# From one folder to another place

A relative path goes up to where two paths part and down from there. Followed from the folder that it
starts in, it leads where its target leads, whatever `..` the target has in it.

* `Path.Component.step`, `Path.leadAll_map_step`: where an absolute path leads, by its components;
* `Path.afterCommon_append`: two paths are their common beginning and what remains of each;
* `Path.leadAll_relative`, `Path.normalize_join_relative`: where a relative path leads;
* `Flatten.startFor?_leads`: a reference to an asset leads to the same place before and after it is
  given its new start.
-/

namespace Pagefold

namespace Path

variable {p q target base : Path} {c : Component} {cs : List Component} {x : Char}

/-! ## Components and steps -/

def Component.step : Component → Step
  | root => .stay
  | current => .stay
  | parent => .up
  | name n => .down n

/-- A component that a segment behind the first one can be. -/
def Component.IsInner : Component → Prop
  | parent => True
  | name n => IsName n
  | root => False
  | current => False

/-- Idle segments aside, the components of segments take the same steps. -/
theorem leadAll_map_step (ss : List Text) (l : Location) :
    Step.leadAll l ((ss.filterMap innerComponent?).map Component.step)
      = Step.leadAll l (ss.filterMap Step.ofSegment?) := by
  induction ss generalizing l with
  | nil => rfl
  | cons s ss ih =>
    rcases segment_cases s with hidle | rfl | ⟨hstep, hcomponent, -⟩
    · have hcomponent : innerComponent? s = none := by rw [innerComponent?, if_pos hidle]
      rw [List.filterMap_cons_none hcomponent, ih]
      rcases Step.ofSegment?_of_isIdle hidle with hstep | hstep
      · rw [List.filterMap_cons_none hstep]
      · rw [List.filterMap_cons_some hstep]
        rfl
    · exact ih l.dropLast
    · rw [List.filterMap_cons_some hcomponent, List.filterMap_cons_some hstep]
      exact ih (l ++ [s])

theorem isInner_of_innerComponent? {s : Text} (hs : '/' ∉ s) (h : innerComponent? s = some c) :
    c.IsInner := by
  rcases segment_cases s with hidle | rfl | ⟨hstep, hcomponent, -⟩
  · rw [innerComponent?, if_pos hidle] at h
    cases h
  · obtain rfl : Component.parent = c := Option.some.inj h
    trivial
  · rw [hcomponent] at h
    cases h
    exact Step.isName_of_ofSegment? hs hstep

/-- The components of an absolute path behind its root take its steps. -/
theorem components_of_isAbsolute (h : p.isAbsolute = true) :
    ∃ inner, p.components = .root :: inner ∧ (∀ c ∈ inner, c.IsInner) ∧
      ∀ l, Step.leadAll l (inner.map Component.step) = Step.leadAll l p.walked := by
  obtain ⟨_ | ⟨c, t⟩⟩ := p
  · cases h
  · obtain rfl : c = '/' := by simpa [isAbsolute] using h
    refine ⟨_, components_slash t, fun c hc => ?_, fun l => ?_⟩
    · obtain ⟨s, hs, hsc⟩ := List.mem_filterMap.1 hc
      exact isInner_of_innerComponent? (not_mem_of_mem_segments hs) hsc
    · rw [leadAll_map_step, walked_slash]
      rfl

theorem walked_text (h : c.IsInner) : walked ⟨c.text⟩ = [c.step] := by
  cases c with
  | root => exact h.elim
  | current => exact h.elim
  | parent => rfl
  | name n => exact walked_of_isName h

theorem isAbsolute_text (h : c.IsInner) : isAbsolute ⟨c.text⟩ = false := by
  cases c with
  | root => exact h.elim
  | current => exact h.elim
  | parent => rfl
  | name n => exact isAbsolute_of_isName h

/-! ## Paths put together -/

theorem join_nil_left (q : Path) : join ⟨[]⟩ q = q := by
  unfold join
  split <;> rfl

theorem isAbsolute_join_eq_false (hp : p.isAbsolute = false) (hq : q.isAbsolute = false) :
    (p.join q).isAbsolute = false := by
  by_cases hnil : p.text = []
  · obtain rfl : p = ⟨[]⟩ := by rw [← hnil]
    rw [join_nil_left, hq]
  · rw [isAbsolute_join p hq hnil, hp]

theorem mem_text_join (h : x ∈ (p.join q).text) : x ∈ p.text ∨ x = '/' ∨ x ∈ q.text := by
  unfold join at h
  split at h
  · exact .inr (.inr h)
  · split at h
    · exact (List.mem_append.1 h).imp_right .inr
    · exact (List.mem_append.1 h).imp_right List.mem_cons.1

theorem mem_text_of_mem_segments {s : Text} (hs : s ∈ p.segments) (hx : x ∈ s) : x ∈ p.text := by
  obtain ⟨t⟩ := p
  induction t generalizing s with
  | nil =>
    simp only [segments, Text.splitAtChar, List.splitOn_nil, List.mem_singleton] at hs
    exact hs ▸ hx
  | cons c t ih =>
    by_cases hc : c = '/'
    · subst hc
      rw [segments_slash] at hs
      rcases List.mem_cons.1 hs with rfl | hs
      · cases hx
      · exact List.mem_cons_of_mem _ (ih hx hs)
    · simp only [segments, Text.splitAtChar, List.splitOn_cons_eq_if_modifyHead, beq_iff_eq, hc,
        if_false] at hs
      cases ht : t.splitOn '/' with
      | nil => exact absurd ht (List.splitOn_ne_nil _ _)
      | cons u us =>
        have hmem : ∀ v ∈ u :: us, x ∈ v → x ∈ t := fun v hv hx =>
          ih hx (by simpa only [segments, Text.splitAtChar, ht] using hv)
        rw [ht, List.modifyHead_cons] at hs
        rcases List.mem_cons.1 hs with rfl | hs
        · exact (List.mem_cons.1 hx).elim (fun h => h ▸ List.mem_cons_self)
            fun h => List.mem_cons_of_mem c (hmem u List.mem_cons_self h)
        · exact List.mem_cons_of_mem c (hmem s (List.mem_cons_of_mem u hs) hx)

def joinAll (p : Path) (cs : List Component) : Path := cs.foldl (fun p c => p.join ⟨c.text⟩) p

theorem joinAll_cons (p : Path) (c : Component) (cs : List Component) :
    joinAll p (c :: cs) = joinAll (p.join ⟨c.text⟩) cs := rfl

theorem walked_joinAll (hcs : ∀ c ∈ cs, c.IsInner) (p : Path) :
    (joinAll p cs).walked = p.walked ++ cs.map Component.step := by
  induction cs generalizing p with
  | nil => simp [joinAll]
  | cons c cs ih =>
    have hc := hcs c List.mem_cons_self
    rw [joinAll_cons, ih (fun d hd => hcs d (List.mem_cons_of_mem c hd)),
      walked_join p (isAbsolute_text hc), walked_text hc, List.map_cons, List.append_assoc]
    rfl

theorem isAbsolute_joinAll (hcs : ∀ c ∈ cs, c.IsInner) (hp : p.isAbsolute = false) :
    (joinAll p cs).isAbsolute = false := by
  induction cs generalizing p with
  | nil => exact hp
  | cons c cs ih =>
    have hc := hcs c List.mem_cons_self
    exact ih (fun d hd => hcs d (List.mem_cons_of_mem c hd))
      (isAbsolute_join_eq_false hp (isAbsolute_text hc))

theorem mem_text_joinAll (h : x ∈ (joinAll p cs).text) :
    x ∈ p.text ∨ x = '/' ∨ ∃ c ∈ cs, x ∈ c.text := by
  induction cs generalizing p with
  | nil => exact .inl h
  | cons c cs ih =>
    rcases ih h with h | h | ⟨d, hd, hx⟩
    · rcases mem_text_join h with h | h | h
      · exact .inl h
      · exact .inr (.inl h)
      · exact .inr (.inr ⟨c, List.mem_cons_self, h⟩)
    · exact .inr (.inl h)
    · exact .inr (.inr ⟨d, List.mem_cons_of_mem c hd, hx⟩)

/-! ## Relative paths -/

/-- Two lists of components are a common beginning and what remains of each. -/
theorem afterCommon_append (as bs : List Component) :
    ∃ common, as = common ++ (afterCommon as bs).1 ∧ bs = common ++ (afterCommon as bs).2 := by
  induction as generalizing bs with
  | nil => exact ⟨[], rfl, rfl⟩
  | cons a as ih =>
    cases bs with
    | nil => exact ⟨[], rfl, rfl⟩
    | cons b bs =>
      rw [afterCommon]
      split
      · next hab =>
        obtain ⟨common, has, hbs⟩ := ih bs
        refine ⟨a :: common, ?_, ?_⟩
        · rw [List.cons_append, ← has]
        · rw [List.cons_append, ← hbs, hab]
      · exact ⟨[], rfl, rfl⟩

/-- The components of a relative path: up from the base, then down to the target. -/
def wayTo (target base : Path) : List Component :=
  (afterCommon target.components base.components).2.map (fun _ => Component.parent)
    ++ (afterCommon target.components base.components).1

/-- A relative path is written by its components, or as `.` where it has none. -/
theorem relative_eq (target base : Path) :
    target.relative base =
      if (joinAll ⟨[]⟩ (wayTo target base)).text = [] then ⟨['.']⟩
      else joinAll ⟨[]⟩ (wayTo target base) := rfl

/-- Going up as many folders as there are names leads back to where they start. -/
theorem leadAll_replicate_up (l m : Location) :
    Step.leadAll (l ++ m) (List.replicate m.length .up) = l := by
  induction m using List.reverseRecOn with
  | nil => simp
  | append_singleton m n ih =>
    rw [List.length_append, List.length_singleton, List.replicate_succ, Step.leadAll_cons,
      ← List.append_assoc]
    change Step.leadAll ((l ++ m) ++ [n]).dropLast _ = l
    rw [List.dropLast_concat, ih]

/-- The way to a target goes up from the base to where both part, and down from there. -/
theorem leadAll_wayTo (htarget : target.isAbsolute = true) (hbase : base.Canonical) :
    (∀ c ∈ wayTo target base, c.IsInner) ∧
      Step.leadAll (Step.leadAll [] base.walked) ((wayTo target base).map Component.step)
        = Step.leadAll [] target.walked := by
  obtain ⟨inner, hinner, hsegments, hlead⟩ := components_of_isAbsolute htarget
  obtain ⟨l, hl, rfl⟩ := hbase
  unfold wayTo
  rw [hinner, components_pathOf hl, afterCommon, if_pos rfl]
  -- Behind what both have in common, the base goes on with `up` and the target with `down`.
  obtain ⟨common, hdown, hup⟩ := afterCommon_append inner (l.map .name)
  generalize (afterCommon inner (l.map .name)).1 = down at hdown ⊢
  generalize (afterCommon inner (l.map .name)).2 = up at hup ⊢
  obtain ⟨stay, back, rfl, rfl, rfl⟩ := List.map_eq_append_iff.1 hup
  have hsteps : ∀ ns : Location, (ns.map Component.name).map Component.step = ns.map .down :=
    fun ns => List.map_map
  refine ⟨fun c hc => ?_, ?_⟩
  · rcases List.mem_append.1 hc with hc | hc
    · obtain ⟨d, -, rfl⟩ := List.mem_map.1 hc
      trivial
    · exact hsegments c (hdown ▸ List.mem_append_right _ hc)
  · calc Step.leadAll (Step.leadAll [] (Disk.pathOf (stay ++ back)).walked)
          (((back.map Component.name).map (fun _ => Component.parent) ++ down).map Component.step)
        = Step.leadAll (Step.leadAll (stay ++ back) (List.replicate back.length .up))
            (down.map Component.step) := by
          rw [walked_pathOf hl, Step.leadAll_map_down, List.nil_append, List.map_append,
            Step.leadAll_append, List.map_map, List.map_map, ← List.map_const']
          rfl
      _ = Step.leadAll stay (down.map Component.step) := by rw [leadAll_replicate_up]
      _ = Step.leadAll [] (inner.map Component.step) := by
          rw [hdown, List.map_append, Step.leadAll_append, hsteps, Step.leadAll_map_down,
            List.nil_append]
      _ = Step.leadAll [] target.walked := hlead []

/-- A relative path has no slash at its front, and leads from its base to its target. -/
theorem leadAll_relative (htarget : target.isAbsolute = true) (hbase : base.Canonical) :
    (target.relative base).isAbsolute = false ∧ (target.relative base).text ≠ [] ∧
      Step.leadAll (Step.leadAll [] base.walked) (target.relative base).walked
        = Step.leadAll [] target.walked := by
  obtain ⟨hinner, hlead⟩ := leadAll_wayTo htarget hbase
  have hwalked := walked_joinAll hinner ⟨[]⟩
  rw [walked_nil, List.nil_append] at hwalked
  rw [relative_eq]
  split
  · next hnil =>
    -- nothing remains of either path, and `.` stays where the base leads
    have hnone : joinAll ⟨[]⟩ (wayTo target base) = ⟨[]⟩ := congrArg Path.mk hnil
    rw [hnone, walked_nil] at hwalked
    rw [← hwalked] at hlead
    exact ⟨rfl, by simp, hlead⟩
  · next hne => exact ⟨isAbsolute_joinAll hinner rfl, hne, by rw [hwalked, hlead]⟩

theorem text_of_innerComponent? {s : Text} (h : innerComponent? s = some c) : c.text = s := by
  unfold innerComponent? at h
  split at h
  · cases h
  · split at h
    · next hup =>
      cases h
      exact hup.symm
    · cases h
      rfl

theorem mem_text_relative (htarget : target.isAbsolute = true)
    (h : x ∈ (target.relative base).text) : x = '/' ∨ x = '.' ∨ x ∈ target.text := by
  rw [relative_eq] at h
  split at h
  · exact .inr (.inl (List.mem_singleton.1 h))
  rcases mem_text_joinAll h with h | h | ⟨c, hc, hx⟩
  · cases h
  · exact .inl h
  rcases List.mem_append.1 hc with hc | hc
  · obtain ⟨d, -, rfl⟩ := List.mem_map.1 hc
    have hx : x ∈ ['.', '.'] := hx
    exact .inr (.inl (by simpa using hx))
  · obtain ⟨common, hdown, -⟩ := afterCommon_append target.components base.components
    have hmem : c ∈ target.components := hdown ▸ List.mem_append_right _ hc
    obtain ⟨_ | ⟨a, t⟩⟩ := target
    · cases htarget
    obtain rfl : a = '/' := by simpa [isAbsolute] using htarget
    rw [components_slash] at hmem
    rcases List.mem_cons.1 hmem with rfl | hmem
    · exact .inl (List.mem_singleton.1 hx)
    · obtain ⟨s, hs, hsc⟩ := List.mem_filterMap.1 hmem
      rw [text_of_innerComponent? hsc] at hx
      exact .inr (.inr (List.mem_cons_of_mem _ (mem_text_of_mem_segments hs hx)))

/-- A relative path taken from its base has the normal form of its target. -/
theorem normalize_join_relative (htarget : target.isAbsolute = true) (hbase : base.Canonical) :
    (base.join (target.relative base)).normalize = target.normalize := by
  obtain ⟨hrelative, -, hlead⟩ := leadAll_relative htarget hbase
  have habs := isAbsolute_join_of_isAbsolute (target.relative base) (isAbsolute_of_canonical hbase)
  rw [normalize_of_isAbsolute habs, normalize_of_isAbsolute htarget, walked_join base hrelative,
    Step.leadAll_append, hlead]

/-- What is written behind a relative path is taken from where that path leads. -/
theorem normalize_join_slash (hbase : base.isAbsolute = true) (hp : p.isAbsolute = false)
    (hne : p.text ≠ []) (s : Text) :
    (base.join ⟨p.text ++ '/' :: s⟩).normalize =
      Disk.pathOf (Step.leadAll (Step.leadAll (Step.leadAll [] base.walked) p.walked)
        (walked ⟨s⟩)) := by
  have hrelative : isAbsolute ⟨p.text ++ '/' :: s⟩ = false := by
    cases ht : p.text with
    | nil => exact absurd ht hne
    | cons c t => simpa [isAbsolute, ht] using hp
  rw [normalize_of_isAbsolute (isAbsolute_join_of_isAbsolute _ hbase), walked_join base hrelative,
    walked_append_slash, Step.leadAll_append, Step.leadAll_append]

theorem canonical_of_normalize_eq (habs : p.isAbsolute = true) (h : p.normalize = p) :
    p.Canonical := h ▸ canonical_normalize habs

theorem forwardSlashes_of_not_mem (h : '\\' ∉ p.text) : p.forwardSlashes = p.text := by
  unfold forwardSlashes
  conv_rhs => rw [← List.map_id p.text]
  refine List.map_congr_left fun c hc => ?_
  rw [if_neg fun (hback : c = '\\') => h (hback ▸ hc)]
  rfl

end Path

namespace Flatten

variable {d : Disk} {source output : Path} {folderName : Text}

/-- What references are given as their start leads, from the folder of the output, where the asset
folder lies. -/
theorem startFor?_eq (hsource : source.isAbsolute = true)
    (hback : '\\' ∉ source.text ++ folderName) {start : Text}
    (h : startFor? d source output folderName = some start) :
    start = ((source.join ⟨folderName⟩).relative output).text ++ ['/'] := by
  unfold startFor? at h
  simp only at h
  split at h
  · cases h
    have habs := Path.isAbsolute_join_of_isAbsolute ⟨folderName⟩ hsource
    rw [Path.forwardSlashes_of_not_mem]
    intro hmem
    rcases Path.mem_text_relative habs hmem with h | h | h
    · cases h
    · cases h
    · rcases Path.mem_text_join h with h | h | h
      · exact hback (List.mem_append_left _ h)
      · cases h
      · exact hback (List.mem_append_right _ h)
  · cases h

/-- The start that references are given ends with a slash, and a reference leads from the folder of
the output where it led from the folder of the page. It is the path from the one folder to the other,
and that path leads to its target from every base. -/
theorem startFor?_leads (d : Disk) (source output : Path) (folderName : Text)
    (hsource : source.isAbsolute = true) (houtput : output.isAbsolute = true)
    (hnormal : output.normalize = output)
    (hne : folderName ≠ []) (hrelative : Path.isAbsolute ⟨folderName⟩ = false)
    (hback : '\\' ∉ source.text ++ folderName) :
    (∀ start, startFor? d source output folderName = some start →
      start.getLast? = some '/' ∧ ∀ s,
        (output.join ⟨start ++ s⟩).normalize = (source.join ⟨folderName ++ '/' :: s⟩).normalize) ∧
    (∀ target base : Path, target.isAbsolute = true → base.isAbsolute = true →
      base.normalize = base → (base.join (target.relative base)).normalize = target.normalize) := by
  have hcanonical := Path.canonical_of_normalize_eq houtput hnormal
  refine ⟨fun start h => ?_, fun target base htarget hbase hbaseNormal =>
    Path.normalize_join_relative htarget (Path.canonical_of_normalize_eq hbase hbaseNormal)⟩
  obtain rfl := startFor?_eq hsource hback h
  refine ⟨List.getLast?_concat, fun s => ?_⟩
  have hassets := Path.isAbsolute_join_of_isAbsolute ⟨folderName⟩ hsource
  obtain ⟨hrel, hrelNe, hlead⟩ := Path.leadAll_relative hassets hcanonical
  rw [List.append_assoc, List.singleton_append, Path.normalize_join_slash houtput hrel hrelNe,
    Path.normalize_join_slash (p := ⟨folderName⟩) hsource hrelative hne, hlead,
    Path.walked_join source hrelative, Step.leadAll_append]

def sharedSite : Disk :=
  ⟨⟨[(["site".toList], .folder), (["site".toList, "pages".toList], .folder),
    (["site".toList, "shared".toList], .folder)]⟩, []⟩

theorem startFor?_leads_of_shared :
    startFor? sharedSite ⟨"/site/pages".toList⟩ ⟨"/site/out/en".toList⟩ "../shared".toList
      = some "../../pages/../shared/".toList ∧
    (∀ s, (Path.join ⟨"/site/out/en".toList⟩ ⟨"../../pages/../shared/".toList ++ s⟩).normalize
      = (Path.join ⟨"/site/pages".toList⟩ ⟨"../shared".toList ++ '/' :: s⟩).normalize) ∧
    (Path.join ⟨"/site/out".toList⟩ (Path.relative ⟨"/./site/a/../b/".toList⟩
      ⟨"/site/out".toList⟩)).normalize = ⟨"/site/b".toList⟩ := by
  obtain ⟨hstart, hrelative⟩ := startFor?_leads sharedSite ⟨"/site/pages".toList⟩
    ⟨"/site/out/en".toList⟩ "../shared".toList rfl rfl (by decide) (by decide) rfl (by decide)
  have h : startFor? sharedSite ⟨"/site/pages".toList⟩ ⟨"/site/out/en".toList⟩ "../shared".toList
      = some "../../pages/../shared/".toList := by decide
  refine ⟨h, (hstart _ h).2, ?_⟩
  rw [hrelative _ _ rfl rfl (by decide)]
  decide

end Flatten

end Pagefold
