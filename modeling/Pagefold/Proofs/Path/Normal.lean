import Pagefold.Proofs.Path.Relative

/-!
# Normal forms

The normal form of a path is read on a stack of components. What is on the stack in the end leads
every other stack where the steps of the path lead it. So a path can be exchanged for its normal
form, as the base of another path and below another one.

* `Step.onto`, `Path.stacked`, `Path.stacked_eq`: a path is read on a stack by its steps;
* `Path.IsStack`: the stacks that come up, names above the root or above some `..`;
* `Path.components_normalize`: a normal form has the components that were on the stack;
* `Path.replayed`, `Path.foldl_onto_normalize`: a stack put on another one, component by component;
* `Path.normalize_join_left`, `Path.normalize_join_right`: normal forms and joining;
* `Path.IsNormal`, `Path.normalize_respelled`: what a normal form looks like, and that it stands for
  all spellings of a path.
-/

namespace Pagefold

/-- A stack of components after one more step. -/
def Step.onto (stack : List Path.Component) : Step → List Path.Component
  | stay => stack
  | slash => stack
  | up => Path.push stack .parent
  | down n => Path.push stack (.name n)

namespace Path

variable {p r : Path} {c : Component} {cs stack below : List Component} {absolute : Bool} {n : Text}
  {s : Step} {ss : List Step}

/-! ## Reading a path on a stack -/

theorem push_name (stack : List Component) (n : Text) :
    push stack (.name n) = .name n :: stack := by
  cases stack with
  | nil => rfl
  | cons c stack => cases c <;> rfl

theorem push_replicate_parent (k : Nat) :
    push (List.replicate k .parent) .parent = List.replicate (k + 1) .parent := by
  cases k <;> rfl

/-- Idle segments aside, segments are read by their steps. -/
theorem foldl_push_inner (segments : List Text) (stack : List Component) :
    (segments.filterMap innerComponent?).foldl push stack
      = (segments.filterMap Step.ofSegment?).foldl Step.onto stack := by
  induction segments generalizing stack with
  | nil => rfl
  | cons s segments ih =>
    rcases segment_cases s with hidle | rfl | ⟨hstep, hcomponent, -⟩
    · have hcomponent : innerComponent? s = none := by rw [innerComponent?, if_pos hidle]
      rw [List.filterMap_cons_none hcomponent, ih]
      rcases Step.ofSegment?_of_isIdle hidle with hstep | hstep
      · rw [List.filterMap_cons_none hstep]
      · rw [List.filterMap_cons_some hstep]
        rfl
    · exact ih (push stack .parent)
    · rw [List.filterMap_cons_some hcomponent, List.filterMap_cons_some hstep]
      exact ih (push stack (.name s))

theorem push_firstComponent {first : Text} (h : first ≠ []) (stack : List Component) :
    push stack (firstComponent first) = (innerComponent? first).toList.foldl push stack := by
  rcases segment_cases first with hidle | rfl | ⟨-, hinner, hfirst⟩
  · obtain rfl : first = ['.'] := by simpa [isIdle, h] using hidle
    cases stack with
    | nil => rfl
    | cons c stack => cases c <;> rfl
  · rfl
  · rw [hinner, hfirst]
    rfl

theorem foldl_push_components (h : p.isAbsolute = false) (stack : List Component) :
    p.components.foldl push stack = p.walked.foldl Step.onto stack := by
  by_cases hp : p.text = []
  · obtain rfl : p = ⟨[]⟩ := by rw [← hp]
    rfl
  obtain ⟨first, rest, hss⟩ := List.exists_cons_of_ne_nil p.segments_ne_nil
  have hfirst : first ≠ [] := by
    rintro rfl
    rw [isAbsolute_of_segments hss] at h
    obtain rfl : rest = [] := by simpa using h
    rw [← joined_segments, hss] at hp
    exact hp rfl
  have hinner : (first :: rest).filterMap innerComponent?
      = (innerComponent? first).toList ++ rest.filterMap innerComponent? := by
    cases hcomponent : innerComponent? first <;> simp [hcomponent]
  rw [components_of_segments hp hss, walked, hss, ← foldl_push_inner, hinner, List.foldl_cons,
    List.foldl_append, push_firstComponent hfirst]

/-- The stack on which a path starts. -/
def bottom (p : Path) : List Component := if p.isAbsolute then [.root] else []

def stacked (p : Path) : List Component := p.components.foldl push []

theorem stacked_eq (p : Path) : p.stacked = p.walked.foldl Step.onto p.bottom := by
  cases h : p.isAbsolute with
  | false =>
    rw [stacked, foldl_push_components h, bottom, if_neg (by simp [h])]
  | true =>
    rw [bottom, if_pos h]
    obtain ⟨_ | ⟨c, t⟩⟩ := p
    · cases h
    · obtain rfl : c = '/' := by simpa [isAbsolute] using h
      rw [stacked, components_slash, List.foldl_cons, foldl_push_inner, walked_slash]
      rfl

theorem normalize_eq (p : Path) : p.normalize = ofComponents p.stacked.reverse := rfl

theorem stacked_join (base : Path) (hr : r.isAbsolute = false) :
    (base.join r).stacked = r.walked.foldl Step.onto base.stacked := by
  by_cases hb : base.text = []
  · obtain rfl : base = ⟨[]⟩ := by rw [← hb]
    rw [join_nil_left, stacked, foldl_push_components hr]
    rfl
  · rw [stacked_eq, stacked_eq base, walked_join base hr, List.foldl_append, bottom, bottom,
      isAbsolute_join base hr hb]

/-! ## The stacks that come up -/

/-- Names above the root, or above any number of `..`; the top is the head. -/
inductive IsStack : Bool → List Component → Prop where
  | root : IsStack true [.root]
  | parents (k : Nat) : IsStack false (List.replicate k .parent)
  | name {absolute : Bool} {stack : List Component} {n : Text} (hn : IsName n)
      (h : IsStack absolute stack) : IsStack absolute (.name n :: stack)

theorem IsStack.onto (h : IsStack absolute stack) (hs : ∀ n, s = .down n → IsName n) :
    IsStack absolute (s.onto stack) := by
  cases s with
  | stay => exact h
  | slash => exact h
  | down n =>
    rw [Step.onto, push_name]
    exact .name (hs n rfl) h
  | up =>
    cases h with
    | root => exact .root
    | parents k =>
      rw [Step.onto, push_replicate_parent]
      exact .parents (k + 1)
    | name hn h => exact h

theorem IsStack.foldl_onto (h : IsStack absolute stack) (hs : ∀ n, .down n ∈ ss → IsName n) :
    IsStack absolute (ss.foldl Step.onto stack) := by
  induction ss generalizing stack with
  | nil => exact h
  | cons s ss ih =>
    exact ih (h.onto fun n hn => hs n (hn ▸ List.mem_cons_self))
      fun n hn => hs n (List.mem_cons_of_mem s hn)

theorem isStack_stacked (p : Path) : IsStack p.isAbsolute p.stacked := by
  rw [stacked_eq, bottom]
  refine IsStack.foldl_onto ?_ fun n hn => isName_of_down_mem_walked hn
  cases p.isAbsolute with
  | true => exact .root
  | false => exact .parents 0

/-- From its bottom, a stack is the root or some `..`, and then names. -/
theorem IsStack.exists_names (h : IsStack absolute stack) :
    ∃ (k : Nat) (ns : List Text), (∀ n ∈ ns, IsName n) ∧
      stack.reverse = (if absolute then [.root] else List.replicate k .parent) ++ ns.map .name := by
  induction h with
  | root => exact ⟨0, [], by simp, rfl⟩
  | parents k => exact ⟨k, [], by simp, by simp⟩
  | @name absolute stack n hn h ih =>
    obtain ⟨k, ns, hns, hstack⟩ := ih
    refine ⟨k, ns ++ [n], fun m hm => ?_, ?_⟩
    · rcases List.mem_append.1 hm with hm | hm
      · exact hns m hm
      · rw [List.mem_singleton.1 hm]
        exact hn
    · rw [List.reverse_cons, hstack, List.map_append, List.append_assoc]
      rfl

/-! ## The path of a stack -/

theorem Component.IsInner.text_ne_nil (h : c.IsInner) : c.text ≠ [] := by
  cases c with
  | root => exact h.elim
  | current => exact h.elim
  | parent => exact List.cons_ne_nil _ _
  | name n => exact h.1

theorem Component.IsInner.slash_not_mem (h : c.IsInner) : '/' ∉ c.text := by
  cases c with
  | root => exact h.elim
  | current => exact h.elim
  | parent => decide
  | name n => exact h.2.1

theorem firstComponent_text (h : c.IsInner) : firstComponent c.text = c := by
  cases c with
  | root => exact h.elim
  | current => exact h.elim
  | parent => rfl
  | name n =>
    obtain ⟨hne, -, hdot, hdots⟩ := h
    simp [firstComponent, Component.text, hne, hdot, hdots]

theorem innerComponent?_text (h : c.IsInner) : innerComponent? c.text = some c := by
  cases c with
  | root => exact h.elim
  | current => exact h.elim
  | parent => rfl
  | name n =>
    obtain ⟨hne, -, hdot, hdots⟩ := h
    simp [innerComponent?, isIdle, Component.text, hne, hdot, hdots]

theorem components_ofComponents (hcs : ∀ c ∈ cs, c.IsInner) :
    (ofComponents cs).components = cs ∧ (ofComponents cs).isAbsolute = false := by
  cases cs with
  | nil => exact ⟨rfl, rfl⟩
  | cons c cs =>
    have hc := hcs c List.mem_cons_self
    have hof : ofComponents (c :: cs) = ⟨Text.joined ['/'] (c.text :: cs.map Component.text)⟩ := by
      cases c with
      | root => exact hc.elim
      | current => rfl
      | parent => rfl
      | name n => rfl
    have hslash : ∀ s ∈ c.text :: cs.map Component.text, '/' ∉ s := by
      intro s hs
      rw [← List.map_cons] at hs
      obtain ⟨d, hd, rfl⟩ := List.mem_map.1 hs
      exact (hcs d hd).slash_not_mem
    have hsegments : (ofComponents (c :: cs)).segments = c.text :: cs.map Component.text := by
      rw [hof]
      exact segments_joined hslash (List.cons_ne_nil _ _)
    have hne : (ofComponents (c :: cs)).text ≠ [] := by
      intro hnil
      rw [show ofComponents (c :: cs) = ⟨[]⟩ from congrArg Path.mk hnil] at hsegments
      exact hc.text_ne_nil (List.cons.inj hsegments).1.symm
    have hinner : (cs.map Component.text).filterMap innerComponent? = cs := by
      rw [List.filterMap_map]
      exact (List.filterMap_congr fun d hd =>
        innerComponent?_text (hcs d (List.mem_cons_of_mem c hd))).trans List.filterMap_some
    refine ⟨?_, ?_⟩
    · rw [components_of_segments hne hsegments, firstComponent_text hc, hinner]
    · rw [isAbsolute_of_segments hsegments]
      simp [hc.text_ne_nil]

theorem IsStack.components_reverse (h : IsStack absolute stack) :
    (ofComponents stack.reverse).components = stack.reverse ∧
      (ofComponents stack.reverse).isAbsolute = absolute := by
  obtain ⟨k, ns, hns, hstack⟩ := h.exists_names
  rw [hstack]
  cases absolute with
  | true =>
    have hpath : ofComponents (.root :: ns.map .name) = Disk.pathOf ns := by
      have htext : Component.text ∘ Component.name = id := rfl
      rw [ofComponents, List.map_map, htext, List.map_id, Disk.pathOf]
    rw [if_pos rfl, List.singleton_append, hpath]
    exact ⟨components_pathOf hns, rfl⟩
  | false =>
    refine components_ofComponents fun c hc => ?_
    rcases List.mem_append.1 hc with hc | hc
    · rw [List.eq_of_mem_replicate hc]
      trivial
    · obtain ⟨n, hn, rfl⟩ := List.mem_map.1 hc
      exact hns n hn

/-- A normal form has the components that were on the stack. -/
theorem components_normalize (p : Path) : p.normalize.components = p.stacked.reverse :=
  (isStack_stacked p).components_reverse.1

theorem isAbsolute_normalize (p : Path) : p.normalize.isAbsolute = p.isAbsolute :=
  (isStack_stacked p).components_reverse.2

/-! ## Stacks on stacks -/

/-- A stack put on another one, from its bottom. -/
def replayed (stack below : List Component) : List Component :=
  stack.foldr (fun c below => push below c) below

theorem IsStack.replayed_nil (h : IsStack absolute stack) : replayed stack [] = stack := by
  induction h with
  | root => rfl
  | parents k =>
    induction k with
    | zero => rfl
    | succ k ih =>
      calc replayed (List.replicate (k + 1) .parent) []
          = push (replayed (List.replicate k .parent) []) .parent := rfl
        _ = List.replicate (k + 1) .parent := by rw [ih, push_replicate_parent]
  | @name absolute stack n hn h ih =>
    calc replayed (.name n :: stack) [] = push (replayed stack []) (.name n) := rfl
      _ = .name n :: stack := by rw [ih, push_name]

/-- One more step on a stack is one more step where the stack leads: a name and the `..` behind it
cancel on every stack. -/
theorem IsStack.replayed_onto (h : IsStack false stack) (s : Step) (below : List Component) :
    replayed (s.onto stack) below = s.onto (replayed stack below) := by
  cases s with
  | stay => rfl
  | slash => rfl
  | down n =>
    rw [Step.onto, push_name]
    rfl
  | up =>
    cases h with
    | parents k =>
      rw [Step.onto, push_replicate_parent]
      rfl
    | @name _ stack n hn h =>
      calc replayed stack below
          = push (.name n :: replayed stack below) .parent := rfl
        _ = push (push (replayed stack below) (.name n)) .parent := by rw [push_name]

theorem IsStack.replayed_foldl (h : IsStack false stack) (hs : ∀ n, .down n ∈ ss → IsName n)
    (below : List Component) :
    replayed (ss.foldl Step.onto stack) below = ss.foldl Step.onto (replayed stack below) := by
  induction ss generalizing stack with
  | nil => rfl
  | cons s ss ih =>
    rw [List.foldl_cons, List.foldl_cons, ← h.replayed_onto]
    exact ih (h.onto fun n hn => hs n (hn ▸ List.mem_cons_self))
      fun n hn => hs n (List.mem_cons_of_mem s hn)

/-- The normal form of a relative path leads every stack where the path leads it. -/
theorem foldl_onto_normalize (hr : r.isAbsolute = false) (below : List Component) :
    r.normalize.walked.foldl Step.onto below = r.walked.foldl Step.onto below := by
  have hnormal : r.normalize.isAbsolute = false := by rw [isAbsolute_normalize, hr]
  calc r.normalize.walked.foldl Step.onto below
      = r.stacked.reverse.foldl push below := by
        rw [← foldl_push_components hnormal, components_normalize]
    _ = replayed (r.walked.foldl Step.onto []) below := by
        rw [List.foldl_reverse, stacked, foldl_push_components hr]
        rfl
    _ = r.walked.foldl Step.onto below :=
        (IsStack.parents 0).replayed_foldl (fun n hn => isName_of_down_mem_walked hn) below

/-- A normal form is read as the path was. -/
theorem stacked_normalize (p : Path) : p.normalize.stacked = p.stacked := by
  rw [stacked, components_normalize, List.foldl_reverse]
  exact (isStack_stacked p).replayed_nil

/-! ## Normal forms and joining -/

theorem normalize_normalize (p : Path) : p.normalize.normalize = p.normalize := by
  rw [normalize_eq, stacked_normalize, ← normalize_eq]

theorem normalize_join_left (base r : Path) :
    (base.normalize.join r).normalize = (base.join r).normalize := by
  cases hr : r.isAbsolute with
  | true => rw [join_of_isAbsolute _ hr, join_of_isAbsolute _ hr]
  | false =>
    rw [normalize_eq, normalize_eq (base.join r), stacked_join _ hr, stacked_join _ hr,
      stacked_normalize]

theorem normalize_join_right (base r : Path) :
    (base.join r.normalize).normalize = (base.join r).normalize := by
  have habsolute := isAbsolute_normalize r
  cases hr : r.isAbsolute with
  | true =>
    rw [hr] at habsolute
    rw [join_of_isAbsolute _ hr, join_of_isAbsolute _ habsolute, normalize_normalize]
  | false =>
    rw [hr] at habsolute
    rw [normalize_eq, normalize_eq (base.join r), stacked_join _ habsolute, stacked_join _ hr,
      foldl_onto_normalize hr]

/-- A path in normal form has no `.`. If it is absolute it has no `..` either, and if it is relative
it has them in front of all names. -/
structure IsNormal (p : Path) : Prop where
  current_not_mem : .current ∉ p.components
  parent_not_mem : p.isAbsolute = true → .parent ∉ p.components
  parents_first : p.isAbsolute = false →
    ∃ (k : Nat) (ns : List Text), p.components = List.replicate k .parent ++ ns.map .name

theorem isNormal_normalize (p : Path) : p.normalize.IsNormal := by
  obtain ⟨k, ns, -, hstack⟩ := (isStack_stacked p).exists_names
  refine ⟨?_, fun h => ?_, fun h => ⟨k, ns, ?_⟩⟩
  · rw [components_normalize, hstack]
    split <;> simp
  · rw [isAbsolute_normalize] at h
    rw [components_normalize, hstack, if_pos h]
    simp
  · rw [isAbsolute_normalize] at h
    rw [components_normalize, hstack, if_neg (by simp [h])]

/-- The normal form of a path stands for all its spellings: it is its own normal form, it is
absolute if the path is, and joining does not tell the two apart. So where an include leads does not
depend on how its path is written, nor on how the folder is that it is taken from. -/
theorem normalize_respelled :
    (∀ p : Path, p.normalize.normalize = p.normalize ∧ p.normalize.IsNormal ∧
      p.normalize.isAbsolute = p.isAbsolute) ∧
    (∀ base r : Path, (base.normalize.join r).normalize = (base.join r).normalize ∧
      (base.join r.normalize).normalize = (base.join r).normalize) ∧
    ∀ (base base' : Path) (raw raw' : Text), base.normalize = base'.normalize →
      normalize ⟨raw⟩ = normalize ⟨raw'⟩ → base.included raw = base'.included raw' := by
  refine ⟨fun p => ⟨normalize_normalize p, isNormal_normalize p, isAbsolute_normalize p⟩,
    fun base r => ⟨normalize_join_left base r, normalize_join_right base r⟩,
    fun base base' raw raw' hbase hraw => ?_⟩
  calc (base.join ⟨raw⟩).normalize
      = (base.normalize.join (normalize ⟨raw⟩)).normalize := by
        rw [normalize_join_left, normalize_join_right]
    _ = (base'.normalize.join (normalize ⟨raw'⟩)).normalize := by rw [hbase, hraw]
    _ = (base'.join ⟨raw'⟩).normalize := by rw [normalize_join_left, normalize_join_right]

/-- A folder and an include in two spellings each, and a path that goes up from the root. -/
theorem normalize_respelled_of_detour :
    let base : Path := ⟨"../pages//./en/..".toList⟩
    let base' : Path := ⟨"./../pages/".toList⟩
    let raw := "de/../.././../part.html".toList
    let raw' := "../../part.html".toList
    let p : Path := ⟨"/../a/./..".toList⟩
    base.normalize = base'.normalize ∧ normalize ⟨raw⟩ = normalize ⟨raw'⟩ ∧
      base.included raw = base'.included raw' ∧ base'.included raw' = ⟨raw'⟩ ∧
      p.normalize.isAbsolute = true ∧ .parent ∉ p.normalize.components := by
  intro base base' raw raw' p
  obtain ⟨hnormal, -, hincluded⟩ := normalize_respelled
  have hbase : base.normalize = base'.normalize := by decide
  have hraw : normalize ⟨raw⟩ = normalize ⟨raw'⟩ := by decide
  have hp : p.normalize.isAbsolute = true := by decide
  exact ⟨hbase, hraw, hincluded base base' raw raw' hbase hraw, by decide, hp,
    (hnormal p).2.1.parent_not_mem hp⟩

end Path

end Pagefold
