import Pagefold.Proofs.Directive.Grammar
import Pagefold.Proofs.Expansion.Marked
import Pagefold.Proofs.Text.Clean

/-!
# Texts that are expanded part by part

The argument of a directive may close arbitrarily far on, so whatever follows a text could change
how it is read. But a directive is read off the text that it takes: what follows a text changes its
directives only if one of them then runs on into it. Wherever none does, the text can be cut, and
the expansion of the whole is the expansion of the first part followed by that of the second.

* `Directive.Ending.cut`, `Directive.contained`: a directive that ends within a text is written
  there;
* `Directive.scan_append`: the directives of a text that is cut where none of them stands;
* `Expansion.expandPieces_append`, `Expansion.expandText_append`: its expansion;
* `Expansion.resolveText_append`: what that says about outcomes, faults and what is recorded.
-/

namespace Pagefold

open Text

namespace Directive

variable {a b r t : Text} {context : Option Text} {x : Directive}

/-! ## Directives in longer texts -/

theorem Closes.append (h : Closes t) (b : Text) : Closes (t ++ b) := by
  obtain ⟨w, r, hw, rfl⟩ := h
  exact ⟨w, r ++ b, hw, by simp⟩

theorem HoldsObject.append (h : HoldsObject t) (b : Text) : HoldsObject (t ++ b) := by
  obtain ⟨w, u, z, hw, rfl, hz⟩ := h
  exact ⟨w, u, z ++ b, hw, by simp, hz.append b⟩

/-- The end of a directive stays what it is without the text behind what follows it. -/
theorem Ending.cut (h : Ending t context (r ++ b)) : ∃ t', t = t' ++ b ∧ Ending t' context r := by
  generalize hrest : r ++ b = rest at h
  cases h with
  | @object w v z u _ hw hv hu first =>
    subst hrest
    refine ⟨_, ?_, .object hw hv hu fun i j hij hcloses => first i j hij ?_⟩
    · simp
    · simpa using hcloses.append b
  | @other w z _ hw hz hother =>
    subst hrest
    refine ⟨_, ?_, .other hw hz fun hobject => hother ?_⟩
    · simp
    · simpa using hobject.append b
  | @bare w _ hw =>
    subst hrest
    exact ⟨_, by simp, .bare hw⟩

theorem Written.cut (h : Written (a ++ b) x (r ++ b)) : Written a x r := by
  generalize htext : a ++ b = text at h
  generalize hrest : r ++ b = rest at h
  cases h with
  | @mk w path t _ q context hw hq hne hpath h =>
    subst hrest
    obtain ⟨t', rfl, ht'⟩ := h.cut
    have hwhole : a ++ b = (opening ++ (w ++ q :: (path ++ q :: t'))) ++ b := by
      rw [htext]
      simp
    rw [List.append_cancel_right hwhole]
    exact .mk hw hq hne hpath ht'

/-- A directive does not depend on what follows it, and where one is read, one is read whatever
follows. -/
theorem contained : pattern.Contained where
  cut h := read?_eq_some_iff.2 (Written.cut (read?_eq_some_iff.1 h))
  extend {a} b h := by
    obtain ⟨⟨x, r⟩, hread⟩ := Option.isSome_iff_exists.1 h
    obtain ⟨m, rfl, hextend⟩ := read?_extend hread
    rw [List.append_assoc]
    exact hextend (r ++ b)

/-- Where a text is cut between its directives, they are those of its parts. -/
theorem scan_append (h : pattern.CleanCut a b) :
    scan (a ++ b) = scan a ++ (scan b).map (Pattern.shift a.byteSize) :=
  h.located contained

end Directive

namespace Recorded

variable {α β γ : Type}

/-! ## Computations one after the other -/

@[simp] theorem andThen_after (log : List Diagnostic) (r : Recorded α) (f : α → Recorded β) :
    (after log r).andThen f = after log (r.andThen f) := by
  simp only [andThen, after]
  split <;> simp

theorem andThen_assoc (r : Recorded α) (f : α → Recorded β) (g : β → Recorded γ) :
    (r.andThen f).andThen g = r.andThen fun a => (f a).andThen g := by
  obtain ⟨log, result⟩ := r
  cases result with
  | error e => rfl
  | ok a => exact andThen_after log (f a) g

end Recorded

namespace Expansion

open Recorded

variable {s : StarterSettings} {d : Disk} {folder : Path} {v : Chain} {a b : Text}
  {includeFile : Path → Recorded Text} {expand : Directive → Recorded Text}

/-! ## Pieces behind one another -/

/-- What is recorded and expanded already stands in front of all that comes. -/
theorem expandPieces_eq (log : List Diagnostic) (done : Text) (ps : List (Piece Directive)) :
    expandPieces expand log done ps
      = after log ((expandPieces expand [] [] ps).andThen fun u => .pure (done.reverse ++ u)) := by
  induction ps generalizing log done with
  | nil => simp [expandPieces, andThen, Recorded.pure, after]
  | cons piece ps ih =>
    cases piece with
    | plain c =>
      rw [expandPieces, expandPieces, ih, ih [] [c], after_nil, andThen_assoc]
      simp
    | hit source x =>
      rw [expandPieces, expandPieces]
      obtain ⟨l, result⟩ := expand x
      cases result with
      | error e => rfl
      | ok t =>
        simp only
        rw [ih, ih ([] ++ l), andThen_after, andThen_assoc, after_after]
        simp

theorem expandPieces_append (log : List Diagnostic) (done : Text) (ps qs : List (Piece Directive)) :
    expandPieces expand log done (ps ++ qs)
      = match expandPieces expand log done ps with
        | ⟨l, .ok u⟩ => expandPieces expand l u.reverse qs
        | ⟨l, .error e⟩ => ⟨l, .error e⟩ := by
  induction ps generalizing log done with
  | nil => simp [expandPieces]
  | cons piece ps ih =>
    cases piece with
    | plain c => exact ih log (c :: done)
    | hit source x =>
      rw [List.cons_append, expandPieces, expandPieces]
      obtain ⟨l, result⟩ := expand x
      cases result with
      | error e => rfl
      | ok t => exact ih (log ++ l) (t.reverse ++ done)

/-! ## Texts behind one another -/

/-- A text that is cut between its directives is expanded part by part. -/
theorem expandText_append [Matcher] (h : Directive.pattern.CleanCut a b) :
    expandText includeFile d folder (a ++ b) =
      (expandText includeFile d folder a).andThen fun u =>
        (expandText includeFile d folder b).andThen fun w => .pure (u ++ w) := by
  rw [expandText, h.pieces Directive.contained, expandPieces_append]
  simp only [expandText]
  obtain ⟨l, result⟩ :=
    expandPieces (expandDirective includeFile d folder) [] [] (Directive.pattern.pieces a)
  cases result with
  | error e => rfl
  | ok u =>
    simp only
    rw [expandPieces_eq, List.reverse_reverse]
    rfl

/-- Where no directive of a text stands over the place between two parts, the directives of the text
are those of the parts. The text expands to what the parts expand to, one behind the other, and so
does what is recorded. If the first part ends in a fault, the text ends in the same way; if only the
second one does, what the first one recorded stands in front. -/
theorem resolveText_append [Matcher] (s : StarterSettings) (d : Disk) (folder : Path) (v : Chain)
    {a b : Text} (h : ∀ m ∈ Directive.scan (a ++ b), ¬ (m.1 < a.byteSize ∧ a.byteSize < m.2.1)) :
    Directive.scan (a ++ b)
      = Directive.scan a ++ (Directive.scan b).map (Pattern.shift a.byteSize) ∧
    (∀ l u k w, resolveText s d folder v a = ⟨l, .ok u⟩ → resolveText s d folder v b = ⟨k, .ok w⟩ →
      resolveText s d folder v (a ++ b) = ⟨l ++ k, .ok (u ++ w)⟩) ∧
    (∀ l e, resolveText s d folder v a = ⟨l, .error e⟩ →
      resolveText s d folder v (a ++ b) = ⟨l, .error e⟩) ∧
    (∀ l u k e, resolveText s d folder v a = ⟨l, .ok u⟩ →
      resolveText s d folder v b = ⟨k, .error e⟩ →
      resolveText s d folder v (a ++ b) = ⟨l ++ k, .error e⟩) := by
  have hwhole : resolveText s d folder v (a ++ b) =
      (resolveText s d folder v a).andThen fun u =>
        (resolveText s d folder v b).andThen fun w => .pure (u ++ w) :=
    expandText_append h
  refine ⟨Directive.scan_append h, ?_, ?_, ?_⟩
  · intro l u k w ha hb
    rw [hwhole, ha, hb]
    simp [andThen, after, Recorded.pure]
  · intro l e ha
    rw [hwhole, ha]
    rfl
  · intro l u k e ha hb
    rw [hwhole, ha, hb]
    rfl

section

attribute [local instance] Matcher.unlimited

/-- Two files that are missing; behind the second directive another close of an object stands, which
the argument of the first does not run on to. -/
theorem resolveText_append_of_object :
    resolveText {} ⟨⟨[]⟩, []⟩ ⟨['/']⟩ []
        ("1@@include('x', \x7b\"k\": 1\x7d)".toList ++ "2@@include('y')\x7d)".toList)
      = ⟨[.missingInclude ['x'] ⟨['/', 'x']⟩] ++ [.missingInclude ['y'] ⟨['/', 'y']⟩],
        .ok (('1' :: Diagnostic.markFor ['x']) ++
          ('2' :: Diagnostic.markFor ['y'] ++ ['\x7d', ')']))⟩ :=
  (resolveText_append {} ⟨⟨[]⟩, []⟩ ⟨['/']⟩ [] (by decide)).2.1 _ _ _ _ rfl rfl

end

end Expansion

end Pagefold
