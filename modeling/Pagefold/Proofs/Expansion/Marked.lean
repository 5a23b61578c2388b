import Pagefold.Proofs.Diagnostic.Marks
import Pagefold.Proofs.Expansion.Course
import Pagefold.Proofs.Expansion.Siblings

/-!
# Marks in expanded files

An expansion leaves a mark in the place of every file that it misses. The mark comes through all
that is still done to the text around it, unless a key of a context stands in it or it is in a title
that a layout makes needless.

* `Expansion.arguments`, `Expansion.contexts`: what is written behind the paths that lead to files;
* `Expansion.Undisturbed`: what must not happen on the way from a page;
* `Recorded.Marked`, `Recorded.Marked.andThen`: a text with a mark for everything that was missed;
* `Expansion.marked_expandBody`, `Expansion.marked_resolveFile`: expanded files are such texts.
-/

namespace Pagefold

open Diagnostic (marks)

namespace Recorded

variable {α β : Type}

theorem andThen_of_ok {r : Recorded α} {f : α → Recorded β} {a : α} (h : r.result = .ok a) :
    r.andThen f = after r.log (f a) := by
  unfold andThen
  rw [h]

/-- A text has a mark for everything that was missed. -/
def Marked (r : Recorded Text) : Prop := ∀ t, r.result = .ok t → r.course.log.length ≤ marks t

theorem Marked.fail (e : Fault) : (fail e).Marked := fun _ h => by cases h

/-- What comes after a text must keep its marks, and add one for everything that it misses
itself. -/
theorem Marked.andThen {r : Recorded Text} {f : Text → Recorded Text} (hr : r.Marked)
    (hf : ∀ a b, r.result = .ok a → (f a).result = .ok b →
      marks a + (f a).course.log.length ≤ marks b) : (r.andThen f).Marked := by
  intro b hb
  obtain ⟨a, ha, -⟩ := result_andThen_ok_iff.1 ⟨b, hb⟩
  rw [andThen_of_ok ha] at hb ⊢
  have hfirst := hr a ha
  have hsecond := hf a b ha hb
  simp only [course, after, List.filter_append, List.length_append] at hfirst hsecond ⊢
  omega

end Recorded

namespace Expansion

open Recorded

variable {s : StarterSettings} {d : Disk} {includeFile : Path → Recorded Text} {folder page : Path}
  {t : Text}

/-! ## Contexts and layouts -/

/-- The arguments of the directives of a text that lead to files. -/
def arguments (d : Disk) (folder : Path) (t : Text) : List (Option Text) :=
  ((Directive.pattern.hits t).filter fun x => d.isFile (folder.included x.path)).map
    Directive.context

/-- The arguments of all directives that lead to files, in what is expanded of a text and at its
head if it opens with a starter directive. -/
def contexts (s : StarterSettings) (d : Disk) (folder : Path) (t : Text) : List (Option Text) :=
  match Starter.detect s d folder t with
  | some o => o.context :: arguments d folder o.content
  | none => arguments d folder t

/-- An argument has no context, or one with names for keys. -/
def PlainArgument (raw : Option Text) : Prop := ∀ c, Context.read raw = .parsed c → c.Plain

/-- The layout that a starter directive asks for, with its context in place. -/
def layoutOf [Matcher] (includeFile : Path → Recorded Text) (o : Starter.Opening) : Recorded Text :=
  (includeFile o.layout).andThen (applyContext o.layout.text o.context)

/-- In the files that are reached from a page, all contexts have names for keys, and no layout has a
title. -/
structure Undisturbed [Matcher] (s : StarterSettings) (d : Disk) (page : Path) : Prop where
  plain : ∀ f t, Reaches s d page f → d.readText f = .ok t →
    ∀ raw ∈ contexts s d (folderOf f) t, PlainArgument raw
  untitled : ∀ f t o layout, Reaches s d page f → d.readText f = .ok t →
    Starter.detect s d (folderOf f) t = some o → (layoutOf (resolve s d) o).result = .ok layout →
    Starter.hasTitle s layout = false

/-! ## One step -/

theorem marks_applyContext [Matcher] {label u : Text} {raw : Option Text} (hraw : PlainArgument raw)
    (h : (applyContext label raw t).result = .ok u) :
    marks t + (applyContext label raw t).course.log.length ≤ marks u := by
  have hnone : (applyContext label raw t).course.log.length = 0 := by
    rw [course_applyContext]
    rfl
  rw [hnone, Nat.add_zero]
  unfold applyContext at h
  split at h
  · cases h
    exact Nat.le_refl _
  · cases h
    exact Nat.le_refl _
  · next context hcontext =>
    cases h
    exact Context.marks_substitute (hraw context hcontext) t

theorem marked_expandDirective [Matcher] {x : Directive}
    (hinclude : d.isFile (folder.included x.path) = true →
      (includeFile (folder.included x.path)).Marked ∧ PlainArgument x.context) :
    (expandDirective includeFile d folder x).Marked := by
  simp only [expandDirective]
  split
  · next hfile =>
    obtain ⟨hmarked, hplain⟩ := hinclude hfile
    exact hmarked.andThen fun a b _ hb => marks_applyContext hplain hb
  · intro t ht
    cases ht
    exact Diagnostic.one_le_marks_markFor x.path

/-- What was expanded of a text so far keeps its marks while the pieces behind it are expanded. -/
theorem marked_expandPieces {expand : Directive → Recorded Text} {ps : List (Piece Directive)}
    (h : ∀ x ∈ ps.filterMap Piece.value?, (expand x).Marked) (log : List Diagnostic) (done : Text)
    (hdone : (log.filter Diagnostic.isMissing).length ≤ marks done.reverse) :
    (expandPieces expand log done ps).Marked := by
  -- What is done has a mark for everything in the log: a plain character adds to neither, and an
  -- expanded directive brings the marks for what it logs.
  induction ps generalizing log done with
  | nil =>
    intro t ht
    cases ht
    exact hdone
  | cons p ps ih =>
    cases p with
    | plain c =>
      refine ih h log (c :: done) ?_
      have := Diagnostic.marks_append_le done.reverse [c]
      rw [List.reverse_cons]
      omega
    | hit source x =>
      rw [Piece.values_hit, List.forall_mem_cons] at h
      rw [expandPieces]
      split
      · exact fun t ht => by cases ht
      · next l t hx =>
        refine ih h.2 (log ++ l) (t.reverse ++ done) ?_
        have hmarks := h.1 t (by rw [hx])
        have happend := Diagnostic.marks_append_le done.reverse t
        rw [hx] at hmarks
        simp only [course] at hmarks
        rw [List.filter_append, List.length_append, List.reverse_append, List.reverse_reverse]
        omega

theorem marked_expandText [Matcher] (hinclude : ∀ g ∈ targets d folder t, (includeFile g).Marked)
    (hplain : ∀ raw ∈ arguments d folder t, PlainArgument raw) :
    (expandText includeFile d folder t).Marked := by
  refine marked_expandPieces (fun x hx => marked_expandDirective fun hfile => ?_) [] []
    (Nat.zero_le _)
  refine ⟨hinclude _ (mem_targets.2 ⟨x, hx, rfl, hfile⟩), hplain _ ?_⟩
  exact List.mem_map_of_mem (List.mem_filter.2 ⟨hx, hfile⟩)

/-- The text of a file is expanded with a mark for everything that is missed, if the files that it
includes are. -/
theorem marked_expandBody [Matcher] (hs : Starter.CutsAtTags s)
    (hinclude : ∀ g ∈ children s d folder t, (includeFile g).Marked)
    (hplain : ∀ raw ∈ contexts s d folder t, PlainArgument raw)
    (htitle : ∀ o layout, Starter.detect s d folder t = some o →
      (layoutOf includeFile o).result = .ok layout → Starter.hasTitle s layout = false) :
    (expandBody s includeFile d folder t).Marked := by
  unfold children at hinclude
  unfold contexts at hplain
  cases ho : Starter.detect s d folder t with
  | none =>
    simp only [ho] at hinclude hplain
    simp only [expandBody, ho]
    exact marked_expandText hinclude hplain
  | some o =>
    simp only [ho, List.forall_mem_cons] at hinclude hplain
    simp only [expandBody, ho]
    have hlayout : (layoutOf includeFile o).Marked :=
      hinclude.1.andThen fun a b _ hb => marks_applyContext hplain.1 hb
    refine hlayout.andThen fun layout spliced hl hspliced => ?_
    obtain ⟨content, hcontent, -⟩ := result_andThen_ok_iff.1 ⟨spliced, hspliced⟩
    have hpage := marked_expandText hinclude.2 hplain.2 content hcontent
    rw [andThen_of_ok hcontent] at hspliced ⊢
    cases hspliced
    have hsplice := Starter.marks_splice hs (htitle o layout ho hl) content
    simp only [course, after, Recorded.pure, List.append_nil] at hpage ⊢
    omega

/-! ## Whole files -/

/-- All files that are reached from a page are expanded with a mark for everything that is missed,
on any chain. -/
theorem marked_resolveFile [Matcher] (hs : Starter.CutsAtTags s) (hpage : Undisturbed s d page)
    {f : Path} (hf : f.Canonical) (hreach : Reaches s d page f) (v : Chain) :
    (resolveFile s d v f).Marked := by
  induction v using Chain.extend_induction d generalizing f with
  | h v ih =>
    cases hv : v.has f with
    | true =>
      rw [resolveFile_of_has hf hv]
      exact .fail _
    | false =>
      cases ht : d.readText f with
      | error why =>
        rw [resolveFile_of_unreadable hf hv ht]
        exact .fail _
      | ok t =>
        rw [resolveFile_of_readable hf hv ht]
        refine marked_expandBody hs (fun g hg => ?_) (hpage.plain f t hreach ht) ?_
        · have hincludes : Includes s d f g := ⟨t, ht, hg⟩
          exact ih f t hv ht (canonical_of_includes hf hincludes) (hreach.tail hincludes)
        · intro o layout ho hlayout
          -- The layout is the same on the empty chain, of which the title is known.
          have hkept : KeptUnless False (layoutOf (resolveFile s d (f :: v)) o)
              (layoutOf (resolve s d) o) :=
            (keptUnless_resolveFile (.inr fun g hg => by cases hg) o.layout).andThen
              fun u => .refl (applyContext o.layout.text o.context u)
          have hsame := (hkept layout hlayout).resolve_right And.left
          exact hpage.untitled f t o layout hreach ht ho (by rw [hsame, hlayout])

end Expansion

end Pagefold
