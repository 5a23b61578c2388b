import Pagefold.Proofs.Disk.Outline
import Pagefold.Proofs.Expansion.Outcome

/-!
# The course of an expansion

Which files an expansion reads, which it misses and how it ends is decided by the paths of layouts
and directives alone. Neither the values of a context nor the text around the directives has a part
in it: what is put in place is never read again.

* `Recorded.course`: what a computation misses and how it ends, without its value;
* `Expansion.asked`: the layout that a text asks for, and the paths in its directives;
* `Expansion.bodyCourse`, `Expansion.course_expandBody`: the course of a text, from what it asks
  for;
* `Expansion.Alike`: disks with the same outline, whose files ask for the same;
* `Expansion.course_resolveFile`, `Expansion.resolve_alike`: expansions on two such disks take the
  same course.
-/

namespace Pagefold

def Diagnostic.isMissing (x : Diagnostic) : Bool := x.missing?.isSome

namespace Recorded

variable {α β : Type}

/-- What a computation misses, in order, and whether it ends well or in which fault. -/
def course (r : Recorded α) : Recorded Unit :=
  ⟨r.log.filter Diagnostic.isMissing, r.result.map fun _ => ()⟩

/-- Computations one after the other, up to the first fault. -/
def inTurn : List (Recorded Unit) → Recorded Unit
  | [] => .pure ()
  | r :: rs => r.andThen fun _ => inTurn rs

@[simp] theorem course_pure (a : α) : (pure a).course = .pure () := rfl

@[simp] theorem andThen_pure_unit (r : Recorded Unit) : (r.andThen fun _ => .pure ()) = r := by
  obtain ⟨log, e | u⟩ := r
  · rfl
  · simp [andThen, after, pure]

/-- The course of two computations is that of the first and then that of the second, if the value in
between does not matter to it. -/
theorem course_andThen {r : Recorded α} {f : α → Recorded β} {c : Recorded Unit}
    (h : ∀ a, (f a).course = c) : (r.andThen f).course = r.course.andThen fun _ => c := by
  obtain ⟨log, e | a⟩ := r
  · rfl
  · rw [← h a]
    simp [andThen, after, course, Except.map]

theorem of_course_eq {r r' : Recorded α} (h : r.course = r'.course) :
    ((∃ a, r.result = .ok a) ↔ ∃ a, r'.result = .ok a) ∧
    (∀ e, r.result = .error e ↔ r'.result = .error e) ∧
    r.log.filter Diagnostic.isMissing = r'.log.filter Diagnostic.isMissing := by
  obtain ⟨log, result⟩ := r
  obtain ⟨log', result'⟩ := r'
  obtain ⟨hlog, hresult⟩ : _ ∧ result.map (fun _ => ()) = result'.map fun _ => () :=
    ⟨congrArg Recorded.log h, congrArg Recorded.result h⟩
  refine ⟨?_, ?_, hlog⟩ <;> cases result <;> cases result' <;> simp_all [Except.map]

end Recorded

namespace Expansion

open Recorded

variable {s : StarterSettings} {d d' : Disk} {includeFile include₁ include₂ : Path → Recorded Text}
  {folder : Path}

/-! ## The course of one step -/

/-- What the text of a file in a folder asks for: its layout, if it opens with a starter directive,
and the paths in the directives of what is expanded. -/
def asked (s : StarterSettings) (d : Disk) (folder : Path) (t : Text) : Option Path × List Text :=
  match Starter.detect s d folder t with
  | some o => (some o.layout, written o.content)
  | none => (none, written t)

/-- The course of a directive with a path. -/
def pathCourse (includeFile : Path → Recorded Text) (d : Disk) (folder : Path) (path : Text) :
    Recorded Unit :=
  let target := folder.included path
  if d.isFile target then (includeFile target).course
  else ⟨[.missingInclude path target], .ok ()⟩

/-- The course of a text that asks for a layout and for paths. -/
def bodyCourse (includeFile : Path → Recorded Text) (d : Disk) (folder : Path)
    (a : Option Path × List Text) : Recorded Unit :=
  inTurn (a.1.toList.map (fun layout => (includeFile layout).course)
    ++ a.2.map (pathCourse includeFile d folder))

theorem course_applyContext [Matcher] (label : Text) (raw : Option Text) (t : Text) :
    (applyContext label raw t).course = .pure () := by
  unfold applyContext
  split
  · rfl
  · rfl
  · next context _ =>
    have hnone : (context.keysWithDirectives.map (Diagnostic.directiveInValue label)).filter
        Diagnostic.isMissing = [] := by
      rw [List.filter_eq_nil_iff]
      intro x hx
      obtain ⟨key, -, rfl⟩ := List.mem_map.1 hx
      simp [Diagnostic.isMissing, Diagnostic.missing?]
    rw [course, hnone]
    rfl

theorem course_expandDirective [Matcher] (x : Directive) :
    (expandDirective includeFile d folder x).course = pathCourse includeFile d folder x.path := by
  simp only [expandDirective, pathCourse]
  split
  · rw [course_andThen fun t => course_applyContext _ _ t, andThen_pure_unit]
  · rfl

theorem course_expandPieces (expand : Directive → Recorded Text) (log : List Diagnostic)
    (done : Text) (ps : List (Piece Directive)) :
    (expandPieces expand log done ps).course
      = after (log.filter Diagnostic.isMissing)
          (inTurn ((ps.filterMap Piece.value?).map fun x => (expand x).course)) := by
  induction ps generalizing log done with
  | nil => simp [expandPieces, course, inTurn, after, Recorded.pure, Except.map]
  | cons p ps ih =>
    cases p with
    | plain c => simpa [expandPieces] using ih log (c :: done)
    | hit source x =>
      rw [Piece.values_hit, List.map_cons, inTurn, expandPieces]
      split
      · next l e hx =>
        rw [hx]
        simp [course, andThen, after, Except.map]
      · next l t hx =>
        rw [ih, hx, List.filter_append, ← after_after]
        rfl

theorem course_expandText [Matcher] (t : Text) :
    (expandText includeFile d folder t).course
      = inTurn ((written t).map (pathCourse includeFile d folder)) := by
  rw [expandText, course_expandPieces, List.filter_nil, after_nil, written_eq, List.map_map]
  exact congrArg inTurn (List.map_congr_left fun x _ => course_expandDirective x)

/-- The course of a text is decided by what it asks for. -/
theorem course_expandBody [Matcher] (t : Text) :
    (expandBody s includeFile d folder t).course
      = bodyCourse includeFile d folder (asked s d folder t) := by
  cases ho : Starter.detect s d folder t with
  | none =>
    simp only [expandBody, asked, ho, bodyCourse, Option.toList_none, List.map_nil, List.nil_append]
    exact course_expandText t
  | some o =>
    have hlayout : ((includeFile o.layout).andThen (applyContext o.layout.text o.context)).course
        = (includeFile o.layout).course := by
      rw [course_andThen fun u => course_applyContext _ _ u, andThen_pure_unit]
    have hpage : ∀ layout, ((expandText includeFile d folder o.content).andThen fun page =>
        Recorded.pure (Starter.splice s layout page)).course
          = inTurn ((written o.content).map (pathCourse includeFile d folder)) := by
      intro layout
      rw [course_andThen fun _ => course_pure _, andThen_pure_unit, course_expandText]
    simp only [expandBody, asked, ho, bodyCourse, Option.toList_some, List.map_cons, List.map_nil,
      List.cons_append, List.nil_append, inTurn]
    -- The layout is put around the page in the end, when nothing is read any more.
    rw [expandPage, course_andThen hpage, hlayout]

theorem bodyCourse_congr (hfile : ∀ p, d.isFile p = d'.isFile p)
    (h : ∀ p, (include₁ p).course = (include₂ p).course) (a : Option Path × List Text) :
    bodyCourse include₁ d folder a = bodyCourse include₂ d' folder a := by
  have hpath : pathCourse include₁ d folder = pathCourse include₂ d' folder := by
    funext path
    simp only [pathCourse, hfile, h]
  simp only [bodyCourse, hpath, h]

/-! ## Two disks -/

/-- Two disks have the same outline, and wherever a file can be read, its texts ask for the same. -/
structure Alike (s : StarterSettings) (d d' : Disk) : Prop extends Disk.SameOutline d d' where
  asked : ∀ f t t', f.Canonical → d.readText f = .ok t → d'.readText f = .ok t' →
    asked s d (folderOf f) t = asked s d' (folderOf f) t'

/-- On two such disks, a file is expanded with the same course on any chain. -/
theorem course_resolveFile [Matcher] (h : Alike s d d') (v : Chain) (p : Path) :
    (resolveFile s d v p).course = (resolveFile s d' v p).course := by
  -- Both expansions go through the same files, so the chain of one is the chain of the other.
  induction v using Chain.extend_induction d generalizing p with
  | h v ih =>
    have habs := h.absolute_eq p
    cases hp : d.absolute p with
    | error why =>
      rw [hp] at habs
      rw [resolveFile_eq, resolveFile_eq, resolveStep, resolveStep, hp, ← habs]
    | ok f =>
      rw [hp] at habs
      have hf := Disk.absolute_canonical hp
      rw [resolveFile_of_absolute hp, resolveFile_of_absolute habs.symm]
      cases hv : v.has f with
      | true =>
        rw [resolveFile_of_has hf hv, resolveFile_of_has hf hv]
      | false =>
        rcases h.readText_cases f with ⟨why, ht, ht'⟩ | ⟨t, t', ht, ht'⟩
        · rw [resolveFile_of_unreadable hf hv ht, resolveFile_of_unreadable hf hv ht']
        · rw [resolveFile_of_readable hf hv ht, resolveFile_of_readable hf hv ht',
            course_expandBody, course_expandBody, h.asked f t t' hf ht ht']
          exact bodyCourse_congr h.isFile_eq (fun q => ih f t hv ht q) _

/-- Contexts and markup have no part in which files are read: on two disks with the same outline
whose files ask for the same, a page can be expanded on both or on neither, it ends in the same
fault, and the same files are missed in the same order. -/
theorem resolve_alike [Matcher] (s : StarterSettings) (d d' : Disk) (h : Alike s d d') (p : Path) :
    ((∃ t, (resolve s d p).result = .ok t) ↔ ∃ t, (resolve s d' p).result = .ok t) ∧
    (∀ e, (resolve s d p).result = .error e ↔ (resolve s d' p).result = .error e) ∧
    (resolve s d p).log.filter Diagnostic.isMissing
      = (resolve s d' p).log.filter Diagnostic.isMissing :=
  of_course_eq (course_resolveFile h [] p)

def pageAndPart (page part : String) : Disk :=
  ⟨⟨[(["p".toList], .file page.toUTF8), (["a".toList], .file part.toUTF8)]⟩, []⟩

theorem linkFree_pageAndPart (page part : String) : (pageAndPart page part).tree.LinkFree :=
  Tree.linkFree_of_entries (by simp [pageAndPart])

theorem readText_pageAndPart {page part : String} {f : Path} {t : Text} (hf : f.Canonical)
    (h : (pageAndPart page part).readText f = .ok t) :
    (f = ⟨"/p".toList⟩ ∧ t = page.toList) ∨ (f = ⟨"/a".toList⟩ ∧ t = part.toList) := by
  obtain ⟨l, b, hmem, rfl, ht⟩ :=
    Disk.mem_entries_of_readText (linkFree_pageAndPart page part) hf h
  simp only [pageAndPart, List.mem_cons, Prod.mk.injEq, Entry.file.injEq, List.not_mem_nil,
    or_false] at hmem
  rcases hmem with ⟨rfl, rfl⟩ | ⟨rfl, rfl⟩
  · exact .inl ⟨rfl, Option.some.inj (ht.symm.trans (Disk.text_toUTF8 page))⟩
  · exact .inr ⟨rfl, Option.some.inj (ht.symm.trans (Disk.text_toUTF8 part))⟩

/-- A page that includes a part and a file that is not there. -/
def plainSite : Disk := pageAndPart "@@include('a')@@include('b')" "x"

/-- The same with contexts and markup, and with a directive in a value. -/
def dressedSite : Disk :=
  pageAndPart "<p>@@include('a', \x7b\"k\": \"@@include('p')\"\x7d)@@include(\"b\", 1)" "@@k"

theorem alike_plainSite : Alike {} plainSite dressedSite where
  toSameOutline := .of_entries [] (by rfl)
  asked := by
    intro f t t' hf ht ht'
    have hne : (⟨"/p".toList⟩ : Path) ≠ ⟨"/a".toList⟩ := by decide
    rcases readText_pageAndPart hf ht with ⟨rfl, rfl⟩ | ⟨rfl, rfl⟩
    · obtain ⟨-, rfl⟩ := (readText_pageAndPart hf ht').resolve_right fun h => hne h.1
      decide +kernel
    · obtain ⟨-, rfl⟩ := (readText_pageAndPart hf ht').resolve_left fun h => hne h.1.symm
      decide +kernel

section

attribute [local instance] Matcher.unlimited

theorem resolve_alike_of_dressed :
    Alike {} plainSite dressedSite ∧
    ((∃ t, (resolve {} plainSite ⟨"p".toList⟩).result = .ok t) ↔
      ∃ t, (resolve {} dressedSite ⟨"p".toList⟩).result = .ok t) ∧
    (∀ e, (resolve {} plainSite ⟨"p".toList⟩).result = .error e ↔
      (resolve {} dressedSite ⟨"p".toList⟩).result = .error e) ∧
    (resolve {} plainSite ⟨"p".toList⟩).log.filter Diagnostic.isMissing
      = (resolve {} dressedSite ⟨"p".toList⟩).log.filter Diagnostic.isMissing :=
  ⟨alike_plainSite, resolve_alike {} _ _ alike_plainSite _⟩

end

end Expansion

end Pagefold
