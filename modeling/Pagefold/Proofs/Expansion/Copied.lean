import Pagefold.Proofs.Expansion.Includes
import Pagefold.Proofs.Text.Matches

/-!
# Where expanded text comes from

An expansion is run once more, with every character of the outcome remembering what followed it
where it was copied from: in a file, or in a value of a context.

* `Copied`, `Trace`, `Trace.text`: such characters, texts of them, and the plain text;
* `Trace.copy`, `Trace.replace`: a text as it stands somewhere, and matches replaced in a trace;
* `Expansion.fileTrace`: the expanded file at a path, as a trace;
* `Expansion.erase_fileTrace`: forgetting where the characters come from gives the expansion.
-/

namespace Pagefold

open Text

structure Copied where
  char : Char
  /-- What follows the character where it was copied from. -/
  after : Text
  /-- Whether it was copied from a list or an object in a context. -/
  nested : Bool
deriving Repr, DecidableEq

/-- A text whose characters remember where they were copied from. -/
abbrev Trace := List Copied

namespace Trace

/-! ## Traces and texts -/

def text (w : Trace) : Text := w.map Copied.char

/-- A text that stands somewhere as a whole. -/
def copy (nested : Bool) : Text → Trace
  | [] => []
  | c :: t => ⟨c, t, nested⟩ :: copy nested t

variable {w u : Trace} {x : Copied} {t before mid after : Text} {nested : Bool}

@[simp] theorem text_nil : text [] = [] := rfl

@[simp] theorem text_cons (x : Copied) (w : Trace) : text (x :: w) = x.char :: w.text := rfl

@[simp] theorem text_append (w u : Trace) : (w ++ u).text = w.text ++ u.text := List.map_append

@[simp] theorem text_reverse (w : Trace) : text w.reverse = w.text.reverse := List.map_reverse

@[simp] theorem text_take (n : Nat) (w : Trace) : text (w.take n) = w.text.take n := List.map_take

@[simp] theorem text_drop (n : Nat) (w : Trace) : text (w.drop n) = w.text.drop n := List.map_drop

@[simp] theorem length_text (w : Trace) : w.text.length = w.length := List.length_map _

@[simp] theorem text_copy (nested : Bool) (t : Text) : text (copy nested t) = t := by
  induction t with
  | nil => rfl
  | cons c t ih => rw [copy, text_cons, ih]

theorem mem_copy (h : x ∈ copy nested t) : (x.char :: x.after) <:+ t ∧ x.nested = nested := by
  induction t with
  | nil => cases h
  | cons c t ih =>
    rcases List.mem_cons.1 h with rfl | h
    · exact ⟨List.suffix_refl _, rfl⟩
    · exact ⟨(ih h).1.trans (List.suffix_cons c t), (ih h).2⟩

/-! ## Replacing matches -/

section Replace

variable {α : Type} (p : Pattern α) (f : α → Trace)

/-- A trace with `f v` in the place of every match of value `v`, after skipping `skip` characters,
which belong to the match that was read last. -/
def replace (skip : Nat) : Trace → Trace
  | [] => []
  | x :: w =>
    match skip with
    | k + 1 => replace k w
    | 0 =>
      match p.read? (text (x :: w)) with
      | none => x :: replace 0 w
      | some (v, rest) => f v ++ replace (w.length - rest.length) w

theorem replace_skip (skip : Nat) (w : Trace) :
    replace p f skip w = replace p f 0 (w.drop skip) := by
  induction w generalizing skip with
  | nil => simp [replace]
  | cons x w ih =>
    cases skip with
    | zero => rfl
    | succ k => exact ih k

theorem text_replace (w : Trace) :
    (replace p f 0 w).text = p.replace (fun v => (f v).text) w.text := by
  match w with
  | [] => rfl
  | x :: w =>
    cases hr : p.read? (text (x :: w)) with
    | none =>
      have hplain : p.read? (x.char :: text w) = none := hr
      rw [replace, hr]
      simp only
      rw [text_cons, text_cons, p.replace_of_none hplain, text_replace w]
    | some m =>
      obtain ⟨v, rest⟩ := m
      have hproper := p.proper hr
      have hrest : rest <:+ text w := by
        rcases List.suffix_cons_iff.1 hproper.1 with rfl | h
        · simp at hproper
        · exact h
      have hdrop : text (w.drop (w.length - rest.length)) = rest := by
        rw [text_drop, ← length_text, ← List.suffix_iff_eq_drop.1 hrest]
      rw [p.replace_of_some hr, replace, hr]
      simp only
      rw [text_append, replace_skip, text_replace (w.drop _), hdrop]
termination_by w.length

theorem mem_replace {skip : Nat} (h : x ∈ replace p f skip w) : x ∈ w ∨ ∃ v, x ∈ f v := by
  induction w generalizing skip with
  | nil => cases h
  | cons y w ih =>
    cases skip with
    | succ k => exact (ih h).imp_left (List.mem_cons_of_mem y)
    | zero =>
      rw [replace] at h
      split at h
      · rcases List.mem_cons.1 h with rfl | h
        · exact .inl List.mem_cons_self
        · exact (ih h).imp_left (List.mem_cons_of_mem y)
      · next v rest _ =>
        rcases List.mem_append.1 h with h | h
        · exact .inr ⟨v, h⟩
        · exact (ih h).imp_left (List.mem_cons_of_mem y)

end Replace

end Trace

/-! ## Contexts -/

namespace Context

def valueTrace : Json → Trace
  | .string s => Trace.copy false s
  | .array items => Trace.copy true (Json.array items).text
  | .object members => Trace.copy true (Json.object members).text
  | v => Trace.copy false v.text

def insertionTrace (context : Context) (key : Text) : Trace :=
  ((context.lookup key).map valueTrace).getD []

def keyTrace (context : Context) (w : Trace) (key : Text) : Trace :=
  Trace.replace (Pattern.literal (marker ++ key)) (fun _ => context.insertionTrace key) 0 w

def substituteTrace [Matcher] (context : Context) (w : Trace) : Trace :=
  if context.keys = [] || !Text.contains marker w.text then w
  else if Matcher.refusesKeys context.keys then context.keys.foldl context.keyTrace w
  else Trace.replace (placeholder context.keys) context.insertionTrace 0 w

@[simp] theorem text_valueTrace (v : Json) : (valueTrace v).text = valueText v := by
  cases v <;> exact Trace.text_copy _ _

@[simp] theorem text_insertionTrace (context : Context) (key : Text) :
    (context.insertionTrace key).text = context.insertion key := by
  unfold insertionTrace insertion
  cases context.lookup key with
  | none => rfl
  | some v => exact text_valueTrace v

@[simp] theorem text_keyTrace (context : Context) (w : Trace) (key : Text) :
    (context.keyTrace w key).text
      = (Pattern.literal (marker ++ key)).replace (fun _ => context.insertion key) w.text := by
  rw [keyTrace, Trace.text_replace]
  simp only [text_insertionTrace]

@[simp] theorem text_substituteTrace [Matcher] (context : Context) (w : Trace) :
    (context.substituteTrace w).text = context.substitute w.text := by
  unfold substituteTrace substitute
  split
  · rfl
  · split
    · exact (List.foldl_hom Trace.text fun w k => (context.text_keyTrace w k).symm).symm
    · rw [Trace.text_replace]
      simp only [text_insertionTrace]
      rfl

end Context

/-! ## Layouts -/

namespace Starter

def withoutTitleTrace (s : StarterSettings) (page : Trace) : Trace :=
  match cut? s.titleStart page.text with
  | none => page
  | some (before, block) =>
    match cut? s.titleEnd block with
    | none => page
    | some (_, after) => page.take before.length ++ page.drop (page.length - after.length)

/-- A layout with a page, and a line break, after `n` of its characters. -/
def betweenTrace (layout page : Trace) (n : Nat) : Trace :=
  layout.take n ++ page ++ Trace.copy false ['\n'] ++ layout.drop n

def insertTrace (s : StarterSettings) (layout page : Trace) : Trace :=
  match firstMarker? layout.text s.insertionMarkers with
  | some (_, before, _) => betweenTrace layout page before.length
  | none =>
    match cutBefore? layout.text s.bodyClose with
    | some (before, _) => betweenTrace layout page before.length
    | none => layout ++ Trace.copy false ['\n'] ++ page

def spliceTrace (s : StarterSettings) (layout page : Trace) : Trace :=
  insertTrace s layout (if hasTitle s layout.text then withoutTitleTrace s page else page)

theorem text_withoutTitleTrace (s : StarterSettings) (page : Trace) :
    (withoutTitleTrace s page).text = withoutTitle s page.text := by
  unfold withoutTitleTrace withoutTitle
  cases hcut : cut? s.titleStart page.text with
  | none => rfl
  | some m =>
    obtain ⟨before, block⟩ := m
    simp only
    cases hend : cut? s.titleEnd block with
    | none => rfl
    | some n =>
      obtain ⟨mid, after⟩ := n
      have hwhole := cut?_append hcut
      rw [cut?_append hend] at hwhole
      have hfront : page.text.take before.length = before := by
        rw [hwhole, List.append_assoc, List.take_left]
      have hback : page.text.drop (page.length - after.length) = after := by
        rw [← Trace.length_text]
        refine (List.suffix_iff_eq_drop.1 ?_).symm
        rw [hwhole]
        exact (List.suffix_append _ after).trans (List.suffix_append _ _)
      simp only [Trace.text_append, Trace.text_take, Trace.text_drop, hfront, hback]

theorem text_betweenTrace {layout page : Trace} {before after : Text}
    (h : layout.text = before ++ after) :
    (betweenTrace layout page before.length).text = between before page.text after := by
  simp [betweenTrace, between, h, Trace.copy]

theorem text_spliceTrace (s : StarterSettings) (layout page : Trace) :
    (spliceTrace s layout page).text = splice s layout.text page.text := by
  have hpage : (if hasTitle s layout.text then withoutTitleTrace s page else page).text
      = pageFor s layout.text page.text := by
    unfold pageFor
    split
    · exact text_withoutTitleTrace s page
    · rfl
  unfold spliceTrace splice
  rw [← hpage]
  generalize (if hasTitle s layout.text then withoutTitleTrace s page else page) = page
  unfold insertTrace insert
  cases hmark : firstMarker? layout.text s.insertionMarkers with
  | some m =>
    obtain ⟨m', -, hm'⟩ := List.exists_of_findSome?_eq_some hmark
    obtain ⟨cut, hcut, heq⟩ := Option.map_eq_some_iff.1 hm'
    cases heq
    exact text_betweenTrace (cutBefore?_eq_some hcut).1
  | none =>
    simp only
    cases hcut : cutBefore? layout.text s.bodyClose with
    | some m => exact text_betweenTrace (cutBefore?_eq_some hcut).1
    | none => simp [Trace.copy]

end Starter

/-! ## Expansion -/

/-- A computation of a trace, as a computation of its text. -/
def Recorded.erase (r : Recorded Trace) : Recorded Text := ⟨r.log, r.result.map Trace.text⟩

namespace Expansion

def contextTrace [Matcher] (label : Text) (raw : Option Text) (w : Trace) : Recorded Trace :=
  match Context.read raw with
  | .absent => .pure w
  | .malformed reason => ⟨[.malformedContext label reason], .ok w⟩
  | .parsed context =>
    ⟨context.keysWithDirectives.map (.directiveInValue label), .ok (context.substituteTrace w)⟩

def directiveTrace [Matcher] (includeFile : Path → Recorded Trace) (d : Disk) (folder : Path)
    (x : Directive) : Recorded Trace :=
  let target := folder.included x.path
  if d.isFile target then
    (includeFile target).andThen (contextTrace x.normalizedPath x.context)
  else
    ⟨[.missingInclude x.path target], .ok (Trace.copy false (Diagnostic.markFor x.path))⟩

/-- Expands the pieces of a text; a character outside the directives is followed by the pieces
behind it. -/
def piecesTrace (expand : Directive → Recorded Trace) (log : List Diagnostic) (done : Trace) :
    List (Piece Directive) → Recorded Trace
  | [] => ⟨log, .ok done.reverse⟩
  | .plain c :: ps => piecesTrace expand log (⟨c, ps.flatMap Piece.source, false⟩ :: done) ps
  | .hit _ x :: ps =>
    match expand x with
    | ⟨l, .error e⟩ => ⟨log ++ l, .error e⟩
    | ⟨l, .ok w⟩ => piecesTrace expand (log ++ l) (w.reverse ++ done) ps

def textTrace [Matcher] (includeFile : Path → Recorded Trace) (d : Disk) (folder : Path)
    (t : Text) : Recorded Trace :=
  piecesTrace (directiveTrace includeFile d folder) [] [] (Directive.pattern.pieces t)

def pageTrace [Matcher] (s : StarterSettings) (includeFile : Path → Recorded Trace) (d : Disk)
    (folder : Path) (o : Starter.Opening) : Recorded Trace :=
  ((includeFile o.layout).andThen (contextTrace o.layout.text o.context)).andThen fun layout =>
    (textTrace includeFile d folder o.content).andThen fun page =>
      .pure (Starter.spliceTrace s layout page)

def bodyTrace [Matcher] (s : StarterSettings) (includeFile : Path → Recorded Trace) (d : Disk)
    (folder : Path) (t : Text) : Recorded Trace :=
  match Starter.detect s d folder t with
  | some o => pageTrace s includeFile d folder o
  | none => textTrace includeFile d folder t

def fileTrace [Matcher] (s : StarterSettings) (d : Disk) (v : Chain) (p : Path) : Recorded Trace :=
  match d.absolute p with
  | .error why => .fail (.fileNotFound p why)
  | .ok file =>
    if hv : v.has file then .fail (.circularInclude file (v.fromFirst ++ [file]))
    else
      match ht : d.readText file with
      | .error why => .fail (.fileNotFound file why)
      | .ok t =>
        have : Chain.room (file :: v) < v.room :=
          Chain.room_cons_lt (by simpa using hv) (Disk.byteSize_of_readText ht)
        bodyTrace s (fun q => fileTrace s d (file :: v) q) d (folderOf file) t
termination_by v.room

/-! ## Forgetting where characters come from -/

theorem erase_andThen {r : Recorded Trace} {f : Trace → Recorded Trace} {g : Text → Recorded Text}
    (hf : ∀ w, (f w).erase = g w.text) : (r.andThen f).erase = r.erase.andThen g := by
  obtain ⟨log, result⟩ := r
  cases result with
  | error e => rfl
  | ok w =>
    show Recorded.erase (.after log (f w)) = .after log (g w.text)
    rw [← hf w]
    rfl

section Erase

variable {s : StarterSettings} {d : Disk} {folder : Path} {copied : Path → Recorded Trace}
  {includeFile : Path → Recorded Text}

theorem erase_contextTrace [Matcher] (label : Text) (raw : Option Text) (w : Trace) :
    (contextTrace label raw w).erase = applyContext label raw w.text := by
  unfold contextTrace applyContext
  cases Context.read raw with
  | absent => rfl
  | malformed reason => rfl
  | parsed context =>
    simp only [← Context.text_substituteTrace]
    rfl

theorem erase_directiveTrace [Matcher] (h : ∀ q, (copied q).erase = includeFile q) (x : Directive) :
    (directiveTrace copied d folder x).erase = expandDirective includeFile d folder x := by
  simp only [directiveTrace, expandDirective]
  split
  · rw [erase_andThen (erase_contextTrace x.normalizedPath x.context), h]
  · simp [Recorded.erase, Except.map]

theorem erase_piecesTrace {expand : Directive → Recorded Trace}
    {expand' : Directive → Recorded Text} (h : ∀ x, (expand x).erase = expand' x) (log : List Diagnostic) (done : Trace)
    (ps : List (Piece Directive)) :
    (piecesTrace expand log done ps).erase = expandPieces expand' log done.text ps := by
  induction ps generalizing log done with
  | nil => simp [piecesTrace, expandPieces, Recorded.erase, Except.map]
  | cons piece ps ih =>
    cases piece with
    | plain c => exact ih log _
    | hit source x =>
      rw [piecesTrace, expandPieces, ← h x]
      obtain ⟨l, result⟩ := expand x
      cases result with
      | error e => rfl
      | ok w =>
        simp only [ih]
        rw [Trace.text_append, Trace.text_reverse]
        rfl

theorem erase_textTrace [Matcher] (h : ∀ q, (copied q).erase = includeFile q) (t : Text) :
    (textTrace copied d folder t).erase = expandText includeFile d folder t :=
  erase_piecesTrace (erase_directiveTrace h) [] [] _

theorem erase_bodyTrace [Matcher] (h : ∀ q, (copied q).erase = includeFile q) (t : Text) :
    (bodyTrace s copied d folder t).erase = expandBody s includeFile d folder t := by
  unfold bodyTrace expandBody
  cases Starter.detect s d folder t with
  | none => exact erase_textTrace h t
  | some o =>
    simp only [pageTrace, expandPage]
    rw [erase_andThen (g := fun layout => (expandText includeFile d folder o.content).andThen
      fun page => .pure (Starter.splice s layout page))]
    · rw [erase_andThen (erase_contextTrace o.layout.text o.context), h]
    · intro layout
      rw [erase_andThen (g := fun page => .pure (Starter.splice s layout.text page)),
        erase_textTrace h]
      intro page
      rw [← Starter.text_spliceTrace]
      rfl

end Erase

/-- One step of an expansion, as for texts. -/
theorem fileTrace_eq [Matcher] (s : StarterSettings) (d : Disk) (v : Chain) (p : Path) :
    fileTrace s d v p = match d.absolute p with
      | .error why => .fail (.fileNotFound p why)
      | .ok file =>
        if v.has file then .fail (.circularInclude file (v.fromFirst ++ [file]))
        else
          match d.readText file with
          | .error why => .fail (.fileNotFound file why)
          | .ok t => bodyTrace s (fileTrace s d (file :: v)) d (folderOf file) t := by
  rw [fileTrace]
  cases d.absolute p with
  | error why => rfl
  | ok file =>
    simp only
    split
    · rfl
    · split
      · next ht => rw [ht]
      · next ht => rw [ht]

theorem erase_fileTrace [Matcher] (s : StarterSettings) (d : Disk) (v : Chain) (p : Path) :
    (fileTrace s d v p).erase = resolveFile s d v p := by
  induction v using Chain.extend_induction d generalizing p with
  | h v ih =>
    rw [fileTrace_eq, resolveFile_eq, resolveStep]
    cases d.absolute p with
    | error why => rfl
    | ok file =>
      simp only
      split
      · rfl
      · next hv =>
        cases ht : d.readText file with
        | error why => rfl
        | ok t => exact erase_bodyTrace (ih file t (by simpa using hv) ht) t

end Expansion

end Pagefold
