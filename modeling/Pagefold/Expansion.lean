import Pagefold.Context
import Pagefold.Diagnostic
import Pagefold.Starter.Splice

/-!
# Expanding includes

A file is read, the directives in it are replaced by the expanded files that they name, and each
context is put in place in the file it was written for. A file that opens with a starter directive is
spliced into its layout.

* `Chain`: the files on the way to the one that is expanded;
* `Expansion.expandText`: a text with its directives replaced, each by what `include` gives;
* `Expansion.resolveFile`, `Expansion.resolveText`: an expanded file, and an expanded text.

A chain only grows by files that are not in it yet and that can be read. Their paths are of limited
length, so there are finitely many of them and the expansion comes to an end.
-/

namespace Pagefold

open Text

/-- The files on the way to the one that is expanded, the last one first. -/
abbrev Chain := List Path

namespace Chain

def has (v : Chain) (p : Path) : Bool := v.any (Path.same p)

/-- The files on the way, the first one first. -/
def fromFirst (v : Chain) : List Path := v.reverse

/-! ## The paths that a chain may still take -/

def allChars : List Char := (List.range 0x110000).map Char.ofNat

/-- All texts of at most `n` characters. -/
def textsWithin : Nat → List Text
  | 0 => [[]]
  | n + 1 => [] :: (textsWithin n).flatMap fun t => allChars.map (· :: t)

/-- How many of the paths that may lead to a file are not on the way. -/
def room (v : Chain) : Nat :=
  ((textsWithin maxPathBytes).filter fun t => !v.has ⟨t⟩).length

theorem mem_allChars (c : Char) : c ∈ allChars := by
  refine List.mem_map.2 ⟨c.toNat, ?_, Char.ofNat_toNat c⟩
  rw [List.mem_range]
  have := c.valid
  simp only [UInt32.isValidChar, Nat.isValidChar] at this
  simp only [Char.toNat]
  omega

theorem mem_textsWithin {n : Nat} {t : Text} (h : t.length ≤ n) : t ∈ textsWithin n := by
  induction n generalizing t with
  | zero => simpa [textsWithin] using h
  | succ n ih =>
    cases t with
    | nil => simp [textsWithin]
    | cons c t =>
      simp only [List.length_cons, Nat.add_le_add_iff_right] at h
      simp only [textsWithin, List.mem_cons, reduceCtorEq, List.mem_flatMap, List.mem_map,
        List.cons.injEq, false_or]
      exact ⟨t, ih h, c, mem_allChars c, rfl, rfl⟩

theorem length_le_byteSize (t : Text) : t.length ≤ t.byteSize := by
  induction t with
  | nil => simp
  | cons c t ih =>
    have := c.utf8Size_pos
    simp only [List.length_cons, byteSize_cons]
    omega

theorem length_filter_lt {α : Type} {p q : α → Bool} {l : List α} {a : α}
    (hle : ∀ x, q x = true → p x = true) (ha : a ∈ l) (hp : p a = true) (hq : q a = false) :
    (l.filter q).length < (l.filter p).length := by
  induction l with
  | nil => simp at ha
  | cons b l ih =>
    have hsub : (l.filter q).length ≤ (l.filter p).length := by
      rw [← List.countP_eq_length_filter, ← List.countP_eq_length_filter]
      exact List.countP_mono_left fun x _ => hle x
    rcases List.mem_cons.1 ha with rfl | ha
    · simp [hp, hq]
      omega
    · have := ih ha
      cases hqb : q b
      · cases hpb : p b <;> simp [hqb, hpb] <;> omega
      · simp [hqb, hle b hqb, this]

/-- A path that is not on the way and short enough leaves less room when it is taken. -/
theorem room_cons_lt {v : Chain} {p : Path} (hv : v.has p = false)
    (hp : p.text.byteSize ≤ maxPathBytes) : room (p :: v) < room v := by
  refine length_filter_lt (a := p.text) ?_ (mem_textsWithin ?_) (by simp [hv]) ?_
  · intro t ht
    simp only [has, List.any_cons, Bool.not_or, Bool.and_eq_true] at ht
    exact ht.2
  · exact Nat.le_trans (length_le_byteSize _) hp
  · simp [has, Path.same]

end Chain

/-- What can be read has a path of limited length. -/
theorem Disk.byteSize_of_readText {d : Disk} {p : Path} {t : Text}
    (h : d.readText p = .ok t) : p.text.byteSize ≤ maxPathBytes := by
  by_cases hp : p.text.byteSize ≤ maxPathBytes
  · exact hp
  · have hr : ∃ r, d.reach p .content = .error r := by
      have : ∃ r, malformed? p = some r := by
        unfold malformed?
        split
        · exact ⟨_, rfl⟩
        · split
          · exact ⟨_, rfl⟩
          · simp [Nat.lt_of_not_le hp]
      obtain ⟨r, hr⟩ := this
      exact ⟨r, by simp [reach, hr]⟩
    obtain ⟨r, hr⟩ := hr
    simp [readText, readBytes, entry, hr] at h

namespace Expansion

/-! ## Contexts -/

/-- An expanded text with the context of its directive in place. The directive is called `label` in
what is recorded. -/
def applyContext [Matcher] (label : Text) (raw : Option Text) (t : Text) : Recorded Text :=
  match Context.read raw with
  | .absent => .pure t
  | .malformed reason => ⟨[.malformedContext label reason], .ok t⟩
  | .parsed context =>
    ⟨context.keysWithDirectives.map (.directiveInValue label), .ok (context.substitute t)⟩

/-! ## Texts -/

/-- Expands one directive of a file in a folder. -/
def expandDirective [Matcher] (includeFile : Path → Recorded Text) (d : Disk) (folder : Path)
    (x : Directive) : Recorded Text :=
  let target := folder.included x.path
  if d.isFile target then
    (includeFile target).andThen (applyContext x.normalizedPath x.context)
  else
    ⟨[.missingInclude x.path target], .ok (Diagnostic.markFor x.path)⟩

/-- Expands the pieces of a text behind what is expanded already: what was recorded, and the text so
far, last character first. -/
def expandPieces (expand : Directive → Recorded Text) (log : List Diagnostic) (done : Text) :
    List (Piece Directive) → Recorded Text
  | [] => ⟨log, .ok done.reverse⟩
  | .plain c :: ps => expandPieces expand log (c :: done) ps
  | .hit _ x :: ps =>
    match expand x with
    | ⟨l, .error e⟩ => ⟨log ++ l, .error e⟩
    | ⟨l, .ok t⟩ => expandPieces expand (log ++ l) (t.reverse ++ done) ps

/-- A text of a file in a folder with its directives replaced by the files they name, from left to
right. What is put in their places is not read again. -/
def expandText [Matcher] (includeFile : Path → Recorded Text) (d : Disk) (folder : Path)
    (t : Text) : Recorded Text :=
  expandPieces (expandDirective includeFile d folder) [] [] (Directive.pattern.pieces t)

/-! ## Files -/

/-- A page in a folder that opens with a starter directive, spliced into its layout. -/
def expandPage [Matcher] (s : StarterSettings) (includeFile : Path → Recorded Text) (d : Disk)
    (folder : Path) (o : Starter.Opening) : Recorded Text :=
  ((includeFile o.layout).andThen (applyContext o.layout.text o.context)).andThen fun layout =>
    (expandText includeFile d folder o.content).andThen fun page =>
      .pure (Starter.splice s layout page)

def folderOf (file : Path) : Path := file.parent?.getD ⟨['/']⟩

/-- The expanded file at a path that was reached through the files of a chain. -/
def resolveFile [Matcher] (s : StarterSettings) (d : Disk) (v : Chain) (p : Path) :
    Recorded Text :=
  match d.absolute p with
  | .error why => .fail (.fileNotFound p why)
  | .ok file =>
    if hv : v.has file then .fail (.circularInclude file (v.fromFirst ++ [file]))
    else
      match ht : d.readText file with
      | .error why => .fail (.fileNotFound file why)
      | .ok t =>
        have : Chain.room (file :: v) < v.room :=
          Chain.room_cons_lt (by simpa using hv) (Disk.byteSize_of_readText ht)
        match Starter.detect s d (folderOf file) t with
        | some o => expandPage s (fun q => resolveFile s d (file :: v) q) d (folderOf file) o
        | none => expandText (fun q => resolveFile s d (file :: v) q) d (folderOf file) t
termination_by v.room

/-- A text in a folder, expanded as part of the last file of a chain. -/
def resolveText [Matcher] (s : StarterSettings) (d : Disk) (folder : Path) (v : Chain)
    (t : Text) : Recorded Text :=
  expandText (resolveFile s d v) d folder t

def resolve [Matcher] (s : StarterSettings) (d : Disk) (p : Path) : Recorded Text :=
  resolveFile s d [] p

end Expansion

end Pagefold
