import Pagefold.Text

/-!
# Paths

A path is a text with slashes between its segments. A disk is never consulted here.

* `Path`, `Path.components`: a path as written, and the components it consists of;
* `Path.join`, `Path.parent?`, `Path.fileName?`, `Path.ancestors`: going down and up;
* `Path.normalize`: the path without `.` and, as far as can be, without `..`;
* `Path.relative`: the path that leads from one folder to another place.
-/

namespace Pagefold

structure Path where
  text : Text
deriving Repr, DecidableEq

namespace Path

inductive Component where
  /-- The slash at the front of an absolute path. -/
  | root
  /-- The segment `.` at the front of a relative path. -/
  | current
  /-- The segment `..`. -/
  | parent
  /-- Any other segment. -/
  | name (n : Text)
deriving Repr, DecidableEq

/-- The texts between the slashes. -/
def segments (p : Path) : List Text := Text.splitAtChar '/' p.text

def isAbsolute (p : Path) : Bool := p.text.head? = some '/'

/-! ## Components -/

/-- Whether a segment behind the first one adds nothing: it is empty or `.`. -/
def isIdle (s : Text) : Bool := s = [] || s = ['.']

/-- The component of a segment behind the first one. -/
def innerComponent? (s : Text) : Option Component :=
  if isIdle s then none else if s = ['.', '.'] then some .parent else some (.name s)

def firstComponent (s : Text) : Component :=
  if s = [] then .root
  else if s = ['.'] then .current
  else if s = ['.', '.'] then .parent
  else .name s

def components (p : Path) : List Component :=
  match p.text, p.segments with
  | [], _ => []
  | _, [] => []
  | _, s :: ss => firstComponent s :: ss.filterMap innerComponent?

def Component.text : Component → Text
  | root => ['/']
  | current => ['.']
  | parent => ['.', '.']
  | name n => n

/-- The path with given components; a root can only come first. -/
def ofComponents : List Component → Path
  | .root :: cs => ⟨'/' :: Text.joined ['/'] (cs.map Component.text)⟩
  | cs => ⟨Text.joined ['/'] (cs.map Component.text)⟩

def same (p q : Path) : Bool := p.components = q.components

/-! ## Down and up -/

/-- A path taken below another one; an absolute path stands for itself. -/
def join (base below : Path) : Path :=
  if below.isAbsolute then below
  else if base.text = [] || base.text.getLast? = some '/' then ⟨base.text ++ below.text⟩
  else ⟨base.text ++ '/' :: below.text⟩

/-- The path without its last component; none if there is no component to take away. -/
def parent? (p : Path) : Option Path :=
  match p.segments with
  | [] => none
  | first :: rest =>
    match rest.reverse.dropWhile isIdle with
    | [] => if first = [] then none else some ⟨[]⟩
    | _ :: before =>
      let kept := before.dropWhile isIdle
      if first = [] && kept = [] then some ⟨['/']⟩
      else some ⟨Text.joined ['/'] (first :: kept.reverse)⟩

/-- The last component of a path, if it is a name. -/
def fileName? (p : Path) : Option Text :=
  match p.components.getLast? with
  | some (.name n) => some n
  | _ => none

/-- The path, its parent, and so on, at most `n` of them. -/
def ancestorsWithin : Nat → Path → List Path
  | 0, _ => []
  | n + 1, p =>
    match p.parent? with
    | none => [p]
    | some q => p :: ancestorsWithin n q

/-- The path, its parent, and so on to the last one. -/
def ancestors (p : Path) : List Path := ancestorsWithin (p.segments.length + 1) p

/-! ## Normal form -/

/-- One more component on a stack of them, whose top is the head. Above the root is the root. -/
def push : List Component → Component → List Component
  | stack, .current => stack
  | .name _ :: stack, .parent => stack
  | .root :: stack, .parent => .root :: stack
  | stack, c => c :: stack

def normalComponents (cs : List Component) : List Component := (cs.foldl push []).reverse

/-- The path without `.`, and without `..` where a name or the root stands before it. -/
def normalize (p : Path) : Path := ofComponents (normalComponents p.components)

/-! ## Between paths -/

/-- What remains of two lists behind their common beginning. -/
def afterCommon : List Component → List Component → List Component × List Component
  | a :: as, b :: bs => if a = b then afterCommon as bs else (a :: as, b :: bs)
  | as, bs => (as, bs)

/-- The path that leads from the folder `base` to `target`. -/
def relative (target base : Path) : Path :=
  let (down, up) := afterCommon target.components base.components
  let steps := up.map (fun _ => Component.parent) ++ down
  let p : Path := steps.foldl (fun p c => p.join ⟨c.text⟩) ⟨[]⟩
  if p.text = [] then ⟨['.']⟩ else p

/-- The text of a path with backslashes turned into slashes. -/
def forwardSlashes (p : Path) : Text := p.text.map fun c => if c = '\\' then '/' else c

end Path

end Pagefold
