import Pagefold.Tree

/-!
# Disks

A disk is a tree of files together with the folder where relative paths start. A path leads through
the tree step by step, and symbolic links on the way are followed.

* `Refusal`: why an operation is refused, and `Refusal.message`, its wording;
* `Disk`, `Disk.reach`: where a path leads;
* `Disk.isFile`, `Disk.isFolder`, `Disk.present`, `Disk.readText`: questions about a path;
* `Disk.absolute`: the absolute normal form of a path.
-/

namespace Pagefold

inductive Refusal where
  | absent
  | busy
  | present
  | notFolder
  | isFolder
  | invalid
  | nameTooLong
  | notEmpty
  | tooManyLinks
  /-- The bytes of a file are not UTF-8. -/
  | notText
  /-- A path has a NUL character in it. -/
  | nulCharacter
  /-- An empty path has no absolute form. -/
  | emptyPath
deriving Repr, DecidableEq

def Refusal.message : Refusal → Text
  | absent => "No such file or directory (os error 2)".toList
  | busy => "Device or resource busy (os error 16)".toList
  | present => "File exists (os error 17)".toList
  | notFolder => "Not a directory (os error 20)".toList
  | isFolder => "Is a directory (os error 21)".toList
  | invalid => "Invalid argument (os error 22)".toList
  | nameTooLong => "File name too long (os error 36)".toList
  | notEmpty => "Directory not empty (os error 39)".toList
  | tooManyLinks => "Too many levels of symbolic links (os error 40)".toList
  | notText => "stream did not contain valid UTF-8".toList
  | nulCharacter => "file name contained an unexpected NUL byte".toList
  | emptyPath => "cannot make an empty path absolute".toList

/-! ## Steps -/

inductive Step where
  /-- Stay in this folder. -/
  | stay
  /-- Go to the folder above. -/
  | up
  /-- Go to the entry of a name. -/
  | down (name : Text)
  /-- Stay where a slash at the end asks for a folder. -/
  | slash
deriving Repr, DecidableEq

/-- The step of a segment. Nothing between two slashes is no step. -/
def Step.ofSegment? (s : Text) : Option Step :=
  if s = [] then none
  else if s = ['.'] then some .stay
  else if s = ['.', '.'] then some .up
  else some (.down s)

def Path.steps (p : Path) : List Step :=
  p.segments.dropLast.filterMap Step.ofSegment?
    ++ match p.segments.getLast? with
      | some [] => if p.text = [] then [] else [.slash]
      | some s => (Step.ofSegment? s).toList
      | none => []

/-- What the last name of a path is looked up for. -/
inductive Purpose where
  /-- For the entry itself, which may be a link. -/
  | entry
  /-- For what is there, behind any link. -/
  | content
  /-- For a file to be written there, behind any link. -/
  | writing
deriving Repr, DecidableEq

/-- Where a path leads. -/
inductive Reached where
  /-- To an entry. -/
  | found (l : Location)
  /-- To a name that is free in a folder. -/
  | vacant (folder : Location) (name : Text)
deriving Repr, DecidableEq

/-- How far steps lead without following a link. -/
inductive Progress where
  | reached (r : Reached)
  | refused (r : Refusal)
  /-- A link in a folder, with the steps behind it. -/
  | link (folder : Location) (target : Path) (rest : List Step)

def maxNameBytes : Nat := 255

def maxPathBytes : Nat := 4095

def maxLinks : Nat := 40

namespace Tree

/-- Takes steps until a link has to be followed. A file to be written cannot have a slash behind
it. -/
def advance (t : Tree) (purpose : Purpose) (l : Location) : List Step → Progress
  | [] => .reached (.found l)
  | s :: rest =>
    match t.at? l with
    | none => .refused .absent
    | some .folder =>
      match s with
      | .stay => advance t purpose l rest
      | .slash => advance t purpose l rest
      | .up => advance t purpose l.dropLast rest
      | .down n =>
        if purpose = .writing && rest = [.slash] then .refused .isFolder
        else if maxNameBytes < n.byteSize then .refused .nameTooLong
        else
          match t.at? (l ++ [n]) with
          | none => if rest = [] then .reached (.vacant l n) else .refused .absent
          | some (.link target) =>
            if rest = [] && purpose = .entry then .reached (.found (l ++ [n]))
            else .link l target rest
          | some _ => advance t purpose (l ++ [n]) rest
    | some _ => .refused .notFolder

/-- Where steps lead, when at most `links` links are followed. -/
def walk (t : Tree) (purpose : Purpose) : Nat → Location → List Step → Except Refusal Reached
  | links, l, steps =>
    match t.advance purpose l steps with
    | .reached r => .ok r
    | .refused r => .error r
    | .link folder target rest =>
      match links with
      | 0 => .error .tooManyLinks
      | k + 1 =>
        walk t purpose k (if target.isAbsolute then [] else folder) (target.steps ++ rest)

end Tree

/-! ## Disks -/

/-- A tree and the location where relative paths start. -/
structure Disk where
  tree : Tree
  here : Location

namespace Disk

/-- Where the steps of a path start. -/
def start (d : Disk) (p : Path) : Location := if p.isAbsolute then [] else d.here

/-- Why a path is refused by its text alone. -/
def malformed? (p : Path) : Option Refusal :=
  if '\x00' ∈ p.text then some .nulCharacter
  else if p.text = [] then some .absent
  else if maxPathBytes < p.text.byteSize then some .nameTooLong
  else none

def reach (d : Disk) (p : Path) (purpose : Purpose) : Except Refusal Reached :=
  match malformed? p with
  | some r => .error r
  | none => d.tree.walk purpose maxLinks (d.start p) p.steps

/-- What stands where a path leads. -/
def entry (d : Disk) (p : Path) (purpose : Purpose) : Except Refusal (Location × Entry) :=
  match d.reach p purpose with
  | .error r => .error r
  | .ok (.vacant _ _) => .error .absent
  | .ok (.found l) =>
    match d.tree.at? l with
    | none => .error .absent
    | some e => .ok (l, e)

def present (d : Disk) (p : Path) : Bool := (d.entry p .content).isOk

def isFile (d : Disk) (p : Path) : Bool :=
  match d.entry p .content with
  | .ok (_, .file _) => true
  | _ => false

def isFolder (d : Disk) (p : Path) : Bool :=
  match d.entry p .content with
  | .ok (_, .folder) => true
  | _ => false

def readBytes (d : Disk) (p : Path) : Except Refusal ByteArray :=
  match d.entry p .content with
  | .error r => .error r
  | .ok (_, .file bytes) => .ok bytes
  | .ok _ => .error .isFolder

def readText (d : Disk) (p : Path) : Except Refusal Text :=
  match d.readBytes p with
  | .error r => .error r
  | .ok bytes =>
    match String.fromUTF8? bytes with
    | some s => .ok s.toList
    | none => .error .notText

def pathOf (l : Location) : Path := ⟨'/' :: Text.joined ['/'] l⟩

/-- The absolute normal form of a path. -/
def absolute (d : Disk) (p : Path) : Except Refusal Path :=
  if p.text = [] then .error .emptyPath else .ok ((pathOf d.here).join p).normalize

end Disk

end Pagefold
