import Pagefold.Disk.Edit

/-!
# Copying a folder

A folder is copied entry by entry, the names of each folder in ascending order. What was at the
destination is removed first. Symbolic links are not copied; only the source itself may be one.

* `Disk.CopyFailure`: why a copy stopped;
* `Disk.list`: what a folder holds;
* `Disk.copyTree`: the copy of a folder with all it holds.
-/

namespace Pagefold.Disk

/-- Why a copy stopped: at an entry of the source that could not be looked at, or at a refusal. -/
inductive CopyFailure where
  | unreadable (source : Path) (why : Refusal)
  | refused (why : Refusal)
deriving Repr, DecidableEq

def CopyFailure.message : CopyFailure → Text
  | unreadable source why =>
    "IO error for operation on ".toList ++ source.text ++ ": ".toList ++ why.message
  | refused why => why.message

/-- A copy under way: the disk, and how many files were copied or why it stopped. -/
abbrev Copying := Disk × Except CopyFailure Nat

def list (d : Disk) (p : Path) : Except Refusal (List (Text × Entry)) :=
  match d.entry p .content with
  | .error r => .error r
  | .ok (l, .folder) =>
    .ok ((d.tree.names l).filterMap fun n => (d.tree.at? (l ++ [n])).map (n, ·))
  | .ok _ => .error .notFolder

def Copying.andThen (s : Copying) (f : Disk → Nat → Copying) : Copying :=
  match s with
  | (d, .ok n) => f d n
  | (d, .error e) => (d, .error e)

def copyOne (d : Disk) (n : Nat) (source dest : Path) : Copying :=
  match d.copyFile source dest with
  | .ok d => (d, .ok (n + 1))
  | .error r => (d, .error (.refused r))

/-- Makes the folder `made` and then copies into `dest` what the folder `source` held before that,
using `copyEntry` for each entry. -/
def copyFolder (copyEntry : Copying → Path → Path → Entry → Copying) (d : Disk) (n : Nat)
    (source dest made : Path) : Copying :=
  let held := d.list source
  match d.makeFolders made with
  | (d, .error r) => (d, .error (.refused r))
  | (d, .ok ()) =>
    match held with
    | .error r => (d, .error (.unreadable source r))
    | .ok es =>
      es.foldl (fun s (m, e) => copyEntry s (source.join ⟨m⟩) (dest.join ⟨m⟩) e) (d, .ok n)

/-- Copies an entry whose folders nest at most `depth` deep. -/
def copyEntry : Nat → Copying → Path → Path → Entry → Copying
  | 0, s, source, _, _ => s.andThen fun d _ => (d, .error (.unreadable source .nameTooLong))
  | depth + 1, s, source, dest, e =>
    s.andThen fun d n =>
      match e with
      | .file _ => copyOne d n source dest
      | .link _ => (d, .ok n)
      | .folder => copyFolder (copyEntry depth) d n source dest dest

/-- Copies what the folder `source` holds into `dest`, which is there. -/
def copyInto (d : Disk) (source dest : Path) : Copying :=
  let below := copyEntry maxPathBytes
  let made := dest.join ⟨[]⟩
  match d.entry source .entry with
  | .error r => (d, .error (.unreadable source r))
  | .ok (_, .file _) => copyOne d 0 source made
  | .ok (_, .folder) => copyFolder below d 0 source dest made
  | .ok (_, .link _) =>
    match d.entry source .content with
    | .error r => (d, .error (.unreadable source r))
    | .ok (_, .folder) => copyFolder below d 0 source dest dest
    | .ok _ => (d, .ok 0)

/-- Replaces `dest` by a copy of the folder `source`. Nothing happens when both are the same path. -/
def copyTree (d : Disk) (source dest : Path) : Copying :=
  if source.normalize = dest.normalize then (d, .ok 0)
  else
    let removed := if d.present dest then d.removeFolder dest else (d, .ok ())
    match removed with
    | (d, .error r) => (d, .error (.refused r))
    | (d, .ok ()) =>
      match d.makeFolders dest with
      | (d, .error r) => (d, .error (.refused r))
      | (d, .ok ()) => d.copyInto source dest

end Pagefold.Disk
