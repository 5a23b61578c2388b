import Pagefold.Disk

/-!
# Changing a disk

* `Disk.makeFolder`, `Disk.makeFolders`: one folder, and a folder with those above it;
* `Disk.writeBytes`, `Disk.writeText`: a file with new content;
* `Disk.copyFile`: the content of one file put into another;
* `Disk.removeFolder`: a folder with all it holds.

An operation that may be refused half-way gives the disk it leaves behind together with the refusal.
-/

namespace Pagefold

/-- A path without slashes at its end, as long as something is in front of them. -/
def Path.withoutEndSlashes (p : Path) : Path :=
  match p.text.reverse.dropWhile (· == '/') with
  | [] => ⟨p.text.take 1⟩
  | t => ⟨t.reverse⟩

/-- What an operation leaves behind: a disk, and a value or a refusal. -/
abbrev Disk.Edit (α : Type) := Disk × Except Refusal α

namespace Disk

def put (d : Disk) (l : Location) (e : Entry) : Disk := { d with tree := d.tree.put l e }

/-- The folder in which the last step of a path is taken. -/
def folderOf (d : Disk) (p : Path) : Except Refusal Location :=
  match d.tree.walk .content maxLinks (d.start p) p.steps.dropLast with
  | .error r => .error r
  | .ok (.vacant _ _) => .error .absent
  | .ok (.found l) =>
    match d.tree.at? l with
    | some .folder => .ok l
    | some _ => .error .notFolder
    | none => .error .absent

/-! ## Folders -/

def makeFolder (d : Disk) (p : Path) : Except Refusal Disk :=
  match malformed? p with
  | some r => .error r
  | none =>
    let p := p.withoutEndSlashes
    match p.steps.getLast? with
    | some (.down _) =>
      match d.tree.walk .entry maxLinks (d.start p) p.steps with
      | .error r => .error r
      | .ok (.found _) => .error .present
      | .ok (.vacant folder n) => .ok (d.put (folder ++ [n]) .folder)
    | some _ => (d.folderOf p).bind fun _ => .error .present
    | none => .error .present

/-- Makes the first folder of a list after those behind it in the list, as far as they are missing.
Each path in the list is the parent of the one before it. -/
def makeUpwards (d : Disk) : List Path → Edit Unit
  | [] => (d, .ok ())
  | p :: above =>
    match d.makeFolder p with
    | .ok d => (d, .ok ())
    | .error .absent =>
      match makeUpwards d above with
      | (d, .error r) => (d, .error r)
      | (d, .ok ()) =>
        match d.makeFolder p with
        | .ok d => (d, .ok ())
        | .error r => if d.isFolder p then (d, .ok ()) else (d, .error r)
    | .error r => if d.isFolder p then (d, .ok ()) else (d, .error r)

/-- Makes a folder with all folders above it; one that is there already is left as it is. -/
def makeFolders (d : Disk) (p : Path) : Edit Unit :=
  d.makeUpwards (p.ancestors.takeWhile fun q => q.text ≠ [] && q.parent?.isSome)

/-! ## Files -/

/-- Where a file that is written ends up. -/
def writePlace (d : Disk) (p : Path) : Except Refusal Location :=
  match d.reach p .writing with
  | .error r => .error r
  | .ok (.vacant folder n) => .ok (folder ++ [n])
  | .ok (.found l) =>
    match d.tree.at? l with
    | some (.file _) => .ok l
    | _ => .error .isFolder

def writeBytes (d : Disk) (p : Path) (bytes : ByteArray) : Except Refusal Disk :=
  (d.writePlace p).map fun l => d.put l (.file bytes)

def writeText (d : Disk) (p : Path) (t : Text) : Except Refusal Disk :=
  d.writeBytes p (String.ofList t).toUTF8

/-- Puts the content of one file into another. The other one is emptied first, so a file that is
copied onto itself ends up empty. -/
def copyFile (d : Disk) (source dest : Path) : Except Refusal Disk := do
  let _ ← d.readBytes source
  let emptied ← d.writeBytes dest .empty
  emptied.writeBytes dest (← emptied.readBytes source)

/-! ## Removing -/

def removeEmpty (d : Disk) (p : Path) : Except Refusal Disk := do
  let p := p.withoutEndSlashes
  match p.steps.getLast? with
  | none => .error .absent
  | some .slash => .error .busy
  | some .stay => (d.folderOf p).bind fun _ => .error .invalid
  | some .up => (d.folderOf p).bind fun _ => .error .notEmpty
  | some (.down n) =>
    let l := (← d.folderOf p) ++ [n]
    match d.tree.at? l with
    | none => .error .absent
    | some .folder => .ok { d with tree := d.tree.prune l }
    | some _ => .error .notFolder

/-- Removes a folder with all it holds. A link is removed by itself, and never followed. Where the
path no longer leads to the folder once that is empty, the folder stays. -/
def removeFolder (d : Disk) (p : Path) : Edit Unit :=
  match d.entry p .entry with
  | .error r => (d, .error r)
  | .ok (_, .file _) => (d, .error .notFolder)
  | .ok (l, .link _) => ({ d with tree := d.tree.prune l }, .ok ())
  | .ok (l, .folder) =>
    let emptied : Disk := { d with tree := d.tree.pruneBelow l }
    match emptied.removeEmpty p with
    | .ok d => (d, .ok ())
    | .error .absent => (emptied, .ok ())
    | .error r => (emptied, .error r)

end Disk

end Pagefold
