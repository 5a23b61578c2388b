import Pagefold.CommandLine.Run

/-!
# The program

The program looks at the working folder and at the folders of the files that it is given, runs on what
it saw there, and then makes the changes.
-/

namespace Pagefold.Main

def pathString (l : Location) : String := String.ofList (Disk.pathOf l).text

def locationOf (p : Path) : Location := p.normalize.components.filterMap fun
  | .name n => some n
  | _ => none

/-- What was seen of a disk. -/
structure Seen where
  tree : Tree := ⟨[]⟩
  /-- The folders that were seen with all that is in them. -/
  whole : List Location := []

def namesIn (l : Location) : IO (List Text) := do
  let entries ← ((← IO.currentDir) / pathString l).readDir
  return entries.toList.map fun e => e.fileName.toList

mutual

/-- Adds what stands at a location, with all that is below it or where it leads. -/
partial def see (s : Seen) (l : Location) : IO Seen := do
  if l ∈ s.whole then return s
  let mut s := s
  for n in List.range (l.length + 1) do
    s ← seeOne s (l.take n)
  if s.tree.at? l = some .folder then
    s := { s with whole := l :: s.whole }
    for n in ← namesIn l do
      s ← see s (l ++ [n])
  return s

/-- Adds what stands at a location in a folder. Nothing is added if it cannot be looked at. -/
partial def seeOne (s : Seen) (l : Location) : IO Seen := do
  if (s.tree.at? l).isSome || s.tree.at? l.dropLast ≠ some .folder then return s
  try
    let here := (← IO.currentDir) / pathString l
    match (← here.symlinkMetadata).type with
    | .dir => return { s with tree := s.tree.put l .folder }
    | .file => return { s with tree := s.tree.put l (.file (← IO.FS.readBinFile here)) }
    | .symlink =>
      let target := (← IO.FS.realPath here).toString.toList
      see { s with tree := s.tree.put l (.link ⟨target⟩) } (locationOf ⟨target⟩)
    | .other => return s
  catch _ => return s

end

def apply (l : Location) (before after : Option Entry) : IO Unit := do
  let here := pathString l
  match before, after with
  | some .folder, none => IO.FS.removeDir here
  | some _, none => IO.FS.removeFile here
  | _, some .folder => IO.FS.createDir here
  | _, some (.file bytes) => IO.FS.writeBinFile here bytes
  | _, _ => return ()

/-- Makes the changes that lead from one tree to another: what is gone is removed first, and folders
are made before what is in them. -/
def applyAll (before after : Tree) : IO Unit := do
  let all := (Tree.changes before after []).mergeSort fun a b => a.1.length ≤ b.1.length
  for (l, e) in all.reverse do
    if e.isNone then apply l (before.at? l) none
  for (l, e) in all do
    if e.isSome then apply l (before.at? l) e

def workingFolder : IO Location := return locationOf ⟨(← IO.currentDir).toString.toList⟩

/-- The folders that the program looks at. -/
def foldersOf (here : Location) (userFolder : Option Path) (args : List Text) : List Location :=
  let given := match CommandLine.read args with
    | .ok c => c.config.toList ++ [c.input, c.output]
    | .error _ => []
  let files := given ++ (userFolder.map Settings.userFile).toList
  here :: files.map fun p => (locationOf ((Disk.pathOf here).join p)).dropLast

/-- Runs the program, and gives its status. -/
def program (args : List String) : IO UInt32 := do
  let args := args.map String.toList
  let here ← workingFolder
  let configured := (← IO.getEnv "XDG_CONFIG_HOME").map String.toList
  let userFolder := Settings.userFolder? configured ((← IO.getEnv "HOME").map String.toList)
  let mut seen : Seen := {}
  for l in foldersOf here userFolder args do
    seen ← see seen l
  let (after, ending) := CommandLine.run ⟨seen.tree, here⟩ userFolder args
  applyAll seen.tree after.tree
  match ending with
  | .misuse m =>
    if m.status = 0 then IO.print (String.ofList m.message)
    else IO.eprint (String.ofList m.message)
    return m.status.toUInt32
  | .finished status out err =>
    IO.print (String.ofList out)
    IO.eprint (String.ofList err)
    if status = 1 then IO.eprint "\n"
    return status.toUInt32

end Pagefold.Main

def main (args : List String) : IO UInt32 := Pagefold.Main.program args
