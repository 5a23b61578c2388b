import Pagefold.Disk
import Pagefold.Settings
import Pagefold.Yaml.Node

/-!
# Loading settings

Settings are written in YAML, as two mappings. What is not mentioned keeps its default, and names
that are not known are passed over.

* `Settings.ofDocument?`: the settings that a document holds;
* `Settings.Failure`: why settings could not be loaded, and `Settings.Failure.chain`, the wording;
* `Settings.load`: the settings of a file, or of the first usable one of the places where settings
  are kept.
-/

namespace Pagefold

open Yaml

namespace Settings

/-! ## Values -/

def text? (d : Document) (n : Node) : Option Text :=
  match d.follow n with
  | some (.scalar _ t) => some t
  | _ => none

/-- The texts of a list; nothing at all is the empty list. -/
def texts? (d : Document) (n : Node) : Option (List Text) :=
  match d.follow n with
  | some (.list items) => items.mapM (text? d)
  | some (.scalar true []) => some []
  | _ => none

/-- The members of a mapping by their names; nothing at all is the empty mapping. -/
def members? (d : Document) (n : Node) : Option (List (Text × Node)) :=
  match d.follow n with
  | some (.mapping ms) => ms.mapM fun (k, v) => (text? d k).map (·, v)
  | some (.scalar true []) => some []
  | _ => none

/-- The value of the member of a name, or a default if there is none. Two of them are not right. -/
def member? {α : Type} (read : Node → Option α) (default : α) (name : String)
    (ms : List (Text × Node)) : Option α :=
  match ms.filter (·.1 = name.toList) with
  | [] => some default
  | [(_, n)] => read n
  | _ => none

/-! ## Settings -/

def starter? (d : Document) (n : Node) : Option StarterSettings := do
  let ms ← members? d n
  let text := member? (text? d)
  let s : StarterSettings := {}
  return {
    fileName := ← text s.fileName "file-name" ms
    insertionMarkers := ← member? (texts? d) s.insertionMarkers "insertion-markers" ms
    bodyClose := ← text s.bodyClose "body-close" ms
    titleProbe := ← text s.titleProbe "title-probe" ms
    titleStart := ← text s.titleStart "title-start" ms
    titleEnd := ← text s.titleEnd "title-end" ms }

def assets? (d : Document) (n : Node) : Option AssetSettings := do
  let ms ← members? d n
  let text := member? (text? d)
  let s : AssetSettings := {}
  return {
    folderName := ← text s.folderName "dir-name" ms
    copyName := ← text s.copyName "copy-dir-name" ms
    projectName := ← text s.projectName "project-root-name" ms
    sourceName := ← text s.sourceName "source-subdir" ms }

def ofDocument? (d : Document) : Option Settings :=
  match d.root with
  | none => some {}
  | some root => do
    let ms ← members? d root
    return {
      starter := ← member? (starter? d) {} "starter" ms
      assets := ← member? (assets? d) {} "assets" ms }

def ofText? (t : Text) : Option Settings := (Yaml.parse? t).bind ofDocument?

/-! ## Files -/

inductive Failure where
  /-- The file cannot be read. -/
  | unreadable (path : Path) (why : Refusal)
  /-- The file does not hold settings. -/
  | malformed (path : Path)
deriving Repr, DecidableEq

/-- The wording of a failure, followed by what was behind it, step by step. -/
def Failure.chain : Failure → List Text
  | unreadable path why =>
    ["Failed to load config from ".toList ++ path.text, "Failed to read config file".toList,
      why.message]
  | malformed path =>
    ["Failed to load config from ".toList ++ path.text, "Failed to parse config file".toList]

def ofFile (d : Disk) (p : Path) : Except Failure Settings :=
  match d.readText p with
  | .error why => .error (.unreadable p why)
  | .ok t =>
    match ofText? t with
    | some s => .ok s
    | none => .error (.malformed p)

def projectFile : Path := ⟨".htmlflat.yml".toList⟩

/-- The file where a user keeps settings, in the user's folder of settings. -/
def userFile (folder : Path) : Path :=
  (folder.join ⟨"htmlflat".toList⟩).join ⟨"htmlflat.yml".toList⟩

/-- The user's folder of settings: the one that is configured, if that is an absolute path, and else
the usual one in the user's home. -/
def userFolder? (configured home : Option Text) : Option Path :=
  ((configured.map Path.mk).filter Path.isAbsolute)
    <|> home.map fun h => Path.join ⟨h⟩ ⟨".config".toList⟩

/-- The settings of a file, if one is given. Otherwise those of the project or of the user, whichever
can be loaded first, and else the defaults. -/
def load (d : Disk) (userFolder : Option Path) (given : Option Path) : Except Failure Settings :=
  match given with
  | some p => ofFile d p
  | none =>
    let places := projectFile :: (userFolder.map userFile).toList
    .ok ((places.findSome? fun p => (ofFile d p).toOption).getD {})

end Settings

end Pagefold
