import Pagefold.Disk.Copy
import Pagefold.Expansion
import Pagefold.Reference.Redirect
import Pagefold.Report
import Pagefold.Settings
import Pagefold.Token

/-!
# Flattening a page

The includes of a page are expanded, its references to assets are pointed at the asset folder from
where the output will be, and the tokens left over are removed.

* `Flatten.Options`, `Flatten.Flattened`: what is asked of a run, and a finished document;
* `Flatten.startFor?`: what references to assets have to start with;
* `Flatten.flatten`: the finished document of a page, which is not written;
* `Flatten.writeOutput`, `Flatten.run`: a document written, and a page flattened and written unless
  its check finds something.
-/

namespace Pagefold

open Text

/-- The fault of settings with names that the matcher refuses. -/
def Settings.fault? [Matcher] (s : Settings) : Option Fault :=
  if Matcher.refusesStarter s.starter.fileName
    || Matcher.refusesTitle s.starter.titleStart s.starter.titleEnd then some .tooLarge
  else none

namespace Flatten

structure Options where
  /-- What references to assets start with, if that is given. -/
  start : Option Text := none
  /-- Whether the asset folder is copied next to the output. -/
  copyAssets : Bool := false
  /-- Whether the document is checked, and only written if nothing is found. -/
  validate : Bool := false
deriving Repr, DecidableEq

/-- A finished document. -/
structure Flattened where
  content : Text
  /-- The local references of the document, strictly ascending. -/
  references : List Text
  /-- What references to assets start with, if they were changed. -/
  start : Option Text
  /-- The outcome of the check, if there was one. -/
  report : Option Report
  diagnostics : List Diagnostic
deriving Repr, DecidableEq

inductive Outcome where
  /-- The document was written. -/
  | written (f : Flattened)
  /-- The check found something, and the document was not written. -/
  | rejected (f : Flattened) (report : Report)
deriving Repr, DecidableEq

/-! ## Assets -/

/-- What leads from the folder of the output to the asset folder next to the input, if there is
one. -/
def startFor? (d : Disk) (sourceFolder outputFolder : Path) (folderName : Text) : Option Text :=
  let assets := sourceFolder.join ⟨folderName⟩
  if d.isFolder assets then some ((assets.relative outputFolder).forwardSlashes ++ ['/']) else none

/-- Copies the asset folder next to the output: the disk, what references to assets start with after
that, and what is to be told. -/
def copyAssets (s : AssetSettings) (d : Disk) (sourceFolder outputFolder : Path)
    (start : Option Text) : Disk × Option Text × List Diagnostic :=
  let source := sourceFolder.join ⟨s.folderName⟩
  if d.isFolder source then
    match d.copyTree source (outputFolder.join ⟨s.copyName⟩) with
    | (d, .ok _) => (d, some (s.copyName ++ ['/']), [])
    | (d, .error e) => (d, start, [.copyFailed source e.message])
  else (d, start, [.copyFailed source "source asset folder does not exist".toList])

/-- A text with its references to assets pointed at `start`. -/
def redirected [Matcher] (folderName : Text) (start : Option Text) (t : Text) :
    Except Fault Text :=
  match start with
  | none => .ok t
  | some p => if Matcher.refusesFolder (Reference.folderName folderName) then .error .tooLarge
    else .ok (Reference.redirect folderName p t)

/-! ## Documents -/

/-- The folders in which the references of a document are looked for. -/
def rootsFor (s : AssetSettings) (sourceFolder outputFolder : Path) (start : Option Text) :
    AssetRoots where
  outputFolder := outputFolder
  sourceFolder := sourceFolder
  start := start
  assetFolder := s.folderName
  projectRoot := AssetRoots.projectRootOf? sourceFolder s.projectName s.sourceName

def tokenDiagnostics (tokens : List Text) : List Diagnostic :=
  if tokens = [] then [] else [.leftoverTokens tokens]

/-- The document of an expanded page: assets are copied, references changed, tokens removed, and the
outcome is checked, as far as that is asked for. -/
def finish [Matcher] (s : AssetSettings) (o : Options) (d : Disk)
    (sourceFolder outputFolder : Path) (log : List Diagnostic) (t : Text) :
    Disk × Except Fault Flattened :=
  let start := (o.start.filter (· ≠ [])) <|> startFor? d sourceFolder outputFolder s.folderName
  let (d, start, copyLog) :=
    if o.copyAssets then copyAssets s d sourceFolder outputFolder start else (d, start, [])
  match redirected s.folderName start t with
  | .error e => (d, .error e)
  | .ok t =>
    let (content, tokens) := Token.strip t
    (d, .ok {
      content
      references := Reference.locals content
      start
      report :=
        if o.validate then some (Report.check d (rootsFor s sourceFolder outputFolder start) content)
        else none
      diagnostics := log ++ copyLog ++ tokenDiagnostics tokens })

/-- The finished document of the page `input`, as it is to be written to `output`. The disk only
changes when assets are copied. -/
def flatten [Matcher] (s : Settings) (o : Options) (d : Disk) (input output : Path) :
    Disk × Except Fault Flattened :=
  match d.absolute input, d.absolute output with
  | .error why, _ => (d, .error (.fileNotFound input why))
  | .ok _, .error why => (d, .error (.io output why))
  | .ok page, .ok target =>
    match Expansion.resolve s.starter d page with
    | ⟨_, .error e⟩ => (d, .error e)
    | ⟨log, .ok t⟩ =>
      finish s.assets o d (Expansion.folderOf page) (Expansion.folderOf target) log t

/-! ## Writing -/

def makeParent (d : Disk) (p : Path) : Disk × Except Fault Unit :=
  match p.parent? with
  | none => (d, .ok ())
  | some folder =>
    if folder.text = [] then (d, .ok ())
    else
      match d.makeFolders folder with
      | (d, .error why) => (d, .error (.io folder why))
      | (d, .ok ()) => (d, .ok ())

/-- Writes a document, and makes the folder it goes into. -/
def writeOutput (d : Disk) (p : Path) (t : Text) : Disk × Except Fault Unit :=
  match makeParent d p with
  | (d, .error e) => (d, .error e)
  | (d, .ok ()) =>
    match d.writeText p t with
    | .error why => (d, .error (.io p why))
    | .ok d => (d, .ok ())

/-- Flattens the page `input` and writes it to `output`, unless its check finds something. -/
def run [Matcher] (s : Settings) (o : Options) (d : Disk) (input output : Path) :
    Disk × Except Fault Outcome :=
  match flatten s o d input output with
  | (d, .error e) => (d, .error e)
  | (d, .ok f) =>
    match f.report.filter (!·.isOk) with
    | some report => (d, .ok (.rejected f report))
    | none =>
      match writeOutput d output f.content with
      | (d, .error e) => (d, .error e)
      | (d, .ok ()) => (d, .ok (.written f))

end Flatten

end Pagefold
