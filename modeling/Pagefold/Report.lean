import Pagefold.Diagnostic
import Pagefold.Reference
import Pagefold.Text.Word

/-!
# Reports

A finished document is checked as a whole, and everything that is found is told at once.

* `Finding`, `Finding.message`: what can be wrong with a document, and its wording;
* `Report`, `Report.text`: the findings of one check, and how they are told;
* `AssetRoots`, `AssetRoots.resolves`: the folders in which a reference may lead to a file;
* `Report.check`: the check of a document.
-/

namespace Pagefold

open Text

/-! ## Findings -/

inductive Finding where
  /-- A tag of the document does not stand there once, opened and closed. -/
  | tagCount (tag : Text) (opens closes : Nat)
  /-- Marks of missing files are left. -/
  | unresolvedIncludes (count : Nat)
  /-- References lead to no file. -/
  | missingAssets (assets : List Text)
deriving Repr, DecidableEq

namespace Finding

def message : Finding → Text
  | tagCount tag opens closes =>
    "Expected exactly one <".toList ++ tag ++ "> and </".toList ++ tag ++ "> pair, found ".toList
      ++ Nat.toDigits 10 opens ++ " opens and ".toList ++ Nat.toDigits 10 closes
      ++ " closes".toList
  | unresolvedIncludes count =>
    Nat.toDigits 10 count ++ " include(s) were not found. Look for \"".toList
      ++ Diagnostic.missingMark ++ " ... -->\" in the output.".toList
  | missingAssets assets =>
    ("Missing asset files referenced in output (checked relative to output and source dirs): ").toList
      ++ listed assets

/-- The references that lead to no file, if this is about them. -/
def missing? : Finding → Option (List Text)
  | missingAssets assets => some assets
  | _ => none

end Finding

/-- What was found in one check. -/
structure Report where
  findings : List Finding
deriving Repr, DecidableEq

namespace Report

def isOk (r : Report) : Bool := r.findings.isEmpty

def missingAssets (r : Report) : List Text := (r.findings.findSome? Finding.missing?).getD []

def text (r : Report) : Text :=
  "Validation errors:\n".toList
    ++ r.findings.flatMap (fun f => " - ".toList ++ f.message ++ ['\n'])
    ++ ("\nHint: run without --validate to skip these checks, or run with --copy-assets to copy "
      ++ "referenced assets into the output folder.\n").toList

end Report

/-! ## Tags -/

/-- The rest of a text behind the name of a tag in any letter case, with blanks in front of it. -/
def tagName? (tag t : Text) : Option Text := dropFolded? tag (skipBlanks t)

/-- The opening of a tag at the front of a text, up to its name, and what follows. -/
def openTag? (tag t : Text) : Option (Unit × Text) := do
  let rest ← tagName? tag (← dropPrefix? ['<'] t)
  if atWordEnd rest then some ((), rest) else none

/-- The closing of a tag at the front of a text, and what follows. -/
def closeTag? (tag t : Text) : Option (Unit × Text) := do
  let rest ← tagName? tag (← dropPrefix? "</".toList t)
  match skipBlanks rest with
  | '>' :: rest => some ((), rest)
  | _ => none

theorem tagName?_suffix {tag t rest : Text} (h : tagName? tag t = some rest) : rest <:+ t :=
  (Reference.dropFolded?_suffix h).1.trans (skipBlanks_suffix t)

theorem openTag?_proper {tag t rest : Text} {u : Unit} (h : openTag? tag t = some (u, rest)) :
    rest <:+ t ∧ rest.length < t.length := by
  simp only [openTag?, Option.bind_eq_bind, Option.bind_eq_some_iff,
    dropPrefix?_eq_some_iff] at h
  obtain ⟨t₁, rfl, t₂, h₂, h⟩ := h
  split at h
  · cases h
    have hs := tagName?_suffix h₂
    have hl := hs.length_le
    exact ⟨hs.trans (List.suffix_append _ _), by simp; omega⟩
  · simp at h

theorem closeTag?_proper {tag t rest : Text} {u : Unit} (h : closeTag? tag t = some (u, rest)) :
    rest <:+ t ∧ rest.length < t.length := by
  simp only [closeTag?, Option.bind_eq_bind, Option.bind_eq_some_iff,
    dropPrefix?_eq_some_iff] at h
  obtain ⟨t₁, rfl, t₂, h₂, h⟩ := h
  split at h
  · next r hr =>
    cases h
    have hb := skipBlanks_suffix t₂
    rw [hr] at hb
    have hs := (Directive.suffix_of_cons_suffix hb).trans (tagName?_suffix h₂)
    have hl := hs.length_le
    exact ⟨hs.trans (List.suffix_append _ _), by simp; omega⟩
  · simp at h

def openTag (tag : Text) : Pattern Unit where
  read? := openTag? tag
  proper := openTag?_proper

def closeTag (tag : Text) : Pattern Unit where
  read? := closeTag? tag
  proper := closeTag?_proper

/-! ## Assets -/

/-- The folders in which a reference may lead to a file. -/
structure AssetRoots where
  /-- The folder of the output. -/
  outputFolder : Path
  /-- The folder of the input. -/
  sourceFolder : Path
  /-- What references to assets start with, instead of the name of the asset folder. -/
  start : Option Text
  /-- The name of the asset folder in the folder of the input. -/
  assetFolder : Text
  /-- The source folder of the whole project. -/
  projectRoot : Option Path

namespace AssetRoots

/-- Whether there is something in a folder where a reference leads. -/
def holds (d : Disk) (folder : Path) (r : Text) : Bool := d.present (folder.join ⟨r⟩).normalize

/-- Whether a reference leads to anything in one of the folders. -/
def resolves (roots : AssetRoots) (d : Disk) (r : Text) : Bool :=
  holds d roots.outputFolder r || holds d roots.sourceFolder r
    || (match roots.start.bind (dropPrefix? · r) with
      | some below => holds d (roots.sourceFolder.join ⟨roots.assetFolder⟩) below
      | none => false)
    || roots.projectRoot.any (holds d · r)

/-- The source folder of the project around a folder: the nearest folder above it of a given name, in
any case of ASCII letters, has it. -/
def projectRootOf? (folder : Path) (rootName sourceName : Text) : Option Path :=
  let named (p : Path) := p.fileName?.any fun n => lowerAscii n = lowerAscii rootName
  ((folder.ancestors.drop 1).find? named).map fun p => (p.join ⟨sourceName⟩).normalize

end AssetRoots

/-! ## Checking -/

namespace Report

def documentTags : List Text := ["html".toList, "head".toList, "body".toList]

def tagFinding? (t tag : Text) : Option Finding :=
  let opens := ((openTag tag).hits t).length
  let closes := ((closeTag tag).hits t).length
  if opens = 1 ∧ closes = 1 then none else some (.tagCount tag opens closes)

def includeFinding? (t : Text) : Option Finding :=
  let count := ((Pattern.literal Diagnostic.missingMark).hits t).length
  if count = 0 then none else some (.unresolvedIncludes count)

/-- Whether a reference leads to a page, which is no asset. -/
def isPage (r : Text) : Bool := endsWith ".html".toList (lowerAscii r)

def assetFinding? (d : Disk) (roots : AssetRoots) (t : Text) : Option Finding :=
  let missing := (Reference.locals t).filter fun r => !isPage r && !roots.resolves d r
  if missing = [] then none else some (.missingAssets missing)

def check (d : Disk) (roots : AssetRoots) (t : Text) : Report :=
  ⟨documentTags.filterMap (tagFinding? t) ++ (includeFinding? t).toList
    ++ (assetFinding? d roots t).toList⟩

end Report

end Pagefold
