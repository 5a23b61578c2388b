import Pagefold.Directive
import Pagefold.Disk
import Pagefold.Text.Letter

/-!
# Starter includes

A page may open with a directive whose path ends with the name of the starter file. That file is the
layout of the page, and what follows the directive is the content of the page.

* `StarterSettings`: the file name and the marks that are looked for in layout and page;
* `Starter.read?`: the directive at the head of a page, where the case of letters does not count;
* `Starter.detect`: the same, if the layout is there.
-/

namespace Pagefold

open Text

structure StarterSettings where
  /-- What the path of the first directive ends with. -/
  fileName : Text := "pages-starter.html".toList
  /-- Marks in a layout; the content of the page goes before the first one that is there. -/
  insertionMarkers : List Text :=
    ["</div> <!-- container -->".toList, "</div><!-- container -->".toList,
      "</div> <!--container-->".toList]
  /-- Where the content goes in a layout without such a mark. -/
  bodyClose : Text := "</body>".toList
  /-- What shows that a layout has a title. -/
  titleProbe : Text := "<h4 class=\"page-title\">".toList
  /-- Where a title block starts. -/
  titleStart : Text := "<!-- start page title -->".toList
  /-- Where a title block ends. -/
  titleEnd : Text := "<!-- end page title -->".toList
deriving Repr, DecidableEq

/-- Where a path in a directive leads, from the folder of the file that has the directive. -/
def Path.included (folder : Path) (raw : Text) : Path := (folder.join ⟨raw⟩).normalize

namespace Starter

/-- A starter directive at the head of a page. -/
structure Opening where
  /-- The path of the layout. -/
  layout : Path
  /-- The context for the layout. -/
  context : Option Text
  /-- The text behind the directive and the blanks that follow it. -/
  content : Text
deriving Repr, DecidableEq

def endsWithFolded (finish t : Text) : Bool :=
  finish.length ≤ t.length && sameFolded finish (t.drop (t.length - finish.length))

/-- A path in quotes `q` that ends with a file name in any letter case, and what follows its closing
quote. The file name may have such quotes in it; the path in front of it may not. -/
def namedPath? (fileName : Text) (q : Char) (t : Text) : Option (Text × Text) :=
  let front := t.takeWhile (· != q)
  let back := t.dropWhile (· != q)
  let rest := fileName.dropWhile (· != q)
  if endsWithFolded (fileName.takeWhile (· != q)) front then
    match dropFolded? rest back with
    | some (c :: t) => if c = q then some (front ++ back.take rest.length, t) else none
    | _ => none
  else none

def quotedPath? (fileName : Text) : Text → Option (Text × Text)
  | [] => none
  | q :: t => if q = '\'' ∨ q = '"' then namedPath? fileName q t else none

/-- The starter directive at the head of a page: its path, its context, and the content. -/
def read? (fileName t : Text) : Option (Text × Option Text × Text) := do
  let t ← dropFolded? Directive.opening (skipBlanks t)
  let (path, t) ← quotedPath? fileName (skipBlanks t)
  let (context, t) ← Directive.close? t
  return (path, context, skipBlanks t)

/-- The starter directive at the head of a page in a folder, if its layout is a file. -/
def detect (s : StarterSettings) (d : Disk) (folder : Path) (t : Text) : Option Opening :=
  match read? s.fileName t with
  | none => none
  | some (path, context, content) =>
    let layout := folder.included path
    if d.isFile layout then some ⟨layout, context, content⟩ else none

/-- The byte of a page where its content starts. -/
def Opening.contentStart (o : Opening) (whole : Text) : Nat := whole.byteSize - o.content.byteSize

end Starter

end Pagefold
