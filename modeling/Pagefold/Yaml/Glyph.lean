import Pagefold.Text

/-!
# Laid out texts

In YAML the place of a character counts. A text is laid out as a list of glyphs, which know their
line and column.

* `Yaml.Glyph`, `Yaml.layOut?`: the glyphs of a text; every form of a line break becomes one glyph;
* `Yaml.isSpacing`, `Yaml.isBreak`, `Yaml.atGap`: what separates words;
* `Yaml.atDocumentMark`: the lines `---` and `...`;
* `Yaml.foldedBreaks`: what line breaks inside a scalar stand for.
-/

namespace Pagefold.Yaml

/-- A character and its place in a text. -/
structure Glyph where
  char : Char
  line : Nat
  column : Nat
deriving Repr, DecidableEq

def isSeparator (c : Char) : Bool := c == '\u2028' || c == '\u2029'

def byteOrderMark : Char := '\ufeff'

def isAllowed (c : Char) : Bool :=
  let n := c.toNat
  n == 9 || n == 10 || n == 13 || (0x20 ≤ n && n ≤ 0x7E) || n == 0x85 || (0xA0 ≤ n && n ≤ 0xD7FF)
    || (0xE000 ≤ n && n ≤ 0xFFFD) || 0x10000 ≤ n

/-- The glyphs of a text from a place on, behind those in `done` (last first). -/
def layFrom (done : List Glyph) (line column : Nat) : Text → List Glyph
  | [] => done.reverse
  | '\r' :: '\n' :: t => layFrom (⟨'\n', line, column⟩ :: done) (line + 1) 0 t
  | c :: t =>
    if c = '\n' ∨ c = '\r' ∨ c = '\u0085' then
      layFrom (⟨'\n', line, column⟩ :: done) (line + 1) 0 t
    else if isSeparator c then layFrom (⟨c, line, column⟩ :: done) (line + 1) 0 t
    else layFrom (⟨c, line, column⟩ :: done) line (column + 1) t

/-- The glyphs of a text, if all its characters may stand there. A mark of the byte order at its
front is left out. -/
def layOut? (t : Text) : Option (List Glyph) :=
  if t.all isAllowed then
    some (layFrom [] 0 0 (if t.head? = some byteOrderMark then t.drop 1 else t))
  else none

/-! ## Words -/

def isSpacing (g : Glyph) : Bool := g.char == ' ' || g.char == '\t'

def isBreak (g : Glyph) : Bool := g.char == '\n' || isSeparator g.char

def isGap (g : Glyph) : Bool := isSpacing g || isBreak g

/-- Whether no word goes on here. -/
def atGap : List Glyph → Bool
  | [] => true
  | g :: _ => isGap g

/-- Whether the next glyph is one of some characters. -/
def atOneOf (cs : Text) : List Glyph → Bool
  | [] => false
  | g :: _ => g.char ∈ cs

def chars (t : List Glyph) : Text := t.map Glyph.char

/-- What follows three equal characters in a line of their own. -/
def afterMark? (c : Char) : List Glyph → Option (List Glyph)
  | x :: y :: z :: t =>
    if x.column = 0 && x.char == c && y.char == c && z.char == c && atGap t then some t else none
  | _ => none

/-- Whether a document starts or ends here. -/
def atDocumentMark (t : List Glyph) : Bool := (afterMark? '-' t).isSome || (afterMark? '.' t).isSome

/-! ## Line breaks in scalars -/

/-- What line breaks stand for: one is a space, and of several the first one does not count. A
separator always counts. -/
def foldedBreaks : Text → Text
  | '\n' :: [] => [' ']
  | '\n' :: breaks => breaks
  | breaks => breaks

/-- What the glyphs between two words stand for: they are kept if there is no line break, and else
only the breaks count. -/
def gapText (gap : List Glyph) : Text :=
  match gap.filter isBreak with
  | [] => chars gap
  | breaks => foldedBreaks (chars breaks)

end Pagefold.Yaml
