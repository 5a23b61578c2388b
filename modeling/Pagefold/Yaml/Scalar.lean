import Pagefold.Yaml.Glyph

/-!
# Scalars

A scalar is a text in one of several styles. Each reader starts behind what opens the style and gives
the text together with the glyphs that follow the scalar; it fails where the style is broken.

* `Yaml.quoted?`: between single or double quotes;
* `Yaml.plain?`: without any quotes;
* `Yaml.block?`: literal and folded lines of one indentation.
-/

namespace Pagefold.Yaml

/-! ## Quotes -/

/-- What a character behind a backslash stands for. -/
def escape? : Char → Option Char
  | '0' => some '\x00'
  | 'a' => some '\x07'
  | 'b' => some '\x08'
  | 't' => some '\t'
  | '\t' => some '\t'
  | 'n' => some '\n'
  | 'v' => some '\x0b'
  | 'f' => some '\x0c'
  | 'r' => some '\r'
  | 'e' => some '\x1b'
  | ' ' => some ' '
  | '"' => some '"'
  | '/' => some '/'
  | '\\' => some '\\'
  | 'N' => some '\u0085'
  | '_' => some '\u00a0'
  | 'L' => some '\u2028'
  | 'P' => some '\u2029'
  | _ => none

/-- How many digits follow a letter behind a backslash. -/
def digitCount? : Char → Option Nat
  | 'x' => some 2
  | 'u' => some 4
  | 'U' => some 8
  | _ => none

def hexValue? (c : Char) : Option Nat :=
  if c.isDigit then some (c.toNat - 48)
  else if 'a' ≤ c ∧ c ≤ 'f' then some (c.toNat - 87)
  else if 'A' ≤ c ∧ c ≤ 'F' then some (c.toNat - 55)
  else none

def hexNumber? (digits : Text) : Option Nat :=
  digits.foldlM (fun n c => (hexValue? c).map (16 * n + ·)) 0

/-- The character that digits name, if there are `n` of them. -/
def numbered? (n : Nat) (digits : Text) : Option Char :=
  if digits.length = n then
    (hexNumber? digits).bind fun v => if v.isValidChar then some (Char.ofNat v) else none
  else none

/-- The text up to the closing quote, behind what is read already (last character first). -/
def quotedFrom? (quote : Char) (done : Text) : List Glyph → Option (Text × List Glyph)
  | [] => none
  | g :: t =>
    if atDocumentMark (g :: t) then none
    else if isGap g then
      quotedFrom? quote ((gapText (g :: t.takeWhile isGap)).reverse ++ done) (t.dropWhile isGap)
    else if g.char = quote then
      match t with
      | [] => some (done.reverse, [])
      | h :: rest =>
        if quote = '\'' ∧ h.char = '\'' then quotedFrom? quote ('\'' :: done) rest
        else some (done.reverse, h :: rest)
    else if quote = '"' ∧ g.char = '\\' then
      match t with
      | [] => none
      | e :: rest =>
        if isBreak e then
          quotedFrom? quote ((chars ((rest.takeWhile isGap).filter isBreak)).reverse ++ done)
            (rest.dropWhile isGap)
        else
          match escape? e.char with
          | some c => quotedFrom? quote (c :: done) rest
          | none =>
            match digitCount? e.char with
            | none => none
            | some n =>
              match numbered? n (chars (rest.take n)) with
              | none => none
              | some c => quotedFrom? quote (c :: done) (rest.drop n)
    else quotedFrom? quote (g.char :: done) t
termination_by t => t.length
decreasing_by
  all_goals simp only [List.length_cons, List.length_drop]
  · have := (List.dropWhile_sublist isGap (l := t)).length_le
    omega
  · omega
  · have := (List.dropWhile_sublist isGap (l := rest)).length_le
    omega
  · omega
  · omega
  · omega

def quoted? (quote : Char) (t : List Glyph) : Option (Text × List Glyph) := quotedFrom? quote [] t

/-! ## Plain scalars -/

def isFlowMark (c : Char) : Bool := c == ',' || c == '[' || c == ']' || c == '{' || c == '}'

/-- How many glyphs make up the next word of a plain scalar, `n` having been counted. A colon at the
end of a word is no part of it, and between brackets a colon must not stand before a bracket. -/
def wordLength? (flow : Bool) (n : Nat) : List Glyph → Option Nat
  | [] => some n
  | g :: t =>
    if isGap g then some n
    else if flow && g.char == ':' && atOneOf ",?[]\x7b\x7d".toList t then none
    else if (g.char == ':' && atGap t) || (flow && isFlowMark g.char) then some n
    else wordLength? flow (n + 1) t

/-- Whether a tab stands in the indentation of a line inside a gap. -/
def hasTabInMargin (margin : Nat) (gap : List Glyph) : Bool :=
  (gap.dropWhile (!isBreak ·)).any fun g => g.char == '\t' && g.column < margin

/-- A plain scalar whose lines start at the column `margin` or behind it, except between brackets;
`gap` is what stands between `done` (last character first) and the next word, and `broken` says
whether a line break is in it. The outcome also says whether one was passed at the end. -/
def plainFrom? (flow : Bool) (margin : Nat) (done gap : Text) (broken : Bool) :
    List Glyph → Option (Text × Bool × List Glyph)
  | [] => some (done.reverse, broken, [])
  | g :: t =>
    if atDocumentMark (g :: t) || g.char == '#' then some (done.reverse, broken, g :: t)
    else
      match wordLength? flow 0 (g :: t) with
      | none => none
      | some 0 => some (done.reverse, broken, g :: t)
      | some (n + 1) =>
        let done := (chars (g :: t.take n)).reverse ++ gap.reverse ++ done
        let space := (t.drop n).takeWhile isGap
        let rest := (t.drop n).dropWhile isGap
        if space.isEmpty then some (done.reverse, false, rest)
        else if hasTabInMargin margin space then none
        else if !flow && (rest.head?.all (·.column < margin)) then
          some (done.reverse, space.any isBreak, rest)
        else plainFrom? flow margin done (gapText space) (space.any isBreak) rest
termination_by t => t.length
decreasing_by
  have h₁ := (List.dropWhile_sublist isGap (l := t.drop n)).length_le
  have h₂ := List.length_drop (i := n) (l := t)
  simp only [List.length_cons]
  omega

def plain? (flow : Bool) (margin : Nat) (t : List Glyph) : Option (Text × Bool × List Glyph) :=
  plainFrom? flow margin [] [] false t

/-! ## Blocks -/

/-- What becomes of the line breaks at the end of a block. -/
inductive Chomping where
  /-- None is kept. -/
  | strip
  /-- The first one is kept. -/
  | clip
  /-- All are kept. -/
  | keep
deriving Repr, DecidableEq

def chomping? (g : Glyph) : Option Chomping :=
  if g.char = '-' then some .strip else if g.char = '+' then some .keep else none

def increment? (g : Glyph) : Option Nat := if g.char.isDigit then some (g.char.toNat - 48) else none

/-- The chomping and indentation at the front of a block, in any order; no indentation is zero. -/
def blockHeader (t : List Glyph) : Chomping × Option Nat × List Glyph :=
  match t with
  | [] => (.clip, none, [])
  | g :: r =>
    match chomping? g, increment? g with
    | some c, _ =>
      match r.head?.bind increment? with
      | some n => (c, some n, r.drop 1)
      | none => (c, none, r)
    | none, some n =>
      match r.head?.bind chomping? with
      | some c => (c, some n, r.drop 1)
      | none => (.clip, some n, r)
    | none, none => (.clip, none, g :: r)

/-- What follows the rest of a line that holds nothing but blanks and a comment. -/
def restOfLine? (t : List Glyph) : Option (List Glyph) :=
  let t := t.dropWhile isSpacing
  let t := if atOneOf ['#'] t then t.dropWhile (!isBreak ·) else t
  match t with
  | [] => some []
  | g :: r => if isBreak g then some r else none

/-- Whether a glyph belongs to the indentation of a block or to an empty line in it; the indentation
zero stands for one that is not known yet. -/
def isMargin (indent : Nat) (g : Glyph) : Bool :=
  isBreak g || (g.char == ' ' && (indent == 0 || g.column < indent))

/-- Whether a tab stands where indentation should. -/
def tabAhead (indent : Nat) (t : List Glyph) : Bool :=
  match t with
  | [] => false
  | g :: _ => g.char == '\t' && (indent == 0 || g.column < indent)

/-- The indentation of a block from its first lines: that of the widest line up to the first one that
is not empty, but at least `least`. -/
def foundIndent (least : Nat) (t : List Glyph) : Nat :=
  let columns := ((t.takeWhile (isMargin 0)).filter isBreak ++ (t.dropWhile (isMargin 0)).take 1).map
    Glyph.column
  max (columns.foldl max 0) (max least 1)

/-- The text of a block that ends: `last` is the line break behind its last line, and `empty` are those
of empty lines after it. -/
def closeBlock (chomping : Chomping) (done last empty : Text) : Text :=
  done.reverse ++ match chomping with
    | .strip => []
    | .clip => last
    | .keep => last ++ empty

/-- The lines of a block behind what is read already (last character first): `last` is the line break
in front of the next line, `empty` are those of empty lines after it, and `spaced` says whether the
line before starts with a blank. -/
def blockFrom? (literal : Bool) (chomping : Chomping) (indent : Nat) (done last empty : Text)
    (spaced : Bool) : List Glyph → Option (Text × List Glyph)
  | [] => some (closeBlock chomping done last empty, [])
  | g :: t =>
    if g.column = indent then
      let joint :=
        if !literal && last == ['\n'] && !spaced && !isSpacing g then
          if empty = [] then [' '] else empty
        else last ++ empty
      let done := (chars (g :: t.takeWhile (!isBreak ·))).reverse ++ joint.reverse ++ done
      let after := t.dropWhile (!isBreak ·)
      let below := (after.drop 1).dropWhile (isMargin indent)
      if tabAhead indent below then none
      else
        blockFrom? literal chomping indent done (chars (after.take 1))
          (chars (((after.drop 1).takeWhile (isMargin indent)).filter isBreak)) (isSpacing g) below
    else some (closeBlock chomping done last empty, g :: t)
termination_by t => t.length
decreasing_by
  have h₁ := (List.dropWhile_sublist (!isBreak ·) (l := t)).length_le
  have h₂ := (List.dropWhile_sublist (isMargin indent)
    (l := (t.dropWhile (!isBreak ·)).drop 1)).length_le
  simp only [List.length_cons, List.length_drop] at h₂ ⊢
  omega

/-- A literal or folded block inside lines of the indentation `outer`. -/
def block? (literal : Bool) (outer : Option Nat) (t : List Glyph) :
    Option (Text × List Glyph) := do
  let (chomping, increment, t) := blockHeader t
  if increment = some 0 then none
  let t ← restOfLine? t
  let least := match outer with
    | none => 0
    | some n => n + 1
  let indent := match increment with
    | some n => outer.getD 0 + n
    | none => foundIndent least t
  let known := if increment.isSome then indent else 0
  let below := t.dropWhile (isMargin known)
  if tabAhead known below then none
  blockFrom? literal chomping indent [] [] (chars ((t.takeWhile (isMargin known)).filter isBreak))
    false below

end Pagefold.Yaml
