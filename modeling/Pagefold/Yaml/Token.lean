import Pagefold.Yaml.Scalar

/-!
# Tokens

A YAML text is a sequence of tokens. Some of them are written, and others follow from the layout:
lines that are indented further than those before open a collection, which ends when the indentation
does, and what stands before a colon turns out to be a key only at the colon.

* `Yaml.Token`: the tokens;
* `Yaml.Layout`: the tokens so far, the open indentations, and the places where a key may start;
* `Yaml.tokens?`: the tokens of a text.
-/

namespace Pagefold.Yaml

inductive Token where
  /-- The directive of a version. -/
  | version (major minor : Nat)
  /-- The directive of a tag handle. -/
  | tagHandle (handle : Text)
  | documentStart
  | documentEnd
  | blockSequence
  | blockMapping
  | blockEnd
  | flowSequence
  | flowSequenceEnd
  | flowMapping
  | flowMappingEnd
  | blockEntry
  | flowEntry
  | key
  | value
  | alias (name : Text)
  | anchor (name : Text)
  /-- A tag with its handle; a tag without one has the empty handle. -/
  | tag (handle : Text)
  /-- A scalar, and whether it is plain. -/
  | scalar (plain : Bool) (text : Text)
deriving Repr, DecidableEq

/-! ## Layout -/

/-- A place where a key may have started. -/
structure PossibleKey where
  /-- How many tokens are in front of it. -/
  before : Nat
  /-- Whether nothing else than a key can stand there. -/
  required : Bool
  line : Nat
  column : Nat
deriving Repr, DecidableEq

/-- What is known between two tokens. -/
structure Layout where
  /-- The tokens so far, last one first. -/
  done : List Token := []
  /-- The columns of the open indentations, innermost first. -/
  columns : List Nat := []
  /-- Where a key may have started, inside the innermost brackets. -/
  possible : Option PossibleKey := none
  /-- The same for what is around each pair of brackets, innermost first. -/
  around : List (Option PossibleKey) := []
  /-- Whether a key may start here. -/
  keyAllowed : Bool := true
deriving Repr

namespace Layout

def inFlow (l : Layout) : Bool := !l.around.isEmpty

def push (l : Layout) (x : Token) : Layout := { l with done := x :: l.done }

/-- The layout with a token put in behind the first `n` tokens. -/
def putAt (l : Layout) (n : Nat) (x : Token) : Layout :=
  { l with done := l.done.insertIdx (l.done.length - n) x }

/-- The layout where a key is allowed or not. -/
def allowing (l : Layout) (allowed : Bool) : Layout := { l with keyAllowed := allowed }

/-- Closes the indentations behind a column. -/
def closeTo (column : Nat) (done : List Token) : List Nat → List Token × List Nat
  | [] => (done, [])
  | c :: cs => if column < c then closeTo column (.blockEnd :: done) cs else (done, c :: cs)

/-- The layout at a token in a column: outside brackets, indentations behind it are closed. -/
def unrollTo (l : Layout) (column : Nat) : Layout :=
  if l.inFlow then l
  else
    let (done, columns) := closeTo column l.done l.columns
    { l with done, columns }

/-- The layout with all indentations closed, where nothing is in brackets. -/
def unroll (l : Layout) : Layout :=
  if l.inFlow then l
  else { l with done := l.columns.map (fun _ => Token.blockEnd) ++ l.done, columns := [] }

/-- Opens a collection in a column, behind the first `n` tokens, if the column is new. -/
def roll (l : Layout) (column n : Nat) (x : Token) : Layout :=
  if l.inFlow || !l.columns.head?.all (· < column) then l
  else { l.putAt n x with columns := column :: l.columns }

/-- A possible key that is given up; one that is required cannot be. -/
def forget? (k : Option PossibleKey) : Option (Option PossibleKey) :=
  if k.any (·.required) then none else some none

/-- A possible key, if a glyph is near enough to belong to it. -/
def retire? (g : Glyph) (k : Option PossibleKey) : Option (Option PossibleKey) :=
  if k.any fun k => k.line < g.line || k.column + 1024 < g.column then forget? k else some k

/-- The layout without the possible keys that a glyph does not belong to. -/
def retireAll? (l : Layout) (g : Glyph) : Option Layout := do
  return { l with possible := ← retire? g l.possible, around := ← l.around.mapM (retire? g) }

/-- The layout without a possible key. -/
def noKey? (l : Layout) : Option Layout := do
  return { l with possible := ← forget? l.possible }

/-- The layout with a possible key at a glyph, if one is allowed there. -/
def mayBeKey? (l : Layout) (g : Glyph) : Option Layout :=
  if l.keyAllowed then do
    let l ← l.noKey?
    let required := !l.inFlow && l.columns.head? == some g.column
    return { l with possible := some ⟨l.done.length, required, g.line, g.column⟩ }
  else some l

/-! ### Tokens of structure -/

def document? (l : Layout) (x : Token) : Option Layout := do
  return ((← l.unroll.noKey?).allowing false).push x

def openFlow? (l : Layout) (g : Glyph) (x : Token) : Option Layout := do
  let l ← l.mayBeKey? g
  return { l with around := l.possible :: l.around, possible := none, keyAllowed := true }.push x

def closeFlow? (l : Layout) (x : Token) : Option Layout := do
  let l ← l.noKey?
  let l := match l.around with
    | [] => l
    | k :: ks => { l with possible := k, around := ks }
  return (l.allowing false).push x

def flowEntry? (l : Layout) : Option Layout := do
  return ((← l.noKey?).allowing true).push .flowEntry

def blockEntry? (l : Layout) (g : Glyph) : Option Layout :=
  if !l.inFlow && !l.keyAllowed then none
  else do
    let l ← (l.roll g.column l.done.length .blockSequence).noKey?
    return (l.allowing true).push .blockEntry

def key? (l : Layout) (g : Glyph) : Option Layout :=
  if !l.inFlow && !l.keyAllowed then none
  else do
    let l ← (l.roll g.column l.done.length .blockMapping).noKey?
    return (l.allowing !l.inFlow).push .key

/-- The colon of a value. What may have been a key is one now. -/
def value? (l : Layout) (g : Glyph) : Option Layout :=
  match l.possible with
  | some k =>
    let l := (l.putAt k.before .key).roll k.column k.before .blockMapping
    some { l with possible := none, keyAllowed := false, done := .value :: l.done }
  | none =>
    if !l.inFlow && !l.keyAllowed then none
    else some (((l.roll g.column l.done.length .blockMapping).allowing !l.inFlow).push .value)

def finish? (l : Layout) : Option (List Token) := do
  return (← l.unroll.noKey?).done.reverse

end Layout

/-! ## Names -/

def isNameChar (c : Char) : Bool := c.isAlphanum || c == '_' || c == '-'

def name (t : List Glyph) : Text × List Glyph :=
  (chars (t.takeWhile (isNameChar ·.char)), t.dropWhile (isNameChar ·.char))

/-- The name of an anchor or alias, and what follows it. -/
def anchorName? (t : List Glyph) : Option (Text × List Glyph) :=
  match name t with
  | ([], _) => none
  | (n, t) => if atGap t || atOneOf "?:,]\x7d%@`".toList t then some (n, t) else none

/-! ### Tags -/

/-- Whether a character may stand in a tag; `verbatim` tags also take commas and brackets. -/
def isTagChar (verbatim : Bool) (c : Char) : Bool :=
  isNameChar c || c ∈ ";/?:@&=+$.!~*'()".toList || (verbatim && c ∈ ",[]".toList)

/-- The octet of an escape with a percent sign, and what follows it. -/
def octet? : List Glyph → Option (Nat × List Glyph)
  | p :: x :: y :: t =>
    if p.char = '%' then (hexNumber? [x.char, y.char]).map (·, t) else none
  | _ => none

/-- How many octets follow the first one of a character. -/
def octetsAfter? (n : Nat) : Option Nat :=
  if n < 0x80 then some 0
  else if n < 0xC0 then none
  else if n < 0xE0 then some 1
  else if n < 0xF0 then some 2
  else if n < 0xF8 then some 3
  else none

/-- What follows `n` escapes of octets inside a character. -/
def skipOctets? : Nat → List Glyph → Option (List Glyph)
  | 0, t => some t
  | n + 1, t => do
    let (x, t) ← octet? t
    if 0x80 ≤ x ∧ x < 0xC0 then skipOctets? n t else none

/-- How many characters at most `n` ones of a tag are, and what follows them. -/
def tagLength? (verbatim : Bool) : Nat → List Glyph → Option (Nat × List Glyph)
  | 0, t => some (0, t)
  | n + 1, t =>
    match t with
    | [] => some (0, [])
    | g :: r =>
      if g.char = '%' then do
        let (x, r) ← octet? t
        let (k, r) ← tagLength? verbatim n (← skipOctets? (← octetsAfter? x) r)
        return (k + 1, r)
      else if isTagChar verbatim g.char then (tagLength? verbatim n r).map fun (k, r) => (k + 1, r)
      else some (0, t)

/-- What follows the characters of a tag; without any, `empty` says whether that is right. -/
def skipTag? (verbatim empty : Bool) (t : List Glyph) : Option (List Glyph) :=
  match tagLength? verbatim t.length t with
  | none => none
  | some (0, r) => if empty then some r else none
  | some (_, r) => some r

/-- The handle at the front of a tag, up to a second exclamation mark if there is one, and what
follows it. -/
def tagStart? : List Glyph → Option (Text × List Glyph)
  | [] => none
  | g :: t =>
    if g.char = '!' then
      match name t with
      | (n, e :: r) => if e.char = '!' then some ('!' :: n ++ ['!'], r) else some ('!' :: n, e :: r)
      | (n, []) => some ('!' :: n, [])
    else none

/-- The handle of a tag, read at its exclamation mark, and what follows the tag. -/
def tag? (t : List Glyph) : Option (Text × List Glyph) :=
  if atOneOf ['<'] (t.drop 1) then do
    match ← skipTag? true false (t.drop 2) with
    | g :: r => if g.char = '>' then some ([], r) else none
    | [] => none
  else do
    let (start, r) ← tagStart? t
    if 1 < start.length ∧ start.getLast? = some '!' then return (start, ← skipTag? false false r)
    else
      let r' ← skipTag? false true r
      return (if start = ['!'] ∧ r'.length = r.length then [] else ['!'], r')

/-! ### Directives -/

/-- A number of at most nine digits, and what follows it. -/
def number? (t : List Glyph) : Option (Nat × List Glyph) :=
  let digits := t.takeWhile (·.char.isDigit)
  if digits.isEmpty || 9 < digits.length then none
  else some (digits.foldl (fun n g => 10 * n + (g.char.toNat - 48)) 0, t.drop digits.length)

def version? (t : List Glyph) : Option (Token × List Glyph) := do
  match ← number? t with
  | (major, p :: t) =>
    if p.char = '.' then
      let (minor, t) ← number? t
      return (.version major minor, t)
    else none
  | (_, []) => none

/-- A tag handle with its expansion, and what follows them. -/
def tagDirective? (t : List Glyph) : Option (Token × List Glyph) := do
  let (start, r) ← tagStart? t
  if start.getLast? ≠ some '!' then none
  if !r.head?.any isSpacing then none
  let r ← skipTag? true false (r.dropWhile isSpacing)
  if atGap r then return (.tagHandle start, r) else none

/-- A directive, read behind its percent sign, and what follows its line. -/
def directive? (t : List Glyph) : Option (Token × List Glyph) := do
  let (n, t) := name t
  if n = [] || !atGap t then none
  let t := t.dropWhile isSpacing
  let (x, t) ←
    if n = "YAML".toList then version? t else if n = "TAG".toList then tagDirective? t else none
  return (x, ← restOfLine? t)

/-! ## Reading -/

/-- Whether a key is allowed, and the glyphs from the next token on; `comment` says whether a comment
is being passed. -/
def toToken (inFlow comment allowed : Bool) : List Glyph → Bool × List Glyph
  | [] => (allowed, [])
  | g :: t =>
    if isBreak g then toToken inFlow false (allowed || !inFlow) t
    else if comment || g.char == '#' then toToken inFlow true allowed t
    else if g.char == ' ' || (g.char == '\t' && (inFlow || !allowed))
        || (g.char == byteOrderMark && g.column == 0) then toToken inFlow false allowed t
    else (allowed, g :: t)

def startsPlain (inFlow : Bool) (g : Glyph) (t : List Glyph) : Bool :=
  if g.char = '-' then !t.head?.any isSpacing
  else if g.char = '?' ∨ g.char = ':' then !inFlow && !atGap t
  else !isGap g && g.char ∉ ",[]\x7b\x7d#&*!|>'\"%@`".toList

/-- The layout and the glyphs after the token that starts at a glyph. -/
def next? (l : Layout) (g : Glyph) (t : List Glyph) : Option (Layout × List Glyph) :=
  let scalar? (plain : Bool) (r : Option (Text × List Glyph)) : Option (Layout × List Glyph) := do
    let (s, r) ← r
    return (((← l.mayBeKey? g).allowing false).push (.scalar plain s), r)
  let named? (r : Option (Token × List Glyph)) : Option (Layout × List Glyph) := do
    let (x, r) ← r
    return (((← l.mayBeKey? g).allowing false).push x, r)
  if g.column = 0 ∧ g.char = '%' then do
    let (x, r) ← directive? t
    return (← l.document? x, r)
  else if (afterMark? '-' (g :: t)).isSome then do return (← l.document? .documentStart, t.drop 2)
  else if (afterMark? '.' (g :: t)).isSome then do return (← l.document? .documentEnd, t.drop 2)
  else if g.char = '[' then do return (← l.openFlow? g .flowSequence, t)
  else if g.char = '{' then do return (← l.openFlow? g .flowMapping, t)
  else if g.char = ']' then do return (← l.closeFlow? .flowSequenceEnd, t)
  else if g.char = '}' then do return (← l.closeFlow? .flowMappingEnd, t)
  else if g.char = ',' then do return (← l.flowEntry?, t)
  else if g.char = '-' ∧ atGap t then do return (← l.blockEntry? g, t)
  else if g.char = '?' ∧ (l.inFlow ∨ atGap t) then do return (← l.key? g, t)
  else if g.char = ':' ∧ (l.inFlow ∨ atGap t) then do return (← l.value? g, t)
  else if g.char = '*' then named? ((anchorName? t).map fun (n, r) => (.alias n, r))
  else if g.char = '&' then named? ((anchorName? t).map fun (n, r) => (.anchor n, r))
  else if g.char = '!' then do
    let (h, r) ← tag? (g :: t)
    if atGap r || (l.inFlow && atOneOf [','] r) then named? (some (.tag h, r)) else none
  else if (g.char = '|' ∨ g.char = '>') ∧ !l.inFlow then do
    let (s, r) ← block? (g.char == '|') l.columns.head? t
    return (((← l.noKey?).allowing true).push (.scalar false s), r)
  else if g.char = '\'' ∨ g.char = '"' then scalar? false (quoted? g.char t)
  else if startsPlain l.inFlow g t then do
    let margin := match l.columns.head? with
      | none => 0
      | some c => c + 1
    let (s, broken, r) ← plain? l.inFlow margin (g :: t)
    let (l, r) ← scalar? true (some (s, r))
    return (l.allowing broken, r)
  else none

/-- The tokens from some glyphs on. Each one takes glyphs away. -/
def tokensFrom? (l : Layout) (t : List Glyph) : Option (List Token) :=
  match toToken l.inFlow false l.keyAllowed t with
  | (_, []) => l.finish?
  | (allowed, g :: r) =>
    match (l.allowing allowed).retireAll? g with
    | none => none
    | some l =>
      match next? (l.unrollTo g.column) g r with
      | none => none
      | some (l, rest) => if rest.length < t.length then tokensFrom? l rest else none
termination_by t.length

def tokens? (t : Text) : Option (List Token) := (layOut? t).bind (tokensFrom? {})

end Pagefold.Yaml
