import Pagefold.Text

/-!
# Faults in JSON texts

* `Json.Cause`: what can be wrong, and `Json.Cause.message`, its wording;
* `Json.Fault`: a cause and the place where it was noticed;
* `Json.Fault.message`: the wording with line and column, which count bytes of UTF-8.
-/

namespace Pagefold.Json

inductive Cause where
  | endInList
  | endInObject
  | endInString
  | endInValue
  | expectedColon
  | expectedCommaOrBracket
  | expectedCommaOrBrace
  | expectedName
  | expectedValue
  | invalidEscape
  | invalidNumber
  | numberOutOfRange
  | controlCharacter
  | keyNotString
  | loneSurrogate
  | trailingComma
  | trailingCharacters
  | endOfHexEscape
  | tooDeep
deriving Repr, DecidableEq

def Cause.message : Cause → Text
  | endInList => "EOF while parsing a list".toList
  | endInObject => "EOF while parsing an object".toList
  | endInString => "EOF while parsing a string".toList
  | endInValue => "EOF while parsing a value".toList
  | expectedColon => "expected `:`".toList
  | expectedCommaOrBracket => "expected `,` or `]`".toList
  | expectedCommaOrBrace => "expected `,` or `\x7d`".toList
  | expectedName => "expected ident".toList
  | expectedValue => "expected value".toList
  | invalidEscape => "invalid escape".toList
  | invalidNumber => "invalid number".toList
  | numberOutOfRange => "number out of range".toList
  | controlCharacter =>
    "control character (\\u0000-\\u001F) found while parsing a string".toList
  | keyNotString => "key must be a string".toList
  | loneSurrogate => "lone leading surrogate in hex escape".toList
  | trailingComma => "trailing comma".toList
  | trailingCharacters => "trailing characters".toList
  | endOfHexEscape => "unexpected end of hex escape".toList
  | tooDeep => "recursion limit exceeded".toList

/-- A fault: its cause, and its place, `ahead` bytes after the place where `rest` starts. -/
structure Fault where
  cause : Cause
  rest : Text
  ahead : Nat
deriving Repr, DecidableEq

namespace Fault

/-- A fault right where `rest` starts. -/
def here (cause : Cause) (rest : Text) : Fault := ⟨cause, rest, 0⟩

/-- A fault of the character that `rest` starts with: its place is one byte on, if there is one. -/
def next (cause : Cause) (rest : Text) : Fault := ⟨cause, rest, if rest = [] then 0 else 1⟩

/-- Line and column of the place `bytes` bytes after the start of a text, which lies in a line
`line` at the column `column`. -/
def positionAfter : Nat → Nat → Nat → Text → Nat × Nat
  | 0, line, column, _ => (line, column)
  | _, line, column, [] => (line, column)
  | bytes, line, column, c :: t =>
    if c = '\n' then positionAfter (bytes - 1) (line + 1) 0 t
    else if bytes < c.utf8Size then (line, column + bytes)
    else positionAfter (bytes - c.utf8Size) line (column + c.utf8Size) t

/-- Line, from 1, and column, from 0, of a fault in a text. -/
def position (f : Fault) (whole : Text) : Nat × Nat :=
  positionAfter (whole.byteSize - f.rest.byteSize + f.ahead) 1 0 whole

def message (f : Fault) (whole : Text) : Text :=
  let (line, column) := f.position whole
  f.cause.message ++ " at line ".toList ++ Nat.toDigits 10 line ++ " column ".toList
    ++ Nat.toDigits 10 column

end Fault

end Pagefold.Json
