import Pagefold.Json.Fault
import Pagefold.Json.Value

/-!
# Reading JSON texts

A reader takes a value off the front of a text and gives the rest, or the first fault.

* `Json.readNumber`, `Json.readString`, `Json.readValue`: the readers;
* `Json.parse`: the value of a whole text.

Values nest at most 127 deep. Lists and objects have no more members than characters, which bounds
the loops that read them.
-/

namespace Pagefold.Json

open Text (byteSize)

/-- A text after blanks; only four characters are blank here. -/
def skipSpace (t : Text) : Text :=
  t.dropWhile fun c => c == ' ' || c == '\n' || c == '\t' || c == '\r'

/-! ## Numbers -/

def digit? (c : Char) : Option Nat := if c.isDigit then some (c.toNat - 48) else none

/-- The largest unsigned integer of 64 bits. -/
def maxDigits : Nat := Nat.pow 2 64 - 1

/-- The largest exponent that is read digit by digit. -/
def maxExponent : Nat := Nat.pow 2 31 - 1

/-- Digits that keep a number within a limit: the number, how many digits were read on top of
`count`, and what follows them. -/
def digitsWithin (limit n count : Nat) : Text → Nat × Nat × Text
  | [] => (n, count, [])
  | c :: t =>
    match digit? c with
    | some d =>
      if 10 * n + d ≤ limit then digitsWithin limit (10 * n + d) (count + 1) t
      else (n, count, c :: t)
    | none => (n, count, c :: t)

def skipDigits (t : Text) : Text := t.dropWhile Char.isDigit

def atDigit (t : Text) : Bool := (t.head?.map Char.isDigit).getD false

def finish (negative : Bool) (digits : Nat) (exponent : Int) (rest : Text) :
    Except Fault (Number × Text) :=
  match Number.ofParts? negative digits exponent with
  | some n => .ok (n, rest)
  | none => .error (.here .numberOutOfRange rest)

/-- The exponent behind an `e`, on top of the exponent that the digits already have. -/
def readExponent (negative : Bool) (digits : Nat) (exponent : Int) (t : Text) :
    Except Fault (Number × Text) :=
  let (up, t) := match t with
    | '+' :: t => (true, t)
    | '-' :: t => (false, t)
    | t => (true, t)
  match t with
  | [] => .error (.here .endInValue [])
  | c :: t =>
    match digit? c with
    | none => .error ⟨.invalidNumber, c :: t, 1⟩
    | some d =>
      let (e, _, rest) := digitsWithin maxExponent d 0 t
      if atDigit rest then
        if digits != 0 && up then .error (.here .numberOutOfRange (rest.drop 1))
        else finish negative 0 0 (skipDigits rest)
      else finish negative digits (if up then exponent + e else exponent - e) rest

/-- The exponent, if an `e` follows, or the end of a number. -/
def readTail (negative : Bool) (digits : Nat) (exponent : Int) (t : Text) :
    Except Fault (Number × Text) :=
  match t with
  | 'e' :: t => readExponent negative digits exponent t
  | 'E' :: t => readExponent negative digits exponent t
  | t => finish negative digits exponent t

/-- The fraction behind a point. Digits that 64 bits do not hold are dropped. -/
def readFraction (negative : Bool) (digits : Nat) (exponent : Int) (t : Text) :
    Except Fault (Number × Text) :=
  let (n, count, rest) := digitsWithin maxDigits digits 0 t
  if count = 0 && !atDigit rest then
    .error (.next (if t = [] then .endInValue else .invalidNumber) t)
  else readTail negative n (exponent - count) (skipDigits rest)

/-- The rest of an integer whose first digits were read. Further digits only raise the exponent. -/
def readInteger (negative : Bool) (digits : Nat) (t : Text) :
    Except Fault (Number × Text) :=
  let (n, _, rest) := digitsWithin maxDigits digits 0 t
  let extra := (rest.takeWhile Char.isDigit).length
  match skipDigits rest with
  | '.' :: t => readFraction negative n extra t
  | 'e' :: t => readExponent negative n extra t
  | 'E' :: t => readExponent negative n extra t
  | t => if extra = 0 then .ok (Number.ofInteger negative n, t) else finish negative n extra t

/-- A number after its sign. A zero at the front stands alone. -/
def readNumber (negative : Bool) (t : Text) : Except Fault (Number × Text) :=
  match t with
  | [] => .error (.here .endInValue [])
  | c :: t =>
    match digit? c with
    | none => .error ⟨.invalidNumber, c :: t, 1⟩
    | some 0 =>
      if atDigit t then .error (.next .invalidNumber t)
      else readInteger negative 0 t
    | some d => readInteger negative d t

/-! ## Strings -/

def hexValue? (c : Char) : Option Nat :=
  if c.isDigit then some (c.toNat - 48)
  else if 'a' ≤ c && c ≤ 'f' then some (c.toNat - 87)
  else if 'A' ≤ c && c ≤ 'F' then some (c.toNat - 55)
  else none

/-- The value of four hexadecimal digits at the front of a text. -/
def hexFour (t : Text) : Except Fault Nat :=
  if byteSize (t.take 4) < 4 then .error (.here .endInString [])
  else
    match t with
    | a :: b :: c :: d :: _ =>
      match hexValue? a, hexValue? b, hexValue? c, hexValue? d with
      | some a, some b, some c, some d => .ok (4096 * a + 256 * b + 16 * c + d)
      | _, _, _, _ => .error ⟨.invalidEscape, t, 4⟩
    | _ => .error ⟨.invalidEscape, t, 4⟩

/-- The character of a `\u` escape, and how many characters it takes after the `u`. A character
beyond 16 bits is written as two escapes, high surrogate first. -/
def unicodeEscape (t : Text) : Except Fault (Char × Nat) := do
  let n ← hexFour t
  if 0xDC00 ≤ n && n ≤ 0xDFFF then .error (.here .loneSurrogate (t.drop 4))
  else if n < 0xD800 || 0xDBFF < n then return (Char.ofNat n, 4)
  else
    match t.drop 4 with
    | [] => .error (.here .endInString [])
    | '\\' :: r =>
      match r with
      | [] => .error (.here .endInString [])
      | 'u' :: r =>
        let m ← hexFour r
        if m < 0xDC00 || 0xDFFF < m then .error (.here .loneSurrogate (r.drop 4))
        else return (Char.ofNat ((n - 0xD800) * 1024 + (m - 0xDC00) + 0x10000), 10)
      | r => .error ⟨.endOfHexEscape, r, 1⟩
    | r => .error ⟨.endOfHexEscape, r, 1⟩

/-- The character of an escape, read behind the backslash, and how many characters it takes. -/
def escape (t : Text) : Except Fault (Char × Nat) :=
  match t with
  | [] => .error (.here .endInString [])
  | '"' :: _ => .ok ('"', 1)
  | '\\' :: _ => .ok ('\\', 1)
  | '/' :: _ => .ok ('/', 1)
  | 'b' :: _ => .ok ('\x08', 1)
  | 'f' :: _ => .ok ('\x0c', 1)
  | 'n' :: _ => .ok ('\n', 1)
  | 'r' :: _ => .ok ('\r', 1)
  | 't' :: _ => .ok ('\t', 1)
  | 'u' :: t => (unicodeEscape t).map fun (c, n) => (c, n + 1)
  | _ :: _ => .error ⟨.invalidEscape, t, 1⟩

/-- A string behind its opening quote, after skipping `skip` characters, which belong to the escape
that was read last; `done` is what was read, last character first. -/
def readString (skip : Nat) (done : Text) : Text → Except Fault (Text × Text)
  | [] => .error (.here .endInString [])
  | c :: t =>
    match skip with
    | k + 1 => readString k done t
    | 0 =>
      if c = '"' then .ok (done.reverse, t)
      else if c = '\\' then
        match escape t with
        | .ok (d, n) => readString n (d :: done) t
        | .error e => .error e
      else if c.toNat < 32 then .error (.here .controlCharacter t)
      else readString 0 (c :: done) t

/-! ## Values -/

/-- The rest of a name such as `true`. -/
def readName (value : Json) : Text → Text → Except Fault (Json × Text)
  | [], t => .ok (value, t)
  | _ :: _, [] => .error (.here .endInValue [])
  | a :: name, c :: t =>
    if a = c then readName value name t else .error ⟨.expectedName, c :: t, 1⟩

/-- One and more items of a list, at most `budget` of them; `done` holds those that were read, last
first. -/
def readItems (value : Text → Except Fault (Json × Text)) :
    Nat → List Json → Text → Except Fault (Json × Text)
  | 0, _, t => .error (.next .endInList t)
  | budget + 1, done, t => do
    let (v, t) ← value t
    match skipSpace t with
    | [] => .error (.next .endInList [])
    | ']' :: rest => return (.array (v :: done).reverse, rest)
    | ',' :: t =>
      match skipSpace t with
      | [] => .error (.next .endInValue [])
      | ']' :: t => .error (.next .trailingComma (']' :: t))
      | t => readItems value budget (v :: done) t
    | t => .error (.next .expectedCommaOrBracket t)

def readArray (value : Text → Except Fault (Json × Text)) (t : Text) :
    Except Fault (Json × Text) :=
  match skipSpace t with
  | [] => .error (.next .endInList [])
  | ']' :: rest => .ok (.array [], rest)
  | t => readItems value t.length [] t

def readColon (t : Text) : Except Fault Text :=
  match skipSpace t with
  | [] => .error (.next .endInObject [])
  | ':' :: t => .ok t
  | t => .error (.next .expectedColon t)

/-- One and more members of an object, at most `budget` of them, on top of those in `done`. The text
starts with the quote of a name. -/
def readMembers (value : Text → Except Fault (Json × Text)) :
    Nat → List (Text × Json) → Text → Except Fault (Json × Text)
  | 0, _, t => .error (.next .endInObject t)
  | budget + 1, done, t => do
    let (name, t) ← readString 0 [] (t.drop 1)
    let (v, t) ← value (← readColon t)
    let done := setMember name v done
    match skipSpace t with
    | [] => .error (.next .endInObject [])
    | '\x7d' :: rest => return (.object done, rest)
    | ',' :: t =>
      match skipSpace t with
      | [] => .error (.next .endInValue [])
      | '"' :: t => readMembers value budget done ('"' :: t)
      | '\x7d' :: t => .error (.next .trailingComma ('\x7d' :: t))
      | t => .error (.next .keyNotString t)
    | t => .error (.next .expectedCommaOrBrace t)

def readObject (value : Text → Except Fault (Json × Text)) (t : Text) :
    Except Fault (Json × Text) :=
  match skipSpace t with
  | [] => .error (.next .endInObject [])
  | '\x7d' :: rest => .ok (.object [], rest)
  | '"' :: t => readMembers value (t.length + 1) [] ('"' :: t)
  | t => .error (.next .keyNotString t)

/-- A value at the front of a text, in which lists and objects nest at most `depth` deep. -/
def readValue (depth : Nat) (t : Text) : Except Fault (Json × Text) :=
  match skipSpace t with
  | [] => .error (.next .endInValue [])
  | 'n' :: t => readName .null "ull".toList t
  | 't' :: t => readName (.bool true) "rue".toList t
  | 'f' :: t => readName (.bool false) "alse".toList t
  | '-' :: t => (readNumber true t).map fun (n, rest) => (.number n, rest)
  | '"' :: t => (readString 0 [] t).map fun (s, rest) => (.string s, rest)
  | '[' :: t =>
    match depth with
    | 0 => .error (.next .tooDeep ('[' :: t))
    | d + 1 => readArray (readValue d) t
  | '\x7b' :: t =>
    match depth with
    | 0 => .error (.next .tooDeep ('\x7b' :: t))
    | d + 1 => readObject (readValue d) t
  | c :: t =>
    if c.isDigit then (readNumber false (c :: t)).map fun (n, rest) => (.number n, rest)
    else .error (.next .expectedValue (c :: t))

def maxDepth : Nat := 127

def parse (t : Text) : Except Fault Json := do
  let (v, rest) ← readValue maxDepth t
  match skipSpace rest with
  | [] => return v
  | rest => .error (.next .trailingCharacters rest)

end Pagefold.Json
