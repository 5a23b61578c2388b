import Pagefold.Json.Number

/-!
# JSON values

* `Json`: the values; the members of an object are in strictly ascending order of their names;
* `Json.setMember`: an object with one more member, which replaces one of the same name;
* `Json.text`: the compact text of a value.
-/

namespace Pagefold

inductive Json where
  | null
  | bool (b : Bool)
  | number (n : Json.Number)
  | string (s : Text)
  | array (items : List Json)
  | object (members : List (Text × Json))

namespace Json

/-- The members with one more, in its place. -/
def setMember (name : Text) (value : Json) : List (Text × Json) → List (Text × Json)
  | [] => [(name, value)]
  | (n, v) :: rest =>
    if name < n then (name, value) :: (n, v) :: rest
    else if name = n then (name, value) :: rest
    else (n, v) :: setMember name value rest

/-! ## Writing -/

def hexDigit (n : Nat) : Char := Nat.digitChar (n % 16)

/-- A character inside a quoted text. -/
def escaped (c : Char) : Text :=
  match c with
  | '"' => "\\\"".toList
  | '\\' => "\\\\".toList
  | '\n' => "\\n".toList
  | '\r' => "\\r".toList
  | '\t' => "\\t".toList
  | '\x08' => "\\b".toList
  | '\x0c' => "\\f".toList
  | c => if c.toNat < 32 then "\\u00".toList ++ [hexDigit (c.toNat / 16), hexDigit c.toNat] else [c]

def quoted (s : Text) : Text := '"' :: s.flatMap escaped ++ ['"']

mutual

/-- The text of a value without blanks. -/
def text : Json → Text
  | null => "null".toList
  | bool b => if b then "true".toList else "false".toList
  | number n => n.text
  | string s => quoted s
  | array items => '[' :: itemsText items ++ [']']
  | object members => '\x7b' :: membersText members ++ ['\x7d']

def itemsText : List Json → Text
  | [] => []
  | [v] => text v
  | v :: w :: vs => text v ++ ',' :: itemsText (w :: vs)

def membersText : List (Text × Json) → Text
  | [] => []
  | [(n, v)] => quoted n ++ ':' :: text v
  | (n, v) :: m :: ms => quoted n ++ ':' :: text v ++ ',' :: membersText (m :: ms)

end

end Json

end Pagefold
