import Pagefold.Directive
import Pagefold.Json.Parser
import Pagefold.Text.Matcher

/-!
# Contexts

The context of a directive is a JSON object. Its values take the places of the placeholders `@@key`
in the included text.

* `Context`, `Context.read`: the members of the object, and how the argument of a directive is read;
* `Context.valueText`: what a value inserts;
* `Context.substitute`: a text with the values in place. All keys are looked for at once, the longest
  first, and inserted values are not looked at again; `Context.inTurn` is what happens instead when
  the matcher refuses to look for all of them at once;
* `Context.keysWithDirectives`: the keys whose value would insert a directive.
-/

namespace Pagefold

open Text

/-- The members of a context, in strictly ascending order of their keys. -/
abbrev Context := List (Text × Json)

inductive Context.Argument where
  /-- There is none. -/
  | absent
  /-- It is an object. -/
  | parsed (context : Context)
  /-- It is not an object, for the given reason. -/
  | malformed (reason : Text)

namespace Context

/-! ## Reading -/

def kindName : Json → Text
  | .null => "null".toList
  | .bool _ => "a boolean".toList
  | .number _ => "a number".toList
  | .string _ => "a string".toList
  | .array _ => "an array".toList
  | .object _ => "an object".toList

def read : Option Text → Argument
  | none => .absent
  | some raw =>
    match Json.parse raw with
    | .ok (.object members) => .parsed members
    | .ok v => .malformed ("expected a JSON object, found ".toList ++ kindName v)
    | .error e => .malformed (e.message raw)

/-! ## Substitution -/

/-- What a value inserts: a string as it is, any other value as JSON. -/
def valueText : Json → Text
  | .string s => s
  | v => v.text

def insertion (context : Context) (key : Text) : Text :=
  ((context.lookup key).map valueText).getD []

def marker : Text := "@@".toList

/-- Whether a key is looked for before another: longer keys first, then by their bytes. -/
def before (k l : Text) : Bool :=
  l.byteSize < k.byteSize || (k.byteSize = l.byteSize && k < l)

/-- A list of keys with one more, in the order in which they are looked for. -/
def insertKey (k : Text) : List Text → List Text
  | [] => [k]
  | l :: ls => if before k l then k :: l :: ls else l :: insertKey k ls

/-- The keys that are looked for, in that order; the empty key is not. -/
def keys (context : Context) : List Text :=
  ((context.map Prod.fst).filter (· ≠ [])).foldr insertKey []

/-- The first of the keys that stands behind a placeholder's marker, and what follows. -/
def placeholder? (keys : List Text) (t : Text) : Option (Text × Text) := do
  let t ← dropPrefix? marker t
  keys.findSome? fun k => (dropPrefix? k t).map (k, ·)

theorem placeholder?_proper {keys : List Text} {t k rest : Text}
    (h : placeholder? keys t = some (k, rest)) : rest <:+ t ∧ rest.length < t.length := by
  simp only [placeholder?, Option.bind_eq_bind, Option.bind_eq_some_iff,
    dropPrefix?_eq_some_iff] at h
  obtain ⟨t₁, rfl, h⟩ := h
  obtain ⟨l, -, h⟩ := List.exists_of_findSome?_eq_some h
  obtain ⟨r, h₁, h₂⟩ := Option.map_eq_some_iff.1 h
  cases h₂
  rw [dropPrefix?_eq_some_iff] at h₁
  subst h₁
  refine ⟨(List.suffix_append _ _).trans (List.suffix_append _ _), ?_⟩
  simp [marker]
  omega

def placeholder (keys : List Text) : Pattern Text where
  read? := placeholder? keys
  proper := placeholder?_proper

/-- The text with the values of all keys in place, found in one pass. -/
def atOnce (context : Context) (t : Text) : Text :=
  (placeholder context.keys).replace context.insertion t

/-- The text with the value of one key after the other in place. -/
def inTurn (context : Context) (t : Text) : Text :=
  context.keys.foldl
    (fun t k => (Pattern.literal (marker ++ k)).replace (fun _ => context.insertion k) t) t

/-- The text with the values of a context in place. -/
def substitute [Matcher] (context : Context) (t : Text) : Text :=
  if context.keys = [] || !Text.contains marker t then t
  else if Matcher.refusesKeys context.keys then context.inTurn t
  else context.atOnce t

/-! ## Directives in values -/

def hasDirective : Json → Bool
  | .string s => Directive.occursIn s
  | _ => false

/-- The keys whose value is a string with a directive in it. -/
def keysWithDirectives (context : Context) : List Text :=
  (context.filter fun m => hasDirective m.2).map Prod.fst

end Context

end Pagefold
