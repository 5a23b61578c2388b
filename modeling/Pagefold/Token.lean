import Pagefold.Context

/-!
# Leftover tokens

A token is `@@` with letters, digits, `_` or `-` of ASCII behind it, as many as there are. The tokens
that no context supplied are removed from the finished page.

* `Token.pattern`: how a token is read;
* `Token.strip`: a text without its tokens, and the tokens in strictly ascending order.
-/

namespace Pagefold.Token

open Text

def isNameChar (c : Char) : Bool := c.isAlphanum || c == '_' || c == '-'

/-- The token at the front of a text, and what follows it. -/
def read? (t : Text) : Option (Text × Text) := do
  let t ← dropPrefix? Context.marker t
  match t.takeWhile isNameChar with
  | [] => none
  | c :: name => some (Context.marker ++ c :: name, t.dropWhile isNameChar)

theorem read?_proper {t token rest : Text} (h : read? t = some (token, rest)) :
    rest <:+ t ∧ rest.length < t.length := by
  simp only [read?, Option.bind_eq_bind, Option.bind_eq_some_iff,
    dropPrefix?_eq_some_iff] at h
  obtain ⟨t₁, rfl, h⟩ := h
  split at h
  · simp at h
  · cases h
    have hs := List.dropWhile_suffix (l := t₁) isNameChar
    have hl := hs.length_le
    refine ⟨hs.trans (List.suffix_append _ _), ?_⟩
    simp [Context.marker]
    omega

def pattern : Pattern Text where
  read? := read?
  proper := read?_proper

/-- A text without its tokens, and the tokens. -/
def strip (t : Text) : Text × List Text :=
  (pattern.replace (fun _ => []) t, sortedUnique (pattern.hits t))

end Pagefold.Token
