import Pagefold.Text.Blank
import Pagefold.Text.Pattern

/-!
# Include directives

A directive is written `@@include('path')` or `@@include("path", context)`.

* `Directive`: the path and the context, as written;
* `Directive.pattern`: how a directive is read;
* `Directive.scan`: the directives of a text and the bytes where they stand.

After the path there may be a comma and one argument. An argument that opens a brace runs through
the first `}` that blanks and a `)` follow; any other argument runs to the first `)`.
-/

namespace Pagefold

open Text

structure Directive where
  /-- The path between the quotes. -/
  path : Text
  /-- The argument after the path, if it is not blank. -/
  context : Option Text
deriving Repr, DecidableEq

namespace Directive

def opening : Text := "@@include(".toList

/-! ## Reading -/

/-- A quoted text that is not empty, and what follows its closing quote. -/
def quoted? : Text → Option (Text × Text)
  | [] => none
  | q :: t =>
    if q = '\'' ∨ q = '"' then
      match t.takeWhile (· != q), t.dropWhile (· != q) with
      | c :: path, _ :: rest => some (c :: path, rest)
      | _, _ => none
    else none

/-- The text through the first `}` that blanks and a `)` follow, and what follows the `)`; `seen`
is what was passed, last character first. -/
def braced? (seen : Text) : Text → Option (Text × Text)
  | [] => none
  | c :: t =>
    if c = '}' then
      match skipBlanks t with
      | ')' :: rest => some ((c :: seen).reverse, rest)
      | _ => braced? (c :: seen) t
    else braced? (c :: seen) t

/-- The trimmed text before the first `)`, and what follows it. -/
def plain? (t : Text) : Option (Text × Text) :=
  match t.dropWhile (· != ')') with
  | _ :: rest => some (trim (t.takeWhile (· != ')')), rest)
  | [] => none

def argument? (t : Text) : Option (Text × Text) :=
  match t with
  | '{' :: _ => braced? [] t <|> plain? t
  | _ => plain? t

/-- An argument that says something. -/
def present (arg : Text) : Option Text := if arg = [] then none else some arg

/-- The end of a directive, read right after the path: the context, and what follows the `)`. -/
def close? (t : Text) : Option (Option Text × Text) :=
  match skipBlanks t with
  | ',' :: rest => (argument? (skipBlanks rest)).map fun (arg, rest) => (present arg, rest)
  | ')' :: rest => some (none, rest)
  | _ => none

/-- The directive at the front of a text, and what follows it. -/
def read? (t : Text) : Option (Directive × Text) := do
  let t ← dropPrefix? opening t
  let (path, t) ← quoted? (skipBlanks t)
  let (context, rest) ← close? t
  return (⟨path, context⟩, rest)

/-! ## What reading leaves is an ending of the text -/

theorem suffix_of_cons_suffix {c : Char} {r t : Text} (h : c :: r <:+ t) : r <:+ t :=
  (List.suffix_cons c r).trans h

theorem quoted?_suffix {t path rest : Text} (h : quoted? t = some (path, rest)) : rest <:+ t := by
  cases t with
  | nil => simp [quoted?] at h
  | cons q t =>
    simp only [quoted?] at h
    split at h
    · split at h
      · next hs =>
        cases h
        have := List.dropWhile_suffix (l := t) (· != q)
        rw [hs] at this
        exact (suffix_of_cons_suffix this).trans (List.suffix_cons _ _)
      · simp at h
    · simp at h

theorem braced?_suffix {seen t arg rest : Text} (h : braced? seen t = some (arg, rest)) :
    rest <:+ t := by
  induction t generalizing seen with
  | nil => simp [braced?] at h
  | cons c t ih =>
    simp only [braced?] at h
    split at h
    · split at h
      · next hs =>
        cases h
        have := skipBlanks_suffix t
        rw [hs] at this
        exact (suffix_of_cons_suffix this).trans (List.suffix_cons _ _)
      · exact (ih h).trans (List.suffix_cons _ _)
    · exact (ih h).trans (List.suffix_cons _ _)

theorem plain?_suffix {t arg rest : Text} (h : plain? t = some (arg, rest)) : rest <:+ t := by
  unfold plain? at h
  split at h
  · next hs =>
    cases h
    have := List.dropWhile_suffix (l := t) (· != ')')
    rw [hs] at this
    exact suffix_of_cons_suffix this
  · simp at h

theorem argument?_suffix {t arg rest : Text} (h : argument? t = some (arg, rest)) :
    rest <:+ t := by
  unfold argument? at h
  split at h
  · simp only [Option.orElse_eq_orElse, Option.orElse_eq_or, Option.or_eq_some_iff] at h
    rcases h with h | ⟨-, h⟩
    · exact braced?_suffix h
    · exact plain?_suffix h
  · exact plain?_suffix h

theorem close?_suffix {t rest : Text} {context : Option Text}
    (h : close? t = some (context, rest)) : rest <:+ t := by
  have hb := skipBlanks_suffix t
  unfold close? at h
  split at h
  · next tail hs =>
    obtain ⟨⟨arg, r⟩, ha, h⟩ := Option.map_eq_some_iff.1 h
    cases h
    rw [hs] at hb
    exact (argument?_suffix ha).trans ((skipBlanks_suffix tail).trans (suffix_of_cons_suffix hb))
  · next hs =>
    cases h
    rw [hs] at hb
    exact suffix_of_cons_suffix hb
  · simp at h

theorem read?_proper {t rest : Text} {d : Directive} (h : read? t = some (d, rest)) :
    rest <:+ t ∧ rest.length < t.length := by
  simp only [read?, Option.bind_eq_bind, Option.bind_eq_some_iff, Prod.exists] at h
  obtain ⟨t₁, h₁, path, t₂, h₂, context, t₃, h₃, h⟩ := h
  cases h
  rw [dropPrefix?_eq_some_iff] at h₁
  have hs : rest <:+ t₁ :=
    (close?_suffix h₃).trans ((quoted?_suffix h₂).trans (skipBlanks_suffix t₁))
  have hl := hs.length_le
  rw [h₁]
  refine ⟨hs.trans (List.suffix_append _ _), ?_⟩
  have : 0 < opening.length := by decide
  rw [List.length_append]
  omega

def pattern : Pattern Directive where
  read? := read?
  proper := read?_proper

/-! ## Scanning -/

/-- The directives of a text, each with the bytes where it starts and stops. -/
def scan (t : Text) : List (Nat × Nat × Directive) := pattern.located t

def occursIn (t : Text) : Bool := pattern.occursIn t

/-- The path without one leading `./` and then without any leading `/`. -/
def normalizedPath (d : Directive) : Text :=
  ((dropPrefix? "./".toList d.path).getD d.path).dropWhile (· == '/')

end Directive

end Pagefold
