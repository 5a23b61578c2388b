import Pagefold.Text

/-!
# Patterns

A pattern reads a match off the front of a text. Read from left to right, a text falls into pieces:
characters that no match covers and matches, each at the leftmost place that is still free.

* `Pattern`: what reads one match, which is never empty;
* `Pattern.literal`: the pattern of one text;
* `Piece`, `Pattern.pieces`: the pieces of a text;
* `Pattern.hits`, `Pattern.located`, `Pattern.replace`: the matches, where they stand, and a text
  with other texts in their places.
-/

namespace Pagefold

/-- A pattern reads a value and the rest of the text, which is a proper ending of it. -/
structure Pattern (α : Type) where
  /-- The match at the very front of a text: its value and what follows it. -/
  read? : Text → Option (α × Text)
  /-- A match takes something off the front, and nothing else changes. -/
  proper : ∀ {t v r}, read? t = some (v, r) → r <:+ t ∧ r.length < t.length

/-- A piece of a text: a character outside every match, or a match with its characters. -/
inductive Piece (α : Type) where
  | plain (c : Char)
  | hit (source : Text) (value : α)
deriving Repr, DecidableEq

namespace Piece

variable {α : Type}

def source : Piece α → Text
  | plain c => [c]
  | hit s _ => s

def value? : Piece α → Option α
  | plain _ => none
  | hit _ v => some v

/-- The characters of a piece, or what `f` gives for a match. -/
def replaced (f : α → Text) : Piece α → Text
  | plain c => [c]
  | hit _ v => f v

end Piece

namespace Pattern

/-! ## Literal texts -/

/-- The text that stands literally, as it is found in a text. -/
def literal? (needle t : Text) : Option (Unit × Text) :=
  if needle = [] then none else (Text.dropPrefix? needle t).map ((), ·)

theorem literal?_proper {needle t rest : Text} {u : Unit}
    (h : literal? needle t = some (u, rest)) : rest <:+ t ∧ rest.length < t.length := by
  unfold literal? at h
  split at h
  · simp at h
  · next hn =>
    obtain ⟨r, h₁, h₂⟩ := Option.map_eq_some_iff.1 h
    cases h₂
    rw [Text.dropPrefix?_eq_some_iff] at h₁
    subst h₁
    have := List.length_pos_iff.2 hn
    exact ⟨List.suffix_append _ _, by simp; omega⟩

def literal (needle : Text) : Pattern Unit where
  read? := literal? needle
  proper := literal?_proper

/-! ## Pieces -/

variable {α : Type} (p : Pattern α)

/-- Collects the pieces of a text behind those in `done` (last first), after skipping `skip`
characters, which belong to the match that was read last. -/
def collect (skip : Nat) (done : List (Piece α)) : Text → List (Piece α)
  | [] => done.reverse
  | c :: t =>
    match skip with
    | k + 1 => collect k done t
    | 0 =>
      match p.read? (c :: t) with
      | none => collect 0 (.plain c :: done) t
      | some (v, rest) =>
        let tail := t.length - rest.length
        collect tail (.hit (c :: t.take tail) v :: done) t

def pieces (t : Text) : List (Piece α) := p.collect 0 [] t

/-- The values of the matches, from left to right. -/
def hits (t : Text) : List α := (p.pieces t).filterMap Piece.value?

/-- Adds the match of a piece, if it is one, with the bytes where it starts and stops. -/
def place (seen : Nat × List (Nat × Nat × α)) (piece : Piece α) : Nat × List (Nat × Nat × α) :=
  let stop := seen.1 + piece.source.byteSize
  match piece with
  | .plain _ => (stop, seen.2)
  | .hit _ v => (stop, (seen.1, stop, v) :: seen.2)

/-- The matches with the bytes where they start and stop. -/
def located (t : Text) : List (Nat × Nat × α) :=
  ((p.pieces t).foldl place (0, [])).2.reverse

/-- The text with `f v` in the place of every match of value `v`. -/
def replace (f : α → Text) (t : Text) : Text := (p.pieces t).flatMap (Piece.replaced f)

def occursIn : Text → Bool
  | [] => false
  | c :: t => (p.read? (c :: t)).isSome || occursIn t

/-! ## The pieces, one at a time -/

theorem collect_eq (skip : Nat) (done : List (Piece α)) (t : Text) :
    p.collect skip done t = done.reverse ++ p.collect 0 [] (t.drop skip) := by
  induction t generalizing skip done with
  | nil => simp [collect]
  | cons c t ih =>
    match skip with
    | k + 1 => simpa [collect] using ih k done
    | 0 =>
      simp only [collect, List.drop_zero]
      split
      · rw [ih, ih 0 [.plain c]]
        simp
      · rw [ih, ih _ [_]]
        simp

@[simp] theorem pieces_nil : p.pieces [] = [] := rfl

theorem pieces_of_none {c : Char} {t : Text} (h : p.read? (c :: t) = none) :
    p.pieces (c :: t) = .plain c :: p.pieces t := by
  rw [pieces, collect, h]
  simp only
  rw [collect_eq]
  simp [pieces]

theorem pieces_of_some {t s r : Text} {v : α} (h : p.read? t = some (v, r)) (ht : t = s ++ r) :
    p.pieces t = .hit s v :: p.pieces r := by
  obtain ⟨-, hlt⟩ := p.proper h
  cases t with
  | nil => simp at hlt
  | cons c t =>
    cases s with
    | nil =>
      simp only [List.nil_append] at ht
      simp [ht] at hlt
    | cons d s =>
      obtain ⟨rfl, rfl⟩ : c = d ∧ t = s ++ r := by simpa using ht
      rw [pieces, collect, h]
      simp only
      rw [collect_eq]
      simp [pieces]

theorem flatMap_source_pieces (t : Text) : (p.pieces t).flatMap Piece.source = t := by
  match t with
  | [] => rfl
  | c :: t =>
    match h : p.read? (c :: t) with
    | none =>
      rw [p.pieces_of_none h, List.flatMap_cons, flatMap_source_pieces t]
      rfl
    | some (v, r) =>
      obtain ⟨⟨s, hs⟩, hlt⟩ := p.proper h
      rw [p.pieces_of_some h hs.symm, List.flatMap_cons, flatMap_source_pieces r]
      exact hs
termination_by t.length
decreasing_by
  · simp
  · exact hlt

end Pattern

end Pagefold
