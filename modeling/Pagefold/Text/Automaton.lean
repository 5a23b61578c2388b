import Pagefold.Text.Matcher

/-!
# The sizes of automata

The matcher of the program compiles what is looked for to automata, and refuses those of more than a
number of bytes. Their size is estimated: a state for each byte, shared between keys that begin
alike. Only names of hundreds of kilobytes come near the limit.

* `Automaton.keyStates`: the states for some keys;
* `Matcher.bounded`: the matcher that refuses what is over the limit by this estimate.
-/

namespace Pagefold

namespace Automaton

def stateSize : Nat := 32

def size (t : Text) : Nat := stateSize * t.byteSize

/-- The bytes of a text in any letter case: a letter needs two more transitions. -/
def foldedSize (t : Text) : Nat := size t + 16 * t.countP fun c => c.isAlpha || 128 ≤ c.toNat

/-- The bytes of some texts. -/
def totalSize (ts : List Text) : Nat := ts.foldr (fun t n => size t + n) 0

/-- The bytes at the front of two texts that are the same, and `n` more. -/
def sharedBytes (n : Nat) : Text → Text → Nat
  | c :: s, d :: t => if c = d then sharedBytes (n + c.utf8Size) s t else n
  | _, _ => n

/-- The states for some keys. A key has those of its own behind what another one begins with. -/
def keyStates : List Text → Nat
  | [] => 0
  | k :: ks => keyStates ks + (k.byteSize - (ks.map (sharedBytes 0 k)).foldl max 0)

end Automaton

open Automaton

/-- The matcher that refuses automata over the limit. Without states in common there are no fewer
states, so they are only counted if the keys are too large for that. -/
@[reducible] def Matcher.bounded : Matcher where
  refusesKeys keys := limit < totalSize keys && limit < stateSize * keyStates keys
  refusesStarter fileName := limit < 2 * foldedSize fileName
  refusesTitle start finish := limit < size start + size finish
  refusesFolder folder := limit < size (folder ++ ['/'])

end Pagefold
