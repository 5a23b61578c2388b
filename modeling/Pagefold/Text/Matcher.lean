import Pagefold.Text

/-!
# Matchers

What is looked for is compiled first, and a matcher refuses what is too large for it when it is
compiled. How large that is depends on how it compiles, so nothing here says which texts a matcher
refuses: whatever looks for texts of any length takes a matcher as a parameter.

* `Matcher`: what a matcher refuses to look for, and `Matcher.refusal`, its wording;
* `Matcher.unlimited`: a matcher that refuses nothing.
-/

namespace Pagefold

/-- What a matcher refuses to look for. -/
class Matcher where
  /-- The placeholders of some keys, looked for all at once. -/
  refusesKeys : List Text → Bool
  /-- Starter directives that end with a file name. -/
  refusesStarter : Text → Bool
  /-- Title blocks that start and end with two texts. -/
  refusesTitle : Text → Text → Bool
  /-- References that start with a folder name. -/
  refusesFolder : Text → Bool

namespace Matcher

/-- The bytes that what is compiled may take. -/
def limit : Nat := 10485760

def refusal : Text :=
  "Compiled regex exceeds size limit of ".toList ++ Nat.toDigits 10 limit ++ " bytes.".toList

/-- A matcher that refuses nothing. With short texts, every matcher is like it. -/
@[reducible] def unlimited : Matcher where
  refusesKeys _ := false
  refusesStarter _ := false
  refusesTitle _ _ := false
  refusesFolder _ := false

end Matcher

end Pagefold
