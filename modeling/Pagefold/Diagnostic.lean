import Pagefold.Disk
import Pagefold.Text.Matcher

/-!
# Diagnostics and faults

A diagnostic is a condition that does not stop a run and is told in the end; a fault stops it.

* `Diagnostic`, `Diagnostic.message`: the conditions and their wording;
* `Diagnostic.markFor`: the mark in the place of a missing file;
* `Fault`, `Fault.message`, `Fault.source?`: what stops a run, its wording, and what was behind it;
* `Recorded`: a computation that records diagnostics in order and may end in a fault.
-/

namespace Pagefold

/-- The first items of a list with commas between them, and three dots if there are more. -/
def Text.listed (items : List Text) : Text :=
  Text.joined ", ".toList (items.take 10) ++ if 10 < items.length then "...".toList else []

/-! ## Diagnostics -/

/-- A condition that does not stop a run. -/
inductive Diagnostic where
  /-- A target is not there; a mark was left in its place. -/
  | missingInclude (path : Text) (resolved : Path)
  /-- The context of an include could not be read, and was not used. -/
  | malformedContext (path reason : Text)
  /-- A value of a context has a directive in it, which is not expanded. -/
  | directiveInValue (path key : Text)
  /-- Tokens that no context supplied were removed. -/
  | leftoverTokens (tokens : List Text)
  /-- The asset folder could not be copied. -/
  | copyFailed (source : Path) (reason : Text)
deriving Repr, DecidableEq

namespace Diagnostic

def message : Diagnostic → Text
  | missingInclude _ resolved => "included file not found: ".toList ++ resolved.text
  | malformedContext path reason =>
    "ignoring malformed context for include '".toList ++ path ++ "': ".toList ++ reason
  | directiveInValue path key =>
    "context value '".toList ++ key ++ "' for include '".toList ++ path
      ++ "' contains an include directive; it is not expanded".toList
  | leftoverTokens tokens =>
    "removed ".toList ++ Nat.toDigits 10 tokens.length ++ " unresolved @@ tokens: ".toList
      ++ Text.listed tokens
  | copyFailed source reason =>
    "failed to copy assets from ".toList ++ source.text ++ ": ".toList ++ reason

/-- What the mark in the place of a missing file starts with. -/
def missingMark : Text := "<!-- include not found:".toList

def markFor (path : Text) : Text := missingMark ++ ' ' :: path ++ " -->".toList

/-- The path in a directive whose target is not there. -/
def missing? : Diagnostic → Option Text
  | missingInclude path _ => some path
  | _ => none

end Diagnostic

/-! ## Faults -/

inductive Fault where
  /-- A file cannot be read. -/
  | fileNotFound (path : Path) (why : Refusal)
  /-- A file includes itself, possibly through others: those on the way, and the file again. -/
  | circularInclude (path : Path) (chain : List Path)
  /-- A file or folder cannot be written. -/
  | io (path : Path) (why : Refusal)
  /-- A configured name is too large to be looked for. -/
  | tooLarge
deriving Repr, DecidableEq

namespace Fault

/-- A file in a chain is called by its name, or by its path if it has none. -/
def linkName (p : Path) : Text := p.fileName?.getD p.text

def message : Fault → Text
  | fileNotFound path _ => "File not found: ".toList ++ path.text
  | circularInclude path chain =>
    "Circular include detected: ".toList ++ path.text ++ " (".toList
      ++ Text.joined " -> ".toList (chain.map linkName) ++ ")".toList
  | io path why => "IO error on ".toList ++ path.text ++ ": ".toList ++ why.message
  | tooLarge => "Invalid pattern: ".toList ++ Matcher.refusal

/-- The wording of what was behind a fault. -/
def source? : Fault → Option Text
  | fileNotFound _ why => some why.message
  | circularInclude _ _ => none
  | io _ why => some why.message
  | tooLarge => some Matcher.refusal

end Fault

/-! ## Recording -/

/-- The diagnostics of a computation, in order, and what it ends in. -/
structure Recorded (α : Type) where
  log : List Diagnostic
  result : Except Fault α

namespace Recorded

variable {α β : Type}

def pure (a : α) : Recorded α := ⟨[], .ok a⟩

def fail (e : Fault) : Recorded α := ⟨[], .error e⟩

/-- A computation with diagnostics in front of its own. -/
def after (log : List Diagnostic) (r : Recorded α) : Recorded α := ⟨log ++ r.log, r.result⟩

def andThen (r : Recorded α) (f : α → Recorded β) : Recorded β :=
  match r.result with
  | .ok a => after r.log (f a)
  | .error e => ⟨r.log, .error e⟩

@[simp] theorem after_nil (r : Recorded α) : after [] r = r := rfl

@[simp] theorem after_after (l m : List Diagnostic) (r : Recorded α) :
    after l (after m r) = after (l ++ m) r := by simp [after]

@[simp] theorem pure_andThen (a : α) (f : α → Recorded β) : (pure a).andThen f = f a := rfl

@[simp] theorem fail_andThen (e : Fault) (f : α → Recorded β) :
    (fail e : Recorded α).andThen f = fail e := rfl

end Recorded

end Pagefold
