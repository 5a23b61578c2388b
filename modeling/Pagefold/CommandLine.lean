import Pagefold.Flatten

/-!
# The command line

* `CommandLine.Opt`, `CommandLine.Flag`: what can be asked for, with and without a value;
* `CommandLine.Misuse`: what can be wrong with arguments; help and version are told this way too;
* `CommandLine.Call`: what was asked for;
* `CommandLine.read`: the call of some arguments.

The value of an option is the next argument, unless that starts with a dash, or it is attached to the
option. An option whose value is the next argument is only looked at when the next option is known.
-/

namespace Pagefold.CommandLine

open Text

/-! ## What can be asked for -/

inductive Opt where
  | config
  | logLevel
  | input
  | output
  | assetStart
deriving Repr, DecidableEq

inductive Flag where
  | copyAssets
  | validate
  | listAssets
deriving Repr, DecidableEq

/-- What an argument with a dash stands for. -/
inductive Switch where
  | opt (o : Opt)
  | flag (f : Flag)
  | help
  | version
deriving Repr, DecidableEq

def longNames : List (Text × Switch) := [
  ("config".toList, .opt .config), ("log-level".toList, .opt .logLevel),
  ("input".toList, .opt .input), ("output".toList, .opt .output),
  ("asset-prefix".toList, .opt .assetStart), ("copy-assets".toList, .flag .copyAssets),
  ("validate".toList, .flag .validate), ("list-assets".toList, .flag .listAssets),
  ("help".toList, .help), ("version".toList, .version)]

def shortNames : List (Char × Switch) := [
  ('c', .opt .config), ('l', .opt .logLevel), ('i', .opt .input), ('o', .opt .output), ('h', .help),
  ('V', .version)]

/-- Whether the value of an option is a path, which cannot be empty. -/
def Opt.isPath : Opt → Bool
  | config => true
  | logLevel => false
  | input => true
  | output => true
  | assetStart => false

/-- What can be wrong with arguments. -/
inductive Misuse where
  /-- The help is asked for. -/
  | help
  /-- The version is asked for. -/
  | version
  /-- An argument is not known. -/
  | unknownArgument
  /-- A value is missing, or an empty path. -/
  | invalidValue
  /-- An option or flag is there twice. -/
  | conflict
  /-- A flag has a value. -/
  | tooManyValues
  /-- A file is not given. -/
  | missingArgument
deriving Repr, DecidableEq

def Misuse.status : Misuse → Nat
  | help => 0
  | version => 0
  | _ => 2

def usage : Text :=
  ("Usage: hf [-c FILE] [-l LEVEL] -i FILE -o FILE [--asset-prefix PREFIX] [--copy-assets] "
    ++ "[--validate] [--list-assets]\n").toList

def Misuse.message : Misuse → Text
  | help => usage
  | version => "hf\n".toList
  | unknownArgument => "error: unknown argument\n".toList ++ usage
  | invalidValue => "error: a value is missing or empty\n".toList ++ usage
  | conflict => "error: an argument is used twice\n".toList ++ usage
  | tooManyValues => "error: a flag takes no value\n".toList ++ usage
  | missingArgument => "error: --input and --output are required\n".toList ++ usage

/-- What was asked for. -/
structure Call where
  config : Option Path
  logLevel : Option Text
  input : Path
  output : Path
  assetStart : Option Text
  copyAssets : Bool
  validate : Bool
  listAssets : Bool
deriving Repr, DecidableEq

def Call.options (c : Call) : Flatten.Options := ⟨c.assetStart, c.copyAssets, c.validate⟩

/-! ## Reading -/

/-- What is known between two arguments. -/
structure Known where
  /-- The options with their values. -/
  values : List (Opt × Text) := []
  flags : List Flag := []
  /-- The option that was read last, while its value is not attached: it may still come. -/
  pending : Option (Opt × Option Text) := none

namespace Known

def set (k : Known) (o : Opt) (v : Text) : Except Misuse Known :=
  if (k.values.lookup o).isSome then .error .conflict
  else if o.isPath && v.isEmpty then .error .invalidValue
  else .ok { k with values := (o, v) :: k.values }

/-- Looks at the option that was read last. -/
def settle (k : Known) : Except Misuse Known :=
  match k.pending with
  | none => .ok k
  | some (_, none) => .error .invalidValue
  | some (o, some v) => { k with pending := none }.set o v

def switch (k : Known) (s : Switch) : Except Misuse Known := do
  let k ← k.settle
  match s with
  | .opt o => return { k with pending := some (o, none) }
  | .flag f => if f ∈ k.flags then .error .conflict else return { k with flags := f :: k.flags }
  | .help => .error .help
  | .version => .error .version

def attached (k : Known) (o : Opt) (v : Text) : Except Misuse Known := do (← k.settle).set o v

/-- An argument with two dashes, of which only the rest is given. -/
def long (k : Known) (arg : Text) : Except Misuse Known :=
  match longNames.lookup (arg.takeWhile (· != '=')), arg.dropWhile (· != '=') with
  | none, _ => .error .unknownArgument
  | some s, [] => k.switch s
  | some (.opt o), _ :: v => k.attached o v
  | some _, _ :: _ => .error .tooManyValues

/-- An argument with one dash, of which only the rest is given: several switches, of which an option
is the last one. -/
def short (k : Known) : Text → Except Misuse Known
  | [] => .ok k
  | c :: rest =>
    match shortNames.lookup c, rest with
    | none, _ => .error .unknownArgument
    | some (.opt o), '=' :: v => k.attached o v
    | some (.opt o), d :: v => k.attached o (d :: v)
    | some s, _ => (k.switch s).bind fun k => short k rest

/-- An argument without dashes, which can only be a value. -/
def value (k : Known) (arg : Text) : Except Misuse Known :=
  match k.pending with
  | some (o, none) => .ok { k with pending := some (o, some arg) }
  | _ => .error .unknownArgument

def argument (k : Known) : Text → Except Misuse Known
  | '-' :: '-' :: arg => k.long arg
  | '-' :: c :: arg => k.short (c :: arg)
  | arg => k.value arg

/-- All arguments. Behind two dashes nothing may follow. -/
def arguments (k : Known) : List Text → Except Misuse Known
  | [] => .ok k
  | arg :: args =>
    if arg = ['-', '-'] then if args = [] then .ok k else .error .unknownArgument
    else do (← k.argument arg).arguments args

end Known

def read (args : List Text) : Except Misuse Call := do
  let k ← (← ({} : Known).arguments args).settle
  match k.values.lookup .input, k.values.lookup .output with
  | some input, some output =>
    return {
      config := (k.values.lookup .config).map Path.mk
      logLevel := k.values.lookup .logLevel
      input := ⟨input⟩
      output := ⟨output⟩
      assetStart := k.values.lookup .assetStart
      copyAssets := .copyAssets ∈ k.flags
      validate := .validate ∈ k.flags
      listAssets := .listAssets ∈ k.flags }
  | _, _ => .error .missingArgument

end Pagefold.CommandLine
