import Pagefold.CommandLine
import Pagefold.Settings.Load
import Pagefold.Text.Automaton
import Pagefold.Text.Letter

/-!
# Running a call

* `CommandLine.failure`: how an error is told, with what was behind it;
* `CommandLine.Ending`: how a run ends: its status and what it writes;
* `CommandLine.run`: what arguments do to a disk.
-/

namespace Pagefold.CommandLine

open Text

/-! ## Telling errors -/

/-- The lines of a text, all but the first with a margin, which empty lines do not have. -/
def indented (margin t : Text) : Text :=
  match splitAtChar '\n' t with
  | [] => []
  | first :: rest =>
    joined ['\n'] (first :: rest.map fun line => if line = [] then [] else margin ++ line)

/-- A number in front of an error, right-aligned. -/
def number (n : Nat) : Text :=
  let digits := Nat.toDigits 10 n
  List.replicate (4 - digits.length) ' ' ++ digits ++ ": ".toList

def numbered (n : Nat) (cause : Text) : Text := number n ++ indented (List.replicate 6 ' ') cause

/-- The causes of an error in their order; several of them are numbered from zero. -/
def causeLines : List Text → List Text
  | [] => []
  | [cause] => [List.replicate 4 ' ' ++ indented (List.replicate 4 ' ') cause]
  | causes => causes.zipIdx.map fun (cause, n) => numbered n cause

/-- How an error is told, with what was behind it. -/
def failure (message : Text) (causes : List Text) : Text :=
  "Error: ".toList ++ message ++
    if causes = [] then []
    else "\n\nCaused by:\n".toList ++ joined ['\n'] (causeLines causes)

/-! ## Running -/

inductive Ending where
  /-- The arguments are not right. -/
  | misuse (m : Misuse)
  /-- With a status, and with what is written to the two streams. -/
  | finished (status : Nat) (out err : Text)
deriving Repr, DecidableEq

def Ending.failed (message : Text) (causes : List Text) : Ending :=
  .finished 1 [] (failure message causes)

def logLevels : List Text :=
  ["TRACE".toList, "DEBUG".toList, "INFO".toList, "WARN".toList, "ERROR".toList]

/-- The level that is asked for, if there is none of that name. -/
def unknownLevel? (c : Call) : Option Text :=
  (c.logLevel.map upper).filter fun l => !logLevels.contains l

def warnings (ds : List Diagnostic) : Text :=
  ds.flatMap fun x => "warning: ".toList ++ x.message ++ ['\n']

def faultCauses (e : Fault) : List Text := e.message :: e.source?.toList

def writtenText (c : Call) (f : Flatten.Flattened) : Text :=
  "✓ Wrote flattened HTML to ".toList ++ c.output.text ++ ['\n']
    ++ if c.listAssets then f.references.flatMap (· ++ ['\n']) else []

def ending (c : Call) : Except Fault Flatten.Outcome → Ending
  | .error e => .failed ("Failed to flatten ".toList ++ c.input.text) (faultCauses e)
  | .ok (.written f) => .finished 0 (writtenText c f) (warnings f.diagnostics)
  | .ok (.rejected f report) =>
    .finished 2 [] (warnings f.diagnostics ++ '\n' :: report.text ++ ['\n'])

/-- The matcher of the program. -/
instance : Matcher := .bounded

/-- What a call does to a disk. Nothing is done with settings that are too large. -/
def runCall (d : Disk) (userFolder : Option Path) (c : Call) : Disk × Ending :=
  match unknownLevel? c with
  | some l =>
    (d, .failed "Failed to setup logging".toList ["Unknown log level: ".toList ++ l])
  | none =>
    match Settings.load d userFolder c.config with
    | .error e => (d, .failed "Failed to load configuration".toList e.chain)
    | .ok s =>
      match s.fault? with
      | some e => (d, .failed e.message e.source?.toList)
      | none =>
        let (d, outcome) := Flatten.run s c.options d c.input c.output
        (d, ending c outcome)

def run (d : Disk) (userFolder : Option Path) (args : List Text) : Disk × Ending :=
  match read args with
  | .error m => (d, .misuse m)
  | .ok c => runCall d userFolder c

end Pagefold.CommandLine
