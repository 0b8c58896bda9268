import MarkTidy.Command.Invocation
import MarkTidy.Run.Tidy

/-!
Carrying out a command line. What it prints says which documents changed or would change; its exit code
is 1 if some would, or if a path or the configuration is at fault, and 2 if it is wrong itself. Any
other failure leaves no exit code.
-/

namespace MarkTidy.Command

open Text

/-- What a command has come to. -/
structure Report where
  exit : Option Nat := some 0
  stdout : Text := []
  stderr : Text := []
  failure : Option Failure := none
deriving DecidableEq, Repr

namespace Report

def line (t : Text) : Text := t ++ ['\n']

/-- A path as it is printed: from the working folder on, if it is below it. -/
def shown (here : Location) (p : Path) : Text := ((p.relativeTo? here).getD p).toText

def changed (outcomes : List Outcome) : List Outcome := outcomes.filter (·.status = .updated)

/-- The last line after documents were rewritten or might have been. -/
def summary (outcomes : List Outcome) (dryRun : Bool) : Text :=
  if (changed outcomes).isEmpty then "No changes".toList
  else
    natural (changed outcomes).length ++ " of ".toList ++ natural outcomes.length ++
      " document(s) ".toList ++ (if dryRun then "would change".toList else "changed".toList)

def ofFix (here : Location) (dryRun : Bool) (outcomes : List Outcome) : Report where
  stdout :=
    (changed outcomes).flatMap (fun o =>
      line (if dryRun then (if o.diff.isEmpty then "(no diff)".toList else o.diff)
        else "Updated ".toList ++ shown here o.path)) ++
    line (summary outcomes dryRun)

def ofCheck (here : Location) (outcomes : List Outcome) : Report :=
  match changed outcomes with
  | [] => { stdout := line (natural outcomes.length ++ " document(s) already normalised".toList) }
  | found =>
    { exit := some 1
      stdout := found.flatMap fun o => line ("Would reformat ".toList ++ shown here o.path)
      stderr := line (natural found.length ++ " document(s) would be reformatted".toList) }

/-- The report of a run that failed. -/
def ofFailure (f : Failure) : Report :=
  if f.group = .notFound then { exit := some 1, stderr := line f.message }
  else if f.isConfig then { exit := some 1, stderr := line ("mylint failed: ".toList ++ f.message) }
  else { exit := none, failure := some f }

def ofHalt : Halt → Report
  | .help text => { stdout := text }
  | .misuse usage program problem =>
    { exit := some 2, stderr := usage ++ line (program ++ ": error: ".toList ++ problem) }

end Report

namespace Invocation

/-- Carries out a command. The log is opened first; if that fails, the command has no exit code. -/
def run (i : Invocation) (w : World) : Report × World :=
  let level := Level.ofSwitches i.verbose i.quiet
  match (Action.openLog level (i.logFile.map Path.ofText)).run w with
  | (.error f, w) => ({ exit := none, failure := some f }, w)
  | (.ok (), w) =>
    let dry := i.dryRun || i.verb = .check
    match (Run.tidy dry i.paths).run w with
    | (.error f, w) => (Report.ofFailure f, w)
    | (.ok outcomes, w) =>
      (match i.verb with
        | .fix => Report.ofFix w.place.here i.dryRun outcomes
        | .check => Report.ofCheck w.place.here outcomes, w)

end Invocation

/-- Carries out a command line. What was logged to standard error comes first. -/
def run (args : List Text) (w : World) : Report × World :=
  match Invocation.ofArgs args with
  | .error h => (Report.ofHalt h, w)
  | .ok i =>
    let (r, after) := i.run { w with stderr := [] }
    ({ r with stderr := after.stderr ++ r.stderr }, after)

end MarkTidy.Command
