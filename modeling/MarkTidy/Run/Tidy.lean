import MarkTidy.Diff.Unified
import MarkTidy.Run.Scan
import MarkTidy.Run.World

/-!
Runs over documents. Each document is linted and, if it changed, written back, unless the run is dry.
Files that are no documents, or hold no text, are skipped.
-/

namespace MarkTidy

open Text

inductive Status where
  | updated
  | unchanged
  | skipped
deriving DecidableEq, Repr

namespace Status

def name : Status → Text
  | updated => "updated".toList
  | unchanged => "unchanged".toList
  | skipped => "skipped".toList

end Status

/-- What became of one document. -/
structure Outcome where
  path : Path
  status : Status
  diff : Text := []
  dryRun : Bool
deriving DecidableEq, Repr

namespace Run

def loggerName : Text := Log.loggerName (some "orchestrator".toList)

def record (level : Level) (before path after : Text) : Log.Record :=
  ⟨level, loggerName, before ++ path ++ after⟩

/-- Lints one document. An extension counts as it is written, a path's suffix in lower case. -/
def lintFile (p : Path) (rules : Rules) (extensions : List Text) (dryRun : Bool) : Action Outcome := do
  let say (level : Level) (before after : String) : Action Unit :=
    Action.log (record level before.toList p.toText after.toList)
  if !extensions.contains (lower p.suffix) then
    say .info "Skipping " ": not a Markdown document"
    return { path := p, status := .skipped, dryRun }
  match ← Action.ask (·.content p) with
  | .binary _ =>
    say .warning "Skipping " ": not valid UTF-8 text"
    return { path := p, status := .skipped, dryRun }
  | .text old =>
    let linted := rules.lint [] old
    linted.log.forM Action.log
    if !linted.changed then
      say .debug "No changes for " ""
      return { path := p, status := .unchanged, dryRun }
    let diff := Diff.unified old linted.text p.name
    if dryRun then
      say .debug "Dry-run: " " would change"
      return { path := p, status := .updated, diff, dryRun }
    Action.write p linted.text
    say .info "Updated " ""
    return { path := p, status := .updated, diff, dryRun }

/-- Lints the documents below one path. -/
def tidyPath (dryRun : Bool) (shown : Text) : Action (List Outcome) := do
  let target ← Action.ask (·.expandHome (Path.ofText shown))
  if !(← Action.ask (·.holds target)) then throw (.pathNotFound shown)
  let config ← Action.ask (Config.load · target)
  let found ← Action.ask
    (Scan.documents · target target.toText config.extensions config.excluded)
  Action.log (record .debug ("Found ".toList ++ natural found.length ++ " document(s) under ".toList)
    target.toText [])
  found.mapM fun l => lintFile (.ofLocation l) config.rules config.extensions dryRun

/-- Lints the documents below some paths, one path after the other. -/
def tidy (dryRun : Bool) (paths : List Text) : Action (List Outcome) :=
  return (← paths.mapM (tidyPath dryRun)).flatten

/-- Tells what tidying would do. -/
def check (paths : List Text) : Action (List Outcome) := tidy true paths

end Run

end MarkTidy
