import MarkTidy.Command.Grammar

/-!
The two commands: one rewrites documents, the other tells which documents it would rewrite. Options
before the command are for both; some may come after it too.
-/

namespace MarkTidy.Command

open Text

inductive Verb where
  | fix
  | check
deriving DecidableEq, Repr

namespace Verb

def all : List Verb := [fix, check]

def name : Verb → Text
  | fix => "fix".toList
  | check => "check".toList

def ofText? (t : Text) : Option Verb := all.find? (·.name = t)

end Verb

def help : Opt := ⟨.help, ["-h".toList, "--help".toList], false⟩

def verbose : Opt := ⟨.verbose, ["-v".toList, "--verbose".toList], false⟩

def quiet : Opt := ⟨.quiet, ["-q".toList, "--quiet".toList], false⟩

def logFile : Opt := ⟨.logFile, ["--log-file".toList], true⟩

def dryRun : Opt := ⟨.dryRun, ["--dry-run".toList], false⟩

def paragraph (lines : List String) : Text := lines.flatMap fun l => l.toList ++ ['\n']

def usageLines : List String :=
  ["usage: mylint [-h] [-v] [-q] [--log-file LOG_FILE] \x7bfix,check\x7d ..."]

def helpLines : List String := [
  "",
  "Normalise math delimiters and heading/list spacing in Markdown files.",
  "",
  "positional arguments:",
  "  \x7bfix,check\x7d",
  "    fix                Rewrite documents in place.",
  "    check              Exit non-zero if any document would be rewritten.",
  "",
  "options:",
  "  -h, --help           show this help message and exit",
  "  -v, --verbose        Increase log verbosity for troubleshooting.",
  "  -q, --quiet          Only log warnings and errors.",
  "  --log-file LOG_FILE  Also write logs to this file."]

def grammar : Grammar where
  program := "mylint".toList
  usage := paragraph usageLines
  help := paragraph (usageLines ++ helpLines)
  options := [help, verbose, quiet, logFile]
  operands := .subcommand

namespace Verb

def usageLines : Verb → List String
  | fix => ["usage: mylint fix [-h] [-v] [--dry-run] [paths ...]"]
  | check => ["usage: mylint check [-h] [-v] [paths ...]"]

def helpLines : List String := [
  "",
  "positional arguments:",
  "  paths          Markdown files or directories to lint (defaults to current",
  "                 directory).",
  "",
  "options:",
  "  -h, --help     show this help message and exit",
  "  -v, --verbose  Increase log verbosity for troubleshooting."]

def dryRunLines : List String :=
  ["  --dry-run      Preview changes as a diff without writing files."]

def grammar (v : Verb) : Grammar where
  program := "mylint ".toList ++ v.name
  usage := paragraph v.usageLines
  help := paragraph (v.usageLines ++ helpLines ++ if v = fix then dryRunLines else [])
  options := [help, verbose] ++ if v = fix then [dryRun] else []
  operands := .words

end Verb

/-- A command line that can be carried out. -/
structure Invocation where
  verb : Verb
  paths : List Text
  dryRun : Bool
  verbose : Bool
  quiet : Bool
  logFile : Option Text
deriving DecidableEq, Repr

namespace Invocation

def defaultPaths : List Text := [['.']]

/-- The verb that an operand names. -/
def verbOf (word : Text) : Except Halt Verb :=
  match Verb.ofText? word with
  | some v => .ok v
  | none =>
    grammar.misuse ("argument command: invalid choice: ".toList ++ quoted word ++
      " (choose from ".toList ++
      ([',', ' '] : Text).intercalate (Verb.all.map fun v => quoted v.name) ++ [')'])

/-- Reads a command line. Arguments without a meaning are only complained of in the end. -/
def ofArgs (args : List Text) : Except Halt Invocation := do
  let outer ← grammar.read args
  match outer.operands with
  | none | some [] => grammar.misuse "the following arguments are required: command".toList
  | some (word :: rest) =>
    let verb ← verbOf word
    let inner ← verb.grammar.read rest
    let extras := outer.extras ++ inner.extras
    if !extras.isEmpty then
      grammar.misuse ("unrecognized arguments: ".toList ++ ([' '] : Text).intercalate extras)
    else
      let paths := (inner.operands.getD []).erase ['-', '-']
      return {
        verb
        paths := if paths.isEmpty then defaultPaths else paths
        dryRun := inner.has .dryRun
        verbose := outer.has .verbose || inner.has .verbose
        quiet := outer.has .quiet
        logFile := outer.value? .logFile }

end Invocation

end MarkTidy.Command
