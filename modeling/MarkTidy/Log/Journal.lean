import MarkTidy.Log

/-!
The journal of a process: its loggers, and what they have written. Loggers stand in a tree by their
dotted names, with one nameless logger on top. Each may ask for a level of its own, hold handlers, and
keep its records from the loggers above it. A record that reaches the level asked for is passed up
the tree, and every handler that it meets writes it to standard error or at the end of a file, if it
reaches the handler's level too.
-/

namespace MarkTidy.Log

/-- Where a handler writes. -/
inductive Sink where
  | console
  | file (name : Text)
deriving DecidableEq, Repr

structure Handler where
  threshold : Level
  sink : Sink
deriving DecidableEq, Repr

/-- A logger; unless it has been set up, it asks for no level and has no handlers. -/
structure Logger where
  threshold : Option Level := none
  propagates : Bool := true
  handlers : List Handler := []
deriving DecidableEq, Repr

/-- What a set-up is asked for. If its file cannot be opened, a set-up fails when all but the handler of
the file is in place, as if no file had been asked for. -/
structure Setup where
  verbose : Bool := false
  quiet : Bool := false
  file : Option Text := none
deriving DecidableEq, Repr

def Setup.level (s : Setup) : Level := Level.ofSwitches s.verbose s.quiet

/-- The names above a logger, whose name is `before` and the given rest: whatever stands before a full
stop. The topmost comes first. -/
def namesAbove (before : Text) : Text → List Text
  | [] => []
  | c :: r =>
    if c = '.' ∧ before ≠ [] then before :: namesAbove (before ++ [c]) r
    else namesAbove (before ++ [c]) r

/-- A logger and those above it, up to the nameless one. -/
def lineage (name : Text) : List Text := name :: (namesAbove [] name).reverse ++ [[]]

structure Journal where
  loggers : Text → Logger := fun name => if name = [] then { threshold := some .warning } else {}
  stderr : Text := []
  /-- Log files, each with what it holds. -/
  files : List (Text × Text) := []

namespace Journal

/-- The level asked for by the first logger of a lineage that asks for any. -/
def thresholdAlong (j : Journal) (names : List Text) : Level :=
  (names.findSome? fun n => (j.loggers n).threshold).getD (.numbered 0)

/-- The handlers that a record meets on its way up. -/
def handlersAlong (j : Journal) : List Text → List Handler
  | [] => []
  | n :: up =>
    let l := j.loggers n
    l.handlers ++ if l.propagates then j.handlersAlong up else []

/-- Adds text at the end of one log file and makes the file if need be. -/
def append (name text : Text) : List (Text × Text) → List (Text × Text)
  | [] => [(name, text)]
  | (n, old) :: rest =>
    if n = name then (n, old ++ text) :: rest else (n, old) :: append name text rest

/-- What a log file holds; nothing, if there is no such file. -/
def content (j : Journal) (name : Text) : Text := (j.files.lookup name).getD []

/-- Has a handler write a record. `stamp` is the time, as the lines of a file begin with it. -/
def handle (stamp : Text) (r : Record) (j : Journal) (h : Handler) : Journal :=
  if r.level.reaches h.threshold then
    match h.sink with
    | .console => { j with stderr := j.stderr ++ r.consoleLine }
    | .file name => { j with files := append name (stamp ++ r.fileLine) j.files }
  else j

/-- Logs a record. Where it meets no handler, it goes bare to standard error if it is a warning or
worse. -/
def log (j : Journal) (stamp : Text) (r : Record) : Journal :=
  let names := lineage r.logger
  if 0 < r.level.rank ∧ r.level.reaches (j.thresholdAlong names) then
    match j.handlersAlong names with
    | [] =>
      if r.level.reaches .warning then { j with stderr := j.stderr ++ r.message ++ ['\n'] } else j
    | handlers => handlers.foldl (handle stamp r) j
  else j

def setLogger (j : Journal) (name : Text) (l : Logger) : Journal :=
  { j with loggers := fun n => if n = name then l else j.loggers n }

/-- Gives the package's logger one more handler. -/
def attach (j : Journal) (h : Handler) : Journal :=
  let l := j.loggers rootLogger
  j.setLogger rootLogger { l with handlers := l.handlers ++ [h] }

/-- Sets the package's logger up anew, without the handlers it had. A log file is opened at once, and
keeps what it holds. -/
def configure (j : Journal) (s : Setup) : Journal :=
  let j := j.setLogger rootLogger { threshold := some s.level, propagates := false }
  let j := j.attach ⟨s.level, .console⟩
  match s.file with
  | none => j
  | some name => { j with files := append name [] j.files }.attach ⟨s.level, .file name⟩

end Journal

/-- What a program does with its log. -/
inductive Step where
  | configure (s : Setup)
  /-- A message through the logger that is known by `name`, or through the package's own. -/
  | emit (name : Option Text) (stamp : Text) (level : Level) (message : Text)

namespace Journal

def step (j : Journal) : Step → Journal
  | .configure s => j.configure s
  | .emit name stamp level message => j.log stamp ⟨level, loggerName name, message⟩

def run (j : Journal) (steps : List Step) : Journal := steps.foldl step j

end Journal

end MarkTidy.Log
