import MarkTidy.Text.Basic

/-!
Log records. Each has a level, the name of the logger it goes through, and a message. Five levels
have names of their own; any other level is a number.
-/

namespace MarkTidy

open Text

inductive Level where
  | debug
  | info
  | warning
  | error
  | critical
  | numbered (n : Int)
deriving DecidableEq, Repr

namespace Level

def rank : Level → Int
  | debug => 10
  | info => 20
  | warning => 30
  | error => 40
  | critical => 50
  | numbered n => n

/-- What a record shows of its level. A number that has a name is shown by its name. -/
def name (l : Level) : Text :=
  if l.rank = 0 then "NOTSET".toList
  else if l.rank = 10 then "DEBUG".toList
  else if l.rank = 20 then "INFO".toList
  else if l.rank = 30 then "WARNING".toList
  else if l.rank = 40 then "ERROR".toList
  else if l.rank = 50 then "CRITICAL".toList
  else "Level ".toList ++ integer l.rank

/-- Whether a record of level `l` passes where `threshold` is asked for. -/
def reaches (l threshold : Level) : Bool := threshold.rank ≤ l.rank

/-- The level that two switches ask for; the verbose one wins. -/
def ofSwitches (verbose quiet : Bool) : Level :=
  if verbose then debug else if quiet then warning else info

end Level

namespace Log

def rootLogger : Text := "mylint".toList

/-- The full name of a logger below the package's own, or of that one itself. -/
def loggerName (name : Option Text) : Text :=
  match name with
  | none | some [] => rootLogger
  | some n => rootLogger ++ '.' :: n

structure Record where
  level : Level
  logger : Text
  message : Text
deriving DecidableEq, Repr

/-- A record as standard error shows it. -/
def Record.consoleLine (r : Record) : Text :=
  "[mylint] ".toList ++ r.level.name ++ ' ' :: r.message ++ ['\n']

/-- A record as a log file shows it after the time. -/
def Record.fileLine (r : Record) : Text :=
  r.level.name ++ ' ' :: r.logger ++ ": ".toList ++ r.message ++ ['\n']

end Log

end MarkTidy
