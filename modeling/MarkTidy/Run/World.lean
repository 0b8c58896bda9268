import MarkTidy.Log
import MarkTidy.Tree.Place

/-!
What a run changes: the tree of files, the records that it has logged, and what it has
written to standard error. A run that fails keeps what it has changed before.
-/

namespace MarkTidy

/-- Where a run logs to: standard error, and perhaps a file. -/
structure LogTarget where
  threshold : Level
  file : Option Location := none
deriving DecidableEq, Repr

structure World where
  place : Place
  records : List Log.Record := []
  target : Option LogTarget := none
  stderr : Text := []
  /-- What the lines of a log file begin with. -/
  stamp : Text := []

abbrev Action := ExceptT Failure (StateM World)

namespace Action

/-- Asks about the files as they are now. -/
def ask {α : Type} (f : Place → Except Failure α) : Action α := do
  match f (← get).place with
  | .ok a => return a
  | .error e => throw e

def putFile (l : Location) (c : Content) : Action Unit :=
  modify fun w => { w with place.tree := w.place.tree.put l (.file c) }

/-- Adds text at the end of a file. -/
def appendAt (l : Location) (t : Text) : Action Unit := do
  match (← get).place.tree.at? l with
  | some (.file c) => putFile l (c.append t)
  | _ => putFile l (.text t)

/-- Logs a record, and writes it if it reaches the threshold of the target. -/
def log (r : Log.Record) : Action Unit := do
  modify fun w => { w with records := w.records ++ [r] }
  let w ← get
  match w.target with
  | none => return
  | some target =>
    if r.level.reaches target.threshold then
      set { w with stderr := w.stderr ++ r.consoleLine }
      match target.file with
      | none => return
      | some l => appendAt l (w.stamp ++ r.fileLine)

/-- Writes a file that is there already, or beside others. -/
def write (p : Path) (t : Text) : Action Unit := do
  let l ← ask (·.locate p)
  match (← get).place.tree.at? l with
  | some (.folder _) => throw .isFolder
  | _ => putFile l (.text t)

/-- Names from a location on, where two dots take back the name before them. -/
def lexical (here : Location) (names : List Text) : Location :=
  names.foldl (fun l name => if name = ['.', '.'] then l.dropLast else l ++ [name]) here

/-- Where a log file is, which is made if it is not there. -/
def openFile (p : Path) : Action Location := do
  let w ← get
  let path := Path.ofLocation (lexical (if p.isAbsolute then [] else w.place.here) p.parts)
  let l ← ask (·.locate path)
  match w.place.tree.at? l with
  | some (.folder _) => throw .isFolder
  | some _ => return l
  | none =>
    putFile l (.text [])
    return l

/-- Says where to log to. A log file keeps what it holds. -/
def openLog (threshold : Level) (file : Option Path) : Action Unit := do
  let file ← file.mapM openFile
  modify fun w => { w with target := some { threshold, file } }

end Action

end MarkTidy
