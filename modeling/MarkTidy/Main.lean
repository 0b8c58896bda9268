import MarkTidy.Command.Run
import Std.Time.Format

/-!
The program. It reads the folders that the command line names into a tree, carries the command out
on the tree, and writes back the files that have changed.
-/

namespace MarkTidy.Main

open MarkTidy

def namesOf (path : String) : Location := (Path.ofText path.toList).parts

def pathOf (l : Location) : String := String.ofList (Path.ofLocation l).toText

def contentOf (bytes : ByteArray) : Content :=
  match String.fromUTF8? bytes with
  | some s => .text s.toList
  | none => .binary bytes.toList

def bytesOf : Content → ByteArray
  | .text t => (String.ofList t).toUTF8
  | .binary bytes => bytes.toByteArray

/-- Where a path really leads, if it leads anywhere. -/
def real? (path : String) : IO (Option Location) := do
  try return some (namesOf (← IO.FS.realPath path).toString)
  catch _ => return none

def readContent (path : String) : IO Content := return contentOf (← IO.FS.readBinFile path)

/-- Puts what a link leads to into a tree, as far as a run can ask for it. -/
def putTarget (t : Tree) (l : Location) : IO Tree := do
  if (t.at? l).isSome then return t
  let path := pathOf l
  try return t.put l (.file (← readContent path))
  catch _ => return t.put l (.folder [])

/-- Reads what is at a location into a tree. -/
partial def load (t : Tree) (l : Location) : IO Tree := do
  let path := pathOf l
  match (← IO.FS.realPath path).toString == path with
  | false => return t
  | true =>
    let entries ← try (← IO.FS.realPath path).readDir catch _ =>
      return t.put l (.file (← readContent path))
    let mut t := if (t.at? l).isSome then t else t.put l (.folder [])
    for e in entries do
      let here := l ++ [e.fileName.toList]
      match (← e.path.symlinkMetadata).type with
      | .dir =>
        if Scan.excludedFolders.contains e.fileName then t := t.put here (.folder [])
        else t ← load t here
      | .symlink =>
        match ← real? (pathOf here) with
        | none => t := t.put here (.link "missing link target".toList)
        | some target =>
          t := t.put here (.link (Path.ofLocation target).toText)
          t ← putTarget t target
      | .file => t := t.put here (.file (← readContent (pathOf here)))
      | .other => t := t
    return t

/-- Reads the files of some names in a folder, if they are there. -/
def loadNamed (t : Tree) (folder : Location) (names : List Text) : IO Tree := do
  let mut t := t
  for n in names do
    let l := folder ++ [n]
    if (t.at? l).isNone then
      try t := t.put l (.file (← readContent (pathOf l))) catch _ => t := t
  return t

/-- A path as it is looked up outside. -/
def outside (home : Location) (p : Path) : String := String.ofList ((p.expandHome? home).getD p).toText

/-- Reads what a command can ask for. -/
def loadFor (i : Command.Invocation) (here home : Location) : IO Tree := do
  let mut t : Tree := (Tree.folder []).put here (.folder [])
  for p in i.paths do
    match ← real? (outside home (Path.ofText p)) with
    | none => t := t
    | some l =>
      if ← (← IO.FS.realPath (pathOf l)).isDir then t ← load t l
      else
        t := t.put l (.file (← readContent (pathOf l)))
        t ← loadNamed t l.dropLast [Config.fileName]
      -- the path may lead through links
      let asked := ((Path.ofText p).expandHome? home).getD (Path.ofText p)
      let written := if asked.isAbsolute then asked.parts else here ++ asked.parts
      if !(written.contains ['.', '.']) && (t.at? written).isNone then
        t := t.put written (.link (Path.ofLocation l).toText)
  match i.logFile with
  | none => return t
  | some p =>
    let path := Path.ofText p
    match ← real? (String.ofList path.parent.toText) with
    | none => return t
    | some folder =>
      loadNamed (if (t.at? folder).isSome then t else t.put folder (.folder [])) folder [path.name]

/-- The files of a tree. -/
partial def files (here : Location) : Tree → List (Location × Content)
  | .file c => [(here, c)]
  | .link _ => []
  | .folder entries => entries.flatMap fun e => files (here ++ [e.1]) e.2

/-- Writes the files that are new or have changed. -/
def store (before after : Tree) : IO Unit := do
  for (l, c) in files [] after do
    let old := match before.at? l with
      | some (.file old) => some old
      | _ => none
    if old ≠ some c then IO.FS.writeBinFile (pathOf l) (bytesOf c)

def stamp : IO Text := do
  let now ← Std.Time.PlainDateTime.now
  return (now.format "uuuu-MM-dd HH:mm:ss,SSS ").toList

/-- Carries out a command line and gives its exit code. -/
def run (args : List Text) : IO UInt32 := do
  let here := namesOf (← IO.currentDir).toString
  let home := namesOf ((← IO.getEnv "HOME").getD "/")
  let tree ← match Command.Invocation.ofArgs args with
    | .ok i => loadFor i here home
    | .error _ => pure (Tree.folder [])
  let (report, w) := Command.run args { place := ⟨tree, here, home⟩, stamp := ← stamp }
  store tree w.place.tree
  IO.print (String.ofList report.stdout)
  IO.eprint (String.ofList report.stderr)
  match report.exit, report.failure with
  | some code, _ => return UInt32.ofNat code
  | none, some f =>
    IO.eprintln (String.ofList f.message)
    return 1
  | none, none => return 1

end MarkTidy.Main

def main (args : List String) : IO UInt32 := MarkTidy.Main.run (args.map String.toList)
