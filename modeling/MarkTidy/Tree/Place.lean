import MarkTidy.Failure
import MarkTidy.Text.Lines
import MarkTidy.Tree.Lookup

/-!
What can be asked about the files around a command: the tree, the folder it runs in, and the home
folder. To ask whether something is there, an unusable path or one without an end is no obstacle; to
open it, it is.
-/

namespace MarkTidy

structure Place where
  tree : Tree
  here : Location
  home : Location

namespace Place

def isUsable (p : Path) : Bool := p.parts.all fun part => !part.contains (Char.ofNat 0)

/-- What is at the end of a path, if there is anything. -/
def find? (w : Place) (p : Path) : Except Failure (Option Tree) :=
  if !isUsable p then .ok none
  else
    match w.tree.locate w.here p with
    | .ok l => .ok (w.tree.at? l)
    | .error .nameTooLong => .error .nameTooLong
    | .error _ => .ok none

def holds (w : Place) (p : Path) : Except Failure Bool := return (← w.find? p).isSome

def isFolder (w : Place) (p : Path) : Except Failure Bool :=
  return match ← w.find? p with
    | some (.folder _) => true
    | _ => false

def isFile (w : Place) (p : Path) : Except Failure Bool :=
  return match ← w.find? p with
    | some (.file _) => true
    | _ => false

/-- The location that a path writes out without links and two dots. Links that lead to each other
without end are a failure. -/
def resolve (w : Place) (p : Path) : Except Failure Location := do
  if !isUsable p then throw .unusablePath
  let l := w.tree.canonical w.here p
  match w.tree.locate [] (.ofLocation l) with
  | .error .tooManyLinks => throw (.circularLink (Path.ofLocation l).toText)
  | _ => return l

/-- Where a file is that is to be opened; it need not be there yet. -/
def locate (w : Place) (p : Path) : Except Failure Location := do
  if !isUsable p then throw .unusablePath
  match w.tree.locate w.here p with
  | .ok l => return l
  | .error .missing => throw (.missingFile p.toText)
  | .error .notFolder => throw .notFolder
  | .error .tooManyLinks => throw .tooManyLinks
  | .error .nameTooLong => throw .nameTooLong

/-- The content of a file. -/
def content (w : Place) (p : Path) : Except Failure Content := do
  match w.tree.at? (← w.locate p) with
  | some (.file c) => return c
  | some (.folder _) => throw .isFolder
  | _ => throw (.missingFile p.toText)

/-- The text of a file, as it is. -/
def text (w : Place) (p : Path) : Except Failure Text := do
  match ← w.content p with
  | .text t => return t
  | .binary _ => throw .notText

/-- A path with the home folder in place of a tilde. -/
def expandHome (w : Place) (p : Path) : Except Failure Path :=
  match p.expandHome? w.home with
  | some q => .ok q
  | none => .error .homeUnknown

end Place

end MarkTidy
