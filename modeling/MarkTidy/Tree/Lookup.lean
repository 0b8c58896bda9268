import MarkTidy.Tree.Basic
import MarkTidy.Tree.Path

/-!
Where paths lead. To open what a path names, links on the way are followed, at most forty of them, and
two dots lead back from where one has come to. To write a path without links, two dots take back
the component before them, whether it is there or not, and a link that leads to itself stays.
-/

namespace MarkTidy

open Text

namespace Tree

/-- Why nothing can be at the end of a path. -/
inductive Obstacle where
  | missing
  | notFolder
  | tooManyLinks
  | nameTooLong
deriving DecidableEq, Repr

/-- How far one comes without following a link: to the end, where there may be nothing yet, or to a
link, with its folder and the names that are left. -/
inductive Stop where
  | arrived (location : Location)
  | atLink (base : Location) (target : Text) (rest : List Text)
deriving Repr

/-- The length of a name in bytes. -/
def nameSize : Text → Nat
  | [] => 0
  | c :: r => c.utf8Size + nameSize r

def longestName : Nat := 255

/-- Goes along names from a folder. -/
def walk (root : Tree) : Location → List Text → Except Obstacle Stop
  | here, [] => .ok (.arrived here)
  | here, name :: rest =>
    match root.at? here with
    | some (.folder entries) =>
      if name.isEmpty || name = ['.'] then walk root here rest
      else if name = ['.', '.'] then walk root here.dropLast rest
      else if longestName < nameSize name then .error .nameTooLong
      else
        match entries.lookup name with
        | some (.link target) => .ok (.atLink here target rest)
        | some _ => walk root (here ++ [name]) rest
        | none => if rest.isEmpty then .ok (.arrived (here ++ [name])) else .error .missing
    | _ => .error .notFolder

/-- Where the target of a link starts from. -/
def linkBase (base : Location) (target : Text) : Location :=
  if target.head? = some '/' then [] else base

/-- Goes along names from a folder, through at most so many links. -/
def follow (root : Tree) : Nat → Location → List Text → Except Obstacle Location
  | hops, here, names => do
    match ← walk root here names with
    | .arrived l => return l
    | .atLink base target rest =>
      match hops with
      | 0 => throw .tooManyLinks
      | hops + 1 => follow root hops (linkBase base target) (splitAtChar '/' target ++ rest)

def mostLinks : Nat := 40

/-- Where a path leads from a folder. There may be nothing yet. -/
def locate (root : Tree) (here : Location) (p : Path) : Except Obstacle Location :=
  follow root mostLinks (if p.isAbsolute then [] else here) p.parts

/-- Writes names without links from a location on; `underway` are the links that are being followed. Once
one of them comes again, the names after it are added as they are. -/
def canonicalFrom (root : Tree) : Nat → List Location → Location × Bool → List Text → Location × Bool
  | 0, _, start, _ => start
  | depth + 1, underway, start, names =>
    names.foldl (fun (here, sound) name =>
      if name.isEmpty || name = ['.'] then (here, sound)
      else if name = ['.', '.'] then (here.dropLast, sound)
      else
        let next := here ++ [name]
        match sound, root.at? next with
        | true, some (.link target) =>
          if underway.contains next then (next, false)
          else
            canonicalFrom root depth (next :: underway) (linkBase here target, true)
              (splitAtChar '/' target)
        | _, _ => (next, sound)) start

/-- The location that a path without links writes out. -/
def canonical (root : Tree) (here : Location) (p : Path) : Location :=
  (canonicalFrom root (root.links + 1) [] (if p.isAbsolute then [] else here, true) p.parts).1

end Tree

end MarkTidy
