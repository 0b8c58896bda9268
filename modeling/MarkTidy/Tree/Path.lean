import MarkTidy.Text.Basic

/-!
Paths as they are written. Slashes in a row count as one, and components that are a lone full stop
are dropped. Two dots stay, because what they lead to depends on links.
-/

namespace MarkTidy

open Text

/-- A path: the slashes at its start, if it has any, and its components. -/
structure Path where
  anchor : Text
  parts : List Text
deriving DecidableEq, Repr

namespace Path

/-- Exactly two slashes at the start of a path are kept, more count as one. -/
def anchorOf (t : Text) : Text :=
  match t.takeWhile (· = '/') with
  | [] => []
  | ['/', '/'] => ['/', '/']
  | _ => ['/']

/-- The components of a text that count. -/
def components (t : Text) : List Text :=
  (splitAtChar '/' t).filter fun p => p ≠ [] ∧ p ≠ ['.']

def ofText (t : Text) : Path := ⟨anchorOf t, components t⟩

/-- The path from the root through some folders. -/
def ofLocation (l : List Text) : Path := ⟨['/'], l⟩

def toText (p : Path) : Text :=
  if p.anchor.isEmpty && p.parts.isEmpty then ['.']
  else p.anchor ++ (p.parts.intersperse ['/']).flatten

def isAbsolute (p : Path) : Bool := !p.anchor.isEmpty

/-- The last component. -/
def name (p : Path) : Text := p.parts.getLast?.getD []

def parent (p : Path) : Path := { p with parts := p.parts.dropLast }

def child (p : Path) (name : Text) : Path := { p with parts := p.parts ++ [name] }

/-- The end of a name from its last full stop on. A full stop at either end of a name does not
count. -/
def suffixOf (name : Text) : Text :=
  match breakLast name with
  | some (stem, rest) => if stem.isEmpty || rest.isEmpty then [] else '.' :: rest
  | none => []
where
  /-- What stands before and after the last full stop. -/
  breakLast (t : Text) : Option (Text × Text) :=
    match t.reverse.dropWhile (· ≠ '.') with
    | [] => none
    | _ :: stem => some (stem.reverse, (t.reverse.takeWhile (· ≠ '.')).reverse)

def suffix (p : Path) : Text := suffixOf p.name

/-- The path below a folder, if it is there. -/
def relativeTo? (p : Path) (folder : List Text) : Option Path :=
  if p.anchor = ['/'] ∧ folder.isPrefixOf p.parts then some ⟨[], p.parts.drop folder.length⟩
  else none

/-- A path with a tilde at its start is one in the home folder; the homes of others are not known. -/
def expandHome? (home : List Text) (p : Path) : Option Path :=
  match p.anchor, p.parts with
  | [], first :: rest =>
    if first = ['~'] then some ⟨['/'], home ++ rest⟩
    else if first.head? = some '~' then none
    else some p
  | _, _ => some p

end Path

end MarkTidy
