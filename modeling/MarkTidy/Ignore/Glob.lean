import MarkTidy.Text.Basic

/-!
Glob patterns. A star stands for any text, a slash and a line end included; a question mark for any
character; brackets for a set of characters, with ranges, negated by an exclamation mark. A bracket
that is never closed stands for itself. A range that runs backwards is empty.
-/

namespace MarkTidy

/-- A set of characters given by ranges, or its complement. -/
structure CharSet where
  negated : Bool
  ranges : List (Char × Char)
deriving DecidableEq, Repr

namespace CharSet

def contains (s : CharSet) (c : Char) : Bool :=
  s.ranges.any (fun r => r.1 ≤ c && c ≤ r.2) != s.negated

def all : CharSet := ⟨true, []⟩

def singleton (c : Char) : CharSet := ⟨false, [(c, c)]⟩

/-- Cuts the inside of brackets at the dashes that can mark a range. Neither the first `skip`
characters nor the first two after a cut can be such a dash. -/
def cutAtDashes (fuel skip : Nat) (t : Text) : List Text :=
  match fuel with
  | 0 => [t]
  | fuel + 1 =>
    match (t.drop skip).dropWhile (· ≠ '-') with
    | [] => [t]
    | _ :: rest => (t.take skip ++ (t.drop skip).takeWhile (· ≠ '-')) :: cutAtDashes fuel 2 rest

/-- A dash at the very end marks no range: it goes to the part before it. -/
def keepLastDash : List Text → List Text
  | [t, []] => [t ++ ['-']]
  | [] => []
  | t :: ts => t :: keepLastDash ts

/-- Joins two neighbouring parts without their range if that range runs backwards. -/
def dropBackward : List Text → List Text
  | [] => []
  | t :: ts =>
    match t.getLast?, dropBackward ts with
    | some x, (y :: u) :: us => if y < x then (t.dropLast ++ u) :: us else t :: (y :: u) :: us
    | _, us => t :: us

/-- The ranges between neighbouring parts. -/
def between : List Text → List (Char × Char)
  | t :: u :: ts =>
    match t.getLast?, u.head? with
    | some x, some y => (x, y) :: between (u :: ts)
    | _, _ => between (u :: ts)
  | _ => []

/-- The set that the inside of brackets stands for. -/
def ofInside (t : Text) : CharSet :=
  let skip := if t.head? = some '!' then 2 else 1
  let parts := dropBackward (keepLastDash (cutAtDashes t.length skip t))
  let (negated, parts) := match parts with
    | ('!' :: u) :: us => (true, u :: us)
    | us => (false, us)
  ⟨negated, parts.flatten.map (fun c => (c, c)) ++ between parts⟩

end CharSet

namespace Glob

inductive Piece where
  | star
  | one (set : CharSet)
deriving DecidableEq, Repr

/-- The inside of brackets and what follows them, given what follows the opening bracket. A closing
bracket in first place, or right after the exclamation mark, is part of the inside. -/
def bracket? (t : Text) : Option (Text × Text) :=
  let (start, r) := match t with
    | '!' :: ']' :: r => (['!', ']'], r)
    | '!' :: r => (['!'], r)
    | ']' :: r => ([']'], r)
    | r => ([], r)
  match r.dropWhile (· ≠ ']') with
  | [] => none
  | _ :: rest => some (start ++ r.takeWhile (· ≠ ']'), rest)

/-- The pieces of a pattern, at most `fuel` of them. -/
def piecesAtMost : Nat → Text → List Piece
  | 0, _ => []
  | _, [] => []
  | fuel + 1, c :: r =>
    if c = '*' then .star :: piecesAtMost fuel r
    else if c = '?' then .one .all :: piecesAtMost fuel r
    else if c = '[' then
      match bracket? r with
      | some (inside, rest) => .one (.ofInside inside) :: piecesAtMost fuel rest
      | none => .one (.singleton c) :: piecesAtMost fuel r
    else .one (.singleton c) :: piecesAtMost fuel r

def pieces (pattern : Text) : List Piece := piecesAtMost pattern.length pattern

/-- From which places on the text matches, if `after` says so for one piece less. -/
def takeOne (s : CharSet) : Text → List Bool → List Bool
  | c :: t, _ :: b :: after => (s.contains c && b) :: takeOne s t (b :: after)
  | _, _ => [false]

/-- For each place whether it or a later one is marked. -/
def takeAny : List Bool → List Bool
  | [] => []
  | b :: bs => (b || bs.any id) :: takeAny bs

/-- For each place of the text, its end included, whether the pieces match from there to the end. -/
def matchRow (t : Text) : List Piece → List Bool
  | [] => t.map (fun _ => false) ++ [true]
  | .star :: ps => takeAny (matchRow t ps)
  | .one s :: ps => takeOne s t (matchRow t ps)

def isMatch (pattern t : Text) : Bool := (matchRow t (pieces pattern)).head?.getD false

end Glob

end MarkTidy
