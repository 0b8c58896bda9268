import MarkTidy.Text.Basic

/-!
Line-by-line comparison. The longest block of lines that two texts share is kept, and the lines
before it and after it are compared in the same way; of several longest blocks the first one counts.
In a long text, lines that occur often start no block, but may belong to one.
-/

namespace MarkTidy

/-- One line of an edit script. -/
inductive Edit where
  | keep (line : Text)
  | remove (line : Text)
  | add (line : Text)
deriving DecidableEq, Repr

namespace Edit

/-- The line of the old text, if the edit has one. -/
def old? : Edit → Option Text
  | keep l | remove l => some l
  | add _ => none

/-- The line of the new text, if the edit has one. -/
def new? : Edit → Option Text
  | keep l | add l => some l
  | remove _ => none

def isKeep : Edit → Bool
  | keep _ => true
  | _ => false

/-- A block of `size` lines that starts at line `old` of one text and at line `new` of another. -/
structure Block where
  old : Nat
  new : Nat
  size : Nat
deriving DecidableEq, Repr

namespace Block

/-- The better of a block and a run of `size` equal lines that ends at the given lines. -/
def improve (best : Block) (old new size : Nat) : Block :=
  if best.size < size then ⟨old + 1 - size, new + 1 - size, size⟩ else best

/-- How many equal lines end at line `x` and at each line of the new text, given how many end at the
line before `x`. -/
def runsAt (x : Text) (new : List Text) (before : List Nat) : List Nat :=
  List.zipWith (fun y run => if y = x then run + 1 else 0) new (0 :: before)

/-- The first longest block that `best` or one of the runs ending at line `old` gives. -/
def improveAll (best : Block) (old new : Nat) : List Nat → Block
  | [] => best
  | run :: runs => improveAll (best.improve old new run) old (new + 1) runs

/-- The longest block of usable lines, found by a sweep over the old text from line `i` on. -/
def sweep (usable : Text → Bool) (new : List Text) (best : Block) (before : List Nat) (i : Nat) :
    List Text → Block
  | [] => best
  | x :: xs =>
    let runs := if usable x then runsAt x new before else new.map fun _ => 0
    sweep usable new (best.improveAll i 0 runs) runs (i + 1) xs

/-- How many lines two lists share at their start. -/
def sharedLength : List Text → List Text → Nat
  | x :: xs, y :: ys => if x = y then sharedLength xs ys + 1 else 0
  | _, _ => 0

/-- The longest block of usable lines, made longer by all equal lines next to it. -/
def longest (usable : Text → Bool) (old new : List Text) : Block :=
  let b := sweep usable new ⟨0, 0, 0⟩ (new.map fun _ => 0) 0 old
  let up := sharedLength (old.take b.old).reverse (new.take b.new).reverse
  let down := sharedLength (old.drop (b.old + b.size)) (new.drop (b.new + b.size))
  ⟨b.old - up, b.new - up, b.size + up + down⟩

end Block

/-- The edit script of two texts of which at most `fuel` blocks are shared. -/
def compareAtMost (usable : Text → Bool) : Nat → List Text → List Text → List Edit
  | 0, old, new => old.map remove ++ new.map add
  | fuel + 1, old, new =>
    let b := Block.longest usable old new
    if b.size = 0 then old.map remove ++ new.map add
    else
      compareAtMost usable fuel (old.take b.old) (new.take b.new) ++
        ((old.drop b.old).take b.size).map keep ++
          compareAtMost usable fuel (old.drop (b.old + b.size)) (new.drop (b.new + b.size))

/-- Whether a line of the new text may start a block: in a text of 200 lines and more, a line that
makes up over a hundredth of it, and one more, may not. -/
def isUsable (new : List Text) (line : Text) : Bool :=
  new.length < 200 || new.count line ≤ new.length / 100 + 1

/-- The edit script that turns one list of lines into another. -/
def compare (old new : List Text) : List Edit :=
  compareAtMost (isUsable new) old.length old new

end Edit

end MarkTidy
