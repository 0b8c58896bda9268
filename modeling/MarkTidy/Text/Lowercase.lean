import MarkTidy.Text.Basic
import MarkTidy.Text.CaseTable

/-!
Full lower-casing. Two characters do not map one to one: the dotted capital I keeps its dot as a
combining mark, and a capital sigma at the end of a word becomes a final sigma.
-/

namespace MarkTidy.Text

def inRanges (ranges : List (Nat × Nat)) (c : Char) : Bool :=
  ranges.any fun r => r.1 ≤ c.toNat && c.toNat ≤ r.2

def isCased (c : Char) : Bool := inRanges casedRanges c

def isCaseIgnorable (c : Char) : Bool := inRanges caseIgnorableRanges c

def CaseRun.contains (run : CaseRun) (n : Nat) : Bool :=
  run.first ≤ n && n ≤ run.last && (n - run.first) % run.step == 0

/-- The lower-case partner of a single character. -/
def lowerChar (c : Char) : Char :=
  if c.toNat < 0x80 then (if 'A' ≤ c ∧ c ≤ 'Z' then Char.ofNat (c.toNat + 32) else c)
  else match caseRuns.find? (·.contains c.toNat) with
    | some run => Char.ofNat (run.lower + (c.toNat - run.first))
    | none => c

/-- Whether a cased character is the first that casing does not look through. -/
def meetsCased (t : Text) : Bool := ((t.dropWhile isCaseIgnorable).head?.map isCased).getD false

/-- Lower-casing of the rest of a text; `before` is the part already read, last character first. -/
def lowerAfter (before : Text) : Text → Text
  | [] => []
  | c :: r =>
    let small :=
      if c.toNat = 0x130 then ['i', Char.ofNat 0x307]
      else if c.toNat = 0x3A3 then
        [Char.ofNat (if meetsCased before && !meetsCased r then 0x3C2 else 0x3C3)]
      else [lowerChar c]
    small ++ lowerAfter (c :: before) r

def lower (t : Text) : Text := lowerAfter [] t

end MarkTidy.Text
