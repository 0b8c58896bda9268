import MarkTidy.Number.Decimal
import MarkTidy.Text.Blank
import MarkTidy.Text.DecimalDigit

/-!
Reading numerals. Blanks around a numeral are passed over, a sign may stand before it, and its
digits may be those of any script.
-/

namespace MarkTidy.Numeral

open Text

/-- The value of a digit in bases up to sixteen. -/
def digit? (c : Char) : Option Nat := (hexDigit? c).or (decimalDigit? c)

/-- The value of a string of digits in a base; there must be one. -/
def digits? (base : Nat) (t : Text) : Option Nat :=
  if t.isEmpty then none
  else t.foldl (fun n c => do
    let n ← n
    let d ← digit? c
    if d < base then some (base * n + d) else none) (some 0)

/-- A sign, if there is one, and what follows it. -/
def sign (t : Text) : Bool × Text :=
  match t with
  | '-' :: r => (true, r)
  | '+' :: r => (false, r)
  | r => (false, r)

/-- The mark that may stand before the digits of a base. -/
def mark? (base : Nat) : Option Char :=
  if base = 16 then some 'x' else if base = 8 then some 'o' else if base = 2 then some 'b' else none

/-- Drops the mark of a base. -/
def dropMark (base : Nat) (t : Text) : Text :=
  match t with
  | '0' :: c :: r => if some c.toLower = mark? base then r else t
  | t => t

/-- The longest decimal numeral that is read. -/
def longest : Nat := 4300

/-- Reads an integer in a base. -/
def integer? (base : Nat) (t : Text) : Option Int :=
  let (negative, r) := sign (trim t)
  let r := dropMark base r
  if base = 10 && longest < r.length then none
  else (digits? base r).map fun n => if negative then -(n : Int) else n

/-- The exponent of a numeral: nothing, or an `e`, a sign, and digits. -/
def exponent? (t : Text) : Option Int :=
  match t with
  | [] => some 0
  | c :: r =>
    if c = 'e' ∨ c = 'E' then
      let (negative, r) := sign r
      (digits? 10 r).map fun n => if negative then -(n : Int) else n
    else none

/-- Reads a numeral with an optional fraction and an optional exponent, without a sign. -/
def unsigned? (t : Text) : Option Float :=
  let whole := t.takeWhile isDecimalDigit
  let (part, r) := match t.dropWhile isDecimalDigit with
    | '.' :: r => (r.takeWhile isDecimalDigit, r.dropWhile isDecimalDigit)
    | r => ([], r)
  match digits? 10 (whole ++ part), exponent? r with
  | some m, some e => some (Decimal.toFloat m (e - (part.length : Int)))
  | _, _ => none

def infinity : Float := 1.0 / 0.0

def notANumber : Float := 0.0 / 0.0

/-- Reads a floating-point number, or one of the words for those that are not finite. -/
def float? (t : Text) : Option Float :=
  let (negative, r) := sign (trim t)
  let word := String.ofList (r.map Char.toLower)
  let size :=
    if word = "inf" ∨ word = "infinity" then some infinity
    else if word = "nan" then some notANumber
    else unsigned? r
  size.map fun x => if negative then -x else x

end MarkTidy.Numeral
