import MarkTidy.Text.Basic

/-!
Decimal text of floating-point numbers. A number is written with the fewest digits that read back as
the same number, the nearest such digits if there is a choice. From 0.0001 up to, but not including,
ten to the sixteenth it is written in positions, with at least one digit after the point; all else
has an exponent of at least two digits.
-/

namespace MarkTidy

open Text

namespace Decimal

/-- A nonnegative number, as a fraction. -/
structure Ratio where
  num : Nat
  den : Nat
deriving DecidableEq, Repr

namespace Ratio

/-- The number `m * b ^ e`. -/
def scaled (b m : Nat) (e : Int) : Ratio :=
  if 0 ≤ e then ⟨m * b.pow e.toNat, 1⟩ else ⟨m, b.pow (-e).toNat⟩

def less (x y : Ratio) : Bool := x.num * y.den < y.num * x.den

/-- The distance of two numbers. -/
def distance (x y : Ratio) : Ratio :=
  let a := x.num * y.den
  let b := y.num * x.den
  ⟨if a ≤ b then b - a else a - b, x.den * y.den⟩

/-- The exponent of the leading decimal digit of a number that is not zero. -/
def leadingExponent (x : Ratio) : Int :=
  if x.den ≤ x.num then ((natural (x.num / x.den)).length : Int) - 1
  else
    -- the first power of ten that lifts the number to one or more
    let guess := (natural (x.den / x.num)).length
    if x.den ≤ x.num * Nat.pow 10 (guess - 1) then 1 - (guess : Int) else -(guess : Int)

end Ratio

/-- A finite number `m * 2 ^ q`, with the numbers halfway to its neighbours. -/
structure Binary where
  value : Ratio
  low : Ratio
  high : Ratio
  closed : Bool

/-- The number of fractions that an encoding tells apart. -/
def fractions : Nat := 0x10000000000000

/-- The number of exponents that an encoding tells apart; the last is for what is not finite. -/
def exponents : Nat := 0x800

/-- A finite number that is not zero, from the fields of its encoding. -/
def Binary.ofFields (exponent fraction : Nat) : Binary :=
  let m := if exponent = 0 then fraction else fraction + fractions
  let q : Int := (max exponent 1 : Nat) - 1075
  { value := .scaled 2 m q
    low := if fraction = 0 ∧ 1 < exponent then .scaled 2 (4 * m - 1) (q - 2) else .scaled 2 (2 * m - 1) (q - 1)
    high := .scaled 2 (2 * m + 1) (q - 1)
    closed := m % 2 = 0 }

/-- Whether a decimal reads back as the number. -/
def Binary.holds (b : Binary) (x : Ratio) : Bool :=
  if b.closed then !x.less b.low && !b.high.less x else b.low.less x && x.less b.high

/-- Digits, and the exponent of the first of them. -/
structure Digits where
  digits : Nat
  exponent : Int
deriving DecidableEq, Repr

/-- The decimals of `n` digits next to the number that read back, the nearest first; of two equally
near the even one. -/
def Binary.candidate? (b : Binary) (lead : Int) (n : Nat) : Option Nat :=
  let unit := lead - (n : Int) + 1
  let step := Ratio.scaled 10 1 unit
  let below := (b.value.num * step.den) / (b.value.den * step.num)
  let point (k : Nat) : Ratio := .scaled 10 k unit
  let lowFits := b.holds (point below)
  let highFits := b.holds (point (below + 1))
  if lowFits && highFits then
    let d := b.value.distance (point below)
    let e := b.value.distance (point (below + 1))
    some (if d.less e then below else if e.less d then below + 1
      else if below % 2 = 0 then below else below + 1)
  else if lowFits then some below
  else if highFits then some (below + 1)
  else none

/-- The shortest digits of a number; seventeen always suffice. -/
def Binary.shortest (b : Binary) : Digits :=
  let lead := b.value.leadingExponent
  let found := (List.range 17).findSome? fun i => (b.candidate? lead (i + 1)).map (i + 1, ·)
  match found with
  | none => ⟨0, 0⟩
  | some (n, k) => if k = Nat.pow 10 n then ⟨1, lead + 1⟩ else ⟨k, lead⟩

/-- The digits in positions or with an exponent. -/
def Digits.render (d : Digits) : Text :=
  let t := natural d.digits
  let e := d.exponent
  if -5 < e ∧ e < 16 then
    if e < 0 then ['0', '.'] ++ List.replicate (-e - 1).toNat '0' ++ t
    else
      let k := e.toNat + 1
      let whole := t.take k ++ List.replicate (k - t.length) '0'
      let part := t.drop k
      whole ++ '.' :: (if part.isEmpty then ['0'] else part)
  else
    let power := natural e.natAbs
    let sign := if e < 0 then '-' else '+'
    t.take 1 ++ (if t.length ≤ 1 then [] else '.' :: t.drop 1) ++
      ['e', sign] ++ List.replicate (2 - power.length) '0' ++ power

end Decimal

/-- The text of a floating-point number. -/
def Decimal.ofFloat (x : Float) : Text :=
  let bits := x.toBits.toNat
  let sign := if bits / (exponents * fractions) = 1 then ['-'] else []
  let exponent := bits / fractions % exponents
  let fraction := bits % fractions
  if exponent + 1 = exponents then (if fraction = 0 then sign ++ "inf".toList else "nan".toList)
  else if exponent = 0 ∧ fraction = 0 then sign ++ "0.0".toList
  else sign ++ (Binary.ofFields exponent fraction).shortest.render

/-- The floating-point number nearest to `m * 10 ^ e`. Numbers beyond the range are infinite or
zero, and their powers of ten are not computed. -/
def Decimal.toFloat (m : Nat) (e : Int) : Float :=
  let size := (natural m).length + e
  if m = 0 ∨ size < -330 then 0.0
  else if 330 < size then 1.0 / 0.0
  else if 0 ≤ e then Float.ofScientific m false e.toNat
  else Float.ofScientific m true (-e).toNat

end MarkTidy
