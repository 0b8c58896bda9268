import MarkTidy.Number.Numeral
import MarkTidy.Text.Lowercase
import MarkTidy.Yaml.Cursor
import MarkTidy.Yaml.Tag

/-!
The values that scalars of the standard tags are written for. A tag that stands before a scalar may
ask for a value that its text is not written for.
-/

namespace MarkTidy.Yaml.Literal

open Text

/-- The fault if there is no value. -/
def orFault {α : Type} (f : Fault) : Option α → Except Fault α
  | some a => .ok a
  | none => .error f

/-- The text of a number without its gaps, cut after its sign. A number may not be empty. -/
def signed (t : Text) : Except Fault (Bool × Text) :=
  match t.filter (· != '_') with
  | [] => .error .emptyNumber
  | c :: r => .ok (if c = '-' then (true, r) else if c = '+' then (false, r) else (false, c :: r))

/-- The number whose digits in base sixty are the given ones. -/
def sixties (digits : List Int) : Int := digits.foldl (fun n d => 60 * n + d) 0

/-- An integer: binary after `0b`, hexadecimal after `0x`, octal after another zero, in base sixty
with colons, and decimal otherwise. -/
def integer (t : Text) : Except Fault Int := do
  let (negative, digits) ← signed t
  let size ← match digits with
    | [] => throw .emptyNumber
    | ['0'] => pure 0
    | '0' :: 'b' :: r => orFault .unreadable (Numeral.integer? 2 r)
    | '0' :: 'x' :: r => orFault .unreadable (Numeral.integer? 16 r)
    | '0' :: _ => orFault .unreadable (Numeral.integer? 8 digits)
    | _ =>
      if digits.contains ':' then do
        let parts ← (splitAtChar ':' digits).mapM fun p => orFault .unreadable (Numeral.integer? 10 p)
        pure (sixties parts)
      else orFault .unreadable (Numeral.integer? 10 digits)
  return if negative then -size else size

/-- The weighted sum of digits in base sixty, least digit first. A weight beyond the range of
floating-point numbers is a fault. -/
def decimalSixties : Nat → Float → List Float → Except Fault Float
  | _, sum, [] => .ok sum
  | weight, sum, d :: rest =>
    if Nat.pow 10 308 < weight then .error .overflow
    else decimalSixties (60 * weight) (sum + d * Decimal.toFloat weight 0) rest

/-- A floating-point number, in base sixty with colons, or a word for one that is not finite. -/
def decimal (t : Text) : Except Fault Float := do
  let (negative, digits) ← signed (lower t)
  if digits = ".nan".toList then return Numeral.notANumber
  let size ←
    if digits = ".inf".toList then pure Numeral.infinity
    else if digits.contains ':' then do
      let parts ← (splitAtChar ':' digits).mapM fun p => orFault .unreadable (Numeral.float? p)
      decimalSixties 1 0.0 parts.reverse
    else orFault .unreadable (Numeral.float? digits)
  return if negative then -size else size

def flag (t : Text) : Except Fault Bool :=
  let word := String.ofList (lower t)
  if ["yes", "true", "on"].contains word then .ok true
  else if ["no", "false", "off"].contains word then .ok false
  else .error .unknownFlag

def value (digits : Text) : Nat := (Numeral.digits? 10 digits).getD 0

def isLeapYear (y : Nat) : Bool := y % 4 == 0 && (y % 100 != 0 || y % 400 == 0)

def daysIn (year month : Nat) : Nat :=
  if month = 2 then (if isLeapYear year then 29 else 28)
  else if [4, 6, 9, 11].contains month then 30 else 31

/-- Whether a moment is one of the calendar, less than a day off universal time. -/
def isMoment (w : Written) : Bool :=
  let year := value w.year
  let month := value w.month
  let day := value w.day
  1 ≤ year && 1 ≤ month && month ≤ 12 && 1 ≤ day && day ≤ daysIn year month &&
    (match w.time with
      | none => true
      | some (h, m, s) => value h < 24 && value m < 60 && value s < 60) &&
    (match w.offset with
      | none => true
      | some (h, m) => 60 * value h + value m < 24 * 60)

/-- Checks the text of a moment. -/
def moment (t : Text) : Except Fault Unit := do
  let w ← orFault .unreadableMoment (Written.ofText? (Tag.withoutFeed t))
  if isMoment w then return () else throw .unreadable

/-- The six bits that a character of base 64 stands for. -/
def sixBits? (c : Char) : Option Nat :=
  if 'A' ≤ c ∧ c ≤ 'Z' then some (c.toNat - 65)
  else if 'a' ≤ c ∧ c ≤ 'z' then some (c.toNat - 71)
  else if '0' ≤ c ∧ c ≤ '9' then some (c.toNat + 4)
  else if c = '+' then some 62
  else if c = '/' then some 63
  else none

/-- The characters of base 64 up to the padding that fills up a group of four. Others are passed
over, as are equals signs that fill up nothing. `pads` counts equals signs in a row. -/
def sixBitGroups : Nat → Nat → Text → Option (List Nat)
  | filled, _, [] => if filled = 0 then some [] else none
  | filled, pads, c :: r =>
    if c = '=' then
      if filled < 2 then sixBitGroups filled pads r
      else if 4 ≤ filled + pads + 1 then some []
      else sixBitGroups filled (pads + 1) r
    else
      match sixBits? c with
      | none => sixBitGroups filled pads r
      | some b => (sixBitGroups ((filled + 1) % 4) 0 r).map (b :: ·)

/-- The bytes that runs of six bits hold; bits that fill no byte are dropped. -/
def bytesOf : List Nat → List Nat
  | a :: b :: c :: d :: r =>
    (4 * a + b / 16) :: (b % 16 * 16 + c / 4) :: (c % 4 * 64 + d) :: bytesOf r
  | [a, b, c] => [4 * a + b / 16, b % 16 * 16 + c / 4]
  | [a, b] => [4 * a + b / 16]
  | _ => []

/-- Bytes in base 64. -/
def bytes (t : Text) : Except Fault (List Nat) :=
  if t.any fun c => 0x80 ≤ c.toNat then .error .malformed
  else orFault .malformed ((sixBitGroups 0 0 t).map bytesOf)

end MarkTidy.Yaml.Literal
