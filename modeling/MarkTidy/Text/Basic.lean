/-!
Text is a list of Unicode scalar values. This file holds the numerals that messages and tokens
are made of.
-/

namespace MarkTidy

abbrev Text := List Char

namespace Text

/-- The decimal numeral of a natural number. -/
def natural (n : Nat) : Text := Nat.toDigits 10 n

/-- The decimal numeral of an integer, with a minus sign if it is negative. -/
def integer : Int → Text
  | .ofNat n => natural n
  | .negSucc n => '-' :: natural (n + 1)

/-- The numeral of `n` in base 16, padded with zeros to at least `width` digits. -/
def hexadecimal (width n : Nat) : Text :=
  let digits := Nat.toDigits 16 n
  List.replicate (width - digits.length) '0' ++ digits

/-- The value of a hexadecimal digit in either case. -/
def hexDigit? (c : Char) : Option Nat :=
  if '0' ≤ c ∧ c ≤ '9' then some (c.toNat - 48)
  else if 'a' ≤ c ∧ c ≤ 'f' then some (c.toNat - 87)
  else if 'A' ≤ c ∧ c ≤ 'F' then some (c.toNat - 55)
  else none

/-- Text cut at every occurrence of one character, which is dropped. -/
def splitAtChar (sep : Char) : Text → List Text
  | [] => [[]]
  | c :: r =>
    if c = sep then [] :: splitAtChar sep r
    else match splitAtChar sep r with
      | [] => [[c]]
      | part :: parts => (c :: part) :: parts

/-- Lexicographic order by code point, as a test for sorting. -/
def precedes : Text → Text → Bool
  | [], _ => true
  | _ :: _, [] => false
  | c :: s, d :: t => c.toNat < d.toNat || (c == d && precedes s t)

end Text

end MarkTidy
