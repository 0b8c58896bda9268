import MarkTidy.Text.Blank
import MarkTidy.Text.DecimalDigit

/-!
What a line is: a heading, a list item, a blank line, or anything else. Headings win over list
items. Both marks may be indented and must be followed by a blank character.
-/

namespace MarkTidy

inductive LineKind where
  | heading
  | listItem
  | blank
  | other
deriving DecidableEq, Repr

namespace LineKind

open Text

def startsBlank (t : Text) : Bool := (t.head?.map isBlank).getD false

/-- One to six number signs and a blank. -/
def opensHeading (t : Text) : Bool :=
  let signs := t.takeWhile (· = '#')
  1 ≤ signs.length && signs.length ≤ 6 && startsBlank (t.dropWhile (· = '#'))

/-- A dash, star or plus sign and a blank, or a number, a full stop and a blank. -/
def opensListItem : Text → Bool
  | [] => false
  | c :: r =>
    if c = '-' ∨ c = '*' ∨ c = '+' then startsBlank r
    else if isDecimalDigit c then
      match r.dropWhile isDecimalDigit with
      | '.' :: rest => startsBlank rest
      | _ => false
    else false

def ofLine (line : Text) : LineKind :=
  let t := trimLeft line
  if opensHeading t then heading
  else if opensListItem t then listItem
  else if t.isEmpty then blank
  else other

end LineKind

end MarkTidy
