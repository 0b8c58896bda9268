import MarkTidy.Text.Basic

/-!
A place in a YAML text: what is left to read, and where the place is. Lines end at a line feed, a
carriage return, a next-line character or a line or paragraph separator.
-/

namespace MarkTidy.Yaml

/-- Why a text has no value. -/
inductive Fault where
  /-- The text breaks a rule of the language, or says something that has no meaning here. -/
  | malformed
  /-- A number, a date or a character code is out of range or is not one. -/
  | unreadable
  /-- A number has no digits at all. -/
  | emptyNumber
  /-- A truth value is none of the known words. -/
  | unknownFlag
  /-- A moment in time is not written as one. -/
  | unreadableMoment
  /-- A number is too large to be converted. -/
  | overflow
deriving DecidableEq, Repr

def isBreak (c : Char) : Bool :=
  c == '\n' || c == '\r' || c.toNat == 0x85 || c.toNat == 0x2028 || c.toNat == 0x2029

def isSpaceOrTab (c : Char) : Bool := c == ' ' || c == '\t'

/-- Characters of names: ASCII letters and digits, dashes and underscores. -/
def isNameChar (c : Char) : Bool :=
  ('0' ≤ c && c ≤ '9') || ('A' ≤ c && c ≤ 'Z') || ('a' ≤ c && c ≤ 'z') || c == '-' || c == '_'

structure Cursor where
  rest : Text
  index : Nat := 0
  line : Nat := 0
  column : Nat := 0
deriving DecidableEq, Repr

namespace Cursor

/-- One character on. A byte order mark takes no column. -/
def next (c : Cursor) : Cursor :=
  match c.rest with
  | [] => c
  | x :: r =>
    if isBreak x && !(x == '\r' && r.head? == some '\n') then ⟨r, c.index + 1, c.line + 1, 0⟩
    else ⟨r, c.index + 1, c.line, if x.toNat = 0xFEFF then c.column else c.column + 1⟩

def advance : Nat → Cursor → Cursor
  | 0, c => c
  | n + 1, c => advance n c.next

def atEnd (c : Cursor) : Bool := c.rest.isEmpty

/-- Whether the character `k` places on is `x`. -/
def sees (c : Cursor) (k : Nat) (x : Char) : Bool := c.rest[k]? == some x

/-- Whether `p` holds of the next character. -/
def meets (c : Cursor) (p : Char → Bool) : Bool := (c.rest.head?.map p).getD false

/-- Whether the text ends, or a break stands, `k` places on. -/
def endsLine (c : Cursor) (k : Nat) : Bool := (c.rest[k]?.map isBreak).getD true

/-- Whether the text or the word ends `k` places on. -/
def endsWord (c : Cursor) (k : Nat) : Bool :=
  (c.rest[k]?.map fun x => isBreak x || isSpaceOrTab x).getD true

/-- Whether a space or the end of the line is next. -/
def endsField (c : Cursor) : Bool := c.endsLine 0 || c.sees 0 ' '

/-- The characters before the first that fails `p`, and the place after them. -/
def span (c : Cursor) (p : Char → Bool) : Text × Cursor :=
  let t := c.rest.takeWhile p
  (t, c.advance t.length)

def skip (c : Cursor) (p : Char → Bool) : Cursor := (c.span p).2

def skipSpaces (c : Cursor) : Cursor := c.skip (· == ' ')

/-- Past the line break that is next, if any. All breaks but the two separators read as line feeds. -/
def lineBreak (c : Cursor) : Text × Cursor :=
  match c.rest with
  | '\r' :: '\n' :: _ => (['\n'], c.advance 2)
  | x :: _ =>
    if isBreak x then
      ([if x.toNat = 0x2028 ∨ x.toNat = 0x2029 then x else '\n'], c.next)
    else ([], c)
  | [] => ([], c)

/-- Whether three dashes or three full stops stand here as a word. -/
def atDocumentMark (c : Cursor) : Bool :=
  (c.rest.take 3 == ['-', '-', '-'] || c.rest.take 3 == ['.', '.', '.']) && c.endsWord 3

/-- Past spaces and a comment to the end of the line, which must hold nothing else. -/
def finishLine (c : Cursor) : Except Fault Cursor :=
  let c := c.skipSpaces
  let c := if c.sees 0 '#' then c.skip (!isBreak ·) else c
  if c.endsLine 0 then .ok c.lineBreak.2 else .error .malformed

end Cursor

end MarkTidy.Yaml
