import MarkTidy.Yaml.Cursor

/-!
The text of scalars. A scalar is plain, quoted or a block. Within a plain or a quoted scalar a
single line break reads as a space, and of several breaks the first is dropped. A block keeps its
breaks or folds them in the same way, except around indented lines; its header says what becomes of
the breaks at its end.
-/

namespace MarkTidy.Yaml

/-- A scalar's text, and the place after it. -/
abbrev Reading := Text × Cursor

/-- Breaks in a row after the first one: the first is a space if nothing follows it. -/
def foldBreaks (first more : Text) : Text :=
  if first = ['\n'] then (if more.isEmpty then [' '] else more) else first ++ more

namespace Plain

/-- Spaces and breaks between two lines of a scalar; none if a document mark stands there. -/
def moreBreaks : Nat → Cursor → Option Text × Cursor
  | 0, c => (some [], c)
  | fuel + 1, c =>
    if c.sees 0 ' ' then moreBreaks fuel c.next
    else if c.meets isBreak then
      let (b, c) := c.lineBreak
      if c.atDocumentMark then (none, c)
      else
        let (bs, c) := moreBreaks fuel c
        (bs.map (b ++ ·), c)
    else (some [], c)

/-- What stands between two words of a scalar: its text, whether it holds a break, and the place
after it. An empty text ends the scalar. -/
def gap (c : Cursor) : Text × Bool × Cursor :=
  let (spaces, c) := c.span (· == ' ')
  if c.meets isBreak then
    let (b, c) := c.lineBreak
    if c.atDocumentMark then ([], true, c)
    else
      let (bs, c) := moreBreaks (c.rest.length + 1) c
      (((bs.map (foldBreaks b)).getD []), true, c)
  else (spaces, false, c)

/-- The length of the word at the start of a text. In a flow collection its marks end a word. -/
def wordLength (inFlow : Bool) : Text → Nat
  | [] => 0
  | x :: r =>
    if isBreak x || isSpaceOrTab x then 0
    else if x == ':' && (match r with
        | [] => true
        | y :: _ => isBreak y || isSpaceOrTab y || (inFlow && ",[]\x7b\x7d".toList.contains y)) then 0
    else if inFlow && ",?[]\x7b\x7d".toList.contains x then 0
    else wordLength inFlow r + 1

/-- The words of a plain scalar, joined; whether the scalar is followed by a break; and the place
after it. -/
def words (inFlow : Bool) (indent : Int) : Nat → Cursor → Text × Bool × Cursor
  | 0, c => ([], false, c)
  | fuel + 1, c =>
    let n := wordLength inFlow c.rest
    if c.sees 0 '#' || n == 0 then ([], false, c)
    else
      let word := c.rest.take n
      let (between, broken, c) := gap (c.advance n)
      if between.isEmpty || c.sees 0 '#' || (!inFlow && (c.column : Int) < indent) then
        (word, broken, c)
      else
        let (more, brokenLater, after) := words inFlow indent fuel c
        if more.isEmpty then (word, broken, after) else (word ++ between ++ more, brokenLater, after)

end Plain

namespace Quoted

/-- Escapes of one character. -/
def escapes : List (Char × Nat) := [
  ('0', 0x00), ('a', 0x07), ('b', 0x08), ('t', 0x09), ('\t', 0x09), ('n', 0x0A), ('v', 0x0B),
  ('f', 0x0C), ('r', 0x0D), ('e', 0x1B), (' ', 0x20), ('"', 0x22), ('\\', 0x5C), ('/', 0x2F),
  ('N', 0x85), ('_', 0xA0), ('L', 0x2028), ('P', 0x2029)]

/-- Escapes of a character code, with the number of hexadecimal digits. -/
def codeEscapes : List (Char × Nat) := [('x', 2), ('u', 4), ('U', 8)]

/-- The number that hexadecimal digits spell. -/
def hexNumber? (digits : Text) : Option Nat :=
  digits.foldl (fun n c => do return 16 * (← n) + (← Text.hexDigit? c)) (some 0)

/-- The character of a code. -/
def charOfCode (code : Nat) : Except Fault Char :=
  if code ≤ 0x10FFFF then .ok (if code.isValidChar then Char.ofNat code else Char.ofNat 0xFFFD)
  else if code < 0x80000000 then .error .unreadable
  else .error .overflow

/-- Breaks and the blanks around them. A document mark may not stand there. -/
def breaks : Nat → Cursor → Except Fault Reading
  | 0, c => .ok ([], c)
  | fuel + 1, c =>
    if c.atDocumentMark then .error .malformed
    else
      let c := c.skip isSpaceOrTab
      if c.meets isBreak then do
        let (b, c) := c.lineBreak
        let (bs, c) ← breaks fuel c
        return (b ++ bs, c)
      else .ok ([], c)

/-- The escape after a backslash. -/
def escape (c : Cursor) : Except Fault Reading :=
  match c.rest with
  | [] => .error .malformed
  | x :: _ =>
    match escapes.lookup x, codeEscapes.lookup x with
    | some code, _ => .ok ([Char.ofNat code], c.next)
    | none, some n => do
      let digits := c.next.rest.take n
      if digits.length < n then throw .malformed
      let some code := hexNumber? digits | throw .malformed
      return ([← charOfCode code], c.next.advance n)
    | none, none =>
      if isBreak x then breaks (c.rest.length + 1) c.lineBreak.2 else .error .malformed

/-- Whether a character is read as it stands. -/
def isOrdinary (c : Char) : Bool :=
  !(c == '\'' || c == '"' || c == '\\' || isSpaceOrTab c || isBreak c)

/-- The text up to the closing quote or the next blank. -/
def word (double : Bool) : Nat → Cursor → Except Fault Reading
  | 0, c => .ok ([], c)
  | fuel + 1, c => do
    let (t, c) := c.span isOrdinary
    if !double && c.sees 0 '\'' && c.sees 1 '\'' then
      let (more, c) ← word double fuel (c.advance 2)
      return (t ++ '\'' :: more, c)
    else if (double && c.sees 0 '\'') || (!double && (c.sees 0 '"' || c.sees 0 '\\')) then
      let (more, after) ← word double fuel c.next
      return (t ++ c.rest.take 1 ++ more, after)
    else if double && c.sees 0 '\\' then
      let (x, c) ← escape c.next
      let (more, c) ← word double fuel c
      return (t ++ x ++ more, c)
    else return (t, c)

/-- What stands between two words. -/
def gap (c : Cursor) : Except Fault Reading := do
  let (blanks, c) := c.span isSpaceOrTab
  if c.atEnd then throw .malformed
  if c.meets isBreak then
    let (b, c) := c.lineBreak
    let (bs, c) ← breaks (c.rest.length + 1) c
    return (foldBreaks b bs, c)
  else return (blanks, c)

/-- The words up to the closing quote, and the place after it. -/
def words (double : Bool) : Nat → Cursor → Except Fault Reading
  | 0, _ => .error .malformed
  | fuel + 1, c => do
    let (t, c) ← word double (c.rest.length + 1) c
    if c.sees 0 (if double then '"' else '\'') then return (t, c.next)
    else
      let (between, c) ← gap c
      let (more, c) ← words double fuel c
      return (t ++ between ++ more, c)

end Quoted

namespace Block

/-- What becomes of the breaks at the end of a block. -/
inductive Chomping where
  | clip
  | strip
  | keep
deriving DecidableEq, Repr

structure Header where
  chomping : Chomping
  increment : Option Nat
deriving DecidableEq, Repr

def chomping? (c : Cursor) : Option Chomping :=
  if c.sees 0 '+' then some .keep else if c.sees 0 '-' then some .strip else none

def digit? (c : Cursor) : Option Nat :=
  c.rest.head?.bind fun x => if '0' ≤ x ∧ x ≤ '9' then some (x.toNat - 48) else none

/-- The header: how to chomp and how far to indent, in either order, then the end of the line. -/
def header (c : Cursor) : Except Fault (Header × Cursor) := do
  let (h, c) : Header × Cursor :=
    match chomping? c, digit? c with
    | some ch, _ =>
      match digit? c.next with
      | some n => (⟨ch, some n⟩, c.advance 2)
      | none => (⟨ch, none⟩, c.next)
    | none, some n =>
      match chomping? c.next with
      | some ch => (⟨ch, some n⟩, c.advance 2)
      | none => (⟨.clip, some n⟩, c.next)
    | none, none => (⟨.clip, none⟩, c)
  if h.increment = some 0 || !c.endsField then throw .malformed
  return (h, ← c.finishLine)

/-- The empty lines at the start of a block without a stated indentation, and the widest of them. -/
def leading : Nat → Nat → Cursor → Text × Nat × Cursor
  | 0, widest, c => ([], widest, c)
  | fuel + 1, widest, c =>
    if c.sees 0 ' ' then leading fuel (max widest c.next.column) c.next
    else if c.meets isBreak then
      let (b, c) := c.lineBreak
      let (bs, widest, c) := leading fuel widest c
      (b ++ bs, widest, c)
    else ([], widest, c)

/-- Past at most as many spaces as reach the given column. -/
def skipIndent (indent : Nat) (c : Cursor) : Cursor :=
  c.advance (min (c.rest.takeWhile (· == ' ')).length (indent - c.column))

/-- The empty lines before the next line of a block. -/
def breaks (indent : Nat) : Nat → Cursor → Reading
  | 0, c => ([], c)
  | fuel + 1, c =>
    let c := skipIndent indent c
    if c.meets isBreak then
      let (b, c) := c.lineBreak
      let (bs, c) := breaks indent fuel c
      (b ++ bs, c)
    else ([], c)

/-- The lines of a block, with the break after the last one and the empty lines after that. -/
structure Body where
  text : Text
  lastBreak : Text
  trailing : Text
  after : Cursor

/-- Whether a line of the block starts here. -/
def startsLine (indent : Nat) (c : Cursor) : Bool := c.column == indent && !c.atEnd

def lines (folded : Bool) (indent : Nat) : Nat → Text → Text → Cursor → Body
  | 0, lastBreak, pending, c => ⟨[], lastBreak, pending, c⟩
  | fuel + 1, lastBreak, pending, c =>
    if startsLine indent c then
      let indented := c.meets isSpaceOrTab
      let (line, c) := c.span (!isBreak ·)
      let (b, c) := c.lineBreak
      let (bs, c) := breaks indent (c.rest.length + 1) c
      let joint :=
        if !startsLine indent c then []
        else if folded && b == ['\n'] && !indented && !c.meets isSpaceOrTab then
          (if bs.isEmpty then [' '] else [])
        else b
      let body := lines folded indent fuel b bs c
      { body with text := pending ++ line ++ joint ++ body.text }
    else ⟨[], lastBreak, pending, c⟩

/-- A block scalar after its mark, in a collection indented by `indent`. -/
def scalar (folded : Bool) (indent : Int) (c : Cursor) : Except Fault Reading := do
  let (h, c) ← header c
  let least := (max (indent + 1) 1).toNat
  let fuel := c.rest.length + 1
  let body :=
    match h.increment with
    | some n =>
      let column := least + n - 1
      let (bs, c) := breaks column fuel c
      lines folded column fuel [] bs c
    | none =>
      let (bs, widest, c) := leading fuel 0 c
      lines folded (max least widest) fuel [] bs c
  let tail := match h.chomping with
    | .strip => []
    | .clip => body.lastBreak
    | .keep => body.lastBreak ++ body.trailing
  return (body.text ++ tail, body.after)

end Block

end MarkTidy.Yaml
