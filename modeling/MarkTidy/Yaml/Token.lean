import MarkTidy.Yaml.Scalar

/-!
Tokens of YAML. In block context the indentation of lines opens and closes collections, and a key
shows only by the colon after it: where one may have begun is kept in mind until the colon comes or
the line ends.
-/

namespace MarkTidy.Yaml

inductive Token where
  | version (major : Nat)
  | tagHandle (handle stem : Text)
  | reservedDirective
  | documentStart
  | documentEnd
  | blockSequenceStart
  | blockMappingStart
  | blockEnd
  | flowSequenceStart
  | flowSequenceEnd
  | flowMappingStart
  | flowMappingEnd
  | flowEntry
  | blockEntry
  | key
  | value
  | alias (name : Text)
  | anchor (name : Text)
  | tag (handle : Option Text) (suffix : Text)
  | scalar (text : Text) (plain : Bool)
deriving DecidableEq, Repr

namespace Token

/-- Characters of a tag that stand for themselves. -/
def isTagChar (c : Char) : Bool :=
  isNameChar c || ";/?:@&=+$,.!~*'()[]".toList.contains c

/-- The bytes of a run of percent escapes. -/
def escapedBytes : Nat → Cursor → Except Fault (List Nat × Cursor)
  | 0, c => .ok ([], c)
  | fuel + 1, c => do
    if !c.sees 0 '%' then return ([], c)
    let some high := (c.rest[1]?).bind Text.hexDigit? | throw .malformed
    let some low := (c.rest[2]?).bind Text.hexDigit? | throw .malformed
    let (bytes, c) ← escapedBytes fuel (c.advance 3)
    return ((16 * high + low) :: bytes, c)

/-- The characters that bytes encode in UTF-8. -/
def decodeBytes (bytes : List Nat) : Except Fault Text :=
  match String.fromUTF8? (bytes.map UInt8.ofNat).toByteArray with
  | some s => .ok s.toList
  | none => .error .malformed

/-- The body of a tag; it may not be empty. -/
def tagBodyFrom : Nat → Cursor → Except Fault Reading
  | 0, c => .ok ([], c)
  | fuel + 1, c => do
    let (t, c) := c.span isTagChar
    if c.sees 0 '%' then
      let (bytes, c) ← escapedBytes (c.rest.length + 1) c
      let (more, c) ← tagBodyFrom fuel c
      return (t ++ (← decodeBytes bytes) ++ more, c)
    else return (t, c)

def tagBody (c : Cursor) : Except Fault Reading := do
  if !(c.meets isTagChar || c.sees 0 '%') then throw .malformed
  tagBodyFrom (c.rest.length + 1) c

/-- A tag handle: an exclamation mark, or a name between two of them. -/
def handle (c : Cursor) : Except Fault Reading := do
  if !c.sees 0 '!' then throw .malformed
  if c.sees 1 ' ' then return (['!'], c.next)
  let (name, after) := c.next.span isNameChar
  if !after.sees 0 '!' then throw .malformed
  return ('!' :: name ++ ['!'], after.next)

/-- A tag in angle brackets, an exclamation mark alone, or a body after a handle. -/
def readTag (c : Cursor) : Except Fault (Token × Cursor) := do
  let (token, c) ← if c.sees 1 '<' then do
      let (body, c) ← tagBody (c.advance 2)
      if !c.sees 0 '>' then throw .malformed
      pure (Token.tag none body, c.next)
    else if c.endsWord 1 then pure (Token.tag none ['!'], c.next)
    else do
      let field := c.rest.drop 1 |>.takeWhile fun x => !(isBreak x || x == ' ')
      let (h, c) ← if field.contains '!' then handle c else pure (['!'], c.next)
      let (body, c) ← tagBody c
      pure (Token.tag (some h) body, c)
  if c.endsField then return (token, c) else throw .malformed

/-- The name of an anchor or an alias after its mark. -/
def readName (c : Cursor) : Except Fault Reading := do
  let (name, c) := c.next.span isNameChar
  if name.isEmpty then throw .malformed
  if c.endsWord 0 || c.meets ("?:,]\x7d%@\x60".toList.contains ·) then return (name, c)
  throw .malformed

def readNumber (c : Cursor) : Except Fault (Nat × Cursor) := do
  let (digits, c) := c.span fun x => '0' ≤ x && x ≤ '9'
  if digits.isEmpty then throw .malformed
  return (digits.foldl (fun n d => 10 * n + (d.toNat - 48)) 0, c)

/-- A directive, to the end of its line. -/
def readDirective (c : Cursor) : Except Fault (Token × Cursor) := do
  let (name, c) := c.next.span isNameChar
  if name.isEmpty || !c.endsField then throw .malformed
  let (token, c) ← if name = "YAML".toList then do
      let (major, c) ← readNumber c.skipSpaces
      if !c.sees 0 '.' then throw .malformed
      let (_, c) ← readNumber c.next
      if !c.endsField then throw .malformed
      pure (Token.version major, c)
    else if name = "TAG".toList then do
      let (h, c) ← handle c.skipSpaces
      if !c.sees 0 ' ' then throw .malformed
      let (stem, c) ← tagBody c.skipSpaces
      if !c.endsField then throw .malformed
      pure (Token.tagHandle h stem, c)
    else pure (Token.reservedDirective, c.skip (!isBreak ·))
  return (token, ← c.finishLine)

end Token

/-- A place where a key may have begun: the number of its first token, and whether nothing but a key
can stand there. -/
structure KeyPlace where
  level : Nat
  number : Nat
  required : Bool
  index : Nat
  line : Nat
  column : Nat
deriving DecidableEq, Repr

/-- A text read in part: the tokens so far, last token first, the depth of flow collections, the
indentation of the open block collections, whether a key may begin here, and the places where keys
may have begun. -/
structure Tokenizer where
  cursor : Cursor
  reversed : List Token := []
  flow : Nat := 0
  indent : Int := -1
  indents : List Int := []
  keyAllowed : Bool := true
  places : List KeyPlace := []
deriving Repr

namespace Tokenizer

def push (s : Tokenizer) (t : Token) : Tokenizer := { s with reversed := t :: s.reversed }

/-- Puts a token before the token with the given number. -/
def insert (s : Tokenizer) (number : Nat) (t : Token) : Tokenizer :=
  { s with reversed := s.reversed.insertIdx (s.reversed.length - number) t }

/-- Whether a key can no longer have begun at a place: it has not come on one line, or not within
1024 characters. -/
def isStale (s : Tokenizer) (p : KeyPlace) : Bool :=
  p.line != s.cursor.line || s.cursor.index - p.index > 1024

/-- Forgets the places of keys that have not come in time. -/
def forgetStale (s : Tokenizer) : Except Fault Tokenizer :=
  if s.places.any fun p => s.isStale p && p.required then .error .malformed
  else .ok { s with places := s.places.filter (!s.isStale ·) }

/-- Forgets the place on the current level. -/
def forgetPlace (s : Tokenizer) : Except Fault Tokenizer :=
  if s.places.any fun p => p.level == s.flow && p.required then .error .malformed
  else .ok { s with places := s.places.filter (·.level != s.flow) }

/-- Keeps in mind that a key may begin here. -/
def markPlace (s : Tokenizer) : Except Fault Tokenizer := do
  if !s.keyAllowed then return s
  let c := s.cursor
  let place : KeyPlace :=
    ⟨s.flow, s.reversed.length, s.flow == 0 && s.indent == c.column, c.index, c.line, c.column⟩
  let s ← s.forgetPlace
  return { s with places := place :: s.places }

/-- Closes the block collections that are indented by more than `column`. -/
def unwindTo (column : Int) : List Int → Tokenizer → Tokenizer
  | [], s => s
  | outer :: rest, s =>
    if s.flow == 0 && column < s.indent then
      unwindTo column rest { s.push .blockEnd with indent := outer, indents := rest }
    else s

def unwind (s : Tokenizer) (column : Int) : Tokenizer := unwindTo column s.indents s

/-- Opens a block collection at `column`, unless one is open there. -/
def openBlock (s : Tokenizer) (column : Nat) (addToken : Tokenizer → Tokenizer) : Tokenizer :=
  if s.indent < column then
    addToken { s with indents := s.indent :: s.indents, indent := column }
  else s

def skipBlanksAndComments : Nat → Tokenizer → Tokenizer
  | 0, s => s
  | fuel + 1, s =>
    let c := s.cursor.skipSpaces
    let c := if c.sees 0 '#' then c.skip (!isBreak ·) else c
    if c.meets isBreak then
      skipBlanksAndComments fuel
        { s with cursor := c.lineBreak.2, keyAllowed := s.keyAllowed || s.flow == 0 }
    else { s with cursor := c }

/-- Adds a token of `n` characters. -/
def mark (s : Tokenizer) (n : Nat) (t : Token) : Tokenizer :=
  { s.push t with cursor := s.cursor.advance n }

def openFlow (s : Tokenizer) (t : Token) : Except Fault Tokenizer := do
  let s ← s.markPlace
  return { s.mark 1 t with flow := s.flow + 1, keyAllowed := true }

def closeFlow (s : Tokenizer) (t : Token) : Except Fault Tokenizer := do
  let s ← s.forgetPlace
  return { s.mark 1 t with flow := s.flow - 1, keyAllowed := false }

def documentMark (s : Tokenizer) (t : Token) : Except Fault Tokenizer := do
  let s ← (s.unwind (-1)).forgetPlace
  return { s.mark 3 t with keyAllowed := false }

/-- An explicit entry or key mark, which opens a block collection at its column. -/
def entryMark (s : Tokenizer) (start t : Token) (keyAfter : Bool) : Except Fault Tokenizer := do
  if s.flow == 0 && !s.keyAllowed then throw .malformed
  let s := if s.flow == 0 then s.openBlock s.cursor.column (·.push start) else s
  let s ← s.forgetPlace
  return { s.mark 1 t with keyAllowed := keyAfter }

/-- A colon after a key. -/
def valueMark (s : Tokenizer) : Except Fault Tokenizer := do
  match s.places.find? (·.level == s.flow) with
  | some p =>
    let s := { s with places := s.places.filter (·.level != s.flow) }.insert p.number .key
    let s := if s.flow == 0 then s.openBlock p.column (·.insert p.number .blockMappingStart) else s
    return { s.mark 1 .value with keyAllowed := false }
  | none => s.entryMark .blockMappingStart .value (s.flow == 0)

/-- Adds a token that may begin a key. -/
def leaf (s : Tokenizer) (read : Cursor → Except Fault (Token × Cursor)) : Except Fault Tokenizer := do
  let s ← s.markPlace
  let (t, c) ← read s.cursor
  return { s.push t with cursor := c, keyAllowed := false }

def plainScalar (s : Tokenizer) : Except Fault Tokenizer := do
  let s ← s.markPlace
  let (t, broken, c) := Plain.words (0 < s.flow) (s.indent + 1) (s.cursor.rest.length + 1) s.cursor
  return { s.push (.scalar t true) with cursor := c, keyAllowed := broken }

def quotedScalar (double : Bool) (c : Cursor) : Except Fault (Token × Cursor) := do
  let (t, c) ← Quoted.words double (c.rest.length + 1) c.next
  return (.scalar t false, c)

def blockScalar (s : Tokenizer) (folded : Bool) : Except Fault Tokenizer := do
  let s ← s.forgetPlace
  let (t, c) ← Block.scalar folded s.indent s.cursor.next
  return { s.push (.scalar t false) with cursor := c, keyAllowed := true }

/-- Whether a plain scalar may begin here. -/
def startsPlain (s : Tokenizer) (x : Char) : Bool :=
  !(isBreak x || isSpaceOrTab x || "-?:,[]\x7b\x7d#&*!|>'\"%@\x60".toList.contains x) ||
    (!s.cursor.endsWord 1 && (x == '-' || (s.flow == 0 && (x == '?' || x == ':'))))

/-- Reads the token that begins with `x`. -/
def readToken (s : Tokenizer) (x : Char) : Except Fault Tokenizer :=
  let c := s.cursor
  let lineStart := c.column == 0
  if x == '%' && lineStart then do
    let s ← (s.unwind (-1)).forgetPlace
    let (t, c) ← Token.readDirective c
    return { s.push t with cursor := c, keyAllowed := false }
  else if x == '-' && lineStart && c.atDocumentMark then s.documentMark .documentStart
  else if x == '.' && lineStart && c.atDocumentMark then s.documentMark .documentEnd
  else if x == '[' then s.openFlow .flowSequenceStart
  else if x == '\x7b' then s.openFlow .flowMappingStart
  else if x == ']' then s.closeFlow .flowSequenceEnd
  else if x == '\x7d' then s.closeFlow .flowMappingEnd
  else if x == ',' then do return { (← s.forgetPlace).mark 1 .flowEntry with keyAllowed := true }
  else if x == '-' && c.endsWord 1 then s.entryMark .blockSequenceStart .blockEntry true
  else if x == '?' && (0 < s.flow || c.endsWord 1) then
    s.entryMark .blockMappingStart .key (s.flow == 0)
  else if x == ':' && (0 < s.flow || c.endsWord 1) then s.valueMark
  else if x == '*' then
    s.leaf fun c => do let (name, c) ← Token.readName c; return (.alias name, c)
  else if x == '&' then
    s.leaf fun c => do let (name, c) ← Token.readName c; return (.anchor name, c)
  else if x == '!' then s.leaf Token.readTag
  else if x == '|' && s.flow == 0 then s.blockScalar false
  else if x == '>' && s.flow == 0 then s.blockScalar true
  else if x == '\'' then s.leaf (quotedScalar false)
  else if x == '"' then s.leaf (quotedScalar true)
  else if s.startsPlain x then s.plainScalar
  else .error .malformed

/-- Reads past blanks and comments, and then a token. -/
def step (s : Tokenizer) : Except Fault Tokenizer := do
  let s ← (skipBlanksAndComments (s.cursor.rest.length + 1) s).forgetStale
  let s := s.unwind s.cursor.column
  match s.cursor.rest with
  | [] => (s.unwind (-1)).forgetPlace
  | x :: _ => s.readToken x

/-- The tokens before which nothing can be put any more. -/
def settled (s : Tokenizer) : List Token :=
  let pending := (s.places.filter (!s.isStale ·)).map (·.number)
  s.reversed.reverse.take (pending.foldl min s.reversed.length)

/-- Reads to the end of the text, or to a fault. -/
def run : Nat → Tokenizer → List Token × Option Fault
  | 0, s => (s.reversed.reverse, none)
  | fuel + 1, s =>
    match s.step with
    | .error fault => (s.settled, some fault)
    | .ok after => if s.cursor.atEnd then (after.reversed.reverse, none) else run fuel after

end Tokenizer

/-- Whether a character may occur in a text. -/
def isReadable (c : Char) : Bool :=
  let n := c.toNat
  n == 0x09 || n == 0x0A || n == 0x0D || (0x20 ≤ n && n ≤ 0x7E) || n == 0x85 ||
    (0xA0 ≤ n && n ≤ 0xD7FF) || (0xE000 ≤ n && n ≤ 0xFFFD) || 0x10000 ≤ n

/-- The tokens of a text, up to a fault if there is one. A byte order mark at the start is passed
over. -/
def tokens (t : Text) : List Token × Option Fault :=
  if t.all isReadable then
    let c : Cursor := { rest := t }
    let c := if c.meets (·.toNat == 0xFEFF) then c.next else c
    Tokenizer.run (t.length + 2) { cursor := c }
  else ([], some .malformed)

end MarkTidy.Yaml
