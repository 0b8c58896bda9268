import MarkTidy.Number.Numeral

/-!
JSON. Besides the numbers of the standard, the three words for infinities and for no number are read.
Members of an object keep their order, and names may be repeated.
-/

namespace MarkTidy.Service

inductive Json where
  | null
  | bool (b : Bool)
  | integer (n : Int)
  | decimal (x : Float)
  | string (t : Text)
  | array (items : List Json)
  | object (members : List (Text × Json))
deriving Repr

namespace Json

/-- The member with a name; the last one if there are several. -/
def member? (members : List (Text × Json)) (name : Text) : Option Json := members.reverse.lookup name

/-- Why a text is not read: it is no JSON, or it holds an integer of too many digits. -/
inductive Refusal where
  | malformed
  | tooLong
deriving DecidableEq, Repr

def isSpace (c : Char) : Bool := c == ' ' || c == '\t' || c == '\n' || c == '\r'

def skipSpace (t : Text) : Text := t.dropWhile isSpace

def isDigit (c : Char) : Bool := '0' ≤ c && c ≤ '9'

/-- Four hexadecimal digits at the start of a text. -/
def fourDigits? (t : Text) : Option Nat :=
  if t.length < 4 then none
  else (t.take 4).foldl (fun n c => do return 16 * (← n) + (← Text.hexDigit? c)) (some 0)

def escapes : List (Char × Char) := [
  ('"', '"'), ('\\', '\\'), ('/', '/'), ('b', Char.ofNat 8), ('f', Char.ofNat 12), ('n', '\n'),
  ('r', '\r'), ('t', '\t')]

def isHighSurrogate (n : Nat) : Bool := 0xD800 ≤ n && n ≤ 0xDBFF

def isLowSurrogate (n : Nat) : Bool := 0xDC00 ≤ n && n ≤ 0xDFFF

/-- The character with a code that may be half a pair; a half alone stands for no character. -/
def charOf (n : Nat) : Char := if n.isValidChar then Char.ofNat n else Char.ofNat 0xFFFD

/-- The rest of a string, up to its closing quote. -/
def stringFrom : Nat → Text → Except Refusal (Text × Text)
  | 0, _ => .error .malformed
  | _ + 1, [] => .error .malformed
  | fuel + 1, c :: r =>
    if c = '"' then .ok ([], r)
    else if c.toNat < 0x20 then .error .malformed
    else if c ≠ '\\' then do
      let (t, r) ← stringFrom fuel r
      return (c :: t, r)
    else
      match r with
      | [] => .error .malformed
      | 'u' :: r => do
        let some high := fourDigits? r | throw .malformed
        let r := r.drop 4
        match isHighSurrogate high, r with
        | true, '\\' :: 'u' :: after =>
          let some low := fourDigits? after | throw .malformed
          if isLowSurrogate low then
            let (t, r) ← stringFrom fuel (after.drop 4)
            return (charOf (0x10000 + (high - 0xD800) * 0x400 + (low - 0xDC00)) :: t, r)
          else
            let (t, r) ← stringFrom fuel r
            return (charOf high :: t, r)
        | _, _ =>
          let (t, r) ← stringFrom fuel r
          return (charOf high :: t, r)
      | e :: r => do
        let some x := escapes.lookup e | throw .malformed
        let (t, r) ← stringFrom fuel r
        return (x :: t, r)

/-- The digits of a whole number, without a zero before others. -/
def whole? (t : Text) : Option (Text × Text) :=
  match t with
  | '0' :: r => some (['0'], r)
  | _ =>
    let digits := t.takeWhile isDigit
    if digits.isEmpty then none else some (digits, t.drop digits.length)

/-- A fraction with its point, if there is one. -/
def fraction (t : Text) : Text × Text :=
  match t with
  | '.' :: r =>
    let digits := r.takeWhile isDigit
    if digits.isEmpty then ([], t) else ('.' :: digits, r.drop digits.length)
  | _ => ([], t)

/-- An exponent with its mark, if there is one. -/
def exponent (t : Text) : Text × Text :=
  match t with
  | e :: r =>
    if e = 'e' ∨ e = 'E' then
      let sign := (r.take 1).filter fun c => c = '+' ∨ c = '-'
      let digits := (r.drop sign.length).takeWhile isDigit
      if digits.isEmpty then ([], t)
      else (e :: sign ++ digits, r.drop (sign.length + digits.length))
    else ([], t)
  | [] => ([], t)

/-- A number; it is an integer if it has neither a fraction nor an exponent. -/
def number (t : Text) : Except Refusal (Json × Text) := do
  let (sign, r) := match t with
    | '-' :: r => (['-'], r)
    | r => ([], r)
  let some (digits, r) := whole? r | throw .malformed
  let (part, r) := fraction r
  let (power, r) := exponent r
  if part.isEmpty && power.isEmpty then
    match Numeral.integer? 10 (sign ++ digits) with
    | some n => return (.integer n, r)
    | none => throw .tooLong
  else
    match Numeral.float? (sign ++ digits ++ part ++ power) with
    | some x => return (.decimal x, r)
    | none => throw .malformed

def words : List (String × Json) := [
  ("null", .null), ("true", .bool true), ("false", .bool false), ("NaN", .decimal Numeral.notANumber),
  ("Infinity", .decimal Numeral.infinity), ("-Infinity", .decimal (-Numeral.infinity))]

/-- One of the words that stand for values. -/
def word? (t : Text) : Option (Json × Text) :=
  (words.find? fun w => w.1.toList.isPrefixOf t).map fun w => (w.2, t.drop w.1.length)

mutual

/-- A value at the start of a text. -/
def valueFrom : Nat → Text → Except Refusal (Json × Text)
  | 0, _ => .error .malformed
  | fuel + 1, t =>
    match t with
    | '"' :: r => do
      let (s, r) ← stringFrom (r.length + 1) r
      return (.string s, r)
    | '[' :: r => do
      let r := skipSpace r
      if r.head? = some ']' then return (.array [], r.drop 1)
      let (items, r) ← itemsFrom fuel r
      return (.array items, r)
    | '\x7b' :: r => do
      let r := skipSpace r
      if r.head? = some '\x7d' then return (.object [], r.drop 1)
      let (members, r) ← membersFrom fuel r
      return (.object members, r)
    | _ =>
      match word? t with
      | some found => .ok found
      | none => number t

/-- Items up to the closing bracket. -/
def itemsFrom : Nat → Text → Except Refusal (List Json × Text)
  | 0, _ => .error .malformed
  | fuel + 1, t => do
    let (item, r) ← valueFrom fuel t
    match skipSpace r with
    | ']' :: r => return ([item], r)
    | ',' :: r =>
      let (items, r) ← itemsFrom fuel (skipSpace r)
      return (item :: items, r)
    | _ => throw .malformed

/-- Members up to the closing brace. -/
def membersFrom : Nat → Text → Except Refusal (List (Text × Json) × Text)
  | 0, _ => .error .malformed
  | fuel + 1, t => do
    let '"' :: r := t | throw .malformed
    let (name, r) ← stringFrom (r.length + 1) r
    let ':' :: r := skipSpace r | throw .malformed
    let (value, r) ← valueFrom fuel (skipSpace r)
    match skipSpace r with
    | '\x7d' :: r => return ([(name, value)], r)
    | ',' :: r =>
      let (members, r) ← membersFrom fuel (skipSpace r)
      return ((name, value) :: members, r)
    | _ => throw .malformed

end

/-- The value that a whole text stands for. A byte order mark at its start is passed over. -/
def ofText (t : Text) : Except Refusal Json := do
  let t := match t with
    | c :: r => if c.toNat = 0xFEFF then r else c :: r
    | [] => []
  let (v, r) ← valueFrom (2 * t.length + 2) (skipSpace t)
  if (skipSpace r).isEmpty then return v else throw .malformed

end Json

end MarkTidy.Service
