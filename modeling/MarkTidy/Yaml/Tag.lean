import MarkTidy.Text.Basic

/-!
Tags say what kind of value a node has. A plain scalar without a tag gets one from its text: the
first of the forms below that it has, or else that of a string.
-/

namespace MarkTidy.Yaml

inductive Tag where
  | null
  | bool
  | int
  | float
  | binary
  | moment
  | orderedMap
  | pairs
  | set
  | str
  | seq
  | map
  /-- The key of a mapping whose entries are merged in. -/
  | merge
  /-- The key of the value that a mapping has as a scalar. -/
  | default
  /-- A tag without a meaning here. -/
  | foreign
deriving DecidableEq, Repr

namespace Tag

/-- The stem of the tags of the standard. -/
def standardStem : Text := "tag:yaml.org,2002:".toList

def names : List (String × Tag) := [
  ("null", null), ("bool", bool), ("int", int), ("float", float), ("binary", binary),
  ("timestamp", moment), ("omap", orderedMap), ("pairs", pairs), ("set", set), ("str", str),
  ("seq", seq), ("map", map), ("merge", merge), ("value", default)]

/-- The tag with a full name. -/
def ofText (t : Text) : Tag :=
  if standardStem.isPrefixOf t then
    (names.lookup (String.ofList (t.drop standardStem.length))).getD foreign
  else foreign

def isDigit (c : Char) : Bool := '0' ≤ c && c ≤ '9'

def isDigitOrGap (c : Char) : Bool := isDigit c || c == '_'

/-- A text less one sign at its start. -/
def unsigned : Text → Text
  | '-' :: r => r
  | '+' :: r => r
  | r => r

def startsWithDigit (t : Text) : Bool := (t.head?.map isDigit).getD false

def flagWords : List String := [
  "yes", "Yes", "YES", "no", "No", "NO", "true", "True", "TRUE", "false", "False", "FALSE",
  "on", "On", "ON", "off", "Off", "OFF"]

def looksBool (t : Text) : Bool := flagWords.contains (String.ofList t)

def looksNull (t : Text) : Bool := ["", "~", "null", "Null", "NULL"].contains (String.ofList t)

/-- A part of a number in base sixty after the first: one digit, or two up to 59. -/
def isSixtieth : Text → Bool
  | [a] => isDigit a
  | [a, b] => '0' ≤ a && a ≤ '5' && isDigit b
  | _ => false

/-- Nothing, or an exponent with a sign. -/
def isExponent : Text → Bool
  | [] => true
  | e :: s :: ds => (e == 'e' || e == 'E') && (s == '+' || s == '-') && !ds.isEmpty && ds.all isDigit
  | _ => false

/-- A number with a decimal point, an exponent only with a sign; or one in base sixty with a decimal
point; or a word for infinity or for no number. -/
def looksFloat (t : Text) : Bool :=
  let u := unsigned t
  let tail := u.dropWhile isDigitOrGap
  let afterPoint (r : Text) : Text := r.dropWhile isDigitOrGap
  let pointed := startsWithDigit u && tail.head? == some '.' && isExponent (afterPoint (tail.drop 1))
  let bare := t.head? == some '.' && startsWithDigit (t.drop 1) && isExponent (afterPoint (t.drop 1))
  let sixties := match Text.splitAtChar ':' u with
    | first :: rest@(_ :: _) =>
      let last := rest.getLast?.getD []
      startsWithDigit first && first.all isDigitOrGap && rest.dropLast.all isSixtieth &&
        isSixtieth (last.takeWhile isDigit) &&
        (match last.dropWhile isDigit with
          | '.' :: r => r.all isDigitOrGap
          | _ => false)
    | _ => false
  pointed || bare || sixties || [".inf", ".Inf", ".INF"].contains (String.ofList u) ||
    [".nan", ".NaN", ".NAN"].contains (String.ofList t)

/-- An integer in base two, eight, ten, sixteen or sixty. -/
def looksInt (t : Text) : Bool :=
  let u := unsigned t
  match u with
  | [] => false
  | '0' :: r =>
    r.isEmpty || r.all (fun c => ('0' ≤ c && c ≤ '7') || c == '_') ||
      (match r with
        | 'b' :: ds => !ds.isEmpty && ds.all fun c => c == '0' || c == '1' || c == '_'
        | 'x' :: ds => !ds.isEmpty && ds.all fun c => (Text.hexDigit? c).isSome || c == '_'
        | _ => false)
  | _ =>
    match Text.splitAtChar ':' u with
    | first :: rest => startsWithDigit first && first.all isDigitOrGap && rest.all isSixtieth
    | [] => false

end Tag

/-- A moment as it is written: a date, perhaps a time, perhaps an offset from universal time. -/
structure Written where
  year : Text
  month : Text
  day : Text
  time : Option (Text × Text × Text)
  /-- Hours and minutes of the offset, without its sign. -/
  offset : Option (Text × Text)
deriving DecidableEq, Repr

namespace Written

open Tag

/-- Between `least` and `most` digits, and what follows them. -/
def digits? (least most : Nat) (t : Text) : Option (Text × Text) :=
  let ds := (t.takeWhile isDigit).take most
  if least ≤ ds.length then some (ds, t.drop ds.length) else none

def expect? (c : Char) : Text → Option Text
  | [] => none
  | x :: r => if x = c then some r else none

def skipBlanks (t : Text) : Text := t.dropWhile fun c => c = ' ' ∨ c = '\t'

/-- An offset at the end of a moment. The letter Z is an offset of nothing. -/
def offset? (t : Text) : Option (Option (Text × Text)) :=
  match t with
  | [] => some none
  | _ =>
    match skipBlanks t with
    | ['Z'] => some none
    | s :: r =>
      if s = '+' ∨ s = '-' then do
        let (hours, r) ← digits? 1 2 r
        if r.isEmpty then return some (hours, [])
        let (minutes, r) ← digits? 2 2 (← expect? ':' r)
        if r.isEmpty then return some (hours, minutes) else none
      else none
    | [] => none

/-- Reads a moment: a date, or a date and a time with the letter T or blanks between them. -/
def ofText? (t : Text) : Option Written := do
  let (year, r) ← digits? 4 4 t
  let (month, r) ← digits? 1 2 (← expect? '-' r)
  let (day, r) ← digits? 1 2 (← expect? '-' r)
  match r with
  | [] => return ⟨year, month, day, none, none⟩
  | c :: rest =>
    let r ← if c = 'T' ∨ c = 't' then some rest
      else if c = ' ' ∨ c = '\t' then some (skipBlanks r) else none
    let (hour, r) ← digits? 1 2 r
    let (minute, r) ← digits? 2 2 (← expect? ':' r)
    let (second, r) ← digits? 2 2 (← expect? ':' r)
    let r := match r with
      | '.' :: r => r.dropWhile isDigit
      | r => r
    return ⟨year, month, day, some (hour, minute, second), ← offset? r⟩

end Written

namespace Tag

/-- A moment as a plain scalar has it: a date without a time has two digits for month and day. -/
def looksMoment (t : Text) : Bool :=
  match Written.ofText? t with
  | none => false
  | some w => w.time.isSome || (w.month.length == 2 && w.day.length == 2)

/-- A text without one line feed at its end, which no form of a scalar minds. -/
def withoutFeed (t : Text) : Text :=
  if 1 < t.length && t.getLast? == some '\n' then t.dropLast else t

/-- The tag of a plain scalar. -/
def ofPlain (text : Text) : Tag :=
  let t := withoutFeed text
  if looksBool t then bool
  else if looksFloat t then float
  else if looksInt t then int
  else if t = ['<', '<'] then merge
  else if looksNull t then null
  else if looksMoment t then moment
  else if t = ['='] then default
  else if t = ['!'] ∨ t = ['&'] ∨ t = ['*'] then foreign
  else str

end Tag

end MarkTidy.Yaml
