import MarkTidy.Number.Numeral
import MarkTidy.Text.Blank
import MarkTidy.Text.Lowercase
import MarkTidy.Yaml.Value

/-!
What a configuration makes of a value: a switch, a list of texts, a table, or a file extension.
A value of the wrong kind is as good as none.
-/

namespace MarkTidy

open Text

inductive Setting where
  | nothing
  | flag (b : Bool)
  | integer (n : Int)
  | decimal (x : Float)
  | text (t : Text)
  | bytes (b : List Nat)
  | list (items : List Setting)
  | table (entries : List (Text × Setting))
  /-- A value that no setting has a use for. -/
  | other
deriving Inhabited, Repr

namespace Setting

/-- The value of a document as a setting, down to collections of the given depth. Of a table only
the entries with a text for a key count. -/
def ofValue (d : Yaml.Document) : Nat → Yaml.Value → Setting
  | _, .null => nothing
  | _, .flag b => flag b
  | _, .integer n => integer n
  | _, .decimal x => decimal x
  | _, .text t => text t
  | _, .bytes b => bytes b
  | depth + 1, .list items =>
    list (items.map fun id => ((d.get? id).map (ofValue d depth)).getD other)
  | _ + 1, .pairs entries => list (entries.map fun _ => other)
  | depth + 1, .table entries =>
    table (entries.filterMap fun e =>
      match d.get? e.1, d.get? e.2 with
      | some (.text key), some v => some (key, ofValue d depth v)
      | _, _ => none)
  | _, _ => other

def yesWords : List String := ["true", "yes", "on", "1"]

def noWords : List String := ["false", "no", "off", "0"]

/-- A switch: a truth value, or one of the words for it in any letter case. -/
def switch? : Setting → Option Bool
  | flag b => some b
  | text t =>
    let word := String.ofList (lower (trim t))
    if yesWords.contains word then some true
    else if noWords.contains word then some false
    else none
  | _ => none

/-- The text of a scalar other than nothing. -/
def text? : Setting → Option Text
  | flag b => some (if b then "True".toList else "False".toList)
  | integer n => some (Text.integer n)
  | decimal x => some (Decimal.ofFloat x)
  | text t => some t
  | _ => none

/-- A list of texts: the scalars of a list, or a text alone. Bytes are a list of numbers. -/
def texts : Setting → List Text
  | text t => [t]
  | list items => items.filterMap text?
  | bytes b => b.map natural
  | _ => []

/-- Whether a list holds a number with more digits than can be written out. -/
def isOverlong : Setting → Bool
  | list items => items.any fun
    | integer n => Nat.pow 10 Numeral.longest ≤ n.natAbs
    | _ => false
  | _ => false

/-- The entries of a table. -/
def entries : Setting → List (Text × Setting)
  | table entries => entries
  | _ => []

/-- The entry with a key; the last one if there are several. -/
def get (s : Setting) (key : Text) : Setting := ((s.entries.reverse).lookup key).getD nothing

/-- A file extension as it is compared: in lower case, with a full stop at its start. -/
def extension (t : Text) : Text :=
  let e := lower (trim t)
  if e.head? = some '.' then e else '.' :: e

end Setting

end MarkTidy
