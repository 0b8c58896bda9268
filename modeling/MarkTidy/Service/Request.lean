import MarkTidy.Service.Json

/-!
What a request asks for. Each field of its body is looked at, so that all problems are told at once.
Fields that are not known are passed over.
-/

namespace MarkTidy.Service

/-- What is wrong with a part of a request. -/
inductive Problem where
  | missing
  | notString
  | notSwitch
  | unknownSwitch
  | notObject
  | notJson
deriving DecidableEq, Repr

namespace Problem

def name : Problem → Text
  | missing => "missing".toList
  | notString => "string_type".toList
  | notSwitch => "bool_type".toList
  | unknownSwitch => "bool_parsing".toList
  | notObject => "model_attributes_type".toList
  | notJson => "json_invalid".toList

end Problem

/-- A problem and where it is, from the outside in. -/
structure Complaint where
  problem : Problem
  place : List Text
deriving DecidableEq, Repr

namespace Complaint

/-- A complaint as a row of texts. -/
def row (c : Complaint) : List Text := c.problem.name :: c.place

end Complaint

/-- The parts of a request that are found, or all that is wrong with it. -/
inductive Checked (α : Type) where
  | sound (a : α)
  | unsound (complaints : List Complaint)

namespace Checked

/-- Both of two parts. -/
def both {α β γ : Type} (f : α → β → γ) : Checked α → Checked β → Checked γ
  | sound a, sound b => sound (f a b)
  | sound _, unsound l => unsound l
  | unsound k, sound _ => unsound k
  | unsound k, unsound l => unsound (k ++ l)

end Checked

def bodyName : Text := "body".toList

def onWords : List String := ["1", "t", "true", "y", "yes", "on"]

def offWords : List String := ["0", "f", "false", "n", "no", "off"]

/-- The bounds of the integers that are looked at as such. -/
def isSmall (n : Int) : Bool := -0x8000000000000000 ≤ n && n < 0x8000000000000000

/-- A switch: a truth value, zero or one, or a word in any letter case. A number that may not be a
switch is an unknown one if it is whole and small, and none otherwise. -/
def switchOf (j : Json) : Except Problem Bool :=
  match j with
  | .bool b => .ok b
  | .string t =>
    let word := String.ofList (t.map Char.toLower)
    if onWords.contains word then .ok true
    else if offWords.contains word then .ok false
    else .error .unknownSwitch
  | .integer n =>
    if n = 0 then .ok false
    else if n = 1 then .ok true
    else if isSmall n then .error .unknownSwitch
    else .error .notSwitch
  | .decimal x =>
    if x == 0.0 then .ok false
    else if x == 1.0 then .ok true
    else if -9223372036854775808.0 < x && x < 9223372036854775808.0 && x.floor == x then
      .error .unknownSwitch
    else .error .notSwitch
  | _ => .error .notSwitch

def stringOf (j : Json) : Except Problem Text :=
  match j with
  | .string t => .ok t
  | _ => .error .notString

/-- A field of a body; without a default it may not be missing. -/
def fieldOf {α : Type} (read : Json → Except Problem α) (default : Option α)
    (members : List (Text × Json)) (name : String) : Checked α :=
  let complain (p : Problem) : Checked α := .unsound [⟨p, [bodyName, name.toList]⟩]
  match Json.member? members name.toList, default with
  | some j, _ =>
    match read j with
    | .ok a => .sound a
    | .error p => complain p
  | none, some a => .sound a
  | none, none => complain .missing

/-- A body, which must be an object. -/
def bodyOf {α : Type} (read : List (Text × Json) → Checked α) (j : Json) : Checked α :=
  match j with
  | .null => .unsound [⟨.missing, [bodyName]⟩]
  | .object members => read members
  | _ => .unsound [⟨.notObject, [bodyName]⟩]

/-- A request to lint a text. -/
structure LintRequest where
  text : Text
  math : Bool
  spacing : Bool
deriving DecidableEq, Repr

def LintRequest.ofJson : Json → Checked LintRequest :=
  bodyOf fun m =>
    (Checked.both LintRequest.mk (fieldOf stringOf none m "text")
      (fieldOf switchOf (some true) m "rewrite_math")).both (· ·)
      (fieldOf switchOf (some true) m "normalize_spacing")

/-- A request to tidy the documents below a path. -/
structure FixRequest where
  path : Text
  dryRun : Bool
deriving DecidableEq, Repr

def FixRequest.ofJson : Json → Checked FixRequest :=
  bodyOf fun m =>
    Checked.both FixRequest.mk (fieldOf stringOf none m "path")
      (fieldOf switchOf (some false) m "dry_run")

end MarkTidy.Service
