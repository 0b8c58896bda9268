import MarkTidy.Run.Tidy
import MarkTidy.Service.Request

/-!
The service. It tells that it is well, lints texts that it is sent, and tidies documents below a path.
-/

namespace MarkTidy.Service

open Text

structure Call where
  method : Text
  path : Text
  body : Text
deriving DecidableEq, Repr

/-- An answer: a value; what is wrong with the request; the way to another path; or that a failure
came up which nobody expected. -/
inductive Answer where
  | value (status : Nat) (body : Json)
  | complaints (all : List Complaint)
  | elsewhere (path : Text)
  | failed (f : Failure)
deriving Repr

namespace Answer

def status : Answer → Nat
  | value s _ => s
  | complaints _ => 422
  | elsewhere _ => 307
  | failed _ => 500

def object (members : List (String × Json)) : Json := .object (members.map fun m => (m.1.toList, m.2))

/-- An answer that says why there is no other. -/
def detail (status : Nat) (t : Text) : Answer := value status (object [("detail", .string t)])

end Answer

inductive Route where
  | health
  | lint
  | fix
deriving DecidableEq, Repr

namespace Route

def all : List Route := [health, lint, fix]

def method : Route → Text
  | health => "GET".toList
  | lint | fix => "POST".toList

def path : Route → Text
  | health => "/health".toList
  | lint => "/lint".toList
  | fix => "/fix".toList

def ofPath? (t : Text) : Option Route := all.find? (·.path = t)

end Route

/-- A path without the slashes at its end. -/
def withoutSlashes (t : Text) : Text := (t.reverse.dropWhile (· = '/')).reverse

/-- Reads a body and goes on with the request in it. -/
def withRequest {α : Type} (read : Json → Checked α) (body : Text) (go : α → World → Answer × World)
    (w : World) : Answer × World :=
  if body.isEmpty then (.complaints [⟨.missing, [bodyName]⟩], w)
  else
    match Json.ofText body with
    | .error .malformed => (.complaints [⟨.notJson, [bodyName]⟩], w)
    | .error .tooLong => (.detail 400 "There was an error parsing the body".toList, w)
    | .ok j =>
      match read j with
      | .sound a => go a w
      | .unsound l => (.complaints l, w)

def lint (r : LintRequest) (w : World) : Answer × World :=
  let linted := (Rules.mk r.math r.spacing).lint [] r.text
  (.value 200 (Answer.object [("text", .string linted.text), ("changed", .bool linted.changed)]), w)

/-- An outcome; without a change there is no diff. -/
def outcomeJson (o : Outcome) : Json :=
  Answer.object [("path", .string o.path.toText), ("status", .string o.status.name),
    ("diff", if o.diff.isEmpty then .null else .string o.diff), ("dry_run", .bool o.dryRun)]

def failureAnswer (f : Failure) : Answer :=
  match f.group with
  | .notFound => .detail 404 f.message
  | .refused => .detail 400 f.message
  | .unexpected => .failed f

def fix (r : FixRequest) (w : World) : Answer × World :=
  match (Run.tidy r.dryRun [r.path]).run w with
  | (.ok outcomes, w) =>
    (.value 200 (Answer.object [("outcomes", .array (outcomes.map outcomeJson))]), w)
  | (.error f, w) => (failureAnswer f, w)

/-- Answers a call. A path with slashes too many at its end leads to the one without. -/
def respond (c : Call) (w : World) : Answer × World :=
  match Route.ofPath? c.path with
  | none =>
    if c.path.getLast? = some '/' ∧ (Route.ofPath? (withoutSlashes c.path)).isSome then
      (.elsewhere (withoutSlashes c.path), w)
    else (.detail 404 "Not Found".toList, w)
  | some route =>
    if c.method ≠ route.method then (.detail 405 "Method Not Allowed".toList, w)
    else
      match route with
      | .health => (.value 200 (Answer.object [("status", .string "ok".toList)]), w)
      | .lint => withRequest LintRequest.ofJson c.body lint w
      | .fix => withRequest FixRequest.ofJson c.body fix w

end MarkTidy.Service
