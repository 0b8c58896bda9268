import MarkTidy.Yaml.Graph
import MarkTidy.Yaml.Literal

/-!
The values of the nodes of a document. A collection holds the numbers of its nodes. Collections are
filled after the values that they are part of, in the order in which they come up, except in the
keys of a mapping: a key is made whole at once, and so cannot hold itself.
-/

namespace MarkTidy.Yaml

inductive Value where
  | null
  | flag (b : Bool)
  | integer (n : Int)
  | decimal (x : Float)
  | text (t : Text)
  | bytes (b : List Nat)
  | moment
  | list (items : List Nat)
  | pairs (entries : List (Nat × Nat))
  | set (entries : List (Nat × Nat))
  | table (entries : List (Nat × Nat))
deriving Repr

namespace Value

/-- Whether a value may be a key. -/
def isKey : Value → Bool
  | list _ | pairs _ | set _ | table _ => false
  | _ => true

/-- Whether a value is nothing, false, zero or empty. -/
def isVoid : Value → Bool
  | null => true
  | flag b => !b
  | integer n => n == 0
  | decimal x => x == 0.0
  | text t => t.isEmpty
  | bytes b => b.isEmpty
  | moment => false
  | list l => l.isEmpty
  | pairs l | set l | table l => l.isEmpty

end Value

/-- The values of a document, numbered as its nodes are. -/
structure Document where
  values : Array (Option Value)
  root : Value
deriving Repr

namespace Document

/-- The value with a number. -/
def get? (d : Document) (id : Nat) : Option Value := d.values[id]?.join

end Document

/-- The values made so far; the nodes whose values are being made; and the collections that wait to be
filled. -/
structure Construction where
  nodes : Array Node
  values : Array (Option Value)
  underway : List Nat := []
  waiting : List Nat := []

abbrev Construct := StateT Construction (Except Fault)

namespace Construct

def nodeAt (id : Nat) : Construct Node := do
  match (← get).nodes[id]? with
  | some n => return n
  | none => throw .malformed

def valueAt? (id : Nat) : Construct (Option Value) := return (← get).values[id]?.join

def put (id : Nat) (v : Value) : Construct Unit :=
  modify fun s => { s with values := s.values.setIfInBounds id (some v) }

def putNode (id : Nat) (n : Node) : Construct Unit :=
  modify fun s => { s with nodes := s.nodes.setIfInBounds id n }

/-- The text of a scalar, or of the scalar that a mapping has under the key for one. -/
def textOf : Nat → Nat → Construct Text
  | 0, _ => throw .malformed
  | fuel + 1, id => do
    match ← nodeAt id with
    | .scalar _ t => return t
    | .sequence _ _ => throw .malformed
    | .mapping _ entries =>
      let nodes := (← get).nodes
      match entries.find? fun e => (nodes[e.1]?.map Node.tag) == some .default with
      | some e => textOf fuel e.2
      | none => throw .malformed

/-- The value of a node whose tag is that of a scalar. -/
def scalar (tag : Tag) (id : Nat) : Construct Value := do
  let text := textOf ((← get).nodes.size + 1) id
  match tag with
  | .null => let _ ← text; return .null
  | .bool => return .flag (← Literal.flag (← text))
  | .int => return .integer (← Literal.integer (← text))
  | .float => return .decimal (← Literal.decimal (← text))
  | .binary => return .bytes (← Literal.bytes (← text))
  | .moment => Literal.moment (← text); return .moment
  | .str => return .text (← text)
  | _ => throw .malformed

/-- The collection of a tag, before it is filled. -/
def emptyCollection? : Tag → Option Value
  | .seq => some (.list [])
  | .orderedMap | .pairs => some (.pairs [])
  | .set => some (.set [])
  | .map => some (.table [])
  | _ => none

/-- The entries of a mapping whose merge keys, if any, have been dealt with. -/
def entriesOf (id : Nat) : Construct (List (Nat × Nat)) := do
  match ← nodeAt id with
  | .mapping _ entries => return entries
  | _ => throw .malformed

/-- Deals with the merge keys of a mapping: the entries of the mappings under them come before its
own, those of the later ones of a sequence first. A key for a scalar is an ordinary one here. -/
def flatten : Nat → Nat → Construct Unit
  | 0, _ => throw .malformed
  | fuel + 1, id => do
    let entries ← entriesOf id
    let nodes := (← get).nodes
    let tagOf (k : Nat) : Option Tag := nodes[k]?.map Node.tag
    let tag := (nodes[id]?.map Node.tag).getD .map
    let own := entries.filter fun e => tagOf e.1 != some .merge
    putNode id (.mapping tag own)
    let merged ← (entries.filter fun e => tagOf e.1 == some .merge).mapM fun e => do
      match ← nodeAt e.2 with
      | .mapping _ _ =>
        flatten fuel e.2
        entriesOf e.2
      | .sequence _ items =>
        let parts ← items.mapM fun item => do
          let _ ← entriesOf item
          flatten fuel item
          entriesOf item
        return parts.reverse.flatten
      | .scalar _ _ => throw .malformed
    for e in own do
      match ← nodeAt e.1 with
      | .scalar .default t => putNode e.1 (.scalar .str t)
      | _ => pure ()
    putNode id (.mapping tag (merged.flatten ++ own))

mutual

/-- Makes the value of a node, if it has none yet; `whole` asks to fill collections at once. -/
def make : Nat → Bool → Nat → Construct Unit
  | 0, _, _ => throw .malformed
  | fuel + 1, whole, id => do
    if (← valueAt? id).isSome then return ()
    if (← get).underway.contains id then throw .malformed
    let tag := (← nodeAt id).tag
    match emptyCollection? tag with
    | none => put id (← scalar tag id)
    | some v =>
      if whole then
        let before := (← get).underway
        modify fun s => { s with underway := id :: before }
        fill fuel true id
        modify fun s => { s with underway := before }
      else
        put id v
        modify fun s => { s with waiting := s.waiting ++ [id] }

/-- Fills a collection. -/
def fill : Nat → Bool → Nat → Construct Unit
  | 0, _, _ => throw .malformed
  | fuel + 1, whole, id => do
    match ← nodeAt id with
    | .sequence .seq items =>
      items.forM fun item => make fuel whole item
      put id (.list items)
    | .mapping .map _ => put id (.table (← entries fuel whole id))
    | .mapping .set _ => put id (.set (← entries fuel whole id))
    | .sequence .orderedMap items | .sequence .pairs items =>
      let pairs ← items.mapM fun item => do
        let [e] ← entriesOf item | throw .malformed
        make fuel whole e.1
        make fuel whole e.2
        return e
      put id (.pairs pairs)
    | _ => throw .malformed

/-- Makes the keys and the values of a mapping. -/
def entries : Nat → Bool → Nat → Construct (List (Nat × Nat))
  | 0, _, _ => throw .malformed
  | fuel + 1, whole, id => do
    flatten ((← get).nodes.size + 1) id
    let all ← entriesOf id
    all.forM fun e => do
      make fuel true e.1
      if !((← valueAt? e.1).map Value.isKey).getD false then throw .malformed
      make fuel whole e.2
    return all

end

/-- Fills the collections that wait, and those that come up. -/
def fillWaiting (fuel : Nat) : Nat → Construct Unit
  | 0 => return
  | n + 1 => do
    match (← get).waiting with
    | [] => return
    | id :: rest =>
      modify fun s => { s with waiting := rest }
      fill fuel false id
      fillWaiting fuel n

end Construct

/-- The document that a graph of nodes stands for. A graph without a root stands for nothing. -/
def Document.ofGraph (g : Graph) : Except Fault Document := do
  match g.root with
  | none => return ⟨#[], .null⟩
  | some root =>
    let n := g.nodes.size
    let fuel := 3 * n + 3
    let build : Construct Value := do
      Construct.make fuel false root
      Construct.fillWaiting fuel (n + 1)
      match ← Construct.valueAt? root with
      | some v => return v
      | none => throw .malformed
    let (v, s) ← build.run { nodes := g.nodes, values := Array.replicate n none }
    return ⟨s.values, v⟩

def Document.ofText (t : Text) : Except Fault Document := do
  Document.ofGraph (← Graph.ofText t)

end MarkTidy.Yaml
