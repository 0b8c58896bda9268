import MarkTidy.Yaml.Tag
import MarkTidy.Yaml.Token

/-!
The nodes of a document. Nodes have numbers, in the order in which they begin. An alias stands for a
node that has begun before it, so that a node may hold itself.
-/

namespace MarkTidy.Yaml

inductive Node where
  | scalar (tag : Tag) (text : Text)
  | sequence (tag : Tag) (items : List Nat)
  | mapping (tag : Tag) (entries : List (Nat × Nat))
deriving DecidableEq, Repr

def Node.tag : Node → Tag
  | scalar t _ => t
  | sequence t _ => t
  | mapping t _ => t

/-- A node of one document; the empty text has no root. -/
structure Graph where
  nodes : Array Node
  root : Option Nat
deriving Repr

/-- A document read in part: the tokens that are left and the fault that ends them, the meanings of
tag handles, the nodes that have names, and all nodes so far. -/
structure Assembly where
  tokens : List Token
  fault : Option Fault
  handles : List (Text × Text) := []
  anchors : List (Text × Nat) := []
  nodes : Array Node := #[]

abbrev Assemble := StateT Assembly (Except Fault)

/-- The collections that may begin at a place, besides those in brackets: none; those with an
indentation of their own; those and also a sequence that is indented no more than its key. -/
inductive Position where
  | flow
  | block
  | entry
deriving DecidableEq, Repr

namespace Assemble

def peek : Assemble (Option Token) := do
  match (← get).tokens, (← get).fault with
  | t :: _, _ => return some t
  | [], none => return none
  | [], some f => throw f

def drop : Assemble Unit := modify fun s => { s with tokens := s.tokens.drop 1 }

/-- Whether one of some tokens is next. -/
def nextIn (ts : List Token) : Assemble Bool := return ((← peek).map ts.contains).getD false

/-- Takes a token if it is next. -/
def accept (t : Token) : Assemble Bool := do
  if ← nextIn [t] then drop; return true else return false

def expect (t : Token) : Assemble Unit := do
  if !(← accept t) then throw .malformed

/-- The full name of a tag. -/
def fullTag (handle : Option Text) (suffix : Text) : Assemble Text := do
  match handle with
  | none => return suffix
  | some h =>
    match (← get).handles.lookup h with
    | some stem => return stem ++ suffix
    | none => throw .malformed

def anchor? : Assemble (Option Text) := do
  match ← peek with
  | some (.anchor name) => drop; return some name
  | _ => return none

def tag? : Assemble (Option Text) := do
  match ← peek with
  | some (.tag handle suffix) => drop; return some (← fullTag handle suffix)
  | _ => return none

/-- The anchor and the tag before a node, in either order. -/
def properties : Assemble (Option Text × Option Text) := do
  match ← anchor? with
  | some name => return (some name, ← tag?)
  | none =>
    match ← tag? with
    | some tag => return (← anchor?, some tag)
    | none => return (none, none)

/-- Adds a node. Two nodes have not the same name. -/
def add (name : Option Text) (n : Node) : Assemble Nat := do
  let s ← get
  let id := s.nodes.size
  match name with
  | none => set { s with nodes := s.nodes.push n }
  | some a =>
    if (s.anchors.lookup a).isSome then throw .malformed
    set { s with nodes := s.nodes.push n, anchors := (a, id) :: s.anchors }
  return id

def put (id : Nat) (n : Node) : Assemble Unit :=
  modify fun s => { s with nodes := s.nodes.setIfInBounds id n }

/-- A node that is not there. -/
def empty : Assemble Nat := add none (.scalar .null [])

/-- The tag of a scalar. A lone exclamation mark asks for the tag of a plain one. -/
def scalarTag (tag : Option Text) (text : Text) (plain : Bool) : Tag :=
  match tag with
  | none => if plain then Tag.ofPlain text else .str
  | some ['!'] => Tag.ofPlain text
  | some t => Tag.ofText t

def collectionTag (tag : Option Text) (standard : Tag) : Tag :=
  match tag with
  | none | some ['!'] => standard
  | some t => Tag.ofText t

/-- Adds a sequence and then its items, which may name it. -/
def sequence (name tag : Option Text) (items : Assemble (List Nat)) : Assemble Nat := do
  let tag := collectionTag tag .seq
  let id ← add name (.sequence tag [])
  put id (.sequence tag (← items))
  return id

/-- Adds a mapping and then its entries, which may name it. -/
def mapping (name tag : Option Text) (entries : Assemble (List (Nat × Nat))) : Assemble Nat := do
  let tag := collectionTag tag .map
  let id ← add name (.mapping tag [])
  put id (.mapping tag (← entries))
  return id

/-- What may follow an entry of a block mapping. -/
def afterBlock : List Token := [.key, .value, .blockEnd]

mutual

/-- A node. One that has an anchor or a tag may be empty. -/
def node : Nat → Position → Assemble Nat
  | 0, _ => throw .malformed
  | fuel + 1, position => do
    match ← peek with
    | some (.alias name) => do
      drop
      match (← get).anchors.lookup name with
      | some id => return id
      | none => throw .malformed
    | _ => do
      let (name, tag) ← properties
      match ← peek, position with
      | some (.scalar t plain), _ => do drop; add name (.scalar (scalarTag tag t plain) t)
      | some .flowSequenceStart, _ => do drop; sequence name tag (flowItems fuel true)
      | some .flowMappingStart, _ => do drop; mapping name tag (flowEntries fuel true)
      | some .blockSequenceStart, .block | some .blockSequenceStart, .entry => do
        drop; sequence name tag (blockItems fuel)
      | some .blockMappingStart, .block | some .blockMappingStart, .entry => do
        drop; mapping name tag (blockEntries fuel)
      | some .blockEntry, .entry => sequence name tag (entryItems fuel)
      | _, _ =>
        if name.isNone && tag.isNone then throw .malformed
        else add name (.scalar (scalarTag tag [] true) [])

/-- The items of a sequence with an indentation of its own. -/
def blockItems : Nat → Assemble (List Nat)
  | 0 => throw .malformed
  | fuel + 1 => do
    if ← accept .blockEntry then
      let item ← if ← nextIn [.blockEntry, .blockEnd] then empty else node fuel .block
      return item :: (← blockItems fuel)
    else expect .blockEnd; return []

/-- The items of a sequence that is indented no more than its key. -/
def entryItems : Nat → Assemble (List Nat)
  | 0 => throw .malformed
  | fuel + 1 => do
    if ← accept .blockEntry then
      let item ← if ← nextIn (.blockEntry :: afterBlock) then empty else node fuel .block
      return item :: (← entryItems fuel)
    else return []

def blockEntries : Nat → Assemble (List (Nat × Nat))
  | 0 => throw .malformed
  | fuel + 1 => do
    if ← accept .key then
      let e ← pair fuel .entry afterBlock afterBlock
      return e :: (← blockEntries fuel)
    else expect .blockEnd; return []

/-- A key and its value. Either is empty if what may follow it comes first. -/
def pair : Nat → Position → List Token → List Token → Assemble (Nat × Nat)
  | 0, _, _, _ => throw .malformed
  | fuel + 1, position, afterKey, afterValue => do
    let key ← if ← nextIn afterKey then empty else node fuel position
    if ← accept .value then
      return (key, ← if ← nextIn afterValue then empty else node fuel position)
    else return (key, ← empty)

/-- The items of a sequence in brackets; an item with a colon is a mapping of one entry. -/
def flowItems : Nat → Bool → Assemble (List Nat)
  | 0, _ => throw .malformed
  | fuel + 1, first => do
    if ← accept .flowSequenceEnd then return []
    if !first then expect .flowEntry
    if ← accept .flowSequenceEnd then return []
    let after := [Token.flowEntry, .flowSequenceEnd]
    let item ← if ← accept .key then
        mapping none none (do return [← pair fuel .flow (.value :: after) after])
      else node fuel .flow
    return item :: (← flowItems fuel false)

/-- The entries of a mapping in braces; one without a colon has an empty value. -/
def flowEntries : Nat → Bool → Assemble (List (Nat × Nat))
  | 0, _ => throw .malformed
  | fuel + 1, first => do
    if ← accept .flowMappingEnd then return []
    if !first then expect .flowEntry
    if ← accept .flowMappingEnd then return []
    let after := [Token.flowEntry, .flowMappingEnd]
    let e ← if ← accept .key then pair fuel .flow (.value :: after) after
      else do
        let key ← node fuel .flow
        pure (key, ← empty)
    return e :: (← flowEntries fuel false)

end

/-- The meanings of tag handles that a document need not state. -/
def standardHandles : List (Text × Text) := [(['!'], ['!']), (['!', '!'], Tag.standardStem)]

/-- The directives before a document: at most one version, which must be of the first major one, and
at most one meaning of each tag handle. -/
def directives : Nat → Bool → Assemble Unit
  | 0, _ => throw .malformed
  | fuel + 1, versioned => do
    match ← peek with
    | some (.version major) =>
      if versioned || major != 1 then throw .malformed
      drop; directives fuel true
    | some (.tagHandle handle stem) =>
      if ((← get).handles.lookup handle).isSome then throw .malformed
      modify fun s => { s with handles := (handle, stem) :: s.handles }
      drop; directives fuel versioned
    | some .reservedDirective => drop; directives fuel versioned
    | _ => modify fun s => { s with handles := s.handles ++ standardHandles }

def skipDocumentEnds : Nat → Assemble Unit
  | 0 => return
  | fuel + 1 => do
    if ← accept .documentEnd then skipDocumentEnds fuel

/-- Whether a mark of another document, or the end, is next. -/
def atDocumentEdge : Assemble Bool := do
  match ← peek with
  | none | some (.version _) | some (.tagHandle _ _) | some .reservedDirective
  | some .documentStart | some .documentEnd => return true
  | _ => return false

/-- The root of the only document. A document may begin without a mark, if it has no directives. -/
def document (fuel : Nat) : Assemble (Option Nat) := do
  match ← peek with
  | none => return none
  | some .documentEnd => throw .malformed
  | _ =>
    let root ← if ← atDocumentEdge then do
        directives fuel false
        expect .documentStart
        if ← atDocumentEdge then empty else node fuel .block
      else do
        modify fun s => { s with handles := standardHandles }
        node fuel .block
    skipDocumentEnds fuel
    if (← peek).isSome then throw .malformed
    return some root

end Assemble

/-- The nodes of the document in a text. -/
def Graph.ofText (t : Text) : Except Fault Graph := do
  let (tokens, fault) := tokens t
  let (root, s) ← (Assemble.document (3 * tokens.length + 8)).run { tokens, fault }
  return ⟨s.nodes, root⟩

end MarkTidy.Yaml
