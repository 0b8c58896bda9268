import MarkTidy.Proofs.Yaml.Section
import MarkTidy.Yaml.Value

/-!
The value of a section: a table with one entry, under which there is a table with an entry for each
line. There is none exactly if a scalar on one of the lines has no value.
-/

namespace MarkTidy.Yaml

open Text

variable {e : Entry} {es : List Entry} {title : Text} {t : Text} {plain : Bool} {fuel id : Nat}

section

variable {σ α β : Type} {x : StateT σ (Except Fault) α} {f : α → StateT σ (Except Fault) β} {s r : σ}
  {a : α}

theorem run_bind_of_ok (h : x.run s = .ok (a, r)) : (x >>= f).run s = (f a).run r := by
  rw [StateT.run_bind, h]
  rfl

theorem run_bind_of_error {e : Fault} (h : x.run s = .error e) : (x >>= f).run s = .error e := by
  rw [StateT.run_bind, h]
  rfl

theorem return_of_eq {x y : Except Fault α} (h : x = y) (g : α → β) :
    (do return g (← x)) = y.map g := by
  subst h
  cases x <;> rfl

end

/-! ### Nodes -/

namespace Entry

/-- The tag of the scalar on a line. -/
def tag (e : Entry) : Tag := Assemble.scalarTag none e.text (e.style = .plain)

def nodes (e : Entry) : List Node := [.scalar .str e.key, .scalar e.tag e.text]

end Entry

/-- The numbers of the keys and values of so many lines. -/
def pairsFrom : Nat → Nat → List (Nat × Nat)
  | _, 0 => []
  | id, n + 1 => (id, id + 1) :: pairsFrom (id + 2) n

def sectionNodes (title : Text) (es : List Entry) : List Node :=
  .mapping .map [(1, 2)] :: .scalar .str title :: .mapping .map (pairsFrom 3 es.length) ::
    es.flatMap Entry.nodes

namespace Assemble

variable {ts : List Token} {F : Option Fault} {H : List (Text × Text)} {l : List Node}

/-- A state in which no node has a name. -/
def unnamed (ts : List Token) (F : Option Fault) (H : List (Text × Text)) (l : List Node) : Assembly :=
  ⟨ts, F, H, [], l.toArray⟩

theorem run_add (n : Node) : (add none n).run (unnamed ts F H l) =
    .ok (l.length, unnamed ts F H (l ++ [n])) := by
  rw [unnamed, unnamed, ← List.push_toArray]
  rfl

theorem run_node_scalar (position : Position) :
    (node (fuel + 1) position).run (unnamed (.scalar t plain :: ts) F H l) =
      .ok (l.length, unnamed ts F H (l ++ [.scalar (scalarTag none t plain) t])) := by
  rw [node]
  exact run_add _

/-- A mapping with an indentation of its own. -/
theorem run_node_mapping {position : Position} (hposition : position ≠ .flow) {ts' : List Token}
    {entries : List (Nat × Nat)} {m : List Node}
    (h : (blockEntries fuel).run (unnamed ts F H (l ++ [.mapping .map []])) =
      .ok (entries, unnamed ts' F H (l ++ .mapping .map [] :: m))) :
    (node (fuel + 1) position).run (unnamed (.blockMappingStart :: ts) F H l) =
      .ok (l.length, unnamed ts' F H (l ++ .mapping .map entries :: m)) := by
  have hmapping : (node (fuel + 1) position).run (unnamed (.blockMappingStart :: ts) F H l) =
      (mapping none none (blockEntries fuel)).run (unnamed ts F H l) := by
    rw [node]
    cases position with
    | flow => exact absurd rfl hposition
    | block => rfl
    | entry => rfl
  have hset : (l ++ .mapping .map [] :: m).toArray.setIfInBounds l.length (.mapping .map entries) =
      (l ++ .mapping .map entries :: m).toArray := by simp
  rw [hmapping, mapping, run_bind_of_ok (run_add _), collectionTag, run_bind_of_ok h]
  rw [unnamed, unnamed, ← hset]
  rfl

/-- A key, and what is not empty under it. -/
theorem run_pair {k : Text} {v : Token} {id : Nat} {s' : Assembly} (hk : Tag.ofPlain k = .str)
    (hv : afterBlock.contains v = false)
    (h : (node (fuel + 1) .entry).run (unnamed (v :: ts) F H (l ++ [.scalar .str k])) = .ok (id, s')) :
    (pair (fuel + 2) .entry afterBlock afterBlock).run
      (unnamed (.scalar k true :: .value :: v :: ts) F H l) = .ok ((l.length, id), s') := by
  have hkey : scalarTag none k true = .str := hk
  have hnext : (nextIn afterBlock).run (unnamed (v :: ts) F H (l ++ [.scalar .str k])) =
      .ok (afterBlock.contains v, unnamed (v :: ts) F H (l ++ [.scalar .str k])) := rfl
  rw [pair]
  refine (run_bind_of_ok (a := false) rfl).trans ?_
  rw [if_neg Bool.false_ne_true]
  refine (run_bind_of_ok (run_node_scalar _)).trans ?_
  refine (run_bind_of_ok (a := true) rfl).trans ?_
  rw [if_pos rfl, hkey]
  refine (run_bind_of_ok hnext).trans ?_
  rw [hv, if_neg Bool.false_ne_true]
  exact (run_bind_of_ok h).trans rfl

/-- The entries of a mapping, up to its end. -/
theorem run_blockEntries (hes : ∀ e ∈ es, Tag.ofPlain e.key = .str) (fuel : Nat)
    (hfuel : es.length + 2 < fuel) :
    (blockEntries fuel).run (unnamed (es.flatMap Entry.tokens ++ .blockEnd :: ts) F H l) =
      .ok (pairsFrom l.length es.length, unnamed ts F H (l ++ es.flatMap Entry.nodes)) := by
  induction es generalizing l fuel with
  | nil =>
    obtain ⟨fuel, rfl⟩ : ∃ k, fuel = k + 1 := ⟨fuel - 1, by omega⟩
    rw [blockEntries, List.flatMap_nil, List.flatMap_nil, List.append_nil]
    rfl
  | cons e es ih =>
    rw [List.length_cons] at hfuel
    obtain ⟨fuel, rfl⟩ : ∃ k, fuel = k + 3 := ⟨fuel - 3, by omega⟩
    obtain ⟨he, hes⟩ := List.forall_mem_cons.1 hes
    have hpair : (pair (fuel + 2) .entry afterBlock afterBlock).run
        (unnamed (e.tokens.drop 1 ++ (es.flatMap Entry.tokens ++ .blockEnd :: ts)) F H l) =
          .ok ((l.length, l.length + 1),
            unnamed (es.flatMap Entry.tokens ++ .blockEnd :: ts) F H (l ++ e.nodes)) :=
      run_pair he rfl (by rw [run_node_scalar]; simp [Entry.nodes, Entry.tag])
    have hlength : (l ++ e.nodes).length = l.length + 2 := by simp [Entry.nodes]
    have hrest := ih (l := l ++ e.nodes) hes (fuel + 2) (by omega)
    rw [hlength, List.append_assoc] at hrest
    rw [blockEntries, List.flatMap_cons, List.flatMap_cons, List.append_assoc]
    refine (run_bind_of_ok (a := true) (r := unnamed (e.tokens.drop 1 ++
      (es.flatMap Entry.tokens ++ .blockEnd :: ts)) F H l) rfl).trans ?_
    rw [if_pos rfl, run_bind_of_ok hpair, run_bind_of_ok hrest]
    rfl

/-- The mapping under the key of a section. -/
theorem run_section (htitle : Tag.ofPlain title = .str) (hes : ∀ e ∈ es, Tag.ofPlain e.key = .str)
    (hfuel : es.length + 6 < fuel) :
    (node fuel .block).run (unnamed (sectionTokens title es) F H []) =
      .ok (0, unnamed [] F H (sectionNodes title es)) := by
  obtain ⟨fuel, rfl⟩ : ∃ k, fuel = k + 5 := ⟨fuel - 5, by omega⟩
  have hkey : scalarTag none title true = .str := htitle
  have hlines : (node (fuel + 2) .entry).run (unnamed (.blockMappingStart ::
      (es.flatMap Entry.tokens ++ [.blockEnd, .blockEnd])) F H
        [.mapping .map [], .scalar .str title]) = .ok (2, unnamed [.blockEnd] F H
          ([.mapping .map [], .scalar .str title] ++ .mapping .map (pairsFrom 3 es.length) ::
            es.flatMap Entry.nodes)) := by
    refine run_node_mapping (by decide) ?_
    rw [run_blockEntries hes _ (by omega)]
    simp
  refine run_node_mapping (l := []) (m := .scalar .str title ::
    .mapping .map (pairsFrom 3 es.length) :: es.flatMap Entry.nodes) (by decide) ?_
  rw [blockEntries]
  refine (run_bind_of_ok (a := true) rfl).trans ?_
  rw [if_pos rfl]
  refine (run_bind_of_ok (run_pair htitle rfl hlines)).trans ?_
  rfl

theorem run_document (htitle : Tag.ofPlain title = .str) (hes : ∀ e ∈ es, Tag.ofPlain e.key = .str)
    (hfuel : es.length + 6 < fuel) :
    (document fuel).run ⟨sectionTokens title es, none, [], [], #[]⟩ =
      .ok (some 0, unnamed [] none standardHandles (sectionNodes title es)) := by
  have hskip : (skipDocumentEnds fuel).run (unnamed [] none standardHandles (sectionNodes title es)) =
      .ok ((), unnamed [] none standardHandles (sectionNodes title es)) := by
    cases fuel <;> rfl
  refine (run_bind_of_ok (a := some .blockMappingStart) rfl).trans ?_
  refine (run_bind_of_ok (a := false) rfl).trans ?_
  refine (run_bind_of_ok (a := ()) rfl).trans ?_
  refine (run_bind_of_ok (run_section htitle hes hfuel)).trans ?_
  exact (run_bind_of_ok hskip).trans rfl

end Assemble

theorem ofText_sectionText (htitle : IsKey title) (hes : ∀ e ∈ es, e.IsSound) (hne : es ≠ []) :
    Graph.ofText (sectionText title es) = .ok ⟨(sectionNodes title es).toArray, some 0⟩ := by
  have hfuel : es.length + 6 < 3 * (sectionTokens title es).length + 8 := by
    have hlines := length_flatMap_tokens es
    simp only [sectionTokens, List.length_cons, List.length_append]
    omega
  rw [Graph.ofText, tokens_sectionText htitle hes hne]
  dsimp only
  rw [Assemble.run_document htitle.tag (fun e he => (hes e he).key.tag) hfuel]
  rfl

/-! ### Values -/

/-- The value that a scalar of a tag is written for. -/
def reading : Tag → Text → Except Fault Value
  | .null, _ => .ok .null
  | .bool, t => (Literal.flag t).map .flag
  | .int, t => (Literal.integer t).map .integer
  | .float, t => (Literal.decimal t).map .decimal
  | .binary, t => (Literal.bytes t).map .bytes
  | .moment, t => (Literal.moment t).map fun _ => .moment
  | .str, t => .ok (.text t)
  | _, _ => .error .malformed

def Entry.value (e : Entry) : Except Fault Value := reading e.tag e.text

/-- The values of lines with the given values. -/
def valuesOf : List Entry → List Value → List (Option Value)
  | e :: es, v :: vs => some (.text e.key) :: some v :: valuesOf es vs
  | _, _ => []

namespace Construct

variable {s : Construction} {tag : Tag} {n : Node} {whole : Bool}

theorem run_nodeAt (h : s.nodes[id]? = some n) : (nodeAt id).run s = .ok (n, s) := by
  refine (run_bind_of_ok (a := s) rfl).trans ?_
  rw [h]
  rfl

theorem run_read {β : Type} {text : Construct Text} (h : text.run s = .ok (t, s))
    (read : Text → Except Fault β) (f : β → Value) :
    (do let t ← text; let b ← (read t : Construct β); return f b : Construct Value).run s =
      ((read t).map f).map (·, s) := by
  rw [run_bind_of_ok h]
  cases hread : read t with
  | error e => rfl
  | ok b => rfl

/-- A scalar is read as its tag asks. -/
theorem run_scalar (h : s.nodes[id]? = some (.scalar tag t)) :
    (scalar tag id).run s = (reading tag t).map (·, s) := by
  have htext : (textOf (s.nodes.size + 1) id).run s = .ok (t, s) := by
    rw [textOf]
    exact (run_bind_of_ok (run_nodeAt h)).trans rfl
  refine (run_bind_of_ok (a := s) rfl).trans ?_
  dsimp only
  cases tag
  case bool => exact run_read htext Literal.flag .flag
  case int => exact run_read htext Literal.integer .integer
  case float => exact run_read htext Literal.decimal .decimal
  case binary => exact run_read htext Literal.bytes .bytes
  case moment => exact run_read htext Literal.moment fun _ => .moment
  case null => exact (run_bind_of_ok htext).trans rfl
  case str => exact (run_bind_of_ok htext).trans rfl
  all_goals rfl

/-- Whether the value of a scalar is made at once or later makes no difference. -/
theorem run_make (h : s.nodes[id]? = some (.scalar tag t)) (hnew : s.values[id]?.join = none)
    (hunderway : s.underway.contains id = false) (htag : emptyCollection? tag = none) :
    (make (fuel + 1) whole id).run s =
      (reading tag t).map fun v => ((), { s with values := s.values.setIfInBounds id (some v) }) := by
  have hvalue : (valueAt? id).run s = .ok (none, s) := by
    rw [← hnew]
    rfl
  rw [make]
  refine (run_bind_of_ok hvalue).trans ?_
  refine (run_bind_of_ok (a := s) rfl).trans ?_
  rw [hunderway]
  refine (run_bind_of_ok (run_nodeAt h)).trans ?_
  simp only [Node.tag, htag]
  cases hread : reading tag t with
  | error e => exact run_bind_of_error (by rw [run_scalar h, hread]; rfl)
  | ok v => exact (run_bind_of_ok (by rw [run_scalar h, hread]; rfl)).trans rfl

/-- Keys of mappings that are merged into no other. -/
def PlainKeys (s : Construction) (entries : List (Nat × Nat)) : Prop :=
  ∀ e ∈ entries, ∃ k, s.nodes[e.1]? = some (.scalar .str k)

/-- A mapping without merge keys stays as it is. -/
theorem run_flatten {entries : List (Nat × Nat)} (h : s.nodes[id]? = some (.mapping .map entries))
    (hkeys : PlainKeys s entries) : (flatten (fuel + 1) id).run s = .ok ((), s) := by
  have htags : ∀ e ∈ entries, s.nodes[e.1]?.map Node.tag = some .str := fun e he => by
    obtain ⟨k, hk⟩ := hkeys e he
    rw [hk]
    rfl
  have hown : (entries.filter fun e => s.nodes[e.1]?.map Node.tag != some .merge) = entries :=
    List.filter_eq_self.2 fun e he => by rw [htags e he]; rfl
  have hmerge : (entries.filter fun e => s.nodes[e.1]?.map Node.tag == some .merge) = [] :=
    List.filter_eq_nil_iff.2 fun e he => by rw [htags e he]; decide
  have htag : ((s.nodes[id]?.map Node.tag).getD .map) = .map := by
    rw [h]
    rfl
  have hentries : (entriesOf id).run s = .ok (entries, s) := run_bind_of_ok (run_nodeAt h)
  have hput : (putNode id (.mapping .map entries)).run s = .ok ((), s) := by
    have hsame : s.nodes.setIfInBounds id (.mapping .map entries) = s.nodes := by
      refine Array.ext_getElem? fun i => ?_
      rw [Array.getElem?_setIfInBounds]
      split
      · next hi =>
        subst hi
        rw [if_pos (Array.getElem?_eq_some_iff.1 h).1, h]
      · rfl
    have hstate : { s with nodes := s.nodes.setIfInBounds id (.mapping .map entries) } = s := by
      rw [hsame]
    exact congrArg (fun s => Except.ok ((), s)) hstate
  rw [flatten]
  refine (run_bind_of_ok hentries).trans ?_
  refine (run_bind_of_ok (a := s) rfl).trans ?_
  dsimp only
  rw [htag, hown, hmerge]
  refine (run_bind_of_ok hput).trans ?_
  refine (run_bind_of_ok (a := []) (r := s) rfl).trans ?_
  refine (run_bind_of_ok (a := PUnit.unit) (r := s) ?_).trans hput
  -- Only a key for a scalar would be put back, as an ordinary one.
  clear h hown hmerge htag hentries hput htags
  induction entries with
  | nil => rfl
  | cons e entries ih =>
    obtain ⟨⟨k, hk⟩, hkeys⟩ := List.forall_mem_cons.1 hkeys
    rw [List.forIn_cons]
    refine (run_bind_of_ok (a := ForInStep.yield PUnit.unit) (r := s) ?_).trans (ih hkeys)
    exact (run_bind_of_ok (run_nodeAt hk)).trans rfl

theorem emptyCollection?_ofPlain (t : Text) : emptyCollection? (Tag.ofPlain t) = none := by
  rw [Tag.ofPlain]
  repeat' split
  all_goals rfl

theorem emptyCollection?_tag (e : Entry) : emptyCollection? e.tag = none := by
  rw [Entry.tag, Assemble.scalarTag]
  split
  · exact emptyCollection?_ofPlain e.text
  · rfl

/-- To make a key and what is under it. -/
def makeEntry (fuel : Nat) (whole : Bool) (e : Nat × Nat) : Construct Unit := do
  make fuel true e.1
  if !((← valueAt? e.1).map Value.isKey).getD false then throw .malformed
  make fuel whole e.2

/-- Once its key is made, an entry is made as what is under it is. -/
theorem run_makeEntry {s' : Construction} {k n : Nat} {key : Text}
    (hkey : (make fuel true k).run s = .ok ((), s')) (hmade : s'.values[k]?.join = some (.text key)) :
    (makeEntry fuel whole (k, n)).run s = (make fuel whole n).run s' := by
  have hvalue : (valueAt? k).run s' = .ok (some (.text key), s') := by
    rw [← hmade]
    rfl
  rw [makeEntry]
  refine (run_bind_of_ok hkey).trans ?_
  exact (run_bind_of_ok hvalue).trans rfl

/-- The key and the value of a line are made after what has been made so far. -/
theorem run_line (e : Entry) (fuel : Nat) (whole : Bool) {before : List Node}
    {made : List (Option Value)} (hmade : made.length = before.length) (after : List Node)
    (blank : List (Option Value)) (w : List Nat) :
    (makeEntry (fuel + 1) whole (before.length, before.length + 1)).run
        ⟨(before ++ (e.nodes ++ after)).toArray, (made ++ none :: none :: blank).toArray, [], w⟩ =
      e.value.map fun v => ((), ⟨(before ++ (e.nodes ++ after)).toArray,
        (made ++ some (.text e.key) :: some v :: blank).toArray, [], w⟩) := by
  let N : Array Node := (before ++ (e.nodes ++ after)).toArray
  have hkey : N[before.length]? = some (.scalar .str e.key) := by simp [N, Entry.nodes]
  have hscalar : N[before.length + 1]? = some (.scalar e.tag e.text) := by simp [N, Entry.nodes]
  have hmakeKey : (make (fuel + 1) true before.length).run
      ⟨N, (made ++ none :: none :: blank).toArray, [], w⟩ =
        .ok ((), ⟨N, (made ++ some (.text e.key) :: none :: blank).toArray, [], w⟩) := by
    rw [run_make hkey (by simp [← hmade]) rfl rfl]
    simp [reading, Except.map, ← hmade]
  have hmadeKey : (made ++ some (.text e.key) :: none :: blank).toArray[before.length]?.join =
      some (.text e.key) := by simp [← hmade]
  have hmakeValue : (make (fuel + 1) whole (before.length + 1)).run
      ⟨N, (made ++ some (.text e.key) :: none :: blank).toArray, [], w⟩ = e.value.map fun v =>
        ((), ⟨N, (made ++ some (.text e.key) :: some v :: blank).toArray, [], w⟩) := by
    rw [run_make hscalar (by simp [← hmade]) rfl (emptyCollection?_tag e)]
    simp [Entry.value, ← hmade]
  exact (run_makeEntry hmakeKey hmadeKey).trans hmakeValue

/-- The keys and the values of lines are made one after the other, up to one that has no value. -/
theorem run_lines (es : List Entry) (fuel : Nat) (whole : Bool) (before : List Node)
    (made : List (Option Value)) (hmade : made.length = before.length) (w : List Nat) :
    ((pairsFrom before.length es.length).forM (makeEntry (fuel + 1) whole)).run
        ⟨(before ++ es.flatMap Entry.nodes).toArray,
          (made ++ List.replicate (2 * es.length) none).toArray, [], w⟩ =
      (es.mapM Entry.value).map fun vs => ((), ⟨(before ++ es.flatMap Entry.nodes).toArray,
        (made ++ valuesOf es vs).toArray, [], w⟩) := by
  induction es generalizing before made with
  | nil => rfl
  | cons e es ih =>
    let blank : List (Option Value) := List.replicate (2 * es.length) none
    have hblank : List.replicate (2 * (e :: es).length) (none : Option Value) =
        none :: none :: blank := by
      rw [List.length_cons, Nat.mul_add]
      rfl
    have hline := run_line e fuel whole hmade (es.flatMap Entry.nodes) blank w
    rw [hblank, List.mapM_cons, List.length_cons, pairsFrom, List.flatMap_cons]
    cases hv : e.value with
    | error f =>
      rw [hv] at hline
      exact (run_bind_of_error hline).trans rfl
    | ok v =>
      rw [hv] at hline
      refine (run_bind_of_ok hline).trans ?_
      have hrest := ih (before ++ e.nodes) (made ++ [some (.text e.key), some v])
        (by simp [hmade, Entry.nodes])
      have hlength : (before ++ e.nodes).length = before.length + 2 := by simp [Entry.nodes]
      rw [hlength, List.append_assoc, List.append_assoc, List.cons_append, List.cons_append,
        List.nil_append] at hrest
      refine hrest.trans ?_
      cases es.mapM Entry.value with
      | error f => rfl
      | ok vs => simp [Except.map, bind, Except.bind, pure, Except.pure, valuesOf]

/-- A mapping without merge keys is filled with what is made for its entries. -/
theorem run_fill {es : List (Nat × Nat)} (h : s.nodes[id]? = some (.mapping .map es))
    (hkeys : PlainKeys s es) : (fill (fuel + 2) whole id).run s =
      ((es.forM (makeEntry fuel whole)).run s).map fun r =>
        ((), { r.2 with values := r.2.values.setIfInBounds id (some (.table es)) }) := by
  have hentries : (entries (fuel + 1) whole id).run s =
      ((es.forM (makeEntry fuel whole)).run s).map fun r => (es, r.2) := by
    rw [entries]
    refine (run_bind_of_ok (a := s) rfl).trans ?_
    refine (run_bind_of_ok (run_flatten h hkeys)).trans ?_
    refine (run_bind_of_ok (run_bind_of_ok (run_nodeAt h))).trans ?_
    cases hmade : (es.forM (makeEntry fuel whole)).run s with
    | error f => exact run_bind_of_error hmade
    | ok r => exact run_bind_of_ok hmade
  rw [fill]
  refine (run_bind_of_ok (run_nodeAt h)).trans ?_
  cases hmade : (es.forM (makeEntry fuel whole)).run s with
  | error f =>
    rw [hmade] at hentries
    exact run_bind_of_error hentries
  | ok r =>
    rw [hmade] at hentries
    exact run_bind_of_ok hentries

/-- A mapping is put off. -/
theorem run_make_mapping {es : List (Nat × Nat)} (h : s.nodes[id]? = some (.mapping .map es))
    (hnew : s.values[id]?.join = none) (hunderway : s.underway.contains id = false) :
    (make (fuel + 1) false id).run s = .ok ((), { s with
      values := s.values.setIfInBounds id (some (.table []))
      waiting := s.waiting ++ [id] }) := by
  have hvalue : (valueAt? id).run s = .ok (none, s) := by
    rw [← hnew]
    rfl
  rw [make]
  refine (run_bind_of_ok hvalue).trans ?_
  refine (run_bind_of_ok (a := s) rfl).trans ?_
  rw [hunderway]
  exact (run_bind_of_ok (run_nodeAt h)).trans rfl

theorem run_fillWaiting {s' : Construction} {rest : List Nat} (hwaiting : s.waiting = id :: rest)
    (h : (fill fuel false id).run { s with waiting := rest } = .ok ((), s')) (n : Nat) :
    (fillWaiting fuel (n + 1)).run s = (fillWaiting fuel n).run s' := by
  rw [fillWaiting]
  refine (run_bind_of_ok (a := s) rfl).trans ?_
  rw [hwaiting]
  refine (run_bind_of_ok (a := ()) (r := { s with waiting := rest }) rfl).trans ?_
  exact run_bind_of_ok h

theorem run_fillWaiting_of_error {f : Fault} {rest : List Nat} (hwaiting : s.waiting = id :: rest)
    (h : (fill fuel false id).run { s with waiting := rest } = .error f) (n : Nat) :
    (fillWaiting fuel (n + 1)).run s = .error f := by
  rw [fillWaiting]
  refine (run_bind_of_ok (a := s) rfl).trans ?_
  rw [hwaiting]
  refine (run_bind_of_ok (a := ()) (r := { s with waiting := rest }) rfl).trans ?_
  exact run_bind_of_error h

theorem plainKeys_pairsFrom (before : List Node)
    (h : s.nodes = (before ++ es.flatMap Entry.nodes).toArray) :
    PlainKeys s (pairsFrom before.length es.length) := by
  induction es generalizing before with
  | nil => exact nofun
  | cons e es ih =>
    rw [List.length_cons, pairsFrom]
    refine List.forall_mem_cons.2 ⟨⟨e.key, by simp [h, Entry.nodes]⟩, ?_⟩
    have hlength : (before ++ e.nodes).length = before.length + 2 := by simp [Entry.nodes]
    rw [← hlength]
    exact ih (before ++ e.nodes) (by simpa using h)

end Construct

def sectionValues (title : Text) (es : List Entry) (vs : List Value) : List (Option Value) :=
  some (.table [(1, 2)]) :: some (.text title) :: some (.table (pairsFrom 3 es.length)) ::
    valuesOf es vs

namespace Construct

/-- A section whose lines are not made yet, with the values of its first three nodes. -/
def opened (title : Text) (es : List Entry) (root key lines : Option Value) (waiting : List Nat) :
    Construction :=
  ⟨(sectionNodes title es).toArray,
    (root :: key :: lines :: List.replicate (2 * es.length) none).toArray, [], waiting⟩

section

variable {root key lines : Option Value} {waiting : List Nat}

theorem opened_root :
    (opened title es root key lines waiting).nodes[0]? = some (.mapping .map [(1, 2)]) := rfl

theorem opened_title :
    (opened title es root key lines waiting).nodes[1]? = some (.scalar .str title) := rfl

theorem opened_lines : (opened title es root key lines waiting).nodes[2]? =
    some (.mapping .map (pairsFrom 3 es.length)) := rfl

end

theorem run_make_root (title : Text) (es : List Entry) (fuel : Nat) :
    (make (fuel + 1) false 0).run (opened title es none none none []) =
      .ok ((), opened title es (some (.table [])) none none [0]) := by
  rw [run_make_mapping opened_root rfl rfl]
  simp [opened]

/-- The title is made, and the mapping under it, which then waits. -/
theorem run_fill_root (title : Text) (es : List Entry) (fuel : Nat) :
    (fill (fuel + 3) false 0).run (opened title es (some (.table [])) none none []) =
      .ok ((), opened title es (some (.table [(1, 2)])) (some (.text title)) (some (.table [])) [2]) := by
  have htitle : (make (fuel + 1) true 1).run (opened title es (some (.table [])) none none []) =
      .ok ((), opened title es (some (.table [])) (some (.text title)) none []) := by
    rw [run_make opened_title rfl rfl rfl]
    simp [reading, Except.map, opened]
  have hlines : (make (fuel + 1) false 2).run
      (opened title es (some (.table [])) (some (.text title)) none []) =
        .ok ((), opened title es (some (.table [])) (some (.text title)) (some (.table [])) [2]) := by
    rw [run_make_mapping opened_lines rfl rfl]
    simp [opened]
  have hentry : ([(1, 2)].forM (makeEntry (fuel + 1) false)).run
      (opened title es (some (.table [])) none none []) =
        .ok ((), opened title es (some (.table [])) (some (.text title)) (some (.table [])) [2]) :=
    (run_bind_of_ok ((run_makeEntry htitle rfl).trans hlines)).trans rfl
  rw [run_fill opened_root (List.forall_mem_singleton.2 ⟨title, rfl⟩), hentry]
  simp [Except.map, opened]

theorem run_fill_lines (title : Text) (es : List Entry) (fuel : Nat) :
    (fill (fuel + 3) false 2).run
        (opened title es (some (.table [(1, 2)])) (some (.text title)) (some (.table [])) []) =
      (es.mapM Entry.value).map fun vs =>
        ((), ⟨(sectionNodes title es).toArray, (sectionValues title es vs).toArray, [], []⟩) := by
  let before : List Node :=
    [.mapping .map [(1, 2)], .scalar .str title, .mapping .map (pairsFrom 3 es.length)]
  have hrun := run_lines es fuel false before
    [some (.table [(1, 2)]), some (.text title), some (.table [])] rfl []
  rw [run_fill opened_lines (plainKeys_pairsFrom before rfl)]
  refine (congrArg (Except.map _) hrun).trans ?_
  cases es.mapM Entry.value with
  | error f => rfl
  | ok vs => simp [Except.map, sectionValues, sectionNodes, before]

end Construct

open Construct in
theorem ofGraph_sectionNodes (title : Text) (es : List Entry) :
    Document.ofGraph ⟨(sectionNodes title es).toArray, some 0⟩ =
      (es.mapM Entry.value).map fun vs => ⟨(sectionValues title es vs).toArray, .table [(1, 2)]⟩ := by
  let N : Array Node := (sectionNodes title es).toArray
  have hsize : N.size = 2 * es.length + 3 := by
    simp [N, sectionNodes, List.length_flatMap, Entry.nodes, List.map_const', Nat.mul_comm]
  have hstart : (⟨N, Array.replicate N.size none, [], []⟩ : Construction) =
      opened title es none none none [] := by
    rw [hsize]
    rfl
  have hfuel : 3 * N.size + 3 = 6 * es.length + 9 + 3 := by omega
  have hrounds : N.size + 1 = 2 * es.length + 2 + 1 + 1 := by omega
  rw [Document.ofGraph]
  dsimp only
  refine (return_of_eq (y := (es.mapM Entry.value).map fun vs =>
    (.table [(1, 2)], ⟨N, (sectionValues title es vs).toArray, [], []⟩)) ?_
      fun r : Value × Construction => (⟨r.2.values, r.1⟩ : Document)).trans ?_
  · change StateT.run _ (⟨N, Array.replicate N.size none, [], []⟩ : Construction) = _
    rw [hstart, hfuel, hrounds]
    refine (run_bind_of_ok (run_make_root title es _)).trans ?_
    have hroot := run_fill_root title es (6 * es.length + 9)
    have hlines := run_fill_lines title es (6 * es.length + 9)
    cases hvs : es.mapM Entry.value with
    | error f =>
      rw [hvs] at hlines
      refine run_bind_of_error ?_
      rw [run_fillWaiting rfl hroot]
      exact run_fillWaiting_of_error rfl hlines _
    | ok vs =>
      rw [hvs] at hlines
      refine (run_bind_of_ok (a := ())
        (r := ⟨N, (sectionValues title es vs).toArray, [], []⟩) ?_).trans rfl
      rw [run_fillWaiting rfl hroot, run_fillWaiting rfl hlines]
      rfl
  · cases es.mapM Entry.value <;> rfl

/-- The document of a section. -/
theorem document_sectionText (htitle : IsKey title) (hes : ∀ e ∈ es, e.IsSound) (hne : es ≠ []) :
    Document.ofText (sectionText title es) =
      (es.mapM Entry.value).map fun vs => ⟨(sectionValues title es vs).toArray, .table [(1, 2)]⟩ := by
  rw [Document.ofText, ofText_sectionText htitle hes hne, ← ofGraph_sectionNodes]
  rfl

end MarkTidy.Yaml
