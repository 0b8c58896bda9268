import MarkTidy.Yaml.Value

/-!
Where faults come from. To put nodes together, and to make values of them, fails because the text
breaks a rule, because its tokens end in a fault, or because a scalar cannot be read as its tag asks.
-/

namespace MarkTidy.Yaml

/-! ### Actions that may fail -/

section

variable {σ α β : Type} {P : σ → Prop} {E : Fault → Prop} {Q : α → Prop} {S : β → Prop}

/-- The action keeps `P` of the state. It gives a value with `Q`, or fails with a fault of `E`. -/
def Keeps (P : σ → Prop) (E : Fault → Prop) (x : StateT σ (Except Fault) α) (Q : α → Prop) : Prop :=
  ∀ s, P s → match x.run s with
    | .ok (a, s') => Q a ∧ P s'
    | .error f => E f

namespace Keeps

variable {x : StateT σ (Except Fault) α} {f : α → StateT σ (Except Fault) β}

theorem pure {a : α} (h : Q a) : Keeps P E (pure a) Q := fun _ hs => ⟨h, hs⟩

theorem throw {e : Fault} (h : E e) : Keeps P E (throw e : StateT σ (Except Fault) α) Q :=
  fun _ _ => h

theorem throw_bind {e : Fault} (h : E e) : Keeps P E (MonadExcept.throw e >>= f) S := fun _ _ => h

theorem bind (hx : Keeps P E x Q) (hf : ∀ a, Q a → Keeps P E (f a) S) : Keeps P E (x >>= f) S := by
  intro s hs
  have h := hx s hs
  rw [StateT.run_bind]
  cases hrun : x.run s with
  | error e =>
    rw [hrun] at h
    exact h
  | ok r =>
    rw [hrun] at h
    exact hf r.1 h.1 r.2 h.2

theorem of_error {s : σ} {f : Fault} (hx : Keeps P E x Q) (hs : P s) (h : x.run s = .error f) :
    E f := by
  have hxs := hx s hs
  rwa [h] at hxs

theorem get : Keeps P E (get : StateT σ (Except Fault) σ) P := fun _ hs => ⟨hs, hs⟩

theorem set {s : σ} (h : P s) : Keeps P E (set s : StateT σ (Except Fault) PUnit) fun _ => True :=
  fun _ _ => ⟨trivial, h⟩

theorem modify {g : σ → σ} (h : ∀ s, P s → P (g s)) :
    Keeps P E (modify g : StateT σ (Except Fault) PUnit) fun _ => True :=
  fun s hs => ⟨trivial, h s hs⟩

theorem lift {y : Except Fault α} (hok : ∀ a, y = .ok a → Q a) (herror : ∀ e, y = .error e → E e) :
    Keeps P E (monadLift y : StateT σ (Except Fault) α) Q := by
  intro s hs
  cases y with
  | error e => exact herror e rfl
  | ok a => exact ⟨hok a rfl, hs⟩

theorem forM {l : List α} {g : α → StateT σ (Except Fault) PUnit}
    (h : ∀ a ∈ l, Keeps P E (g a) fun _ => True) : Keeps P E (l.forM g) fun _ => True := by
  induction l with
  | nil => exact pure trivial
  | cons a l ih =>
    obtain ⟨ha, hl⟩ := List.forall_mem_cons.1 h
    exact ha.bind fun _ _ => ih hl

theorem mapM {l : List α} (h : ∀ a ∈ l, Keeps P E (f a) S) :
    Keeps P E (l.mapM f) fun bs => ∀ b ∈ bs, S b := by
  induction l with
  | nil => exact pure (by simp)
  | cons a l ih =>
    obtain ⟨ha, hl⟩ := List.forall_mem_cons.1 h
    rw [List.mapM_cons]
    exact ha.bind fun b hb => (ih hl).bind fun bs hbs => pure (List.forall_mem_cons.2 ⟨hb, hbs⟩)

theorem forIn {l : List α} {b : β} {g : α → β → StateT σ (Except Fault) (ForInStep β)}
    (h : ∀ a ∈ l, ∀ b, Keeps P E (g a b) fun _ => True) : Keeps P E (forIn l b g) fun _ => True := by
  induction l generalizing b with
  | nil => exact pure trivial
  | cons a l ih =>
    obtain ⟨ha, hl⟩ := List.forall_mem_cons.1 h
    rw [List.forIn_cons]
    refine (ha b).bind fun r _ => ?_
    cases r with
    | done b => exact pure trivial
    | yield b => exact ih hl

end Keeps

theorem error_of_return {x : Except Fault α} {g : α → β} {e : Fault}
    (h : (do return g (← x)) = Except.error e) : x = .error e := by
  cases x with
  | error e' =>
    cases h
    rfl
  | ok a => cases h

end

/-! ### Nodes -/

namespace Assemble

variable {F : Option Fault} {α : Type}

/-- The action fails only because a rule is broken, or with the fault that the tokens end in. -/
def Sound (F : Option Fault) (x : Assemble α) : Prop :=
  Keeps (fun s => s.fault = F) (fun f => f = .malformed ∨ F = some f) x fun _ => True

theorem sound_malformed : Sound F (throw .malformed : Assemble α) := .throw (.inl rfl)

theorem sound_peek : Sound F peek := by
  refine .bind .get fun s hs => .bind .get fun s' hs' => ?_
  split
  · exact .pure trivial
  · exact .pure trivial
  · next f hf => exact .throw (.inr (hs'.symm.trans hf))

theorem sound_drop : Sound F drop := .modify fun _ hs => hs

theorem sound_nextIn (ts : List Token) : Sound F (nextIn ts) := sound_peek.bind fun _ _ => .pure trivial

theorem sound_accept (t : Token) : Sound F (accept t) := by
  refine (sound_nextIn [t]).bind fun b _ => ?_
  cases b with
  | false => exact .pure trivial
  | true => exact sound_drop.bind fun _ _ => .pure trivial

theorem sound_expect (t : Token) : Sound F (expect t) := by
  refine (sound_accept t).bind fun b _ => ?_
  cases b with
  | false => exact sound_malformed
  | true => exact .pure trivial

theorem sound_fullTag (handle : Option Text) (suffix : Text) : Sound F (fullTag handle suffix) := by
  cases handle with
  | none => exact .pure trivial
  | some h =>
    refine .bind .get fun s _ => ?_
    split
    · exact .pure trivial
    · exact sound_malformed

theorem sound_anchor? : Sound F anchor? := by
  refine sound_peek.bind fun t _ => ?_
  split
  · exact sound_drop.bind fun _ _ => .pure trivial
  · exact .pure trivial

theorem sound_tag? : Sound F tag? := by
  refine sound_peek.bind fun t _ => ?_
  split
  · exact sound_drop.bind fun _ _ => (sound_fullTag _ _).bind fun _ _ => .pure trivial
  · exact .pure trivial

theorem sound_properties : Sound F properties := by
  refine sound_anchor?.bind fun name _ => ?_
  cases name with
  | some name => exact sound_tag?.bind fun _ _ => .pure trivial
  | none =>
    refine sound_tag?.bind fun tag _ => ?_
    cases tag with
    | some tag => exact sound_anchor?.bind fun _ _ => .pure trivial
    | none => exact .pure trivial

theorem sound_malformed_bind {β : Type} {f : α → Assemble β} :
    Sound F (throw .malformed >>= f) := .throw_bind (.inl rfl)

theorem sound_add (name : Option Text) (n : Node) : Sound F (add name n) := by
  refine .bind .get fun s hs => ?_
  cases name with
  | none => exact .bind (.set hs) fun _ _ => .pure trivial
  | some a =>
    dsimp only
    split
    · exact sound_malformed_bind
    · exact .bind (.set hs) fun _ _ => .pure trivial

theorem sound_put (id : Nat) (n : Node) : Sound F (put id n) := .modify fun _ hs => hs

theorem sound_empty : Sound F empty := sound_add _ _

theorem sound_sequence {name tag : Option Text} {items : Assemble (List Nat)}
    (h : Sound F items) : Sound F (sequence name tag items) :=
  (sound_add _ _).bind fun _ _ => h.bind fun _ _ => (sound_put _ _).bind fun _ _ => .pure trivial

theorem sound_mapping {name tag : Option Text} {entries : Assemble (List (Nat × Nat))}
    (h : Sound F entries) : Sound F (mapping name tag entries) :=
  (sound_add _ _).bind fun _ _ => h.bind fun _ _ => (sound_put _ _).bind fun _ _ => .pure trivial

/-- One of two actions, and then the same in either case. -/
theorem sound_either {β : Type} {b : Bool} {x y : Assemble α} {f : α → Assemble β} (hx : Sound F x)
    (hy : Sound F y) (hf : ∀ a, Sound F (f a)) :
    Sound F (if b = true then x >>= f else y >>= f) := by
  split
  · exact hx.bind fun a _ => hf a
  · exact hy.bind fun a _ => hf a

/-- The readers of nodes are sound with so much fuel. -/
structure SoundAt (F : Option Fault) (fuel : Nat) : Prop where
  node : ∀ position, Sound F (node fuel position)
  blockItems : Sound F (blockItems fuel)
  entryItems : Sound F (entryItems fuel)
  blockEntries : Sound F (blockEntries fuel)
  pair : ∀ position afterKey afterValue, Sound F (pair fuel position afterKey afterValue)
  flowItems : ∀ first, Sound F (flowItems fuel first)
  flowEntries : ∀ first, Sound F (flowEntries fuel first)

namespace SoundAt

variable {fuel : Nat}

theorem zero : SoundAt F 0 :=
  ⟨fun _ => sound_malformed, sound_malformed, sound_malformed, sound_malformed,
    fun _ _ _ => sound_malformed, fun _ => sound_malformed, fun _ => sound_malformed⟩

theorem node_succ (h : SoundAt F fuel) (position : Position) :
    Sound F (Assemble.node (fuel + 1) position) := by
  rw [Assemble.node]
  refine sound_peek.bind fun t _ => ?_
  split
  · refine sound_drop.bind fun _ _ => .bind .get fun s _ => ?_
    split
    · exact .pure trivial
    · exact sound_malformed
  · refine sound_properties.bind fun r _ => sound_peek.bind fun t _ => ?_
    obtain ⟨name, tag⟩ := r
    dsimp only
    split
    · exact sound_drop.bind fun _ _ => sound_add _ _
    · exact sound_drop.bind fun _ _ => sound_sequence (h.flowItems true)
    · exact sound_drop.bind fun _ _ => sound_mapping (h.flowEntries true)
    · exact sound_drop.bind fun _ _ => sound_sequence h.blockItems
    · exact sound_drop.bind fun _ _ => sound_sequence h.blockItems
    · exact sound_drop.bind fun _ _ => sound_mapping h.blockEntries
    · exact sound_drop.bind fun _ _ => sound_mapping h.blockEntries
    · exact sound_sequence h.entryItems
    · split
      · exact sound_malformed
      · exact sound_add _ _

theorem blockItems_succ (h : SoundAt F fuel) : Sound F (Assemble.blockItems (fuel + 1)) := by
  rw [Assemble.blockItems]
  refine (sound_accept _).bind fun b _ => ?_
  split
  · refine (sound_nextIn _).bind fun b _ => sound_either sound_empty (h.node _) fun item => ?_
    exact h.blockItems.bind fun _ _ => .pure trivial
  · exact (sound_expect _).bind fun _ _ => .pure trivial

theorem entryItems_succ (h : SoundAt F fuel) : Sound F (Assemble.entryItems (fuel + 1)) := by
  rw [Assemble.entryItems]
  refine (sound_accept _).bind fun b _ => ?_
  split
  · refine (sound_nextIn _).bind fun b _ => sound_either sound_empty (h.node _) fun item => ?_
    exact h.entryItems.bind fun _ _ => .pure trivial
  · exact .pure trivial

theorem blockEntries_succ (h : SoundAt F fuel) : Sound F (Assemble.blockEntries (fuel + 1)) := by
  rw [Assemble.blockEntries]
  refine (sound_accept _).bind fun b _ => ?_
  split
  · refine (h.pair _ _ _).bind fun e _ => h.blockEntries.bind fun _ _ => .pure trivial
  · exact (sound_expect _).bind fun _ _ => .pure trivial

theorem pair_succ (h : SoundAt F fuel) (position : Position) (afterKey afterValue : List Token) :
    Sound F (Assemble.pair (fuel + 1) position afterKey afterValue) := by
  rw [Assemble.pair]
  refine (sound_nextIn _).bind fun b _ => sound_either sound_empty (h.node _) fun key => ?_
  refine (sound_accept _).bind fun b _ => ?_
  split
  · exact (sound_nextIn _).bind fun b _ => sound_either sound_empty (h.node _) fun _ => .pure trivial
  · exact sound_empty.bind fun _ _ => .pure trivial

/-- A separator that is asked for, unless this is the first part. -/
theorem sound_separated {β : Type} {first : Bool} {f : PUnit → Assemble β}
    (hf : Sound F (f ())) :
    Sound F (if (!first) = true then expect .flowEntry >>= f else f ()) := by
  split
  · exact (sound_expect _).bind fun _ _ => hf
  · exact hf

theorem flowItems_succ (h : SoundAt F fuel) (first : Bool) :
    Sound F (Assemble.flowItems (fuel + 1) first) := by
  rw [Assemble.flowItems]
  refine (sound_accept _).bind fun b _ => ?_
  split
  · exact .pure trivial
  · refine sound_separated ((sound_accept _).bind fun b _ => ?_)
    split
    · exact .pure trivial
    · refine (sound_accept _).bind fun b _ => sound_either (sound_mapping ?_) (h.node _) fun item => ?_
      · exact (h.pair _ _ _).bind fun _ _ => .pure trivial
      · exact (h.flowItems _).bind fun _ _ => .pure trivial

theorem flowEntries_succ (h : SoundAt F fuel) (first : Bool) :
    Sound F (Assemble.flowEntries (fuel + 1) first) := by
  rw [Assemble.flowEntries]
  refine (sound_accept _).bind fun b _ => ?_
  split
  · exact .pure trivial
  · refine sound_separated ((sound_accept _).bind fun b _ => ?_)
    split
    · exact .pure trivial
    · have rest (e : Nat × Nat) : Sound F (do return e :: (← Assemble.flowEntries fuel false)) :=
        (h.flowEntries _).bind fun _ _ => .pure trivial
      refine (sound_accept _).bind fun b _ => ?_
      split
      · exact (h.pair _ _ _).bind fun e _ => rest e
      · exact (h.node _).bind fun key _ => sound_empty.bind fun e _ => rest (key, e)

theorem succ (h : SoundAt F fuel) : SoundAt F (fuel + 1) :=
  ⟨h.node_succ, h.blockItems_succ, h.entryItems_succ, h.blockEntries_succ, h.pair_succ,
    h.flowItems_succ, h.flowEntries_succ⟩

theorem all (F : Option Fault) (fuel : Nat) : SoundAt F fuel := by
  induction fuel with
  | zero => exact zero
  | succ fuel ih => exact ih.succ

end SoundAt

theorem sound_directives (fuel : Nat) (versioned : Bool) : Sound F (directives fuel versioned) := by
  induction fuel generalizing versioned with
  | zero => exact sound_malformed
  | succ fuel ih =>
    rw [directives]
    refine sound_peek.bind fun t _ => ?_
    split
    · split
      · exact sound_malformed_bind
      · exact sound_drop.bind fun _ _ => ih _
    · refine .bind .get fun s _ => ?_
      split
      · exact sound_malformed_bind
      · exact .bind (.modify fun _ hs => hs) fun _ _ => sound_drop.bind fun _ _ => ih _
    · exact sound_drop.bind fun _ _ => ih _
    · exact .modify fun _ hs => hs

theorem sound_skipDocumentEnds (fuel : Nat) : Sound F (skipDocumentEnds fuel) := by
  induction fuel with
  | zero => exact .pure trivial
  | succ fuel ih =>
    rw [skipDocumentEnds]
    refine (sound_accept _).bind fun b _ => ?_
    split
    · exact ih
    · exact .pure trivial

theorem sound_atDocumentEdge : Sound F atDocumentEdge := by
  refine sound_peek.bind fun t _ => ?_
  split <;> exact .pure trivial

theorem sound_document (fuel : Nat) : Sound F (document fuel) := by
  have rest (root : Nat) : Sound F (do
      skipDocumentEnds fuel
      if (← peek).isSome then throw .malformed
      return some root) := by
    refine (sound_skipDocumentEnds _).bind fun _ _ => sound_peek.bind fun t _ => ?_
    split
    · exact sound_malformed_bind
    · exact .pure trivial
  refine sound_peek.bind fun t _ => ?_
  split
  · exact .pure trivial
  · exact sound_malformed
  · refine sound_atDocumentEdge.bind fun b _ => ?_
    split
    · refine (sound_directives _ _).bind fun _ _ => (sound_expect _).bind fun _ _ => ?_
      refine sound_atDocumentEdge.bind fun b _ => ?_
      exact sound_either sound_empty ((SoundAt.all _ _).node _) rest
    · exact .bind (.modify fun _ hs => hs) fun _ _ => ((SoundAt.all _ _).node _).bind fun e _ => rest e

end Assemble

/-- A text has no nodes only because it breaks a rule, or because of a fault that its tokens end in. -/
theorem Graph.fault_of_ofText {t : Text} {f : Fault} (h : Graph.ofText t = .error f) :
    f = .malformed ∨ (tokens t).2 = some f := by
  rw [Graph.ofText] at h
  generalize tokens t = r at h ⊢
  obtain ⟨ts, fault⟩ := r
  exact (Assemble.sound_document _).of_error (s := { tokens := ts, fault }) rfl
    (error_of_return (g := fun r => (⟨r.2.nodes, r.1⟩ : Graph)) h)

/-! ### Values -/

/-- What is wrong with the text of a scalar, for the value that a tag asks for. -/
def Tag.Refuses : Tag → Text → Fault → Prop
  | bool, t, f => Literal.flag t = .error f
  | int, t, f => Literal.integer t = .error f
  | float, t, f => Literal.decimal t = .error f
  | binary, t, f => Literal.bytes t = .error f
  | moment, t, f => Literal.moment t = .error f
  | _, _, _ => False

/-- A scalar's text cannot be read as a tag in the graph asks. The tag is its own, or that of a mapping
which has it as a scalar. -/
def Graph.HasFault (g : Graph) (f : Fault) : Prop :=
  ∃ n ∈ g.nodes, ∃ tag t, .scalar tag t ∈ g.nodes ∧ n.tag.Refuses t f

namespace Construct

variable {g : Graph} {α β : Type} {Q : α → Prop} {S : β → Prop}

/-- The tag is one of the graph, unless it is one that refuses nothing. -/
def TagFrom (g : Graph) (tag : Tag) : Prop := ∀ t f, tag.Refuses t f → ∃ n ∈ g.nodes, n.tag = tag

def TextFrom (g : Graph) (t : Text) : Prop := ∃ tag, .scalar tag t ∈ g.nodes

/-- The tag of the node, and its text if it is a scalar, come from the graph. -/
def NodeFrom (g : Graph) (n : Node) : Prop :=
  TagFrom g n.tag ∧ ∀ tag t, n = .scalar tag t → TextFrom g t

/-- The action fails only because a rule is broken, or with a fault of a scalar. -/
def Sound (g : Graph) (x : Construct α) (Q : α → Prop) : Prop :=
  Keeps (fun s => ∀ n ∈ s.nodes, NodeFrom g n) (fun f => f = .malformed ∨ g.HasFault f) x Q

theorem nodeFrom_of_mem {n : Node} (h : n ∈ g.nodes) : NodeFrom g n :=
  ⟨fun _ _ _ => ⟨n, h, rfl⟩, fun tag _ hn => ⟨tag, hn ▸ h⟩⟩

theorem sound_malformed : Sound g (throw .malformed : Construct α) Q := .throw (.inl rfl)

theorem sound_malformed_bind {f : α → Construct β} : Sound g (throw .malformed >>= f) S :=
  .throw_bind (.inl rfl)

theorem sound_nodeAt (id : Nat) : Sound g (nodeAt id) (NodeFrom g) := by
  refine .bind .get fun s hs => ?_
  split
  · next n hn => exact .pure (hs n (Array.mem_of_getElem? hn))
  · exact sound_malformed

theorem sound_valueAt? (id : Nat) : Sound g (valueAt? id) fun _ => True :=
  .bind .get fun _ _ => .pure trivial

theorem sound_put (id : Nat) (v : Value) : Sound g (put id v) fun _ => True := .modify fun _ hs => hs

theorem sound_putNode {n : Node} (id : Nat) (h : NodeFrom g n) : Sound g (putNode id n) fun _ => True :=
  .modify fun _ hs m hm => (Array.mem_or_eq_of_mem_setIfInBounds hm).elim (hs m) fun hmn => hmn ▸ h

theorem sound_textOf (fuel id : Nat) : Sound g (textOf fuel id) (TextFrom g) := by
  induction fuel generalizing id with
  | zero => exact sound_malformed
  | succ fuel ih =>
    rw [textOf]
    refine (sound_nodeAt id).bind fun n hn => ?_
    split
    · exact .pure (hn.2 _ _ rfl)
    · exact sound_malformed
    · refine .bind .get fun s _ => ?_
      dsimp only
      split
      · exact ih _
      · exact sound_malformed

/-- A text that is read as its tag asks. -/
theorem sound_read {tag : Tag} {text : Construct Text} {read : Text → Except Fault β} {f : β → Value}
    (htag : TagFrom g tag) (htext : Sound g text (TextFrom g))
    (hread : ∀ t e, read t = .error e → tag.Refuses t e) :
    Sound g (do let t ← text; let b ← (read t : Construct β); return f b) fun _ => True := by
  refine htext.bind fun t ht => .bind (.lift (Q := fun _ => True) (fun _ _ => trivial) fun e he => ?_)
    fun _ _ => .pure trivial
  obtain ⟨n, hn, rfl⟩ := htag t e (hread t e he)
  obtain ⟨tag, ht⟩ := ht
  exact .inr ⟨n, hn, tag, t, ht, hread t e he⟩

theorem sound_scalar {tag : Tag} (id : Nat) (htag : TagFrom g tag) :
    Sound g (scalar tag id) fun _ => True := by
  refine .bind .get fun s _ => ?_
  have text := sound_textOf (g := g) (s.nodes.size + 1) id
  dsimp only
  split
  · exact text.bind fun _ _ => .pure trivial
  · exact sound_read htag text fun _ _ h => h
  · exact sound_read htag text fun _ _ h => h
  · exact sound_read htag text fun _ _ h => h
  · exact sound_read htag text fun _ _ h => h
  · exact sound_read htag text fun _ _ h => h
  · exact text.bind fun _ _ => .pure trivial
  · exact sound_malformed

theorem sound_entriesOf (id : Nat) : Sound g (entriesOf id) fun _ => True := by
  refine (sound_nodeAt id).bind fun n _ => ?_
  split
  · exact .pure trivial
  · exact sound_malformed

theorem nodeFrom_mapping {tag : Tag} (h : TagFrom g tag) (entries : List (Nat × Nat)) :
    NodeFrom g (.mapping tag entries) := ⟨h, fun _ _ hn => nomatch hn⟩

theorem tagFrom_getD {nodes : Array Node} (h : ∀ n ∈ nodes, NodeFrom g n) (id : Nat) :
    TagFrom g ((nodes[id]?.map Node.tag).getD .map) := by
  cases hn : nodes[id]? with
  | none => exact fun _ _ hr => False.elim hr
  | some n => exact (h n (Array.mem_of_getElem? hn)).1

theorem sound_flatten (fuel id : Nat) : Sound g (flatten fuel id) fun _ => True := by
  induction fuel generalizing id with
  | zero => exact sound_malformed
  | succ fuel ih =>
    rw [flatten]
    refine (sound_entriesOf id).bind fun all _ => .bind .get fun s hs => ?_
    dsimp only
    have htag := tagFrom_getD hs id
    refine (sound_putNode id (nodeFrom_mapping htag _)).bind fun _ _ => ?_
    refine Keeps.bind (Keeps.mapM (S := fun _ => True) fun e _ => ?_) fun merged _ => ?_
    · refine (sound_nodeAt _).bind fun n _ => ?_
      split
      · exact (ih _).bind fun _ _ => sound_entriesOf _
      · refine Keeps.bind (Keeps.mapM (S := fun _ => True) fun item _ => ?_) fun _ _ => .pure trivial
        exact (sound_entriesOf _).bind fun _ _ => (ih _).bind fun _ _ => sound_entriesOf _
      · exact sound_malformed
    · refine Keeps.bind (Q := fun _ => True) (.forIn fun e _ _ => ?_)
        fun _ _ => sound_putNode id (nodeFrom_mapping htag _)
      refine (sound_nodeAt _).bind fun n hn => ?_
      split
      · next t =>
        refine (sound_putNode (n := .scalar .str t) _ ⟨fun _ _ hr => False.elim hr, ?_⟩).bind
          fun _ _ => .pure trivial
        rintro _ _ ⟨⟩
        exact hn.2 _ _ rfl
      · exact .pure trivial

/-- The makers of values are sound with so much fuel. -/
structure SoundAt (g : Graph) (fuel : Nat) : Prop where
  make : ∀ whole id, Sound g (make fuel whole id) fun _ => True
  fill : ∀ whole id, Sound g (fill fuel whole id) fun _ => True
  entries : ∀ whole id, Sound g (entries fuel whole id) fun _ => True

namespace SoundAt

variable {fuel : Nat}

theorem zero : SoundAt g 0 :=
  ⟨fun _ _ => sound_malformed, fun _ _ => sound_malformed, fun _ _ => sound_malformed⟩

theorem make_succ (h : SoundAt g fuel) (whole : Bool) (id : Nat) :
    Sound g (Construct.make (fuel + 1) whole id) fun _ => True := by
  rw [Construct.make]
  refine (sound_valueAt? id).bind fun v _ => ?_
  split
  · exact .pure trivial
  · refine .bind .get fun s _ => ?_
    dsimp only
    split
    · exact sound_malformed_bind
    · refine (sound_nodeAt id).bind fun n hn => ?_
      split
      · exact (sound_scalar id hn.1).bind fun _ _ => sound_put _ _
      · split
        · exact .bind .get fun _ _ => .bind (.modify fun _ hs => hs) fun _ _ =>
            (h.fill _ _).bind fun _ _ => .modify fun _ hs => hs
        · exact (sound_put _ _).bind fun _ _ => .modify fun _ hs => hs

theorem fill_succ (h : SoundAt g fuel) (whole : Bool) (id : Nat) :
    Sound g (Construct.fill (fuel + 1) whole id) fun _ => True := by
  rw [Construct.fill]
  refine (sound_nodeAt id).bind fun n _ => ?_
  split
  case h_1 => exact .bind (.forM fun item _ => h.make _ _) fun _ _ => sound_put _ _
  case h_2 | h_3 => exact (h.entries _ _).bind fun _ _ => sound_put _ _
  case h_4 | h_5 =>
    refine Keeps.bind (Keeps.mapM (S := fun _ => True) fun item _ => ?_) fun _ _ => sound_put _ _
    refine (sound_entriesOf _).bind fun es _ => ?_
    obtain _ | ⟨e, _ | ⟨e', es⟩⟩ := es
    · exact sound_malformed
    · exact (h.make _ _).bind fun _ _ => (h.make _ _).bind fun _ _ => .pure trivial
    · exact sound_malformed
  case h_6 => exact sound_malformed

theorem entries_succ (h : SoundAt g fuel) (whole : Bool) (id : Nat) :
    Sound g (Construct.entries (fuel + 1) whole id) fun _ => True := by
  rw [Construct.entries]
  refine .bind .get fun s _ => (sound_flatten _ _).bind fun _ _ =>
    (sound_entriesOf _).bind fun all _ => ?_
  refine .bind (.forM fun e _ => ?_) fun _ _ => .pure trivial
  refine (h.make _ _).bind fun _ _ => (sound_valueAt? _).bind fun v _ => ?_
  split
  · exact sound_malformed_bind
  · exact h.make _ _

theorem all (g : Graph) (fuel : Nat) : SoundAt g fuel := by
  induction fuel with
  | zero => exact zero
  | succ fuel ih => exact ⟨ih.make_succ, ih.fill_succ, ih.entries_succ⟩

end SoundAt

theorem sound_fillWaiting (fuel n : Nat) : Sound g (fillWaiting fuel n) fun _ => True := by
  induction n with
  | zero => exact .pure trivial
  | succ n ih =>
    rw [fillWaiting]
    refine .bind .get fun s _ => ?_
    split
    · exact .pure trivial
    · exact .bind (.modify fun _ hs => hs) fun _ _ =>
        ((SoundAt.all g fuel).fill _ _).bind fun _ _ => ih

end Construct

/-- Nodes have no values only because they break a rule, or because of a fault of a scalar. -/
theorem Document.fault_of_ofGraph {g : Graph} {f : Fault} (h : Document.ofGraph g = .error f) :
    f = .malformed ∨ g.HasFault f := by
  rw [Document.ofGraph] at h
  split at h
  · cases h
  · next root _ =>
    have herror := error_of_return
      (g := fun r : Value × Construction => (⟨r.2.values, r.1⟩ : Document)) h
    refine Keeps.of_error (P := fun s => ∀ n ∈ s.nodes, Construct.NodeFrom g n)
      (E := fun f => f = .malformed ∨ g.HasFault f) (Q := fun _ => True) ?_
      (fun n hn => Construct.nodeFrom_of_mem hn) herror
    refine ((Construct.SoundAt.all g _).make _ _).bind fun _ _ =>
      (Construct.sound_fillWaiting _ _).bind fun _ _ =>
        (Construct.sound_valueAt? _).bind fun v _ => ?_
    cases v with
    | none => exact Construct.sound_malformed
    | some v => exact .pure trivial

/-- A text has no value because it breaks a rule, because its tokens end in a fault, or because one of
its scalars cannot be read. -/
theorem Document.fault_of_ofText {t : Text} {f : Fault} (h : Document.ofText t = .error f) :
    f = .malformed ∨ (tokens t).2 = some f ∨ ∃ g, Graph.ofText t = .ok g ∧ g.HasFault f := by
  rw [Document.ofText] at h
  cases hg : Graph.ofText t with
  | error e =>
    rw [hg] at h
    cases h
    exact (Graph.fault_of_ofText hg).imp_right .inl
  | ok g =>
    rw [hg] at h
    exact (Document.fault_of_ofGraph h).imp_right fun hf => .inr ⟨g, rfl, hf⟩

end MarkTidy.Yaml
