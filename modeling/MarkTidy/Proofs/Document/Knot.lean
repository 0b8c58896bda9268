import MarkTidy.Document.Fence
import MarkTidy.Proofs.Document.Template

/-!
The template of a body with fenced blocks. Its slots are the blocks in order, and last the opening
fence that nothing closes, if there is one; no gap between the slots has a fence. The body and its
protected form are this template filled in two ways, and every such template is one of a body.
-/

namespace MarkTidy

open Text Template

/-- What fills a slot: a numbered block with its content, or a fence that opens no block. -/
inductive Knot where
  | block (index : Nat) (content : Text)
  | unclosed
deriving DecidableEq, Repr

namespace Fence

/-- A block with its fences. -/
def fenced (content : Text) : Text := mark ++ content ++ mark

theorem mark_ne_nil : mark ≠ [] := nofun

end Fence

namespace Knot

/-- A block as `f` writes it from its number and its content; an unclosed fence stays. -/
def write (f : Nat → Text → Text) : Knot → Text
  | block index content => f index content
  | unclosed => Fence.mark

def source : Knot → Text := write fun _ => Fence.fenced

def token (nonce : Text) : Knot → Text := write fun index _ => Fence.token nonce index

/-- Two backquotes and another character: the longest stretch of a fence that a gap may come
before. -/
def stub (_ : Knot) : Text := ['\x60', '\x60', '%']

/-- Blocks with these contents, numbered from `k` on. -/
def numbered (k : Nat) : List Text → List Knot
  | [] => []
  | c :: cs => block k c :: numbered (k + 1) cs

theorem map_source_numbered (k : Nat) (cs : List Text) :
    (numbered k cs).map source = cs.map Fence.fenced := by
  induction cs generalizing k with
  | nil => rfl
  | cons c cs ih => exact congrArg (Fence.fenced c :: ·) (ih (k + 1))

theorem map_token_numbered (nonce : Text) (k : Nat) (cs : List Text) :
    (numbered k cs).map (token nonce) = (List.range' k cs.length).map (Fence.token nonce) := by
  induction cs generalizing k with
  | nil => rfl
  | cons c cs ih => exact congrArg (Fence.token nonce k :: ·) (ih (k + 1))

end Knot

theorem mark_infix_append_stub {t r : Text} :
    Fence.mark <:+: t ++ (Knot.stub .unclosed ++ r) ↔
      Fence.mark <:+: t ++ Fence.mark.dropLast ∨ Fence.mark <:+: r := by
  have h : t ++ (Knot.stub .unclosed ++ r) = (t ++ Fence.mark.dropLast) ++ '%' :: r := by
    simp [Knot.stub, Fence.mark]
  rw [h, infix_append_cons (by decide)]

/-- The slots are blocks with these contents, numbered from `k` on, and perhaps an unclosed
fence. -/
def Numbers (w : Template Knot) (k : Nat) (cs : List Text) : Prop :=
  slots w = Knot.numbered k cs ∨ slots w = Knot.numbered k cs ++ [.unclosed]

/-- A template of a body with blocks of these contents. -/
structure Weaves (w : Template Knot) (k : Nat) (cs : List Text) : Prop where
  slots : Numbers w k cs
  gaps : ¬Fence.mark <:+: fill Knot.stub w
  contents : ∀ c ∈ cs, ¬Fence.mark <:+: c ++ Fence.mark.dropLast

variable {w v : Template Knot} {k : Nat} {c t : Text} {cs : List Text}

theorem Numbers.of_cons (h : Numbers w k (c :: cs)) :
    ∃ t v, w = ofText t ++ .slot (.block k c) :: v ∧ Numbers v (k + 1) cs := by
  rcases h with hs | hs
  · obtain ⟨t, v, rfl, hv⟩ := exists_first_slot hs
    exact ⟨t, v, rfl, .inl hv⟩
  · obtain ⟨t, v, rfl, hv⟩ := exists_first_slot hs
    exact ⟨t, v, rfl, .inr hv⟩

/-- Without blocks there is only the unclosed fence to fill in. -/
theorem Numbers.fill_of_nil (h : Numbers w k []) {σ τ : Knot → Text}
    (hσ : σ .unclosed = τ .unclosed) : fill σ w = fill τ w := by
  apply fill_congr
  intro b hb
  rcases h with hs | hs
  · simp [hs, Knot.numbered] at hb
  · obtain rfl : b = .unclosed := by simpa [hs, Knot.numbered] using hb
    exact hσ

/-- A template with a block starts with a gap, the block, and a template of the other blocks. -/
theorem Weaves.of_cons (h : Weaves w k (c :: cs)) : ∃ t v, w = ofText t ++ .slot (.block k c) :: v ∧
    ¬Fence.mark <:+: t ++ Fence.mark.dropLast ∧ Weaves v (k + 1) cs := by
  obtain ⟨hc, hcs⟩ := List.forall_mem_cons.1 h.contents
  obtain ⟨t, v, rfl, hv⟩ := h.slots.of_cons
  have hgaps := h.gaps
  rw [fill_append, fill_ofText, fill_slot] at hgaps
  obtain ⟨ht, hrest⟩ := not_or.1 (mark_infix_append_stub.not.1 hgaps)
  exact ⟨t, v, rfl, ht, hv, hrest, hcs⟩

theorem Weaves.cons (ht : ¬Fence.mark <:+: t ++ Fence.mark.dropLast)
    (hc : ¬Fence.mark <:+: c ++ Fence.mark.dropLast) (h : Weaves w (k + 1) cs) :
    Weaves (ofText t ++ .slot (.block k c) :: w) k (c :: cs) := by
  refine ⟨?_, ?_, List.forall_mem_cons.2 ⟨hc, h.contents⟩⟩
  · rcases h.slots with hs | hs <;> simp [Numbers, Template.slots, Knot.numbered, hs]
  · rw [fill_append, fill_ofText, fill_slot]
    exact mark_infix_append_stub.not.2 (not_or.2 ⟨ht, h.gaps⟩)

/-- A template without blocks has at most the unclosed fence. -/
theorem Weaves.of_nil (h : Weaves w k []) :
    (∃ t, w = ofText t ∧ ¬Fence.mark <:+: t) ∨
      ∃ t u, w = ofText t ++ .slot .unclosed :: ofText u ∧
        ¬Fence.mark <:+: t ++ Fence.mark.dropLast ∧ ¬Fence.mark <:+: u := by
  have hgaps := h.gaps
  rcases h.slots with hs | hs
  · obtain ⟨t, rfl⟩ := eq_ofText_of_slots_eq_nil hs
    exact .inl ⟨t, rfl, by simpa using hgaps⟩
  · obtain ⟨t, v, rfl, hv⟩ := exists_first_slot hs
    obtain ⟨u, rfl⟩ := eq_ofText_of_slots_eq_nil hv
    rw [fill_append, fill_ofText, fill_slot, fill_ofText] at hgaps
    exact .inr ⟨t, u, rfl, not_or.1 (mark_infix_append_stub.not.1 hgaps)⟩

/-- What follows an unclosed fence has no fence, so there is no block. -/
theorem not_inOrder_mark {u : Text} (ht : ¬Fence.mark <:+: t ++ Fence.mark.dropLast)
    (hu : ¬Fence.mark <:+: u) : ¬InOrder [Fence.mark, Fence.mark] (t ++ Fence.mark ++ u) := by
  rw [inOrder_pair_iff Fence.mark_ne_nil]
  rintro ⟨a, b, hb, hinf⟩
  rw [(breakOn_eq_some_iff Fence.mark_ne_nil).2 ⟨rfl, ht⟩] at hb
  obtain ⟨-, rfl⟩ := Prod.mk.inj (Option.some.inj hb)
  exact hu hinf

/-- The filled template, cut at its fences, gives back its blocks and gaps. -/
theorem Weaves.exists_spans (h : Weaves w k cs) : ∃ s : Spans,
    s.Leftmost Fence.delimiters ∧ s.contents = cs ∧
      ∀ f : Nat → Text → Text, s.renderIdx (fun i => f (k + i)) = fill (Knot.write f) w := by
  -- Block by block: the gap before a block and its content are the first span.
  induction cs generalizing k w with
  | nil =>
    rcases h.of_nil with ⟨t, rfl, ht⟩ | ⟨t, u, rfl, ht, hu⟩
    · refine ⟨⟨[], t⟩, ⟨by simp, by simp, fun hpair => ht ?_⟩, rfl, fun f => by simp⟩
      obtain ⟨a, b, hb, -⟩ := (inOrder_pair_iff Fence.mark_ne_nil).1 hpair
      exact ⟨a, b, (eq_append_of_breakOn hb).symm⟩
    · have hleft : Spans.Leftmost Fence.delimiters ⟨[], t ++ Fence.mark ++ u⟩ :=
        ⟨by simp, by simp, not_inOrder_mark ht hu⟩
      exact ⟨_, hleft, rfl, fun f => by simp [Knot.write]⟩
  | cons c cs ih =>
    obtain ⟨t, v, rfl, ht, hv⟩ := h.of_cons
    obtain ⟨⟨parts, rest⟩, hleft, rfl, hrender⟩ := ih hv
    have hc := h.contents c List.mem_cons_self
    refine ⟨⟨(t, c) :: parts, rest⟩, ⟨List.forall_mem_cons.2 ⟨ht, hleft.before⟩,
      List.forall_mem_cons.2 ⟨hc, hleft.content⟩, hleft.rest⟩, rfl, fun f => ?_⟩
    rw [Spans.renderIdx_cons, fill_append, fill_ofText, fill_slot, ← hrender f]
    simp only [Knot.write, Nat.add_zero, List.append_assoc, Nat.add_assoc, Nat.add_comm 1]

/-- Leftmost spans are the blocks of a template. -/
theorem exists_weaves {s : Spans} (h : s.Leftmost Fence.delimiters) (k : Nat) :
    ∃ w, Weaves w k s.contents ∧
      ∀ f : Nat → Text → Text, fill (Knot.write f) w = s.renderIdx fun i => f (k + i) := by
  obtain ⟨parts, rest⟩ := s
  induction parts generalizing k with
  | nil =>
    -- What is left may have one more fence, which opens no block.
    by_cases hmark : Fence.mark <:+: rest
    · obtain ⟨⟨t, u⟩, hb⟩ := Option.isSome_iff_exists.1 (occursIn_iff.2 hmark)
      obtain ⟨rfl, ht⟩ := (breakOn_eq_some_iff Fence.mark_ne_nil).1 hb
      have hu : ¬Fence.mark <:+: u :=
        fun hinf => h.rest ((inOrder_pair_iff Fence.mark_ne_nil).2 ⟨t, u, hb, hinf⟩)
      refine ⟨ofText t ++ .slot .unclosed :: ofText u, ⟨.inr ?_, ?_, by simp [Spans.contents]⟩, ?_⟩
      · simp [Template.slots, Spans.contents, Knot.numbered]
      · rw [fill_append, fill_ofText, fill_slot, fill_ofText]
        exact mark_infix_append_stub.not.2 (not_or.2 ⟨ht, hu⟩)
      · simp [Knot.write]
    · exact ⟨ofText rest, ⟨.inl (by simp [Spans.contents, Knot.numbered]), by simpa using hmark,
        by simp [Spans.contents]⟩, fun f => by simp⟩
  | cons p ps ih =>
    obtain ⟨hb, hbs⟩ := List.forall_mem_cons.1 h.before
    obtain ⟨hc, hcs⟩ := List.forall_mem_cons.1 h.content
    obtain ⟨w, hw, hfill⟩ := ih (k := k + 1) ⟨hbs, hcs, h.rest⟩
    refine ⟨_, hw.cons hb hc, fun f => ?_⟩
    rw [Spans.renderIdx_cons, fill_append, fill_ofText, fill_slot, hfill f]
    simp only [Knot.write, Nat.add_zero, List.append_assoc, Nat.add_assoc, Nat.add_comm 1]

end MarkTidy
