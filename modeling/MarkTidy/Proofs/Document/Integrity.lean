import MarkTidy.Proofs.Document.Reworked

/-!
Protected regions come through a pass unchanged. The reworked body is made of gaps and all tokens in
order; the linted text has the same gaps and the fenced blocks in the places of the tokens.
-/

namespace MarkTidy

open Text Template

variable {w : Template Knot} {k : Nat} {cs gaps drawn : List Text}

/-- Words parted by gaps: a gap before each word and one after the last. -/
def weave : List Text → List Text → Text
  | [], _ => []
  | gap :: _, [] => gap
  | gap :: gaps, x :: xs => gap ++ x ++ weave gaps xs

/-- A template of blocks has one more gap than blocks, and they do not depend on what fills it. -/
theorem Numbers.exists_gaps (h : Numbers w k cs) : ∃ gaps : List Text, gaps.length = cs.length + 1 ∧
    ∀ σ : Knot → Text, σ .unclosed = Fence.mark →
      fill σ w = weave gaps ((Knot.numbered k cs).map σ) := by
  induction cs generalizing k w with
  | nil =>
    refine ⟨[fill (fun _ => Fence.mark) w], rfl, fun σ hσ => ?_⟩
    exact h.fill_of_nil (τ := fun _ => Fence.mark) hσ
  | cons c cs ih =>
    obtain ⟨t, v, rfl, hv⟩ := h.of_cons
    obtain ⟨gaps, hlen, hfill⟩ := ih hv
    refine ⟨t :: gaps, congrArg (· + 1) hlen, fun σ hσ => ?_⟩
    rw [fill_append, fill_ofText, fill_slot, hfill σ hσ, ← List.append_assoc]
    rfl

namespace Rules

/-- The fenced blocks stand in the linted text as they were, each once and in order, in the places
that their tokens have in the reworked body. No token is lost and none is left. -/
theorem lint_weave (r : Rules) (hdrawn : ∀ n ∈ drawn, IsNonce n) (d : Text) :
    let p := Protected.ofText drawn d
    ∃ gaps : List Text, gaps.length = p.blocks.length + 1 ∧
      r.rework p.body = weave gaps ((List.range p.blocks.length).map p.token) ∧
      (r.lint drawn d).text = p.front ++ weave gaps p.blocks ∧
      (∀ i, Protected.lostRecord i ∉ (r.lint drawn d).log) ∧
      occursIn (Fence.tokenStem p.nonce) (weave gaps p.blocks) = false := by
  obtain ⟨front, nonce, cs, w, hd⟩ := exists_shape hdrawn d
  obtain ⟨v, hr⟩ := exists_reworked r hd.weaves
  obtain ⟨gaps, hlen, hfill⟩ := hr.after.slots.exists_gaps
  have hsource := hfill Knot.source rfl
  have htoken := hfill (Knot.token nonce) rfl
  rw [Knot.map_source_numbered] at hsource
  rw [Knot.map_token_numbered, ← List.range_eq_range'] at htoken
  intro p
  have hp : p = _ := hd.protected_eq
  refine ⟨gaps, by simpa [hp] using hlen, ?_, ?_, ?_, ?_⟩
  · rw [hp, List.length_map, hr.rework_token hd.hex, htoken]
    rfl
  · rw [hd.text_lint hr, hp, hsource]
  · intro i hi
    exact Level.noConfusion (hd.level_of_mem_log hr _ hi)
  · rw [hp, ← hsource, occursIn_eq_false_iff]
    exact hr.free hd.hex hd.free

/-- Text next to a token may look like the end of another one. -/
theorem lint_weave_sample :
    let nonce := "00000000000000ff".toList
    let d := Fence.fenced ['b'] ++ "MYLINT-CODE-00000000000000ff-1%% \n\n\n".toList ++
      Fence.fenced ['c']
    (∀ n ∈ [nonce], IsNonce n) ∧
      ∃ gaps : List Text, gaps.length = 3 ∧
        Fence.token nonce 0 ++ "MYLINT-CODE-00000000000000ff-1%%\n\n".toList ++
          Fence.token nonce 1 = weave gaps [Fence.token nonce 0, Fence.token nonce 1] ∧
        (lint {} [nonce] d).text = weave gaps [Fence.fenced ['b'], Fence.fenced ['c']] := by
  intro nonce d
  have hdrawn : ∀ n ∈ [nonce], IsNonce n := by
    intro n hn
    rw [List.mem_singleton.1 hn]
    exact ⟨rfl, by decide⟩
  -- A literal would be decoded anew at each evaluation, its characters stand as they are.
  have hchars : "MYLINT-CODE-00000000000000ff-1%% \n\n\n".toList = _ := String.toList_ofList
  have hp : Protected.ofText [nonce] d = ⟨[], Fence.token nonce 0 ++
      "MYLINT-CODE-00000000000000ff-1%% \n\n\n".toList ++ Fence.token nonce 1,
      [Fence.fenced ['b'], Fence.fenced ['c']], nonce⟩ := by
    simp only [d]
    rw [hchars]
    decide
  have hx : rework {} (Fence.token nonce 0 ++ "MYLINT-CODE-00000000000000ff-1%% \n\n\n".toList ++
      Fence.token nonce 1) = Fence.token nonce 0 ++
      "MYLINT-CODE-00000000000000ff-1%%\n\n".toList ++ Fence.token nonce 1 := by
    rw [hchars]
    decide +kernel
  obtain ⟨gaps, hlen, hbody, htext, -, -⟩ := lint_weave {} hdrawn d
  rw [hp] at hlen hbody htext
  rw [hx] at hbody
  exact ⟨hdrawn, gaps, hlen, hbody, htext⟩

end Rules

end MarkTidy
