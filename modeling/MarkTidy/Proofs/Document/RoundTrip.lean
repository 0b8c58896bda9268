import MarkTidy.Proofs.Document.Frontmatter
import MarkTidy.Proofs.Document.Reworked

/-!
Taking the blocks out and putting them back. The two are inverse on every document, the blocks are
the leftmost spans between fences, and where they have been taken out no span is left.
-/

namespace MarkTidy

open Text Template

variable {w : Template Knot} {k : Nat} {cs drawn : List Text} {nonce : Text}

theorem backquote_not_mem_token (hn : nonce ⊆ hexDigits) (i : Nat) :
    '\x60' ∉ Fence.token nonce i := by
  intro h
  exact not_written_of_mem_tokenAlphabet _ (token_subset hn i h) (by decide)

/-- Between the tokens there is at most one fence, the one that opens no block. -/
theorem Weaves.not_inOrder_fill_token (h : Weaves w k cs) (hn : nonce ⊆ hexDigits) :
    ¬InOrder [Fence.mark, Fence.mark] (fill (Knot.token nonce) w) := by
  induction cs generalizing k w with
  | nil =>
    rcases h.of_nil with ⟨t, rfl, ht⟩ | ⟨t, u, rfl, ht, hu⟩
    · intro hpair
      obtain ⟨a, b, hb, -⟩ := (inOrder_pair_iff Fence.mark_ne_nil).1 hpair
      rw [fill_ofText] at hb
      exact ht ⟨a, b, (eq_append_of_breakOn hb).symm⟩
    · rw [fill_append, fill_ofText, fill_slot, fill_ofText, ← List.append_assoc]
      exact not_inOrder_mark ht hu
  | cons c cs ih =>
    obtain ⟨t, v, rfl, ht, hv⟩ := h.of_cons
    have hbefore : ¬Fence.mark <:+: t := by
      intro hinf
      exact ht (hinf.trans (List.prefix_append t _).isInfix)
    -- A token has no backquote, so a pair of fences would lie on one side of it.
    have htoken : ∀ m ∈ [Fence.mark, Fence.mark], ∀ c ∈ Fence.token nonce k, c ∉ m := by
      intro m hm c hc hcm
      have hmark : m = Fence.mark := by simpa using hm
      have hquote : c = '\x60' := by
        rw [hmark] at hcm
        simpa [Fence.mark] using hcm
      exact backquote_not_mem_token hn k (hquote ▸ hc)
    have hnonempty : Fence.token nonce k ≠ [] := by
      have h := Fence.tokenStem_ne_nil nonce
      simp [Fence.token, h]
    intro hpair
    rw [fill_append, fill_ofText, fill_slot] at hpair
    apply ih hv
    exact hpair.of_append_stretch (by simp [Fence.mark_ne_nil]) htoken hnonempty hbefore

namespace Rules

theorem reworked_off (h : Weaves w 0 cs) : Reworked ⟨false, false⟩ cs w w :=
  ⟨h, h, rfl, fun _ _ => rfl⟩

/-- Protection loses nothing. What it takes out are the leftmost spans between fences, it leaves no
such span, and a pass with no rule on changes nothing. -/
theorem restore_ofText (drawn : List Text) (hdrawn : ∀ n ∈ drawn, IsNonce n) (d : Text) :
    let p := Protected.ofText drawn d
    let body := (Frontmatter.split d).body
    (p.front ++ (p.restore p.body).1 = d ∧ (p.restore p.body).2 = []) ∧
      (lint ⟨false, false⟩ drawn d).text = d ∧ (lint ⟨false, false⟩ drawn d).changed = false ∧
      p.front ++ body = d ∧
      (∃ s : Spans, s.Leftmost Fence.delimiters ∧ s.source Fence.delimiters = body) ∧
      (∀ s : Spans, s.Leftmost Fence.delimiters → s.source Fence.delimiters = body →
        p.blocks = s.contents.map Fence.fenced) ∧
      ¬InOrder [Fence.mark, Fence.mark] p.body := by
  obtain ⟨front, nonce, cs, w, hd⟩ := exists_shape hdrawn d
  have hr := reworked_off hd.weaves
  have hsplit := Frontmatter.eq_append_of_split hd.split
  have hrestore := hd.restore_rework hr
  have htext : (lint ⟨false, false⟩ drawn d).text = d := by rw [hd.text_lint hr, ← hsplit]
  intro p body
  have hp : p = _ := hd.protected_eq
  have hbody : body = fill Knot.source w := congrArg Frontmatter.Split.body hd.split
  have hleftmost : (Spans.cut Fence.delimiters body).Leftmost Fence.delimiters :=
    Spans.leftmost_cut Fence.mark_ne_nil Fence.mark_ne_nil body
  refine ⟨⟨?_, congrArg Prod.snd hrestore⟩, htext, ?_, ?_, ⟨_, hleftmost, Spans.render_cut _ _⟩,
    ?_, ?_⟩
  · calc p.front ++ (p.restore p.body).1 = p.front ++ fill Knot.source w :=
          congrArg (p.front ++ ·) (congrArg Prod.fst hrestore)
      _ = d := by rw [hp, ← hsplit]
  · exact decide_eq_false (not_not_intro htext)
  · rw [hp, hbody, ← hsplit]
  · intro s hs hsource
    have hcut := Spans.cut_source Fence.mark_ne_nil Fence.mark_ne_nil hs
    rw [hsource] at hcut
    rw [← hcut]
    rfl
  · rw [hp]
    exact hd.weaves.not_inOrder_fill_token hd.hex

/-- Four backquotes in a row, text that looks like a token with the drawn nonce, the end of a token
right after a block, and a fence that nothing closes. -/
theorem restore_ofText_sample :
    let nonce := "00000000000000ff".toList
    let body := "\x60\x60\x60\x60a\x60\x60\x60\x60%%MYLINT-CODE-00000000000000ff-0%%\n".toList ++
      "\x60\x60\x60b\x60\x60\x60MYLINT-CODE-0000000000000000-1%%\x60\x60\x60c".toList
    let d := "---\n---\n".toList ++ body
    let p := Protected.ofText [nonce] d
    (∀ n ∈ [nonce], IsNonce n) ∧ p.nonce ≠ nonce ∧ (Frontmatter.split d).body = body ∧
      p.blocks = [Fence.fenced "\x60a".toList, Fence.fenced ['b']] ∧
      p.front ++ (p.restore p.body).1 = d ∧ ¬InOrder [Fence.mark, Fence.mark] p.body := by
  intro nonce body d p
  have hdrawn : ∀ n ∈ [nonce], IsNonce n := by
    intro n hn
    rw [List.mem_singleton.1 hn]
    exact ⟨rfl, by decide⟩
  -- A literal would be decoded anew at each evaluation, its characters stand as they are.
  have hchars : body = _ ++ _ := congrArg₂ (· ++ ·) String.toList_ofList String.toList_ofList
  have hd : d = "---\n---\n".toList ++ _ := congrArg ("---\n---\n".toList ++ ·) hchars
  have hbody : (Frontmatter.split d).body = body := by
    rw [hd, hchars]
    decide
  have hcontents : (Spans.cut Fence.delimiters body).contents = ["\x60a".toList, ['b']] := by
    rw [hchars]
    decide
  have hnonce : p.nonce ≠ nonce := by
    simp only [p]
    rw [hd]
    decide
  have hleftmost : (Spans.cut Fence.delimiters body).Leftmost Fence.delimiters :=
    Spans.leftmost_cut Fence.mark_ne_nil Fence.mark_ne_nil body
  obtain ⟨⟨hrestore, -⟩, -, -, -, -, hblocks, hrest⟩ := restore_ofText [nonce] hdrawn d
  have hcut := hblocks _ hleftmost ((Spans.render_cut _ _).trans hbody.symm)
  rw [hcontents] at hcut
  exact ⟨hdrawn, hnonce, hbody, hcut, hrestore, hrest⟩

end Rules

end MarkTidy
