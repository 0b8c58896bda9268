import MarkTidy.Proofs.Document.Parametric
import MarkTidy.Proofs.Document.Restore

/-!
The pass over a document, template by template. The rules take the template of a body to another
template with the same slots, and the linted body is that template filled with the blocks.
-/

namespace MarkTidy

open Text Template

variable {r : Rules} {w v : Template Knot} {k : Nat} {cs drawn : List Text} {d nonce front : Text}

theorem plain_mark : Plain Fence.mark where
  ne_nil := Fence.mark_ne_nil
  dollar := by decide
  feed := by decide

/-- Two templates with the same blocks are filled alike with blocks exactly if they are filled alike
with tokens of a nonce that is free in both bodies. -/
theorem fill_token_inj (hw : Weaves w 0 cs) (hv : Weaves v 0 cs) (hn : nonce ⊆ hexDigits)
    (hfw : ¬Fence.tokenStem nonce <:+: fill Knot.source w)
    (hfv : ¬Fence.tokenStem nonce <:+: fill Knot.source v) :
    fill (Knot.token nonce) v = fill (Knot.token nonce) w ↔
      fill Knot.source v = fill Knot.source w := by
  constructor
  · intro h
    have hrestore := hv.slots.restoreFrom_fill hn hfv
    rw [h, hw.slots.restoreFrom_fill hn hfw] at hrestore
    exact (Prod.mk.inj hrestore).1.symm
  · intro h
    have hsplit := Protected.ofSplit_fill hv nonce []
    rw [h, Protected.ofSplit_fill hw nonce []] at hsplit
    exact (congrArg Protected.body hsplit).symm

/-- The template of a body and the one that the rules take it to. -/
structure Reworked (r : Rules) (cs : List Text) (w v : Template Knot) : Prop where
  before : Weaves w 0 cs
  after : Weaves v 0 cs
  slots : slots v = slots w
  rework : ∀ σ : Knot → Text, (∀ b, Solid (σ b)) → r.rework (fill σ w) = fill σ v

theorem exists_reworked (r : Rules) (h : Weaves w 0 cs) : ∃ v, Reworked r cs w v := by
  obtain ⟨v, hv, hrework⟩ := parametric_rework r Knot w
  have hstub := hrework Knot.stub Knot.solid_stub
  -- A fence in a gap of `v` would be one in a gap of `w`, for reworking adds none.
  have hgaps : ¬Fence.mark <:+: fill Knot.stub v := by
    intro hmark
    rw [← hstub] at hmark
    have horder := r.inOrder_of_rework (by simpa using plain_mark) (inOrder_singleton.2 hmark)
    exact h.gaps (inOrder_singleton.1 horder)
  have hslots : Numbers v 0 cs := by
    have hw := h.slots
    rwa [Numbers, ← hv] at hw
  exact ⟨v, h, ⟨hslots, hgaps, h.contents⟩, hv, hrework⟩

namespace Reworked

theorem rework_token (h : Reworked r cs w v) (hn : nonce ⊆ hexDigits) :
    r.rework (fill (Knot.token nonce) w) = fill (Knot.token nonce) v :=
  h.rework _ (Knot.solid_token hn)

/-- A nonce that is free in a body is free in the linted body. -/
theorem free (h : Reworked r cs w v) (hn : nonce ⊆ hexDigits)
    (hfree : ¬Fence.tokenStem nonce <:+: fill Knot.source w) :
    ¬Fence.tokenStem nonce <:+: fill Knot.source v := by
  have hne := Fence.tokenStem_ne_nil nonce
  have hq := backquote_not_mem_tokenStem hn
  have hseam := h.rework Knot.seam Knot.solid_seam
  obtain ⟨hgaps, hblocks⟩ := not_or.1 ((infix_fill_source_iff (a := []) hne hq).not.1 hfree)
  intro hinf
  -- A new stem would lie in a gap, where reworking makes no words, or in a block, which is old.
  rcases (infix_fill_source_iff (a := []) hne hq).1 hinf with hgap | hblock
  · rw [List.nil_append, ← hseam] at hgap
    have hplain := plain_tokenStem hn
    have horder := r.inOrder_of_rework (by simpa using hplain) (inOrder_singleton.2 hgap)
    exact hgaps (inOrder_singleton.1 horder)
  · rw [h.slots] at hblock
    exact hblocks hblock

end Reworked

/-- A document by the template of its body, with the nonce that protects it. -/
structure Shape (drawn : List Text) (d front nonce : Text) (cs : List Text) (w : Template Knot) :
    Prop where
  split : Frontmatter.split d = ⟨front, fill Knot.source w⟩
  weaves : Weaves w 0 cs
  nonce_eq : nonce = Fence.chooseNonce drawn (fill Knot.source w)
  hex : nonce ⊆ hexDigits
  free : ¬Fence.tokenStem nonce <:+: fill Knot.source w

theorem Shape.of_split (hdrawn : ∀ n ∈ drawn, IsNonce n)
    (hsplit : Frontmatter.split d = ⟨front, fill Knot.source w⟩) (hw : Weaves w 0 cs) :
    Shape drawn d front (Fence.chooseNonce drawn (fill Knot.source w)) cs w := by
  obtain ⟨hfree, hhex⟩ := Fence.chooseNonce_spec hdrawn (fill Knot.source w)
  exact ⟨hsplit, hw, rfl, hhex, Fence.isFree_iff.1 hfree⟩

theorem exists_shape (hdrawn : ∀ n ∈ drawn, IsNonce n) (d : Text) :
    ∃ front nonce cs w, Shape drawn d front nonce cs w := by
  obtain ⟨w, cs, hw, hbody⟩ := exists_weaves_eq (Frontmatter.split d).body
  exact ⟨_, _, cs, w, .of_split hdrawn (by rw [hbody]) hw⟩

namespace Shape

theorem protected_eq (h : Shape drawn d front nonce cs w) : Protected.ofText drawn d =
    ⟨front, fill (Knot.token nonce) w, cs.map Fence.fenced, nonce⟩ := by
  rw [Protected.ofText, h.split, h.nonce_eq]
  exact Protected.ofSplit_fill h.weaves _ front

theorem restore_rework (h : Shape drawn d front nonce cs w) (hr : Reworked r cs w v) :
    (Protected.ofText drawn d).restore (r.rework (Protected.ofText drawn d).body) =
      (fill Knot.source v, []) := by
  rw [h.protected_eq, Protected.restore, hr.rework_token h.hex]
  exact hr.after.slots.restoreFrom_fill h.hex (hr.free h.hex h.free)

/-- The linted text: the frontmatter as it was and the reworked template with the blocks. -/
theorem text_lint (h : Shape drawn d front nonce cs w) (hr : Reworked r cs w v) :
    (r.lint drawn d).text = front ++ fill Knot.source v := by
  rw [Rules.lint, h.restore_rework hr, h.protected_eq]

/-- A pass has nothing to warn of. -/
theorem level_of_mem_log (h : Shape drawn d front nonce cs w) (hr : Reworked r cs w v) :
    ∀ e ∈ (r.lint drawn d).log, e.level = .debug := by
  intro e he
  rw [Rules.lint, h.restore_rework hr] at he
  rcases List.mem_cons.1 he with rfl | he
  · rfl
  · rw [List.mem_singleton.1 he]

end Shape

end MarkTidy
