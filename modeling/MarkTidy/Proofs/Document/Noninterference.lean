import MarkTidy.Proofs.Document.Reworked

/-!
The random draw does not show. Two passes over one document work on one template, whatever nonces
they draw and however many of them the document rejects, so they give the same text, the same
verdict and the same records.
-/

namespace MarkTidy

open Text Template

variable {r : Rules} {w v : Template Knot} {cs drawn drawn' : List Text}
  {d front nonce nonce' : Text}

namespace Shape

/-- The template of a document does not depend on the draw. -/
theorem redraw (h : Shape drawn d front nonce cs w) (hdrawn' : ∀ n ∈ drawn', IsNonce n) :
    Shape drawn' d front (Fence.chooseNonce drawn' (fill Knot.source w)) cs w :=
  .of_split hdrawn' h.split h.weaves

theorem record_ofText (h : Shape drawn d front nonce cs w)
    (h' : Shape drawn' d front nonce' cs w) :
    (Protected.ofText drawn d).record = (Protected.ofText drawn' d).record := by
  rw [h.protected_eq, h'.protected_eq]
  rfl

end Shape

namespace Rules

theorem text_lint_congr (r : Rules) (hdrawn : ∀ n ∈ drawn, IsNonce n)
    (hdrawn' : ∀ n ∈ drawn', IsNonce n) (d : Text) :
    (r.lint drawn d).text = (r.lint drawn' d).text := by
  obtain ⟨front, nonce, cs, w, hd⟩ := exists_shape hdrawn d
  obtain ⟨v, hr⟩ := exists_reworked r hd.weaves
  exact (hd.text_lint hr).trans ((hd.redraw hdrawn').text_lint hr).symm

/-- Passes over a document that draw different nonces have the same outcome. -/
theorem lint_noninterference (r : Rules) (drawn drawn' : List Text)
    (hdrawn : ∀ n ∈ drawn, IsNonce n) (hdrawn' : ∀ n ∈ drawn', IsNonce n) (d : Text) :
    r.lint drawn d = r.lint drawn' d := by
  obtain ⟨front, nonce, cs, w, hd⟩ := exists_shape hdrawn d
  have hd' := hd.redraw hdrawn'
  obtain ⟨v, hr⟩ := exists_reworked r hd.weaves
  have htext := r.text_lint_congr hdrawn hdrawn' d
  -- Neither pass loses a token, so the texts and the first records are all there is to compare.
  have hlost : ((Protected.ofText drawn d).restore (r.rework (Protected.ofText drawn d).body)).2 =
      ((Protected.ofText drawn' d).restore (r.rework (Protected.ofText drawn' d).body)).2 := by
    rw [hd.restore_rework hr, hd'.restore_rework hr]
  dsimp only [lint] at htext ⊢
  rw [htext, hlost, hd.record_ofText hd']

/-- The document holds the stem of the nonce that the first pass draws first. -/
theorem lint_noninterference_sample :
    let nonce := "00000000000000ff".toList
    let drawn := [nonce, "00000000000000ab".toList]
    let d := "%%MYLINT-CODE-00000000000000ff-0%%\n\x60\x60\x60- a\n\n- b\x60\x60\x60\n# T".toList
    (∀ n ∈ drawn, IsNonce n) ∧ (∀ n ∈ ([] : List Text), IsNonce n) ∧
      Fence.isFree d nonce = false ∧
      (Protected.ofText drawn d).nonce ≠ (Protected.ofText [] d).nonce ∧
      lint {} drawn d = lint {} [] d := by
  intro nonce drawn d
  have hdrawn : ∀ n ∈ drawn, IsNonce n :=
    List.forall_mem_cons.2 ⟨⟨rfl, by decide⟩, List.forall_mem_singleton.2 ⟨rfl, by decide⟩⟩
  have hnone : ∀ n ∈ ([] : List Text), IsNonce n := by simp
  have hchars : d = _ := String.toList_ofList
  have hfree : Fence.isFree d nonce = false := by
    rw [hchars]
    decide
  have hnonces : (Protected.ofText drawn d).nonce ≠ (Protected.ofText [] d).nonce := by
    rw [hchars]
    decide
  exact ⟨hdrawn, hnone, hfree, hnonces, lint_noninterference {} drawn [] hdrawn hnone d⟩

end Rules

end MarkTidy
