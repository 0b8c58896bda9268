import MarkTidy.Proofs.Document.Frontmatter
import MarkTidy.Proofs.Document.Reworked
import MarkTidy.Proofs.Document.Spaced

/-!
Documents that a pass leaves as they are. With both rules on these are the documents whose body,
fenced blocks aside, has no math to rewrite, is trimmed, and has well-spaced lines.
-/

namespace MarkTidy

open Text Template

variable {b : Text}

/-- A body that both rules leave as it is. -/
structure Settled (b : Text) : Prop where
  math : ∀ k, ¬Math.HasSpan k b
  trimmed : trim b = b
  lines : WellSpaced (splitAtChar '\n' b)

theorem rework_eq_self_iff : Rules.rework ⟨true, true⟩ b = b ↔ Settled b := by
  constructor
  · intro h
    have h : Layout.normalize (Math.rewrite b) = b := h
    -- A rewritten span takes backslashes away that spacing cannot bring back.
    have hmath : ∀ k, ¬Math.HasSpan k b := by
      intro k hspan
      have hlt := Math.count_rewrite_lt hspan
      have hle := Layout.count_normalize_le (Math.rewrite b)
      rw [h] at hle
      omega
    rw [Math.rewrite_of_not_hasSpan hmath] at h
    obtain ⟨htrim, hlines⟩ := Layout.normalize_eq_self_iff.1 h
    exact ⟨hmath, htrim, hlines⟩
  · intro h
    have hrewrite := Math.rewrite_of_not_hasSpan h.math
    change Layout.normalize (Math.rewrite b) = b
    rw [hrewrite]
    exact Layout.normalize_eq_self_iff.2 ⟨h.trimmed, h.lines⟩

namespace Rules

/-- A pass leaves a document as it is exactly if it leaves the protected body as it is. -/
theorem text_lint_eq_self_iff (r : Rules) {drawn : List Text} (hdrawn : ∀ n ∈ drawn, IsNonce n)
    (d : Text) : (r.lint drawn d).text = d ↔
      r.rework (Protected.ofText drawn d).body = (Protected.ofText drawn d).body := by
  obtain ⟨front, nonce, cs, w, hd⟩ := exists_shape hdrawn d
  obtain ⟨v, hr⟩ := exists_reworked r hd.weaves
  have hsplit := Frontmatter.eq_append_of_split hd.split
  have hfree := hr.free hd.hex hd.free
  have hbody : (Protected.ofText drawn d).body = fill (Knot.token nonce) w := by
    rw [hd.protected_eq]
  calc (r.lint drawn d).text = d
      ↔ front ++ fill Knot.source v = front ++ fill Knot.source w := by
        rw [hd.text_lint hr, ← hsplit]
    _ ↔ fill Knot.source v = fill Knot.source w := List.append_right_inj front
    _ ↔ fill (Knot.token nonce) v = fill (Knot.token nonce) w :=
        (fill_token_inj hr.before hr.after hd.hex hd.free hfree).symm
    _ ↔ _ := by rw [hbody, hr.rework_token hd.hex]

/-- A pass with both rules on reports no change exactly if the protected body is settled. -/
theorem changed_lint_eq_false_iff (drawn : List Text) (hdrawn : ∀ n ∈ drawn, IsNonce n) (d : Text) :
    (lint ⟨true, true⟩ drawn d).changed = false ↔ Settled (Protected.ofText drawn d).body := by
  rw [← rework_eq_self_iff, ← text_lint_eq_self_iff _ hdrawn]
  exact decide_eq_false_iff_not.trans not_not

theorem settled_sample :
    Settled "# T\n\n%%MYLINT-CODE-00000000000000ff-0%%\n\n- a\n- b".toList := by
  let nonce := "00000000000000ff".toList
  let d := "# T\n\n\x60\x60\x60x\x60\x60\x60\n\n- a\n- b".toList
  have hdrawn : ∀ n ∈ [nonce], IsNonce n := by
    intro n hn
    rw [List.mem_singleton.1 hn]
    exact ⟨rfl, by decide⟩
  have hchars : d = _ := String.toList_ofList
  have hbody : (Protected.ofText [nonce] d).body =
      "# T\n\n%%MYLINT-CODE-00000000000000ff-0%%\n\n- a\n- b".toList := by
    rw [hchars, String.toList_ofList]
    decide
  have hchanged : (lint ⟨true, true⟩ [nonce] d).changed = false := by
    rw [hchars]
    decide
  rw [← hbody]
  exact (changed_lint_eq_false_iff [nonce] hdrawn d).1 hchanged

end Rules

end MarkTidy
