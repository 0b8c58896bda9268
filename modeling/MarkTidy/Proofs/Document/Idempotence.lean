import MarkTidy.Proofs.Document.Frontmatter
import MarkTidy.Proofs.Document.Reworked
import MarkTidy.Proofs.Document.Spaced

/-!
A second pass. It finds nothing more to do, if the first one has made no new math, no line has lost
its kind by being trimmed, and the frontmatter is still what it was.
-/

namespace MarkTidy

open Text Template

variable {t : Text}

namespace Math

variable {k : Kind}

theorem contents_spans_of_span {before inside content after : Text}
    (ho : breakOn k.delimiters.opening t = some (before, inside))
    (hc : breakOn k.delimiters.closing inside = some (content, after)) :
    (spans k t).contents = content :: (spans k after).contents := by
  rw [spans, Spans.cut_of_span k.opening_ne_nil ho hc]
  rfl

/-- Rewriting leaves no span of its kind, if none has another opening delimiter in it. -/
theorem not_hasSpan_rewriteKind
    (h : ∀ content ∈ (spans k t).contents, ¬k.delimiters.opening <:+: content) :
    ¬HasSpan k (rewriteKind k t) := by
  induction t using span_induction k with
  | plain t hno => rwa [rewriteKind_of_not_hasSpan hno]
  | span t before inside content after ho hc ih =>
    rw [contents_spans_of_span ho hc] at h
    obtain ⟨hcontent, hafter⟩ := List.forall_mem_cons.1 h
    have hbefore : ¬k.delimiters.opening <:+: before := fun hinf =>
      ((breakOn_eq_some_iff k.opening_ne_nil).1 ho).2 (hinf.trans (List.prefix_append _ _).isInfix)
    have hne := fun w hw => (plain_delimiters k w hw).ne_nil
    have hdollars : ∀ w ∈ [k.delimiters.opening, k.delimiters.closing], ∀ c ∈ k.dollars, c ∉ w :=
      fun w hw c hc => mem_dollars hc ▸ (plain_delimiters k w hw).dollar
    rw [rewriteKind_of_span ho hc]
    intro hspan
    -- The content and the text before it have no opening delimiter, so the span lies after them.
    simp only [HasSpan, List.append_assoc] at hspan
    have hspan := hspan.of_append_stretch hne hdollars k.dollars_ne_nil hbefore
    have htrim : ¬k.delimiters.opening <:+: trim content :=
      fun hinf => hcontent (hinf.trans (trim_isInfix content))
    exact ih hafter (hspan.of_append_stretch hne hdollars k.dollars_ne_nil htrim)

end Math

namespace Rules

/-- The body after the math rule. -/
def rewritten (r : Rules) (b : Text) : Text := if r.math then Math.rewrite b else b

/-- What keeps a second pass from finding more to do in a body. -/
structure Stable (r : Rules) (b : Text) : Prop where
  markers : r.spacing = true → ∀ l ∈ Text.lines (r.rewritten b), ¬LineKind.BareMarker l
  display : r.math = true → ∀ c ∈ (Math.spans .display b).contents,
    ¬Math.Kind.display.delimiters.opening <:+: c
  inline : r.math = true → ∀ c ∈ (Math.spans .inline (Math.rewriteKind .display b)).contents,
    ¬Math.Kind.inline.delimiters.opening <:+: c

variable {r : Rules} {b : Text}

theorem rework_eq (r : Rules) (b : Text) :
    r.rework b = if r.spacing then Layout.normalize (r.rewritten b) else r.rewritten b := rfl

theorem Stable.not_hasSpan (h : r.Stable b) (hm : r.math = true) (k : Math.Kind) :
    ¬Math.HasSpan k (Math.rewrite b) := by
  cases k with
  | display =>
    intro hspan
    have hplain := Math.plain_delimiters .display
    exact Math.not_hasSpan_rewriteKind (h.display hm)
      (Math.inOrder_of_rewriteKind .inline hplain hspan)
  | inline => exact Math.not_hasSpan_rewriteKind (h.inline hm)

theorem rework_rework (h : r.Stable b) : r.rework (r.rework b) = r.rework b := by
  have hmath : r.rewritten (r.rework b) = r.rework b := by
    rw [rewritten]
    split
    · next hm =>
      apply Math.rewrite_of_not_hasSpan
      intro k hspan
      apply h.not_hasSpan hm k
      rw [rework_eq, rewritten, if_pos hm] at hspan
      split at hspan
      · exact Layout.inOrder_of_normalize (Math.plain_delimiters k) hspan
      · exact hspan
    · rfl
  rw [rework_eq r (r.rework b), hmath]
  split
  · next hs =>
    rw [rework_eq, if_pos hs]
    exact Layout.normalize_normalize (h.markers hs)
  · rfl

/-- Linting a linted document changes nothing, if the body is stable and the frontmatter of the
linted document is the old one. The second pass may draw other nonces. -/
theorem lint_lint (r : Rules) (drawn drawn' : List Text) (hdrawn : ∀ n ∈ drawn, IsNonce n)
    (hdrawn' : ∀ n ∈ drawn', IsNonce n) (d : Text)
    (hstable : r.Stable (Protected.ofText drawn d).body)
    (hfront : (Frontmatter.split (r.lint drawn d).text).front = (Frontmatter.split d).front) :
    (r.lint drawn' (r.lint drawn d).text).text = (r.lint drawn d).text := by
  obtain ⟨front, nonce, cs, w, hd⟩ := exists_shape hdrawn d
  obtain ⟨v, hr⟩ := exists_reworked r hd.weaves
  have htext := hd.text_lint hr
  have hbody : Frontmatter.split (r.lint drawn d).text = ⟨front, fill Knot.source v⟩ := by
    rw [hd.split] at hfront
    exact Frontmatter.split_of_front htext hfront
  obtain ⟨hfree', hhex'⟩ := Fence.chooseNonce_spec hdrawn' (fill Knot.source v)
  have hd' : Shape drawn' (r.lint drawn d).text front _ cs v :=
    ⟨hbody, hr.after, rfl, hhex', Fence.isFree_iff.1 hfree'⟩
  obtain ⟨u, hr'⟩ := exists_reworked r hr.after
  -- The two passes meet at the tokens of the first nonce, which is free in all three bodies.
  have hfree := hr.free hd.hex hd.free
  have hrework : fill (Knot.token nonce) u = fill (Knot.token nonce) v := by
    rw [hd.protected_eq] at hstable
    have htwice := rework_rework hstable
    rwa [hr.rework_token hd.hex, hr'.rework_token hd.hex] at htwice
  have hsource := (fill_token_inj hr.after hr'.after hd.hex hfree (hr'.free hd.hex hfree)).1 hrework
  rw [hd'.text_lint hr', hsource, htext]

theorem lint_lint_sample :
    let d := "---\nt: 1\n---\n# T\nx \\[ a \\]\n- b\n\n-  \\( c \\)\n".toList ++
      "\x60\x60\x60\n\n\n\n\x60\x60\x60".toList
    let once := (lint {} [] d).text
    Stable {} (Protected.ofText [] d).body ∧
      (Frontmatter.split once).front = (Frontmatter.split d).front ∧ once ≠ d ∧
      (lint {} [] once).text = once := by
  intro d once
  have hdrawn : ∀ n ∈ ([] : List Text), IsNonce n := by simp
  -- A literal would be decoded anew at each evaluation, its characters stand as they are.
  have hchars : d = _ ++ _ := congrArg₂ (· ++ ·) String.toList_ofList String.toList_ofList
  have hstable : Stable {} (Protected.ofText [] d).body := by
    rw [hchars]
    refine ⟨fun _ l hl => LineKind.not_bareMarker_of_trimRight ?_, fun _ => ?_, fun _ => ?_⟩
    · revert l
      decide
    · decide
    · decide
  have hfront : (Frontmatter.split once).front = (Frontmatter.split d).front := by
    simp only [once]
    rw [hchars]
    decide
  have hne : once ≠ d := by
    simp only [once]
    rw [hchars]
    decide
  exact ⟨hstable, hfront, hne, lint_lint {} [] [] hdrawn hdrawn d hstable hfront⟩

end Rules

end MarkTidy
