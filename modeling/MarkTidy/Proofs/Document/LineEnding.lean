import MarkTidy.Proofs.Document.Boundary
import MarkTidy.Proofs.Document.Reworked
import MarkTidy.Proofs.Text.Returns

/-!
Line endings do not matter. A document whose lines end in a carriage return and a line feed is cut
at the same places as the one with bare line feeds, its math is found at the same places, and its
lines are the same. Spacing writes bare line feeds; what is kept as it was keeps its line endings.
-/

namespace MarkTidy

open Text

/-! ### Frontmatter -/

namespace Frontmatter

variable {d t : Text}

theorem isPrefixOf_dashes_addReturns (t : Text) : dashes <+: addReturns t ↔ dashes <+: t := by
  have hr : '\r' ∉ dashes := by decide
  have hn : '\n' ∉ dashes := by decide
  rw [← List.isPrefixOf_iff_prefix, (isPrefixOf_addReturns hr hn t).1, List.isPrefixOf_iff_prefix]

theorem afterOpening_eq_none (h : ¬dashes <+: d) : afterOpening d = none := by
  cases hr : afterOpening d with
  | none => rfl
  | some r =>
    obtain ⟨o, ⟨sp, brk, rfl, -⟩, rfl⟩ := afterOpening_eq_some_iff.1 hr
    rw [List.append_assoc] at h
    exact absurd (List.prefix_append _ _) h

theorem afterClosing_eq_none (h : ¬dashes <+: t) : afterClosing t = none := by
  cases hb : afterClosing t with
  | none => rfl
  | some b =>
    obtain ⟨bs, rfl, -⟩ := exists_of_afterClosing hb
    exact absurd (List.prefix_append _ _) h

theorem addReturns_dashes_append (r : Text) : addReturns (dashes ++ r) = dashes ++ addReturns r := rfl

theorem afterOpening_addReturns (h : '\r' ∉ d) :
    afterOpening (addReturns d) = (afterOpening d).map addReturns := by
  by_cases hd : dashes <+: d
  · obtain ⟨r, rfl⟩ := hd
    have hdashes : ∀ r, dashes ++ r = '-' :: '-' :: '-' :: r := fun _ => rfl
    have hdrop := dropWhile_addReturns (p := fun c => c = ' ' ∨ c = '\t') rfl r
    rw [addReturns_dashes_append, hdashes, hdashes, afterOpening, afterOpening, hdrop]
    cases hrest : r.dropWhile (fun c => c = ' ' ∨ c = '\t') with
    | nil => rfl
    | cons c rest =>
      have hc : c ≠ '\r' := by
        rintro rfl
        have hmem : '\r' ∈ r := (List.dropWhile_suffix _).subset (hrest ▸ List.mem_cons_self)
        exact h (List.mem_append_right _ hmem)
      by_cases hfeed : c = '\n'
      · rw [hfeed]
        rfl
      · rw [addReturns_cons hfeed]
        simp [hc, hfeed]
  · rw [afterOpening_eq_none hd,
      afterOpening_eq_none ((isPrefixOf_dashes_addReturns d).not.2 hd)]
    rfl

theorem afterLastFeed_addReturns (t : Text) :
    afterLastFeed (addReturns t) = (afterLastFeed t).map addReturns := by
  cases hx : afterLastFeed t with
  | none =>
    have hfeed : '\n' ∉ t := by
      intro hmem
      rw [afterLastFeed, if_pos hmem] at hx
      cases hx
    rw [addReturns_of_not_mem hfeed, hx]
    rfl
  | some x =>
    obtain ⟨u, rfl, hfeed⟩ := afterLastFeed_eq_some_iff.1 hx
    refine afterLastFeed_eq_some_iff.2 ⟨addReturns u ++ ['\r'], ?_, ?_⟩
    · simp
    · rwa [addReturns_of_not_mem hfeed]

theorem afterClosing_addReturns (t : Text) :
    afterClosing (addReturns t) = (afterClosing t).map addReturns := by
  by_cases ht : dashes <+: t
  · obtain ⟨r, rfl⟩ := ht
    have hdashes : ∀ r, dashes ++ r = '-' :: '-' :: '-' :: r := fun _ => rfl
    rw [addReturns_dashes_append, hdashes, hdashes, afterClosing, afterClosing,
      dropWhile_addReturns rfl, takeWhile_addReturns rfl]
    cases hrest : r.dropWhile isBlank with
    | nil => rfl
    | cons c rest =>
      have hc : c ≠ '\n' := by
        rintro rfl
        exact Bool.noConfusion (not_blank_of_trimLeft hrest)
      have happ : ∀ o : Option Text, (o.map addReturns).map (· ++ c :: addReturns rest) =
          (o.map (· ++ c :: rest)).map addReturns := by
        intro o
        cases o <;> simp [addReturns_cons hc]
      rw [addReturns_cons hc, afterLastFeed_addReturns]
      exact happ _
  · rw [afterClosing_eq_none ht,
      afterClosing_eq_none ((isPrefixOf_dashes_addReturns t).not.2 ht)]
    rfl

theorem afterLaterClosing_addReturns (t : Text) :
    afterLaterClosing (addReturns t) = (afterLaterClosing t).map addReturns := by
  induction t with
  | nil => rfl
  | cons c t ih =>
    by_cases hc : c = '\n'
    · have hret : afterLaterClosing (addReturns ('\n' :: t)) =
          afterLaterClosing ('\n' :: addReturns t) := rfl
      rw [hc, hret, afterLaterClosing, afterLaterClosing, if_pos rfl, if_pos rfl,
        afterClosing_addReturns, ih]
      cases afterClosing t <;> rfl
    · rw [addReturns_cons hc, afterLaterClosing, afterLaterClosing, if_neg hc, if_neg hc, ih]

/-- Both documents are cut at the same place. -/
theorem split_addReturns (h : '\r' ∉ d) :
    split (addReturns d) = ⟨addReturns (split d).front, addReturns (split d).body⟩ := by
  have hbody : body? (addReturns d) = (body? d).map addReturns := by
    rw [body?, body?, afterOpening_addReturns h]
    cases hr : afterOpening d with
    | none => rfl
    | some r =>
      simp only [Option.map_some, Option.bind_some]
      rw [afterLaterClosing_addReturns, afterClosing_addReturns]
      cases afterLaterClosing r <;> rfl
  have hd := eq_append_of_split (show split d = ⟨(split d).front, (split d).body⟩ from rfl)
  cases hb : body? d with
  | none =>
    have hsplit : split d = ⟨[], d⟩ := by rw [split, hb]
    rw [split, hbody, hb, hsplit]
    rfl
  | some b =>
    have hsplit : (split d).body = b := by rw [split, hb]
    rw [hsplit] at hd ⊢
    rw [split, hbody, hb, Option.map_some]
    nth_rewrite 1 2 [hd]
    simp

end Frontmatter

/-! ### Math and spacing -/

theorem Math.rewriteKind_addReturns (k : Math.Kind) (t : Text) :
    rewriteKind k (addReturns t) = addReturns (rewriteKind k t) := by
  have hopening : '\r' ∉ k.delimiters.opening ∧ '\n' ∉ k.delimiters.opening := by
    cases k <;> decide
  have hclosing : '\r' ∉ k.delimiters.closing ∧ '\n' ∉ k.delimiters.closing := by
    cases k <;> decide
  have hdollars : addReturns k.dollars = k.dollars := by cases k <;> rfl
  have ho := breakOn_addReturns k.opening_ne_nil hopening.1 hopening.2
  have hc := breakOn_addReturns k.closing_ne_nil hclosing.1 hclosing.2
  induction t using span_induction k with
  | plain t h =>
    rw [rewriteKind_of_not_hasSpan h]
    apply rewriteKind_of_not_hasSpan
    intro hspan
    obtain ⟨a, b, hab, hinf⟩ := (inOrder_pair_iff k.opening_ne_nil).1 hspan
    rw [ho] at hab
    obtain ⟨⟨a', b'⟩, hab', heq⟩ := Option.map_eq_some_iff.1 hab
    obtain ⟨-, rfl⟩ := Prod.mk.inj heq
    rw [infix_addReturns_iff k.closing_ne_nil hclosing.1 hclosing.2] at hinf
    exact h ((inOrder_pair_iff k.opening_ne_nil).2 ⟨a', b', hab', hinf⟩)
  | span t before inside content after hb ha ih =>
    have hb' := ho t
    have ha' := hc inside
    rw [hb] at hb'
    rw [ha] at ha'
    rw [rewriteKind_of_span hb' ha', rewriteKind_of_span hb ha, trim_addReturns, ih]
    simp [hdollars]

theorem Math.rewrite_addReturns (t : Text) : rewrite (addReturns t) = addReturns (rewrite t) := by
  rw [rewrite, rewriteKind_addReturns, rewriteKind_addReturns, ← rewrite]

namespace Rules

variable {r : Rules} {t : Text}

/-- How the rules write a character that they keep: spacing writes bare line feeds. -/
def ending (r : Rules) (c : Char) : Text := if r.spacing then [c] else returned c

theorem flatMap_ending (r : Rules) (t : Text) :
    t.flatMap r.ending = if r.spacing then t else addReturns t := by
  cases hs : r.spacing with
  | true =>
    have hending : r.ending = fun c => [c] := by
      funext c
      simp [ending, hs]
    simp [hending]
  | false =>
    have hending : r.ending = returned := by
      funext c
      simp [ending, hs]
    simp [hending, addReturns]

theorem return_not_mem_rework (h : '\r' ∉ t) (r : Rules) : '\r' ∉ r.rework t := by
  intro hmem
  have hplain : Plain ['\r'] := ⟨by simp, by decide, by decide⟩
  have hword : InOrder [['\r']] (r.rework t) :=
    inOrder_singleton.2 ((List.singleton_infix_iff _ _).2 hmem)
  have horder := r.inOrder_of_rework (by simpa using hplain) hword
  exact h ((List.singleton_infix_iff _ _).1 (inOrder_singleton.1 horder))

/-- The rules do the same to both texts. -/
theorem rework_addReturns (h : '\r' ∉ t) (r : Rules) :
    r.rework (addReturns t) = (r.rework t).flatMap r.ending := by
  have hmath : (if r.math then Math.rewrite (addReturns t) else addReturns t) =
      addReturns (if r.math then Math.rewrite t else t) := by
    split_ifs
    · exact Math.rewrite_addReturns t
    · rfl
  have hret : '\r' ∉ (if r.math then Math.rewrite t else t) :=
    return_not_mem_rework h ⟨r.math, false⟩
  rw [flatMap_ending, rework, rework, hmath]
  cases r.spacing with
  | true => simp only [if_true, Layout.normalize, lines_addReturns hret]
  | false => rfl

end Rules

/-! ### Templates -/

namespace Template

variable {α : Type} {σ τ : α → Text} {f : Char → Text} {g : α → α} {w : Template α} {c : Char}

/-- A template with other labels, and with its characters written as `f` says. -/
def recast (f : Char → Text) (g : α → α) : Template α → Template α
  | [] => []
  | .char c :: w => ofText (f c) ++ recast f g w
  | .slot a :: w => .slot (g a) :: recast f g w

theorem fill_recast (h : ∀ a, σ (g a) = (τ a).flatMap f) (w : Template α) :
    fill σ (recast f g w) = (fill τ w).flatMap f := by
  induction w with
  | nil => rfl
  | cons p w ih => cases p <;> simp [recast, ih, h]

theorem slots_recast (w : Template α) : slots (recast f g w) = (slots w).map g := by
  induction w with
  | nil => rfl
  | cons p w ih => cases p <;> simp [recast, slots, ih]

theorem mem_fill_iff : c ∈ fill σ w ↔ .char c ∈ w ∨ ∃ a ∈ slots w, c ∈ σ a := by
  induction w with
  | nil => simp [slots]
  | cons p w ih => cases p <;> simp [slots, ih, or_assoc, or_left_comm]

end Template

open Template

variable {r : Rules} {w v : Template Knot} {k : Nat} {cs drawn drawn' : List Text}
  {d front nonce : Text}

/-- The block with a carriage return before every line feed. -/
def Knot.addReturns : Knot → Knot
  | .block i c => .block i (Text.addReturns c)
  | .unclosed => .unclosed

theorem Knot.source_addReturns (b : Knot) : b.addReturns.source = Text.addReturns b.source := by
  have hmark : Text.addReturns Fence.mark = Fence.mark := rfl
  cases b with
  | block i c => simp [Knot.addReturns, source, write, Fence.fenced, hmark]
  | unclosed => rfl

theorem Knot.map_addReturns_numbered (k : Nat) (cs : List Text) :
    (numbered k cs).map Knot.addReturns = numbered k (cs.map Text.addReturns) := by
  induction cs generalizing k with
  | nil => rfl
  | cons c cs ih => exact congrArg (Knot.block k (Text.addReturns c) :: ·) (ih (k + 1))

theorem mark_infix_addReturns_iff {t : Text} : Fence.mark <:+: addReturns t ↔ Fence.mark <:+: t :=
  infix_addReturns_iff Fence.mark_ne_nil (by decide) (by decide)

theorem Numbers.recast {f : Char → Text} (h : Numbers w k cs) :
    Numbers (recast f Knot.addReturns w) k (cs.map addReturns) := by
  rw [Numbers, slots_recast, ← Knot.map_addReturns_numbered]
  rcases h with hs | hs
  · exact .inl (congrArg _ hs)
  · refine .inr ?_
    rw [hs, List.map_append]
    rfl

/-- Both templates of a document are templates of bodies, whatever line endings the gaps have. -/
theorem Weaves.recast (h : Weaves w k cs) (r : Rules) :
    Weaves (recast r.ending Knot.addReturns w) k (cs.map addReturns) where
  slots := h.slots.recast
  gaps := by
    have hstub : ∀ b : Knot, b.addReturns.stub = b.stub.flatMap r.ending := by
      intro b
      rw [Rules.flatMap_ending, Knot.stub, Knot.stub]
      split_ifs <;> rfl
    rw [fill_recast hstub, Rules.flatMap_ending]
    split_ifs
    · exact h.gaps
    · exact mark_infix_addReturns_iff.not.2 h.gaps
  contents := by
    intro x hx
    obtain ⟨c, hc, rfl⟩ := List.mem_map.1 hx
    have hstem : addReturns c ++ Fence.mark.dropLast = addReturns (c ++ Fence.mark.dropLast) := by
      rw [addReturns_append]
      rfl
    rw [hstem, mark_infix_addReturns_iff]
    exact h.contents c hc

theorem feed_not_mem_of_solid {t : Text} (h : Solid t) : '\n' ∉ t ∧ '\r' ∉ t :=
  ⟨fun hmem => Bool.noConfusion (h.not_blank _ hmem),
    fun hmem => Bool.noConfusion (h.not_blank _ hmem)⟩

/-- A pass over the body with carriage returns takes the same course. -/
theorem Reworked.recast (h : Reworked r cs w v) (hret : '\r' ∉ fill Knot.source w) :
    Reworked r (cs.map addReturns) (recast returned Knot.addReturns w)
      (recast r.ending Knot.addReturns v) where
  before := h.before.recast ⟨false, false⟩
  after := h.after.recast r
  slots := by rw [slots_recast, slots_recast, h.slots]
  rework := by
    intro σ hσ
    have hfeed : ∀ b, addReturns (σ b) = σ b :=
      fun b => addReturns_of_not_mem (feed_not_mem_of_solid (hσ b)).1
    have hbefore : ∀ b : Knot, σ b.addReturns = (σ b.addReturns).flatMap returned :=
      fun b => (hfeed b.addReturns).symm
    have hafter : ∀ b : Knot, σ b.addReturns = (σ b.addReturns).flatMap r.ending := by
      intro b
      rw [Rules.flatMap_ending, hfeed, ite_self]
    have hgaps : '\r' ∉ fill (fun b : Knot => σ b.addReturns) w := by
      rw [mem_fill_iff, not_or] at hret ⊢
      refine ⟨hret.1, ?_⟩
      rintro ⟨b, -, hb⟩
      exact (feed_not_mem_of_solid (hσ _)).2 hb
    rw [fill_recast hbefore, fill_recast hafter, ← addReturns, r.rework_addReturns hgaps,
      h.rework (fun b => σ b.addReturns) fun b => hσ b.addReturns]

/-- The linted body has no carriage return that the body did not have. -/
theorem Reworked.return_not_mem (h : Reworked r cs w v) (hret : '\r' ∉ fill Knot.source w) :
    '\r' ∉ fill Knot.source v := by
  have hseam : '\r' ∉ fill Knot.seam w := by
    rw [mem_fill_iff, not_or] at hret ⊢
    refine ⟨hret.1, ?_⟩
    rintro ⟨b, -, hb⟩
    exact (feed_not_mem_of_solid (Knot.solid_seam b)).2 hb
  have hgaps := r.return_not_mem_rework hseam
  rw [h.rework _ Knot.solid_seam, mem_fill_iff, not_or] at hgaps
  rw [mem_fill_iff, not_or] at hret ⊢
  rw [h.slots]
  exact ⟨hgaps.1, hret.2⟩

/-- Without the carriage returns the recast body is the body. -/
theorem dropReturns_fill_recast (h : '\r' ∉ fill Knot.source v) (r : Rules) :
    dropReturns (fill Knot.source (recast r.ending Knot.addReturns v)) = fill Knot.source v := by
  induction v with
  | nil => rfl
  | cons p v ih =>
    cases p with
    | char c =>
      obtain ⟨hc, hv⟩ := List.ne_and_not_mem_of_not_mem_cons h
      rw [Template.recast, fill_append, fill_ofText, fill_char, Rules.ending]
      split_ifs
      · rw [List.singleton_append, dropReturns_cons (Ne.symm hc), ih hv]
      · have hchar : returned c = addReturns [c] := by simp [addReturns]
        rw [hchar, dropReturns_addReturns_append (by simpa using hc), ih hv, List.singleton_append]
    | slot b =>
      obtain ⟨hb, hv⟩ := not_or.1 (List.mem_append.not.1 h)
      rw [Template.recast, fill_slot, fill_slot, Knot.source_addReturns,
        dropReturns_addReturns_append hb, ih hv]

namespace Rules

/-- A document is linted alike with either line ending. The line endings of what is kept are those
of the document. -/
theorem dropReturns_lint_addReturns (r : Rules) (drawn drawn' : List Text)
    (hdrawn : ∀ n ∈ drawn, IsNonce n) (hdrawn' : ∀ n ∈ drawn', IsNonce n) (d : Text)
    (h : '\r' ∉ d) :
    dropReturns (r.lint drawn (addReturns d)).text = (r.lint drawn' d).text := by
  obtain ⟨front, nonce, cs, w, hd⟩ := exists_shape hdrawn' d
  obtain ⟨v, hr⟩ := exists_reworked r hd.weaves
  have hparts := Frontmatter.eq_append_of_split hd.split
  rw [hparts, List.mem_append, not_or] at h
  have hsplit : Frontmatter.split (addReturns d) =
      ⟨addReturns front, fill Knot.source (recast returned Knot.addReturns w)⟩ := by
    have hret : '\r' ∉ d := by rw [hparts, List.mem_append, not_or]; exact h
    rw [Frontmatter.split_addReturns hret, hd.split, fill_recast Knot.source_addReturns]
    rfl
  have hd' := Shape.of_split hdrawn hsplit (hd.weaves.recast ⟨false, false⟩)
  rw [hd'.text_lint (hr.recast h.2), hd.text_lint hr, dropReturns_addReturns_append h.1,
    dropReturns_fill_recast (hr.return_not_mem h.2) r]

/-- Frontmatter and a block keep their carriage returns; the lines that are laid out lose theirs. -/
theorem dropReturns_lint_addReturns_sample :
    let nonce := "00000000000000ff".toList
    let d := "---\nt: 1\n---\n- a\n\n- \\[ b\nc \\] \n\x60\x60\x60\nx \n\x60\x60\x60".toList
    let linted := (lint {} [nonce] (addReturns d)).text
    (∀ n ∈ [nonce], IsNonce n) ∧ (∀ n ∈ ([] : List Text), IsNonce n) ∧ '\r' ∉ d ∧
      linted = addReturns "---\nt: 1\n---\n".toList ++ "- a\n- $$b\n\nc$$\n".toList ++
        addReturns "\x60\x60\x60\nx \n\x60\x60\x60".toList ∧
      dropReturns linted = (lint {} [] d).text := by
  intro nonce d linted
  have hdrawn : ∀ n ∈ [nonce], IsNonce n := List.forall_mem_singleton.2 ⟨rfl, by decide⟩
  have hnone : ∀ n ∈ ([] : List Text), IsNonce n := by simp
  have hchars : d = _ := String.toList_ofList
  have hd : '\r' ∉ d := by
    rw [hchars]
    decide
  have hlinted : linted = addReturns "---\nt: 1\n---\n".toList ++ "- a\n- $$b\n\nc$$\n".toList ++
      addReturns "\x60\x60\x60\nx \n\x60\x60\x60".toList := by
    simp only [linted]
    rw [hchars]
    decide
  exact ⟨hdrawn, hnone, hd, hlinted,
    dropReturns_lint_addReturns {} [nonce] [] hdrawn hnone d hd⟩

end Rules

end MarkTidy
