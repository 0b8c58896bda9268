import MarkTidy.Proofs.Document.FirstLine

/-!
What a pass does to the boundary. Math and fences leave it where it is. Spacing trims the top of the
body, and this can bring a line of three dashes right below missing or empty frontmatter: then the
next pass reads that line as a delimiter and takes part of the body for frontmatter.
-/

namespace MarkTidy

open Text Template Frontmatter

variable {P : Text → Prop} {r : Rules} {w v : Template Knot} {cs : List Text} {front : Text}

theorem dashedBelow_fill_source_iff : DashedBelow (fill Knot.source w) ↔
    DashedBelow (fill Knot.seam w) ∨ ∃ b ∈ slots w, ∃ bs, bs.all isBlank = true ∧
      '\n' :: (dashes ++ (bs ++ ['\n'])) <:+: b.content := by
  -- A dashed line is a word without backquotes, if the template ends in a line feed.
  have hfill : ∀ σ : Knot → Text, fill σ w ++ ['\n'] = fill σ (w ++ [.char '\n']) := by simp
  have hslots : slots (w ++ [.char '\n']) = slots w := by simp [slots]
  have hword : ∀ bs : Text, bs.all isBlank = true →
      ('\n' :: (dashes ++ (bs ++ ['\n'])) <:+: fill Knot.source (w ++ [.char '\n']) ↔
        '\n' :: (dashes ++ (bs ++ ['\n'])) <:+: fill Knot.seam (w ++ [.char '\n']) ∨
          ∃ b ∈ slots w, '\n' :: (dashes ++ (bs ++ ['\n'])) <:+: b.content) := by
    intro bs hbs
    have hquote : '\x60' ∉ dashes ++ (bs ++ ['\n']) := not_mem_dashed (by decide) hbs
    rw [← hslots]
    exact infix_fill_source_iff (a := []) (by simp) (by simp [hquote])
  rw [dashedBelow_iff_isInfix, dashedBelow_iff_isInfix, hfill, hfill]
  constructor
  · rintro ⟨bs, hbs, h⟩
    rcases (hword bs hbs).1 h with hgap | ⟨b, hb, hin⟩
    · exact .inl ⟨bs, hbs, hgap⟩
    · exact .inr ⟨b, hb, bs, hbs, hin⟩
  · rintro (⟨bs, hbs, h⟩ | ⟨b, hb, bs, hbs, h⟩)
    · exact ⟨bs, hbs, (hword bs hbs).2 (.inl h)⟩
    · exact ⟨bs, hbs, (hword bs hbs).2 (.inr ⟨b, hb, h⟩)⟩

namespace Reworked

/-- The top of a reworked body, read without its blocks. -/
theorem early_iff (h : Reworked r cs w v) (hP : Early P) :
    P (fill Knot.source v) ↔ P (r.rework (fill Knot.seam w)) := by
  rw [h.rework _ Knot.solid_seam]
  exact hP.fill Knot.quoted_source Knot.quoted_seam v

theorem early_iff_of_not_spacing (h : Reworked r cs w v) (hs : r.spacing = false) (hP : Early P) :
    P (fill Knot.source v) ↔ P (fill Knot.source w) := by
  rw [h.early_iff hP, Rules.rework_eq, hs, hP.fill Knot.quoted_source Knot.quoted_seam w]
  exact hP.rewritten r _

theorem startsDashed_iff (h : Reworked r cs w v) (hs : r.spacing = true) :
    StartsDashed (fill Knot.source v) ↔ StartsDashed (trimLeft (fill Knot.source w)) := by
  rw [h.early_iff early_startsDashed, Rules.rework_eq, hs, if_pos rfl,
    Layout.startsDashed_normalize_iff, early_startsDashed_trimLeft.rewritten r]
  exact early_startsDashed_trimLeft.fill Knot.quoted_seam Knot.quoted_source w

/-- A reworked body may stand where the old one stood. -/
theorem replaces (h : Reworked r cs w v) :
    Replaces (fill Knot.source v) (fill Knot.source w) where
  nil := by
    intro hnil
    have early_nil : Early (· = []) := early_eq (by simp)
    have hseam := (early_nil.fill Knot.quoted_source Knot.quoted_seam w).1 hnil
    apply (h.early_iff early_nil).2
    rw [hseam, r.rework_nil]
  topped := by
    intro htop
    rw [early_topped.fill Knot.quoted_source Knot.quoted_seam w] at htop
    rw [h.early_iff early_topped]
    exact r.topped_rework htop

theorem dashedBelow (h : Reworked r cs w v) (hv : DashedBelow (fill Knot.source v)) :
    DashedBelow (fill Knot.source w) := by
  rw [dashedBelow_fill_source_iff, h.slots, ← h.rework _ Knot.solid_seam] at hv
  rw [dashedBelow_fill_source_iff]
  exact hv.imp_left r.dashedBelow_of_rework

/-- If spacing brings a dashed line to the top and there are more lines, it is an opening line. -/
theorem exists_opening (h : Reworked r cs w v) (hs : r.spacing = true)
    (hdashed : StartsDashed (fill Knot.source v)) (hbelow : DashedBelow (fill Knot.source v)) :
    ∃ o, Opening o ∧ o <+: fill Knot.source v := by
  rw [h.early_iff early_startsDashed, Rules.rework_eq, hs, if_pos rfl] at hdashed
  rcases Layout.eq_dashes_or_of_normalize hdashed with hall | hpre
  · have hdashes : fill Knot.source v = dashes := by
      apply (h.early_iff (early_eq not_dash_of_mem_stops)).2
      rw [Rules.rework_eq, hs, if_pos rfl, hall]
    rw [hdashes] at hbelow
    exact absurd hbelow (not_dashedBelow_of_not_mem (by decide))
  · apply (h.early_iff early_opening).2
    rw [Rules.rework_eq, hs, if_pos rfl]
    exact ⟨_, ⟨[], ['\n'], rfl, by simp, .inl rfl⟩, hpre⟩

/-- When a body without frontmatter is taken to have some. -/
theorem isSome_body?_iff (h : Reworked r cs w v) (hnone : body? (fill Knot.source w) = none) :
    (body? (fill Knot.source v)).isSome ↔ r.spacing = true ∧
      StartsDashed (trimLeft (fill Knot.source w)) ∧ DashedBelow (fill Knot.source v) := by
  rw [Frontmatter.isSome_body?_iff]
  constructor
  · rintro ⟨hopening, hbelow⟩
    cases hs : r.spacing with
    | true =>
      obtain ⟨o, ho, x, hx⟩ := hopening
      refine ⟨rfl, (h.startsDashed_iff hs).1 ?_, hbelow⟩
      rw [← hx]
      exact ho.startsDashed x
    | false =>
      have hopening := (h.early_iff_of_not_spacing hs early_opening).1 hopening
      have hsome := Frontmatter.isSome_body?_iff.2 ⟨hopening, h.dashedBelow hbelow⟩
      rw [hnone] at hsome
      cases hsome
  · rintro ⟨hs, hdashed, hbelow⟩
    exact ⟨h.exists_opening hs ((h.startsDashed_iff hs).2 hdashed) hbelow, hbelow⟩

/-- When frontmatter with nothing in it is closed anew. -/
theorem dashedBelow_closing_iff {bs : Text} (h : Reworked r cs w v)
    (hcloses : Closes bs (fill Knot.source w))
    (honly : ¬DashedBelow (dashes ++ (bs ++ fill Knot.source w))) :
    DashedBelow (dashes ++ (bs ++ fill Knot.source v)) ↔
      r.spacing = true ∧ StartsDashed (trimLeft (fill Knot.source w)) := by
  rw [(hcloses.replace h.replaces).dashedBelow_iff]
  rw [hcloses.dashedBelow_iff, not_or] at honly
  constructor
  · rintro (hdashed | hbelow)
    · cases hs : r.spacing with
      | true => exact ⟨rfl, (h.startsDashed_iff hs).1 hdashed⟩
      | false =>
        exact absurd ((h.early_iff_of_not_spacing hs early_startsDashed).1 hdashed) honly.1
    · exact absurd (h.dashedBelow hbelow) honly.2
  · exact fun hc => .inl ((h.startsDashed_iff hc.1).2 hc.2)

/-- Whether the boundary before a reworked body is where it was before the old one. -/
theorem front_eq_iff (h : Reworked r cs w v) (hb : Boundary front (fill Knot.source w)) :
    (split (front ++ fill Knot.source v)).front = front ↔
      ¬(r.spacing = true ∧ Hollow front ∧ StartsDashed (trimLeft (fill Knot.source w)) ∧
        DashedBelow (front ++ fill Knot.source v)) := by
  generalize hbody : fill Knot.source w = b at hb
  cases hb with
  | absent none =>
    rw [← hbody] at none ⊢
    have hmove := h.isSome_body?_iff none
    have hhollow : Hollow [] := .inl rfl
    rw [List.nil_append, front_eq_nil_iff, ← Option.not_isSome_iff_eq_none, hmove]
    simp only [hhollow, true_and]
  | @hollow o bs _ opening closes only =>
    subst hbody
    have hmove := h.dashedBelow_closing_iff closes only
    have hhollow : Hollow (o ++ (dashes ++ bs)) := .inr ⟨o, bs, opening, closes.blank, rfl⟩
    have hbelow : DashedBelow (dashes ++ (bs ++ fill Knot.source v)) →
        DashedBelow (o ++ (dashes ++ (bs ++ fill Knot.source v))) :=
      fun hc => opening.dashedBelow_append_iff.2 (.inr hc)
    rw [List.append_assoc, List.append_assoc,
      front_eq_hollow_iff opening (closes.replace h.replaces)]
    refine not_congr ⟨fun hc => ?_, fun hc => hmove.2 ⟨hc.1, hc.2.2.1⟩⟩
    obtain ⟨hs, hdashed⟩ := hmove.1 hc
    exact ⟨hs, hhollow, hdashed, hbelow hc⟩
  | full opening closes first =>
    subst hbody
    have hsplit := (Boundary.full opening (closes.replace h.replaces) first).split_eq
    rw [hsplit]
    refine iff_of_true rfl ?_
    rintro ⟨-, hhollow, -, -⟩
    have hpos := hhollow.slack_pos
    rw [slack_full opening closes.blank] at hpos
    exact absurd hpos (Nat.lt_irrefl 0)

/-- The frontmatter that a second pass finds starts with the old one. -/
theorem front_isPrefix (h : Reworked r cs w v) (hb : Boundary front (fill Knot.source w)) :
    front <+: (split (front ++ fill Knot.source v)).front := by
  rcases hb.replace h.replaces with hsame | hmoved
  · rw [hsame.split_eq]
  · exact hmoved.grows

end Reworked

theorem Shape.boundary {drawn : List Text} {d nonce : Text} (h : Shape drawn d front nonce cs w) :
    Boundary front (fill Knot.source w) := by
  obtain ⟨front', b, hsplit, -, hb⟩ := exists_boundary d
  obtain ⟨rfl, rfl⟩ := Split.mk.inj (h.split.symm.trans hsplit)
  exact hb

namespace Rules

/-- A pass leaves the boundary where it is, unless spacing brings a dashed line right below missing
or empty frontmatter and this line opens or closes frontmatter then. The boundary never moves up,
and as long as it stays, the next pass takes out the blocks that this one took out. -/
theorem front_lint_eq_iff (r : Rules) (drawn drawn' : List Text) (hdrawn : ∀ n ∈ drawn, IsNonce n)
    (hdrawn' : ∀ n ∈ drawn', IsNonce n) (d : Text) :
    let old := Frontmatter.split d
    let linted := (r.lint drawn d).text
    let new := Frontmatter.split linted
    (new.front = old.front ↔ ¬(r.spacing = true ∧ Hollow old.front ∧
        StartsDashed (trimLeft old.body) ∧ DashedBelow linted)) ∧
      old.front <+: new.front ∧
      (new.front = old.front →
        (Protected.ofText drawn' linted).blocks = (Protected.ofText drawn d).blocks) := by
  obtain ⟨front, nonce, cs, w, hd⟩ := exists_shape hdrawn d
  obtain ⟨v, hr⟩ := exists_reworked r hd.weaves
  dsimp only
  rw [hd.text_lint hr, hd.split]
  refine ⟨hr.front_eq_iff hd.boundary, hr.front_isPrefix hd.boundary, fun hfront => ?_⟩
  have hd' := Shape.of_split hdrawn' (Frontmatter.split_of_front rfl hfront) hr.after
  rw [hd.protected_eq, hd'.protected_eq]

/-- In the first document the boundary moves, in the second one it stays. -/
theorem front_lint_eq_iff_sample :
    let d := "---\n---\n  ---\n# T".toList
    let e := "---\nt: 1\n---\n\x60\x60\x60- a\n\n- b\x60\x60\x60\n- c\n\n- d".toList
    let linted := (lint {} [] e).text
    (∀ n ∈ ([] : List Text), IsNonce n) ∧
      (Frontmatter.split (lint {} [] d).text).front ≠ (Frontmatter.split d).front ∧
      linted ≠ e ∧ (Frontmatter.split linted).front = (Frontmatter.split e).front ∧
      (Protected.ofText [] linted).blocks = (Protected.ofText [] e).blocks := by
  intro d e linted
  have hnone : ∀ n ∈ ([] : List Text), IsNonce n := by simp
  have hchars : e = _ := String.toList_ofList
  have hd : (lint {} [] d).text = "---".toList ++ '\n' :: "---\n---\n\n# T".toList := by
    decide
  have hhollow : Hollow (Frontmatter.split d).front :=
    .inr ⟨"---\n".toList, ['\n'], ⟨[], ['\n'], rfl, by simp, .inl rfl⟩, rfl, by decide⟩
  have hbelow : DashedBelow (lint {} [] d).text := ⟨_, _, hd, by decide⟩
  have hstays : ¬Hollow (Frontmatter.split e).front := by
    intro h
    have hpos := h.slack_pos
    rw [hchars] at hpos
    revert hpos
    decide
  obtain ⟨hmoves, -, -⟩ := front_lint_eq_iff {} [] [] hnone hnone d
  obtain ⟨hsame, -, hblocks⟩ := front_lint_eq_iff {} [] [] hnone hnone e
  have hfront := hsame.2 fun h => hstays h.2.1
  have hne : linted ≠ e := by
    simp only [linted]
    rw [hchars]
    decide
  refine ⟨hnone, ?_, hne, hfront, hblocks hfront⟩
  exact fun h => hmoves.1 h ⟨rfl, hhollow, by decide, hbelow⟩

/-- A document without frontmatter acquires one: a line in a block closes it, so the next pass takes
out no block and rewrites what this pass has put back. -/
theorem front_lint_ne :
    let d := "\n---\n\x60\x60\x60\n---\n- a\n\n- b\n\x60\x60\x60".toList
    let linted := (lint {} [] d).text
    (∀ n ∈ ([] : List Text), IsNonce n) ∧ (Frontmatter.split d).front = [] ∧
      (Frontmatter.split linted).front = "---\n\x60\x60\x60\n---\n".toList ∧
      (Protected.ofText [] d).blocks = [Fence.fenced "\n---\n- a\n\n- b\n".toList] ∧
      (Protected.ofText [] linted).blocks = [] ∧ (lint {} [] linted).text ≠ linted := by
  intro d linted
  have hchars : d = _ := String.toList_ofList
  refine ⟨by simp, ?_⟩
  simp only [linted]
  rw [hchars]
  decide

end Rules

end MarkTidy
