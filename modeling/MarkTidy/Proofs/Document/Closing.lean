import MarkTidy.Proofs.Document.Boundary

/-!
The line that closes frontmatter, among the lines of the document. It is the first dashed line from
the third line on, if there is one, and else the second line; so it is the first dashed line below
the opening line, unless the second line is dashed and is not the last that is. Frontmatter takes in
the blanks after the closing dashes, up to their last line feed or the end of the document.
-/

namespace MarkTidy.Frontmatter

open Text

variable {b bs d l o t x : Text} {ls : List Text}

/-- An opening line, without the line feed that ends it. -/
def OpeningLine (l : Text) : Prop :=
  ∃ sp ret, l = dashes ++ (sp ++ ret) ∧ (∀ c ∈ sp, c = ' ' ∨ c = '\t') ∧ (ret = [] ∨ ret = ['\r'])

/-- The line `c` closes the frontmatter of a document. The opening line `o` and the lines `inner`
stand above it, and frontmatter has the blanks `bs` after its dashes. -/
structure ClosedBy (d o : Text) (inner : List Text) (c : Text) (below : List Text) (bs : Text) :
    Prop where
  lines : splitAtChar '\n' d = o :: (inner ++ c :: below)
  opening : OpeningLine o
  dashed : trimRight c = dashes
  blank : bs.all isBlank = true
  front : (split d).front = unlines (o :: inner) ++ '\n' :: (dashes ++ bs)

/-! ### Lines of a document -/

theorem startsDashed_of_splitAtChar (h : splitAtChar '\n' t = l :: ls) :
    StartsDashed t ↔ trimRight l = dashes := by
  have hl : '\n' ∉ l := not_mem_of_mem_splitAtChar (h ▸ List.mem_cons_self)
  rw [← unlines_splitAtChar t, h, startsDashed_unlines_cons hl]

theorem dashedBelow_of_splitAtChar (h : splitAtChar '\n' t = l :: ls) :
    DashedBelow t ↔ ∃ x ∈ ls, trimRight x = dashes := by
  have hls : ∀ x ∈ l :: ls, '\n' ∉ x := fun x hx => not_mem_of_mem_splitAtChar (h ▸ hx)
  rw [← unlines_splitAtChar t, h, dashedBelow_unlines_cons hls]

theorem opening_iff : Opening o ↔ ∃ l, o = l ++ ['\n'] ∧ OpeningLine l := by
  constructor
  · rintro ⟨sp, brk, rfl, hsp, rfl | rfl⟩
    · exact ⟨dashes ++ (sp ++ []), by simp, sp, [], rfl, hsp, .inl rfl⟩
    · exact ⟨dashes ++ (sp ++ ['\r']), by simp, sp, ['\r'], rfl, hsp, .inr rfl⟩
  · rintro ⟨l, rfl, sp, ret, rfl, hsp, rfl | rfl⟩
    · exact ⟨sp, ['\n'], by simp, hsp, .inl rfl⟩
    · exact ⟨sp, ['\r', '\n'], by simp, hsp, .inr rfl⟩

theorem OpeningLine.feed_not_mem (h : OpeningLine l) : '\n' ∉ l := by
  obtain ⟨sp, ret, rfl, hsp, hret⟩ := h
  have hfeed : '\n' ∉ sp := fun hc => by simpa using hsp _ hc
  rcases hret with rfl | rfl <;> simp [dashes, hfeed]

/-- An opening line at the top of a document is its first line, and others follow it. -/
theorem exists_opening_isPrefix_iff : (∃ o, Opening o ∧ o <+: d) ↔
    ∃ l ls, splitAtChar '\n' d = l :: ls ∧ ls ≠ [] ∧ OpeningLine l := by
  constructor
  · rintro ⟨o, ho, r, rfl⟩
    obtain ⟨l, rfl, hl⟩ := opening_iff.1 ho
    refine ⟨l, splitAtChar '\n' r, ?_, splitAtChar_ne_nil _ _, hl⟩
    rw [List.append_assoc, List.singleton_append, splitAtChar_append_cons hl.feed_not_mem]
  · rintro ⟨l, ls, h, hne, hl⟩
    refine ⟨l ++ ['\n'], opening_iff.2 ⟨l, rfl, hl⟩, unlines ls, ?_⟩
    rw [← unlines_splitAtChar d, h, unlines_cons l hne, List.append_assoc, List.singleton_append]

/-- Frontmatter is there exactly if the first line opens it and a line below is dashed. -/
theorem front_ne_nil_iff : (split d).front ≠ [] ↔ ∃ o ls, splitAtChar '\n' d = o :: ls ∧
    OpeningLine o ∧ ∃ l ∈ ls, trimRight l = dashes := by
  rw [Ne, front_eq_nil_iff, ← Option.not_isSome_iff_eq_none, not_not, isSome_body?_iff,
    exists_opening_isPrefix_iff]
  constructor
  · rintro ⟨⟨o, ls, h, -, ho⟩, hbelow⟩
    exact ⟨o, ls, h, ho, (dashedBelow_of_splitAtChar h).1 hbelow⟩
  · rintro ⟨o, ls, h, ho, l, hl, hdashed⟩
    exact ⟨⟨o, ls, h, List.ne_nil_of_mem hl, ho⟩,
      (dashedBelow_of_splitAtChar h).2 ⟨l, hl, hdashed⟩⟩

/-! ### The closing line -/

theorem Closes.exists_line (h : Closes bs b) : ∃ c below,
    splitAtChar '\n' (dashes ++ (bs ++ b)) = c :: below ∧ trimRight c = dashes := by
  obtain ⟨c, below, hlines⟩ :=
    List.exists_cons_of_ne_nil (splitAtChar_ne_nil '\n' (dashes ++ (bs ++ b)))
  have hstart : StartsDashed (dashes ++ (bs ++ b)) := by
    rw [← afterClosing_isSome_iff, afterClosing_append h]
    rfl
  exact ⟨c, below, hlines, (startsDashed_of_splitAtChar hlines).1 hstart⟩

/-- No line from the third on and above the closing one is dashed, and if the closing one is the
second, no line below it is. -/
theorem exists_closedBy (h : (split d).front ≠ []) : ∃ o inner c below bs,
    ClosedBy d o inner c below bs ∧ Closes bs (split d).body ∧
      (∀ l ∈ inner.tail, trimRight l ≠ dashes) ∧
      (inner = [] → ∀ l ∈ below, trimRight l ≠ dashes) := by
  obtain ⟨front, b, hsplit, rfl, hcut⟩ := exists_boundary d
  rw [hsplit] at h ⊢
  cases hcut with
  | absent none => exact absurd rfl h
  | @hollow o bs _ opening closes only =>
    obtain ⟨o, rfl, ho⟩ := opening_iff.1 opening
    obtain ⟨c, below, hlines, hc⟩ := closes.exists_line
    refine ⟨o, [], c, below, bs, ⟨?_, ho, hc, closes.blank, ?_⟩, closes, by simp, fun _ => ?_⟩
    · have hd : o ++ ['\n'] ++ (dashes ++ bs) ++ b = o ++ '\n' :: (dashes ++ (bs ++ b)) := by simp
      rw [hd, splitAtChar_append_cons ho.feed_not_mem, hlines, List.nil_append]
    · rw [hsplit, unlines_singleton, List.append_assoc, List.singleton_append]
    · simpa [dashedBelow_of_splitAtChar hlines] using only
  | @full o x bs _ opening closes first =>
    obtain ⟨o, rfl, ho⟩ := opening_iff.1 opening
    obtain ⟨c, below, hlines, hc⟩ := closes.exists_line
    obtain ⟨l, ls, hx⟩ := List.exists_cons_of_ne_nil (splitAtChar_ne_nil '\n' x)
    refine ⟨o, l :: ls, c, below, bs, ⟨?_, ho, hc, closes.blank, ?_⟩, closes, ?_, by simp⟩
    · have hd : o ++ ['\n'] ++ (x ++ '\n' :: (dashes ++ bs)) ++ b =
          o ++ '\n' :: (x ++ '\n' :: (dashes ++ (bs ++ b))) := by simp
      rw [hd, splitAtChar_append_cons ho.feed_not_mem, splitAtChar_append, hlines, hx]
    · rw [hsplit, unlines_cons_cons, ← hx, unlines_splitAtChar]
      simp
    · simpa [dashedBelow_of_splitAtChar hx] using first

/-- Where the closing line of frontmatter is. It is the first dashed line below the opening one,
unless the line right below the opening one is dashed and another one further down is. -/
theorem exists_closing_line (h : (split d).front ≠ []) : ∃ o inner c below bs,
    ClosedBy d o inner c below bs ∧
      (∀ l ∈ inner.tail, trimRight l ≠ dashes) ∧
      (inner = [] → ∀ l ∈ below, trimRight l ≠ dashes) ∧
      ((∀ l ∈ inner, trimRight l ≠ dashes) ↔ ¬∃ l ls, inner ++ c :: below = l :: ls ∧
        trimRight l = dashes ∧ ∃ x ∈ ls, trimRight x = dashes) := by
  obtain ⟨o, inner, c, below, bs, hclosed, -, htail, hnil⟩ := exists_closedBy h
  refine ⟨o, inner, c, below, bs, hclosed, htail, hnil, ?_⟩
  cases inner with
  | nil =>
    refine iff_of_true (by simp) ?_
    rintro ⟨l, ls, hl, -, x, hx, hdashed⟩
    obtain ⟨-, rfl⟩ := List.cons.inj hl
    exact hnil rfl x hx hdashed
  | cons l inner =>
    constructor
    · rintro hinner ⟨l', ls, heq, hdashed, -⟩
      obtain ⟨rfl, -⟩ := List.cons.inj heq
      exact hinner l List.mem_cons_self hdashed
    · refine fun hno => List.forall_mem_cons.2 ⟨fun hdashed => hno ?_, htail⟩
      exact ⟨l, inner ++ c :: below, rfl, hdashed, c, by simp, hclosed.dashed⟩

theorem exists_closing_line_sample :
    let d := "---\na: 1\n---\t\n \n# T\n---\n".toList
    (split d).front ≠ [] ∧ ∃ o inner c below bs, ClosedBy d o inner c below bs ∧
      ∀ l ∈ inner, trimRight l ≠ dashes := by
  intro d
  have h : (split d).front ≠ [] := by decide
  obtain ⟨o, inner, c, below, bs, hclosed, -, -, hiff⟩ := exists_closing_line h
  refine ⟨h, o, inner, c, below, bs, hclosed, hiff.2 ?_⟩
  rintro ⟨l, ls, heq, hdashed, -⟩
  have hlines := hclosed.lines
  rw [heq] at hlines
  obtain ⟨-, hrest⟩ := List.cons.inj hlines
  rw [← (List.cons.inj hrest).1] at hdashed
  exact absurd hdashed (by decide)

/-- A dashed line right below the opening one does not close frontmatter if there is one further
down. -/
theorem not_first_closing_line :
    let d := "---\n---\n# T\n---\n- a".toList
    split d = ⟨"---\n---\n# T\n---\n".toList, "- a".toList⟩ ∧
      ¬∃ o inner c below bs, ClosedBy d o inner c below bs ∧
        ∀ l ∈ inner, trimRight l ≠ dashes := by
  intro d
  have hsplit : split d = ⟨"---\n---\n# T\n---\n".toList, "- a".toList⟩ := by decide
  refine ⟨hsplit, ?_⟩
  rintro ⟨o, inner, c, below, bs, hclosed, hno⟩
  obtain ⟨rfl, hrest⟩ := List.cons.inj hclosed.lines
  cases inner with
  | nil =>
    -- Only blanks would follow the second line in the frontmatter.
    have hfront : "---\n---".toList ++ "\n# T\n---\n".toList = "---\n---".toList ++ bs := by
      have h := hclosed.front
      rwa [hsplit] at h
    have hblank := hclosed.blank
    rw [← List.append_cancel_left hfront] at hblank
    exact absurd hblank (by decide)
  | cons l inner =>
    apply hno l List.mem_cons_self
    rw [← (List.cons.inj hrest).1]
    rfl

/-! ### How far frontmatter reaches -/

/-- The blanks from the closing dashes on go up to the last line feed of their run, or to the end of
the document. -/
theorem Closes.reach (h : Closes bs b) :
    ((bs ++ b).all isBlank = true → b = []) ∧
      ((bs ++ b).all isBlank = false → ∃ u v,
        (bs ++ b).takeWhile isBlank = u ++ '\n' :: v ∧ '\n' ∉ v ∧ bs = u ++ ['\n']) := by
  have hbs := h.blank
  rcases h.body with rfl | ⟨⟨u, rfl⟩, htop⟩
  · simp [hbs]
  · obtain ⟨sp, c, r, rfl, hsp, hfeed, hc⟩ := htop.exists_eq
    have hall : ∀ x ∈ u ++ ['\n'] ++ sp, isBlank x = true := by
      rw [← List.all_eq_true, List.all_append, hbs, hsp]
      rfl
    refine ⟨fun hblank => by simp [hc] at hblank, fun _ => ⟨u, sp, ?_, hfeed, rfl⟩⟩
    rw [← List.append_assoc, List.takeWhile_append_of_pos hall,
      List.takeWhile_cons_of_neg (by simp [hc])]
    simp

/-- The first line of a text that has content there. -/
theorem Topped.line (h : Topped t) : (t.takeWhile (· ≠ '\n')).all isBlank = false := by
  obtain ⟨sp, c, r, rfl, -, hfeed, hc⟩ := h.exists_eq
  have hsp : ∀ x ∈ sp, decide (x ≠ '\n') = true := fun x hx =>
    decide_eq_true fun hx' => hfeed (hx' ▸ hx)
  have hne : c ≠ '\n' := by
    rintro rfl
    exact Bool.noConfusion hc
  rw [List.takeWhile_append_of_pos hsp]
  simp [hne, hc]

/-- Which documents have frontmatter, and how far it reaches. Its closing line takes in the blanks
after its dashes, up to the last line feed of their run or to the end of the document, so no blank
line is left at the top of the body. -/
theorem split_extent (d : Text) :
    (split d).front ++ (split d).body = d ∧
      ((split d).front ≠ [] ↔ ∃ o ls, splitAtChar '\n' d = o :: ls ∧ OpeningLine o ∧
        ∃ l ∈ ls, trimRight l = dashes) ∧
      ((split d).front ≠ [] → ∃ o inner c below bs, ClosedBy d o inner c below bs ∧
        ((bs ++ (split d).body).all isBlank = true → (split d).body = []) ∧
        ((bs ++ (split d).body).all isBlank = false → ∃ u v,
          (bs ++ (split d).body).takeWhile isBlank = u ++ '\n' :: v ∧ '\n' ∉ v ∧
            bs = u ++ ['\n']) ∧
        ((split d).body = [] ∨
          ((split d).body.takeWhile (· ≠ '\n')).all isBlank = false)) := by
  refine ⟨(eq_append_of_split rfl).symm, front_ne_nil_iff, fun h => ?_⟩
  obtain ⟨o, inner, c, below, bs, hclosed, hcloses, -⟩ := exists_closedBy h
  obtain ⟨hend, hfeed⟩ := hcloses.reach
  have htop := hcloses.body.imp_right fun hbody => hbody.2.line
  exact ⟨o, inner, c, below, bs, hclosed, hend, hfeed, htop⟩

end MarkTidy.Frontmatter
