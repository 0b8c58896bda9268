import MarkTidy.Document.Frontmatter
import MarkTidy.Proofs.Document.LineKind
import MarkTidy.Proofs.Text.InOrder
import MarkTidy.Proofs.Text.Lines

/-!
Dashed lines. A line of three dashes, with at most blanks after them, closes frontmatter: a text is
read as a closing delimiter exactly if its first line is dashed, and a closing delimiter is found
further down exactly if a line below the first is dashed. So a document has frontmatter exactly if
it starts with an opening line and has a dashed line below it.
-/

namespace MarkTidy.Frontmatter

open Text

variable {c : Char} {b bs d l o r s t u x : Text} {ls : List Text}

def dashes : Text := ['-', '-', '-']

/-- The first line of a text is dashed. -/
def StartsDashed (t : Text) : Prop := trimRight (t.takeWhile (· ≠ '\n')) = dashes

instance (t : Text) : Decidable (StartsDashed t) :=
  inferInstanceAs (Decidable (trimRight (t.takeWhile (· ≠ '\n')) = dashes))

/-- A line below the first is dashed. -/
def DashedBelow (t : Text) : Prop := ∃ u s, t = u ++ '\n' :: s ∧ StartsDashed s

theorem startsDashed_append_feed : StartsDashed (u ++ '\n' :: s) ↔ StartsDashed u := by
  have h : decide ('\n' ≠ '\n') = false := rfl
  rw [StartsDashed, LineKind.takeWhile_append_of_neg h, StartsDashed]

theorem startsDashed_of_not_mem (h : '\n' ∉ l) : StartsDashed l ↔ trimRight l = dashes := by
  rw [StartsDashed, takeWhile_of_not_mem h]

theorem startsDashed_dashes_append (h : bs.all isBlank = true) : StartsDashed (dashes ++ bs) := by
  have htake : (dashes ++ bs).takeWhile (· ≠ '\n') = dashes ++ bs.takeWhile (· ≠ '\n') := rfl
  have hblank : (bs.takeWhile (· ≠ '\n')).all isBlank = true := by
    rw [List.all_eq_true] at h ⊢
    intro c hc
    exact h c ((List.takeWhile_prefix _).subset hc)
  rw [StartsDashed, htake, trimRight_append_of_blank hblank]
  rfl

/-- A dashed first line ends the text or is ended by a line feed. -/
theorem StartsDashed.exists_eq (h : StartsDashed t) : ∃ bs, bs.all isBlank = true ∧
    (t = dashes ++ bs ∨ ∃ s, t = dashes ++ (bs ++ '\n' :: s)) := by
  obtain ⟨bs, hbs, hline⟩ := exists_eq_trimRight_append (t.takeWhile (· ≠ '\n'))
  have ht : t = t.takeWhile (· ≠ '\n') ++ t.dropWhile (· ≠ '\n') :=
    List.takeWhile_append_dropWhile.symm
  rw [StartsDashed] at h
  rw [hline, h] at ht
  refine ⟨bs, hbs, ?_⟩
  cases hrest : t.dropWhile (· ≠ '\n') with
  | nil => exact .inl (by rwa [hrest, List.append_nil] at ht)
  | cons c s =>
    have hc := List.head?_dropWhile_not (· ≠ '\n') t
    rw [hrest] at hc
    obtain rfl : c = '\n' := by simpa using hc
    exact .inr ⟨s, by rwa [hrest, List.append_assoc] at ht⟩

theorem dashedBelow_cons :
    DashedBelow (c :: r) ↔ (c = '\n' ∧ StartsDashed r) ∨ DashedBelow r := by
  constructor
  · rintro ⟨u, s, h, hs⟩
    cases u with
    | nil =>
      obtain ⟨rfl, rfl⟩ := List.cons.inj h
      exact .inl ⟨rfl, hs⟩
    | cons d u =>
      obtain ⟨rfl, rfl⟩ := List.cons.inj h
      exact .inr ⟨u, s, rfl, hs⟩
  · rintro (⟨rfl, hs⟩ | ⟨u, s, rfl, hs⟩)
    · exact ⟨[], r, rfl, hs⟩
    · exact ⟨c :: u, s, rfl, hs⟩

theorem not_dashedBelow_nil : ¬DashedBelow [] := by
  rintro ⟨u, s, h, -⟩
  simp at h

theorem dashedBelow_append_feed :
    DashedBelow (u ++ '\n' :: s) ↔ DashedBelow u ∨ StartsDashed s ∨ DashedBelow s := by
  induction u with
  | nil => simp [dashedBelow_cons, not_dashedBelow_nil]
  | cons c u ih =>
    rw [List.cons_append, dashedBelow_cons, startsDashed_append_feed, ih, dashedBelow_cons,
      or_assoc]

theorem not_dashedBelow_of_not_mem (h : '\n' ∉ t) : ¬DashedBelow t := by
  rintro ⟨u, s, rfl, -⟩
  simp at h

theorem not_dashedBelow_of_blank (h : t.all isBlank = true) : ¬DashedBelow t := by
  rintro ⟨u, s, rfl, hs⟩
  obtain ⟨bs, -, rfl | ⟨s, rfl⟩⟩ := hs.exists_eq <;> simp [dashes, isBlank] at h

/-- A dashed line further down is a word of the text, once the text ends in a line feed. -/
theorem dashedBelow_iff_isInfix : DashedBelow t ↔ ∃ bs, bs.all isBlank = true ∧
    '\n' :: (dashes ++ (bs ++ ['\n'])) <:+: t ++ ['\n'] := by
  constructor
  · rintro ⟨u, s, rfl, hs⟩
    obtain ⟨bs, hbs, rfl | ⟨s, rfl⟩⟩ := hs.exists_eq
    · exact ⟨bs, hbs, u, [], by simp⟩
    · exact ⟨bs, hbs, u, s ++ ['\n'], by simp⟩
  · rintro ⟨bs, hbs, u, v, h⟩
    rcases List.eq_nil_or_concat v with rfl | ⟨v, c, rfl⟩
    · have ht : u ++ '\n' :: (dashes ++ bs) ++ ['\n'] = t ++ ['\n'] := by simpa using h
      rw [← List.append_cancel_right ht]
      exact ⟨u, _, rfl, startsDashed_dashes_append hbs⟩
    · have ht : u ++ '\n' :: (dashes ++ bs ++ '\n' :: v) ++ [c] = t ++ ['\n'] := by simpa using h
      rw [← List.append_inj_left' ht rfl]
      exact ⟨u, _, rfl, startsDashed_append_feed.2 (startsDashed_dashes_append hbs)⟩

/-! ### Lines -/

theorem startsDashed_unlines_cons (h : '\n' ∉ l) (ls : List Text) :
    StartsDashed (unlines (l :: ls)) ↔ trimRight l = dashes := by
  cases ls with
  | nil => rw [unlines_singleton, startsDashed_of_not_mem h]
  | cons x ls => rw [unlines_cons_cons, startsDashed_append_feed, startsDashed_of_not_mem h]

theorem dashedBelow_unlines_cons (h : ∀ x ∈ l :: ls, '\n' ∉ x) :
    DashedBelow (unlines (l :: ls)) ↔ ∃ x ∈ ls, trimRight x = dashes := by
  induction ls generalizing l with
  | nil =>
    rw [unlines_singleton]
    simp [not_dashedBelow_of_not_mem (h l List.mem_cons_self)]
  | cons x ls ih =>
    obtain ⟨hl, hls⟩ := List.forall_mem_cons.1 h
    rw [unlines_cons_cons, dashedBelow_append_feed, ih hls,
      startsDashed_unlines_cons (hls x List.mem_cons_self), List.exists_mem_cons_iff]
    simp [not_dashedBelow_of_not_mem hl]

theorem startsDashed_of_lines (h : lines t = l :: ls) : StartsDashed t ↔ trimRight l = dashes := by
  have hl : '\n' ∉ l := feed_not_mem_of_mem_lines (h ▸ List.mem_cons_self)
  rcases eq_or_exists_feed h with ⟨-, rfl⟩ | ⟨ret, r, hblank, hret, rfl, -⟩
  · exact startsDashed_of_not_mem hl
  · rw [startsDashed_append_feed, startsDashed_of_not_mem (by simp [hl, hret]),
      trimRight_append_of_blank hblank]

theorem dashedBelow_of_mem_lines (h : lines t = l :: ls) (hx : x ∈ ls)
    (hdashes : trimRight x = dashes) : DashedBelow t := by
  induction ls generalizing t l with
  | nil => exact absurd hx List.not_mem_nil
  | cons y ls ih =>
    rcases eq_or_exists_feed h with ⟨hnil, -⟩ | ⟨ret, r, -, -, rfl, hr⟩
    · cases hnil
    rw [dashedBelow_append_feed]
    apply Or.inr
    rcases List.mem_cons.1 hx with rfl | hx
    · exact .inl ((startsDashed_of_lines hr).2 hdashes)
    · exact .inr (ih hr hx)

/-- A text trimmed on the left starts with its first line with content. -/
theorem startsDashed_trimLeft_iff (h : lines t = ls) : StartsDashed (trimLeft t) ↔
    ∃ l, ls.find? (!·.all isBlank) = some l ∧ trim l = dashes := by
  induction ls generalizing t with
  | nil => exact absurd h (lines_ne_nil t)
  | cons l ls ih =>
    have hl : '\n' ∉ trimLeft l := by
      intro hfeed
      exact feed_not_mem_of_mem_lines (h ▸ List.mem_cons_self) ((trimLeft_suffix l).subset hfeed)
    cases hb : l.all isBlank with
    | true =>
      rw [List.find?_cons_of_neg (by simp [hb])]
      rcases eq_or_exists_feed h with ⟨rfl, rfl⟩ | ⟨ret, r, hblank, -, rfl, hr⟩
      · rw [trimLeft_eq_nil_iff.2 hb]
        simp [StartsDashed, dashes]
      · rw [trimLeft_append_of_blank (by simp [hb, hblank]), trimLeft_cons_of_blank (by rfl)]
        exact ih hr
    | false =>
      have hline : StartsDashed (trimLeft t) ↔ trim l = dashes := by
        rcases eq_or_exists_feed h with ⟨rfl, rfl⟩ | ⟨ret, r, hblank, hret, rfl, -⟩
        · exact startsDashed_of_not_mem hl
        · rw [List.append_assoc, trimLeft_append_of_content hb, ← List.append_assoc,
            startsDashed_append_feed, startsDashed_of_not_mem (by simp [hl, hret]),
            trimRight_append_of_blank hblank, trim]
      rw [List.find?_cons_of_pos (by simp [hb]), hline]
      simp

end MarkTidy.Frontmatter
