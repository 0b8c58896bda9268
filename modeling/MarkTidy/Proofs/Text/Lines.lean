import Mathlib.Data.List.Infix
import MarkTidy.Proofs.Text.Trim
import MarkTidy.Text.Lines

/-!
Lines and the text they are joined to. A line holds no line feed, and its text goes up to the first
line break. Joining lines and cutting the result gives the same lines back, unless one of them ends
in a carriage return.
-/

namespace MarkTidy.Text

variable {c : Char} {l r t : Text} {ls : List Text}

/-- Lines joined by line feeds. -/
def unlines (ls : List Text) : Text := ['\n'].intercalate ls

@[simp] theorem unlines_nil : unlines [] = [] := rfl

@[simp] theorem unlines_singleton (l : Text) : unlines [l] = l := List.intercalate_singleton

theorem unlines_cons_cons (l l' : Text) (ls : List Text) :
    unlines (l :: l' :: ls) = l ++ '\n' :: unlines (l' :: ls) := by
  simp [unlines, List.intercalate_cons_cons]

theorem unlines_cons (l : Text) (h : ls ≠ []) : unlines (l :: ls) = l ++ '\n' :: unlines ls := by
  obtain ⟨l', ls, rfl⟩ := List.exists_cons_of_ne_nil h
  exact unlines_cons_cons l l' ls

theorem unlines_concat (h : ls ≠ []) (l : Text) :
    unlines (ls ++ [l]) = unlines ls ++ '\n' :: l := by
  induction ls with
  | nil => exact absurd rfl h
  | cons x ls ih =>
    cases ls with
    | nil => simp [unlines_cons_cons]
    | cons y ls =>
      rw [List.cons_append, unlines_cons _ (by simp), ih (List.cons_ne_nil y ls), unlines_cons_cons,
        List.append_assoc, List.cons_append]

/-- Trimming a text on the left trims its first line, if that has content. -/
theorem trimLeft_unlines (h : l.all isBlank = false) (ls : List Text) :
    trimLeft (unlines (l :: ls)) = unlines (trimLeft l :: ls) := by
  cases ls with
  | nil => simp
  | cons l' ls => rw [unlines_cons_cons, trimLeft_append_of_content h, unlines_cons_cons]

/-- Trimming a text on the right changes nothing, if its last line has content and is trimmed. -/
theorem trimRight_unlines (hlast : ls.getLast? = some l) (hl : l.all isBlank = false)
    (ht : trimRight l = l) : trimRight (unlines ls) = unlines ls := by
  obtain ⟨ls', rfl⟩ := List.getLast?_eq_some_iff.1 hlast
  cases ls' with
  | nil => simpa using ht
  | cons x ls' =>
    have hfeed : ('\n' :: l).all isBlank = false := by simp_all
    rw [unlines_concat (List.cons_ne_nil x ls'), trimRight_append_of_content hfeed, trimRight_cons,
      if_neg (fun h => by simp [trimRight_eq_nil_iff, hl] at h), ht]

/-- A text that is trimmed on the left does not start with an empty line. -/
theorem ne_nil_of_trimLeft_unlines (h : trimLeft (unlines (l :: ls)) = unlines (l :: ls))
    (hne : unlines (l :: ls) ≠ []) : l ≠ [] := by
  rintro rfl
  cases ls with
  | nil => exact hne rfl
  | cons l' ls =>
    have hlen := (trimLeft_suffix (unlines (l' :: ls))).length_le
    rw [unlines_cons_cons, List.nil_append, trimLeft_cons_of_blank rfl] at h
    rw [h, List.length_cons] at hlen
    omega

/-- A text that is trimmed on the right does not end in an empty line. -/
theorem getLast?_ne_nil_of_trimRight_unlines (h : trimRight (unlines ls) = unlines ls)
    (hne : unlines ls ≠ []) : ls.getLast? ≠ some [] := by
  intro hlast
  obtain ⟨xs, rfl⟩ := List.getLast?_eq_some_iff.1 hlast
  by_cases hnil : xs = []
  · rw [hnil] at hne
    exact hne rfl
  · have hfeed := trimRight_eq_self_iff.1 h '\n' (by rw [unlines_concat hnil]; simp)
    exact Bool.noConfusion hfeed

/-- Two characters that do not make a line break together, the first of them not a line feed. -/
def Unbroken (c : Char) (r : Text) : Prop := c ≠ '\n' ∧ ¬(c = '\r' ∧ r.head? = some '\n')

theorem lines_feed (r : Text) : lines ('\n' :: r) = [] :: lines r := rfl

theorem lines_return_feed (r : Text) : lines ('\r' :: '\n' :: r) = [] :: lines r := rfl

/-- A text is empty, or it starts with a line break or with a character of its first line. -/
theorem line_induction {motive : Text → Prop} (nil : motive [])
    (feed : ∀ r, motive r → motive ('\n' :: r))
    (return_feed : ∀ r, motive r → motive ('\r' :: '\n' :: r))
    (char : ∀ c r, Unbroken c r → motive r → motive (c :: r)) (t : Text) : motive t := by
  have hchar : ∀ c r, (c = '\n' → False) → (∀ r', c = '\r' → r = '\n' :: r' → False) →
      motive r → motive (c :: r) := by
    intro c r hc hr hrec
    refine char c r ⟨hc, ?_⟩ hrec
    rintro ⟨hret, hhead⟩
    obtain ⟨r', hr'⟩ := List.head?_eq_some_iff.1 hhead
    exact hr r' hret hr'
  induction t using lines.induct with
  | case1 => exact nil
  | case2 r ih => exact feed r ih
  | case3 r ih => exact return_feed r ih
  | case4 c r hc hr _ ih => exact hchar c r hc hr ih
  | case5 c r hc hr _ _ _ ih => exact hchar c r hc hr ih

theorem lines_of_unbroken (h : Unbroken c r) : lines (c :: r) =
    match lines r with
    | [] => [[c]]
    | l :: ls => (c :: l) :: ls := by
  rw [lines.eq_def]
  split
  · next hc => simp at hc
  · next hc => exact absurd (List.cons.inj hc).1 h.1
  · next hc =>
    obtain ⟨rfl, rfl⟩ := List.cons.inj hc
    exact absurd ⟨rfl, rfl⟩ h.2
  · next c' r' _ _ hc =>
    obtain ⟨rfl, rfl⟩ := List.cons.inj hc
    rfl

theorem lines_ne_nil (t : Text) : lines t ≠ [] := by
  induction t using line_induction with
  | nil => exact List.cons_ne_nil _ _
  | feed r _ => exact List.cons_ne_nil _ _
  | return_feed r _ => exact List.cons_ne_nil _ _
  | char c r hc ih =>
    obtain ⟨l, ls, hl⟩ := List.exists_cons_of_ne_nil ih
    rw [lines_of_unbroken hc, hl]
    exact List.cons_ne_nil _ _

theorem lines_cons (h : Unbroken c r) :
    ∃ l ls, lines r = l :: ls ∧ lines (c :: r) = (c :: l) :: ls := by
  obtain ⟨l, ls, hl⟩ := List.exists_cons_of_ne_nil (lines_ne_nil r)
  refine ⟨l, ls, hl, ?_⟩
  rw [lines_of_unbroken h, hl]

theorem feed_not_mem_of_mem_lines (h : l ∈ lines t) : '\n' ∉ l := by
  induction t using line_induction generalizing l with
  | nil =>
    rw [List.mem_singleton.1 h]
    exact List.not_mem_nil
  | feed r ih | return_feed r ih =>
    rcases List.mem_cons.1 h with rfl | h
    · exact List.not_mem_nil
    · exact ih h
  | char c r hc ih =>
    obtain ⟨l', ls, hr, hcons⟩ := lines_cons hc
    rw [hr] at ih
    rw [hcons] at h
    rcases List.mem_cons.1 h with rfl | h
    · exact List.not_mem_cons_of_ne_of_not_mem hc.1.symm (ih List.mem_cons_self)
    · exact ih (List.mem_cons_of_mem _ h)

/-- The text of the first line is followed by a line break and the text of the other lines. -/
theorem lines_eq_cons (h : lines t = l :: ls) :
    (ls = [] ∧ t = l) ∨
      ∃ brk r, (brk = ['\n'] ∨ brk = ['\r', '\n']) ∧ t = l ++ brk ++ r ∧ lines r = ls := by
  induction t using line_induction generalizing l with
  | nil =>
    obtain ⟨rfl, rfl⟩ := List.cons.inj h
    exact .inl ⟨rfl, rfl⟩
  | feed r _ =>
    obtain ⟨rfl, rfl⟩ := List.cons.inj h
    exact .inr ⟨['\n'], r, .inl rfl, rfl, rfl⟩
  | return_feed r _ =>
    obtain ⟨rfl, rfl⟩ := List.cons.inj h
    exact .inr ⟨['\r', '\n'], r, .inr rfl, rfl, rfl⟩
  | char c r hc ih =>
    obtain ⟨l', ls', hr, hcons⟩ := lines_cons hc
    obtain ⟨rfl, rfl⟩ := List.cons.inj (hcons.symm.trans h)
    rcases ih hr with ⟨rfl, rfl⟩ | ⟨brk, r', hb, rfl, rfl⟩
    · exact .inl ⟨rfl, rfl⟩
    · exact .inr ⟨brk, r', hb, rfl, rfl⟩

theorem isBlank_return : isBlank '\r' = true := rfl

/-- The first line ends at a line feed, if there are more, perhaps after a carriage return. -/
theorem eq_or_exists_feed (h : lines t = l :: ls) : (ls = [] ∧ t = l) ∨
    ∃ ret r, ret.all isBlank = true ∧ '\n' ∉ ret ∧ t = l ++ ret ++ '\n' :: r ∧ lines r = ls := by
  rcases lines_eq_cons h with hlast | ⟨brk, r, rfl | rfl, rfl, hr⟩
  · exact .inl hlast
  · exact .inr ⟨[], r, rfl, by simp, by simp, hr⟩
  · exact .inr ⟨['\r'], r, rfl, by simp, by simp, hr⟩

theorem all_blank_of_lines (hls : lines t = ls) (h : ∀ l ∈ ls, l.all isBlank = true) :
    t.all isBlank = true := by
  induction ls generalizing t with
  | nil => exact absurd hls (lines_ne_nil t)
  | cons l ls ih =>
    obtain ⟨hl, hrest⟩ := List.forall_mem_cons.1 h
    rcases eq_or_exists_feed hls with ⟨-, rfl⟩ | ⟨ret, r, hret, -, rfl, hr⟩
    · exact hl
    · have hfeed : isBlank '\n' = true := rfl
      simp only [List.all_append, List.all_cons, hl, hret, hfeed, ih hr hrest, Bool.and_self]

theorem takeWhile_of_not_mem (h : '\n' ∉ l) : l.takeWhile (· ≠ '\n') = l := by
  rw [List.takeWhile_eq_self_iff]
  intro c hc
  exact decide_eq_true fun hfeed => h (hfeed ▸ hc)

theorem lines_of_not_mem (h : '\n' ∉ l) : lines l = [l] := by
  induction l with
  | nil => rfl
  | cons c l ih =>
    obtain ⟨hc, hl⟩ := List.ne_and_not_mem_of_not_mem_cons h
    have hhead : l.head? ≠ some '\n' := fun hh => hl (List.mem_of_head? hh)
    obtain ⟨l', ls, hr, hcons⟩ := lines_cons (c := c) (r := l) ⟨Ne.symm hc, fun hh => hhead hh.2⟩
    rw [ih hl] at hr
    obtain ⟨rfl, rfl⟩ := List.cons.inj hr
    exact hcons

theorem lines_append_feed (h : '\n' ∉ l) (hr : l.getLast? ≠ some '\r') (r : Text) :
    lines (l ++ '\n' :: r) = l :: lines r := by
  induction l with
  | nil => exact lines_feed r
  | cons c l ih =>
    obtain ⟨hc, hl⟩ := List.ne_and_not_mem_of_not_mem_cons h
    have hu : Unbroken c (l ++ '\n' :: r) := by
      refine ⟨Ne.symm hc, fun hh => ?_⟩
      cases l with
      | nil => exact hr (by simp [hh.1])
      | cons d l =>
        have hd : d = '\n' := by simpa using hh.2
        exact hl (hd ▸ List.mem_cons_self)
    have hlast : l.getLast? ≠ some '\r' := by
      cases l with
      | nil => simp
      | cons d l => rwa [List.getLast?_cons_cons] at hr
    obtain ⟨l', ls, hl', hcons⟩ := lines_cons hu
    rw [ih hl hlast] at hl'
    obtain ⟨rfl, rfl⟩ := List.cons.inj hl'
    exact hcons

/-- Lines that are joined and cut again come back. -/
theorem lines_unlines (hne : ls ≠ []) (h : ∀ l ∈ ls, '\n' ∉ l ∧ l.getLast? ≠ some '\r') :
    lines (unlines ls) = ls := by
  induction ls with
  | nil => exact absurd rfl hne
  | cons l ls ih =>
    obtain ⟨hl, hr⟩ := h l List.mem_cons_self
    cases ls with
    | nil => rw [unlines_singleton, lines_of_not_mem hl]
    | cons l' ls =>
      rw [unlines_cons_cons, lines_append_feed hl hr,
        ih (List.cons_ne_nil _ _) fun x hx => h x (List.mem_cons_of_mem _ hx)]

theorem getLast?_ne_return (h : trimRight l = l) : l.getLast? ≠ some '\r' := by
  intro hl
  have := trimRight_eq_self_iff.1 h '\r' hl
  rw [isBlank_return] at this
  exact Bool.noConfusion this

theorem splitAtChar_cons_self (c : Char) (t : Text) :
    splitAtChar c (c :: t) = [] :: splitAtChar c t := if_pos rfl

theorem splitAtChar_cons_of_ne {d : Char} (hd : d ≠ c) (hls : splitAtChar c t = l :: ls) :
    splitAtChar c (d :: t) = (d :: l) :: ls := by
  refine (if_neg hd).trans ?_
  rw [hls]

theorem splitAtChar_ne_nil (c : Char) (t : Text) : splitAtChar c t ≠ [] := by
  induction t with
  | nil => exact List.cons_ne_nil _ _
  | cons d t ih =>
    by_cases hd : d = c
    · rw [hd, splitAtChar_cons_self]
      exact List.cons_ne_nil _ _
    · obtain ⟨l, ls, hls⟩ := List.exists_cons_of_ne_nil ih
      rw [splitAtChar_cons_of_ne hd hls]
      exact List.cons_ne_nil _ _

theorem not_mem_of_mem_splitAtChar (h : l ∈ splitAtChar c t) : c ∉ l := by
  induction t generalizing l with
  | nil =>
    rw [List.mem_singleton.1 h]
    exact List.not_mem_nil
  | cons d t ih =>
    obtain ⟨l', ls, hls⟩ := List.exists_cons_of_ne_nil (splitAtChar_ne_nil c t)
    rw [hls] at ih
    by_cases hd : d = c
    · rw [hd, splitAtChar_cons_self, hls] at h
      rcases List.mem_cons.1 h with rfl | h
      · exact List.not_mem_nil
      · exact ih h
    · rw [splitAtChar_cons_of_ne hd hls] at h
      rcases List.mem_cons.1 h with rfl | h
      · exact List.not_mem_cons_of_ne_of_not_mem (Ne.symm hd) (ih List.mem_cons_self)
      · exact ih (List.mem_cons_of_mem _ h)

theorem unlines_splitAtChar (t : Text) : unlines (splitAtChar '\n' t) = t := by
  induction t with
  | nil => rfl
  | cons d t ih =>
    obtain ⟨l, ls, hls⟩ := List.exists_cons_of_ne_nil (splitAtChar_ne_nil '\n' t)
    by_cases hd : d = '\n'
    · rw [hd, splitAtChar_cons_self, unlines_cons _ (splitAtChar_ne_nil _ _), ih]
      rfl
    · rw [splitAtChar_cons_of_ne hd hls]
      rw [hls] at ih
      cases ls with
      | nil => simpa using ih
      | cons l' ls => simpa [unlines_cons_cons] using ih

theorem splitAtChar_of_not_mem (h : c ∉ l) : splitAtChar c l = [l] := by
  induction l with
  | nil => rfl
  | cons d l ih =>
    obtain ⟨hd, hl⟩ := List.ne_and_not_mem_of_not_mem_cons h
    exact splitAtChar_cons_of_ne (Ne.symm hd) (ih hl)

/-- A text is cut at a separator as the texts before and after it are. -/
theorem splitAtChar_append (c : Char) (t r : Text) :
    splitAtChar c (t ++ c :: r) = splitAtChar c t ++ splitAtChar c r := by
  induction t with
  | nil => exact splitAtChar_cons_self c r
  | cons d t ih =>
    obtain ⟨l, ls, hls⟩ := List.exists_cons_of_ne_nil (splitAtChar_ne_nil c t)
    by_cases hd : d = c
    · rw [hd, List.cons_append, splitAtChar_cons_self, splitAtChar_cons_self, ih, List.cons_append]
    · rw [hls, List.cons_append] at ih
      rw [List.cons_append, splitAtChar_cons_of_ne hd ih, splitAtChar_cons_of_ne hd hls,
        List.cons_append]

theorem splitAtChar_append_cons (h : c ∉ l) (r : Text) :
    splitAtChar c (l ++ c :: r) = l :: splitAtChar c r := by
  rw [splitAtChar_append, splitAtChar_of_not_mem h, List.singleton_append]

theorem splitAtChar_unlines (hne : ls ≠ []) (h : ∀ l ∈ ls, '\n' ∉ l) :
    splitAtChar '\n' (unlines ls) = ls := by
  induction ls with
  | nil => exact absurd rfl hne
  | cons l ls ih =>
    obtain ⟨hl, hls⟩ := List.forall_mem_cons.1 h
    cases ls with
    | nil => rw [unlines_singleton, splitAtChar_of_not_mem hl]
    | cons l' ls =>
      rw [unlines_cons_cons, splitAtChar_append_cons hl, ih (List.cons_ne_nil _ _) hls]

end MarkTidy.Text
