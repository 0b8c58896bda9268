import Mathlib.Data.List.DropRight
import Mathlib.Data.List.Infix
import MarkTidy.Text.Blank

/-!
Trimming. A text is trimmed one side at a time; what trimming leaves is a piece of the text, and
it is empty exactly if the text is blank.
-/

namespace MarkTidy.Text

variable {c : Char} {r t u : Text}

theorem trimRight_eq_rdropWhile (t : Text) : trimRight t = t.rdropWhile isBlank := rfl

@[simp] theorem trimLeft_nil : trimLeft [] = [] := rfl

@[simp] theorem trimRight_nil : trimRight [] = [] := rfl

@[simp] theorem trim_nil : trim [] = [] := rfl

theorem trimLeft_cons_of_blank (h : isBlank c = true) : trimLeft (c :: t) = trimLeft t := by
  simp [trimLeft, h]

theorem trimLeft_cons_of_not_blank (h : isBlank c = false) : trimLeft (c :: t) = c :: t := by
  simp [trimLeft, h]

theorem trimLeft_suffix (t : Text) : trimLeft t <:+ t := List.dropWhile_suffix _

theorem trimRight_isPrefix (t : Text) : trimRight t <+: t := List.rdropWhile_prefix _ _

theorem trim_isInfix (t : Text) : trim t <:+: t :=
  (trimRight_isPrefix _).isInfix.trans (trimLeft_suffix t).isInfix

theorem trimLeft_eq_nil_iff : trimLeft t = [] ↔ t.all isBlank = true := by
  simp [trimLeft, List.dropWhile_eq_nil_iff]

theorem trimRight_eq_nil_iff : trimRight t = [] ↔ t.all isBlank = true := by
  simp [trimRight_eq_rdropWhile, List.rdropWhile_eq_nil_iff]

theorem not_blank_of_trimLeft (h : trimLeft t = c :: r) : isBlank c = false := by
  have hhead := List.head?_dropWhile_not isBlank t
  rw [← trimLeft, h] at hhead
  simpa using hhead

/-- Trimming on the right, read from the left. -/
theorem trimRight_cons (c : Char) (t : Text) :
    trimRight (c :: t) = if trimRight t = [] ∧ isBlank c = true then [] else c :: trimRight t := by
  have h : (t.reverse ++ [c]).dropWhile isBlank = _ := List.dropWhile_append
  simp only [trimRight, List.reverse_cons, h, List.reverse_eq_nil_iff, List.isEmpty_iff]
  by_cases ht : List.dropWhile isBlank t.reverse = []
  · by_cases hc : isBlank c = true <;> simp [ht, hc]
  · simp [ht]

theorem trimRight_append_of_blank (h : u.all isBlank = true) :
    trimRight (t ++ u) = trimRight t := by
  induction t with
  | nil => simpa using trimRight_eq_nil_iff.2 h
  | cons c t ih => rw [List.cons_append, trimRight_cons, ih, ← trimRight_cons]

theorem trimRight_append_of_content (h : u.all isBlank = false) :
    trimRight (t ++ u) = t ++ trimRight u := by
  have hu : trimRight u ≠ [] := by simp [trimRight_eq_nil_iff, h]
  induction t with
  | nil => rfl
  | cons c t ih =>
    have hne : ¬(t ++ trimRight u = []) := by simp [hu]
    rw [List.cons_append, trimRight_cons, ih, if_neg (fun h => hne h.1), List.cons_append]

theorem trimRight_append_of_not_blank (hu : ∀ c ∈ u, isBlank c = false) (t : Text) :
    trimRight (u ++ t) = u ++ trimRight t := by
  induction u with
  | nil => rfl
  | cons c u ih =>
    obtain ⟨hc, hu⟩ := List.forall_mem_cons.1 hu
    rw [List.cons_append, trimRight_cons, if_neg (by simp [hc]), ih hu, List.cons_append]

theorem trimLeft_append_of_content (h : t.all isBlank = false) :
    trimLeft (t ++ u) = trimLeft t ++ u := by
  have ht : ¬(t.dropWhile isBlank).isEmpty = true := by
    rw [List.isEmpty_iff, ← trimLeft, trimLeft_eq_nil_iff, h]
    exact Bool.false_ne_true
  rw [trimLeft, List.dropWhile_append, if_neg ht, trimLeft]

theorem trimLeft_append_cons (h : isBlank c = false) (t u : Text) :
    trimLeft (t ++ c :: u) = trimLeft t ++ c :: u := by
  induction t with
  | nil => exact trimLeft_cons_of_not_blank h
  | cons d t ih =>
    rw [List.cons_append]
    cases hd : isBlank d with
    | true => rw [trimLeft_cons_of_blank hd, trimLeft_cons_of_blank hd, ih]
    | false =>
      rw [trimLeft_cons_of_not_blank hd, trimLeft_cons_of_not_blank hd, List.cons_append]

theorem trimLeft_append_of_blank (h : t.all isBlank = true) : trimLeft (t ++ u) = trimLeft u :=
  List.dropWhile_append_of_pos (List.all_eq_true.1 h)

theorem trimLeft_trimLeft (t : Text) : trimLeft (trimLeft t) = trimLeft t :=
  List.dropWhile_idempotent _ _

@[simp] theorem trimRight_trimRight (t : Text) : trimRight (trimRight t) = trimRight t :=
  List.rdropWhile_idempotent _ _

@[simp] theorem all_blank_trimRight (t : Text) : (trimRight t).all isBlank = t.all isBlank := by
  rw [Bool.eq_iff_iff, ← trimRight_eq_nil_iff, trimRight_trimRight, trimRight_eq_nil_iff]

@[simp] theorem all_blank_trimLeft (t : Text) : (trimLeft t).all isBlank = t.all isBlank := by
  rw [Bool.eq_iff_iff, ← trimLeft_eq_nil_iff, trimLeft_trimLeft, trimLeft_eq_nil_iff]

theorem exists_eq_append_trimLeft (t : Text) : ∃ u, u.all isBlank = true ∧ t = u ++ trimLeft t :=
  ⟨t.takeWhile isBlank, List.all_takeWhile, List.takeWhile_append_dropWhile.symm⟩

theorem exists_eq_trimRight_append (t : Text) :
    ∃ v, v.all isBlank = true ∧ t = trimRight t ++ v := by
  obtain ⟨u, hu, ht⟩ := exists_eq_append_trimLeft t.reverse
  refine ⟨u.reverse, by simpa using hu, ?_⟩
  have h := congrArg List.reverse ht
  rwa [List.reverse_reverse, List.reverse_append] at h

/-- The order in which the two sides are trimmed does not matter. -/
theorem trimLeft_trimRight (t : Text) : trimLeft (trimRight t) = trim t := by
  induction t with
  | nil => rfl
  | cons c t ih =>
    by_cases hc : isBlank c = true
    · rw [trim, trimLeft_cons_of_blank hc, ← trim, ← ih, trimRight_cons]
      split
      · next h => simp [h.1]
      · exact trimLeft_cons_of_blank hc
    · have hc' : isBlank c = false := by simpa using hc
      rw [trim, trimLeft_cons_of_not_blank hc', trimRight_cons, if_neg (fun h => hc h.2),
        trimLeft_cons_of_not_blank hc']

theorem trim_eq_nil_iff : trim t = [] ↔ t.all isBlank = true := by
  rw [trim, trimRight_eq_nil_iff, all_blank_trimLeft]

theorem exists_trim_eq_cons (h : t.all isBlank = false) :
    ∃ c r, trim t = c :: r ∧ isBlank c = false := by
  rw [← trimLeft_trimRight]
  cases ht : trimLeft (trimRight t) with
  | nil =>
    rw [trimLeft_eq_nil_iff, all_blank_trimRight, h] at ht
    cases ht
  | cons c r => exact ⟨c, r, rfl, not_blank_of_trimLeft ht⟩

theorem trim_trim (t : Text) : trim (trim t) = trim t := by
  rw [← trimLeft_trimRight, trim, trimRight_trimRight, ← trim, ← trimLeft_trimRight,
    trimLeft_trimLeft]

/-- A text that starts with no blank is left as it is. -/
theorem trimLeft_eq_self_iff :
    trimLeft t = t ↔ ∀ c, t.head? = some c → isBlank c = false := by
  cases t with
  | nil => simp
  | cons c t =>
    cases hc : isBlank c with
    | false => simp [trimLeft_cons_of_not_blank hc, hc]
    | true =>
      have hlength := (trimLeft_suffix t).length_le
      refine iff_of_false (fun h => ?_) (by simp [hc])
      rw [← trimLeft_cons_of_blank hc, h, List.length_cons] at hlength
      omega

/-- A text that ends in no blank is left as it is. -/
theorem trimRight_eq_self_iff :
    trimRight t = t ↔ ∀ c, t.getLast? = some c → isBlank c = false := by
  rw [trimRight_eq_rdropWhile, List.rdropWhile_eq_self_iff]
  by_cases ht : t = []
  · simp [ht]
  · simp [ht, List.getLast?_eq_some_getLast ht]

theorem trim_eq_self_iff : trim t = t ↔ trimLeft t = t ∧ trimRight t = t := by
  constructor
  · intro h
    have hleft : trimLeft (trim t) = trim t := by rw [← trimLeft_trimRight, trimLeft_trimLeft]
    have hright : trimRight (trim t) = trim t := trimRight_trimRight _
    exact ⟨by rwa [h] at hleft, by rwa [h] at hright⟩
  · rintro ⟨hleft, hright⟩
    rw [trim, hleft, hright]

end MarkTidy.Text
