import MarkTidy.Proofs.Text.Lines
import MarkTidy.Proofs.Text.Trim
import MarkTidy.Yaml.Tag

/-!
What the forms of plain scalars begin with. Numbers and moments begin with a digit, a sign or a full
stop; and what follows a zero is not blank.
-/

namespace MarkTidy.Yaml.Tag

open Text

variable {c : Char} {t r : Text}

/-- The characters that numbers and moments begin with. -/
def isLead (c : Char) : Bool := isDigit c || c == '+' || c == '-' || c == '.'

/-- A text begins as numbers and moments do. -/
def Leads (t : Text) : Prop := ∃ c r, t = c :: r ∧ isLead c = true

theorem leads_of_startsWithDigit (h : startsWithDigit t = true) : Leads t := by
  cases t with
  | nil => cases h
  | cons c r =>
    have hc : isDigit c = true := h
    exact ⟨c, r, rfl, by simp [isLead, hc]⟩

/-- A sign may stand before it. -/
theorem leads_of_unsigned (h : Leads (unsigned t)) : Leads t := by
  rw [unsigned.eq_def] at h
  split at h
  · exact ⟨'-', _, rfl, rfl⟩
  · exact ⟨'+', _, rfl, rfl⟩
  · exact h

/-- What begins with a digit before its first colon begins with one. -/
theorem leads_of_split {first : Text} {rest : List Text} (h : splitAtChar ':' t = first :: rest)
    (hfirst : startsWithDigit first = true) : Leads t := by
  cases t with
  | nil =>
    obtain ⟨rfl, -⟩ := List.cons.inj h
    cases hfirst
  | cons c r =>
    rw [splitAtChar] at h
    split at h
    · obtain ⟨rfl, -⟩ := List.cons.inj h
      cases hfirst
    · split at h
      all_goals
        obtain ⟨rfl, -⟩ := List.cons.inj h
        exact leads_of_startsWithDigit hfirst

theorem leads_of_looksInt (h : looksInt t = true) : Leads t := by
  refine leads_of_unsigned ?_
  rw [looksInt] at h
  split at h
  · cases h
  · next r hu => exact ⟨'0', r, hu, rfl⟩
  · split at h
    · next first rest hsplit =>
      simp only [Bool.and_eq_true] at h
      exact leads_of_split hsplit h.1.1
    · cases h

/-- The words for what is no finite number begin with a full stop. -/
theorem head?_of_word {words : List String} (hwords : ∀ w ∈ words, w.toList.head? = some '.')
    (h : words.contains (String.ofList t) = true) : t.head? = some '.' := by
  have hhead := hwords _ (List.contains_iff_mem.1 h)
  rwa [String.toList_ofList] at hhead

theorem leads_of_head? (h : t.head? = some '.') : Leads t := by
  obtain ⟨r, rfl⟩ := List.head?_eq_some_iff.1 h
  exact ⟨'.', r, rfl, rfl⟩

theorem leads_of_looksFloat (h : looksFloat t = true) : Leads t := by
  rw [looksFloat] at h
  simp only [Bool.or_eq_true, Bool.and_eq_true] at h
  obtain (((hpointed | hbare) | hsixties) | hinf) | hnan := h
  · exact leads_of_unsigned (leads_of_startsWithDigit hpointed.1.1)
  · exact leads_of_head? (eq_of_beq hbare.1.1)
  · refine leads_of_unsigned ?_
    split at hsixties
    · next hsplit =>
      simp only [Bool.and_eq_true] at hsixties
      exact leads_of_split hsplit hsixties.1.1.1.1
    · cases hsixties
  · exact leads_of_unsigned (leads_of_head? (head?_of_word (by decide) hinf))
  · exact leads_of_head? (head?_of_word (by decide) hnan)

theorem digits?_eq_none (h : startsWithDigit t = false) : Written.digits? 4 4 t = none := by
  have htake : t.takeWhile isDigit = [] := by
    cases t with
    | nil => rfl
    | cons c r =>
      have hc : isDigit c = false := h
      rw [List.takeWhile_cons, hc, if_neg Bool.false_ne_true]
  rw [Written.digits?, htake]
  rfl

theorem leads_of_looksMoment (h : looksMoment t = true) : Leads t := by
  cases hdigit : startsWithDigit t with
  | true => exact leads_of_startsWithDigit hdigit
  | false =>
    rw [looksMoment, Written.ofText?, digits?_eq_none hdigit] at h
    cases h

/-! ### A zero and blanks -/

theorem ne_of_isBlank {b : Char} (hb : isBlank b = true) (hc : isBlank c = false) : b ≠ c := by
  rintro rfl
  rw [hb] at hc
  cases hc

theorem isDigitOrGap_of_isBlank {b : Char} (hb : isBlank b = true) : isDigitOrGap b = false := by
  have hgap : b ≠ '_' := ne_of_isBlank hb rfl
  have hdigit : isDigit b = false := by
    rw [← Bool.not_eq_true]
    intro h
    simp only [isDigit, Bool.and_eq_true, decide_eq_true_eq] at h
    have hlow : 48 ≤ b.toNat := h.1
    have hhigh : b.toNat ≤ 57 := h.2
    simp only [isBlank, Bool.or_eq_true, Bool.and_eq_true, decide_eq_true_eq, beq_iff_eq] at hb
    omega
  simp [isDigitOrGap, hdigit, hgap]

variable {b : Char}

/-- A zero with blanks after it is no number and no moment. -/
theorem not_looksInt_zero (hb : isBlank b = true) : looksInt ('0' :: b :: r) = false := by
  have hoctal : (('0' ≤ b && b ≤ '7') || b == '_') = false := by
    rw [← Bool.not_eq_true]
    intro h
    simp only [isBlank, Bool.or_eq_true, Bool.and_eq_true, decide_eq_true_eq, beq_iff_eq] at hb h
    obtain ⟨hlow, hhigh⟩ | rfl := h
    · have hlow : 48 ≤ b.toNat := hlow
      have hhigh : b.toNat ≤ 55 := hhigh
      omega
    · simp at hb
  have hbase : b ≠ 'b' ∧ b ≠ 'x' := ⟨ne_of_isBlank hb rfl, ne_of_isBlank hb rfl⟩
  have hunsigned : unsigned ('0' :: b :: r) = '0' :: b :: r := rfl
  rw [looksInt, hunsigned]
  simp only [List.all_cons, hoctal, List.isEmpty_cons, Bool.false_and, Bool.false_or]
  split
  · next h => exact absurd (List.cons.inj h).1 hbase.1
  · next h => exact absurd (List.cons.inj h).1 hbase.2
  · rfl

theorem not_looksFloat_zero (hb : isBlank b = true) (hr : ':' ∉ r) :
    looksFloat ('0' :: b :: r) = false := by
  have hsplit : splitAtChar ':' ('0' :: b :: r) = ['0' :: b :: r] :=
    splitAtChar_of_not_mem (by simp [hr, (ne_of_isBlank hb (c := ':') rfl).symm])
  have hdot : b ≠ '.' := ne_of_isBlank hb rfl
  have htail : ('0' :: b :: r).dropWhile isDigitOrGap = b :: r := by
    rw [List.dropWhile_cons, List.dropWhile_cons, isDigitOrGap_of_isBlank hb]
    rfl
  have hword (words : List String) (hwords : ∀ w ∈ words, w.toList.head? = some '.') :
      words.contains (String.ofList ('0' :: b :: r)) = false := by
    rw [← Bool.not_eq_true]
    exact fun h => absurd (head?_of_word hwords h) (by simp)
  have hunsigned : unsigned ('0' :: b :: r) = '0' :: b :: r := rfl
  rw [looksFloat, hunsigned]
  simp only [htail, hsplit, hword [".inf", ".Inf", ".INF"] (by decide),
    hword [".nan", ".NaN", ".NAN"] (by decide)]
  simp [hdot]

theorem not_looksMoment_zero (hb : isBlank b = true) : looksMoment ('0' :: b :: r) = false := by
  have hdigit : isDigit b = false := by
    have h := isDigitOrGap_of_isBlank hb
    rw [isDigitOrGap, Bool.or_eq_false_iff] at h
    exact h.1
  have hdigits : Written.digits? 4 4 ('0' :: b :: r) = none := by
    have htake : ('0' :: b :: r).takeWhile isDigit = ['0'] := by
      rw [List.takeWhile_cons, List.takeWhile_cons, hdigit]
      rfl
    rw [Written.digits?, htake]
    rfl
  rw [looksMoment, Written.ofText?, hdigits]
  rfl

/-- What a plain scalar looks like, as its tag says. -/
theorem ofPlain_cases (ht : '\n' ∉ t) :
    ofPlain t = .bool ∧ looksBool t = true ∨
      ofPlain t = .null ∧ looksNull t = true ∨
      (ofPlain t = .float ∧ looksFloat t = true ∨ ofPlain t = .int ∧ looksInt t = true ∨
        ofPlain t = .moment ∧ looksMoment t = true) ∨
      ofPlain t = .str ∨ ofPlain t ∈ [merge, default, foreign] := by
  have hfeed : withoutFeed t = t := by
    rw [withoutFeed, if_neg]
    simp only [Bool.and_eq_true, not_and]
    intro _ hlast
    exact ht (List.mem_of_getLast? (eq_of_beq hlast))
  rw [ofPlain, hfeed]
  split_ifs <;> simp [*]

end MarkTidy.Yaml.Tag
