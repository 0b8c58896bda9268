import MarkTidy.Proofs.Text.Trim
import MarkTidy.Text.Lowercase

/-!
Lower-casing is done once and for all: what it gives are characters that it leaves alone wherever
they stand. It makes no character blank that was not, so that a trimmed text stays trimmed.
-/

namespace MarkTidy.Text

variable {c : Char} {t : Text}

/-! ### The table of upper-case letters -/

namespace CaseRun

variable {r s : CaseRun} {n : Nat}

/-- No lower-case partner of the first run is an upper-case letter of the second: the codes of the one
lie below or above those of the other, or are even where the others are odd. -/
def isApart (r s : CaseRun) : Bool :=
  Nat.blt (r.lower + (r.last - r.first)) s.first || Nat.blt s.last r.lower ||
    (Nat.beq s.step 2 && (Nat.beq r.step 2 || Nat.beq r.first r.last) &&
      !Nat.beq (r.lower % 2) (s.first % 2))

/-- The lower-case partner of a code in the run. -/
def partner (r : CaseRun) (n : Nat) : Nat := r.lower + (n - r.first)

theorem contains_iff : r.contains n = true ↔
    r.first ≤ n ∧ n ≤ r.last ∧ (n - r.first) % r.step = 0 := by
  simp [contains, and_assoc]

theorem contains_partner_of_isApart (h : r.isApart s = true) (hn : r.contains n = true) :
    s.contains (r.partner n) = false := by
  rw [contains_iff] at hn
  rw [← Bool.not_eq_true, contains_iff, partner]
  simp only [isApart, Bool.or_eq_true, Bool.and_eq_true, Bool.not_eq_true', Nat.blt_eq,
    Nat.beq_eq, ← Bool.not_eq_true] at h
  rintro ⟨hfirst, hlast, hstep⟩
  rcases h with (h | h) | ⟨⟨h, hr⟩, hodd⟩
  · omega
  · omega
  · rw [h] at hstep
    rcases hr with hr | hr
    · rw [hr] at hn
      omega
    · omega

/-- The codes of the partners lie below some code, or above it. -/
def isClearOf (r : CaseRun) (low high : Nat) : Bool :=
  Nat.blt (r.lower + (r.last - r.first)) low || Nat.blt high r.lower

theorem partner_of_isClearOf {low high : Nat} (h : r.isClearOf low high = true)
    (hn : r.contains n = true) : r.partner n < low ∨ high < r.partner n := by
  rw [contains_iff] at hn
  simp only [isClearOf, Bool.or_eq_true, Nat.blt_eq] at h
  rw [partner]
  omega

end CaseRun

/-- The ranges of blank characters, and the capital I with a dot. -/
def clearRanges : List (Nat × Nat) := [(0x09, 0x20), (0x85, 0x85), (0xA0, 0xA0), (0x130, 0x130),
  (0x1680, 0x1680), (0x2000, 0x200A), (0x2028, 0x2029), (0x202F, 0x202F), (0x205F, 0x205F),
  (0x3000, 0x3000)]

theorem isClearOf_all :
    (caseRuns.all fun r => clearRanges.all fun k => r.isClearOf k.1 k.2) = true := by
  decide +kernel

/-- Below 0x80 there are only the letters from A to Z. -/
theorem first_all : (caseRuns.all fun r =>
    Nat.ble 0x80 r.first || (Nat.beq r.first 0x41 && Nat.beq r.last 0x5A)) = true := by
  decide

theorem first_of_mem {r : CaseRun} (h : r ∈ caseRuns) :
    0x80 ≤ r.first ∨ r.first = 0x41 ∧ r.last = 0x5A := by
  simpa using List.all_eq_true.1 first_all r h

theorem isApart_all : (caseRuns.all fun r => caseRuns.all r.isApart) = true := by
  decide +kernel

/-- The code of a character made from a number is that number, or zero. -/
theorem toNat_ofNat (n : Nat) : (Char.ofNat n).toNat = n ∨ (Char.ofNat n).toNat = 0 := by
  by_cases h : n.isValidChar
  · rw [Char.ofNat, dif_pos h]
    exact .inl rfl
  · rw [Char.ofNat, dif_neg h]
    exact .inr rfl

/-! ### Single characters -/

/-- A character that lower-casing leaves alone wherever it stands. -/
structure IsSmall (c : Char) : Prop where
  not_contains : ∀ r ∈ caseRuns, r.contains c.toNat = false
  ne_dotted : c.toNat ≠ 0x130

namespace IsSmall

theorem ne_sigma (h : IsSmall c) : c.toNat ≠ 0x3A3 := fun hc => by
  have hany : caseRuns.any (·.contains c.toNat) = false :=
    List.any_eq_false.2 fun r hr => Bool.not_eq_true _ ▸ h.not_contains r hr
  rw [hc] at hany
  exact absurd hany (by decide)

theorem lowerChar (h : IsSmall c) : lowerChar c = c := by
  have hfind : caseRuns.find? (·.contains c.toNat) = none :=
    List.find?_eq_none.2 fun r hr => Bool.not_eq_true _ ▸ h.not_contains r hr
  have hletter : ¬('A' ≤ c ∧ c ≤ 'Z') := fun hc => by
    have hrun := h.not_contains ⟨0x41, 0x5A, 1, 0x61⟩ List.mem_cons_self
    rw [← Bool.not_eq_true, CaseRun.contains_iff] at hrun
    exact hrun ⟨hc.1, hc.2, Nat.mod_one _⟩
  rw [Text.lowerChar, hfind, if_neg hletter, ite_self]

end IsSmall

/-- A letter in a run of the table becomes its partner; any other character stays. -/
theorem lowerChar_cases (c : Char) :
    lowerChar c = c ∧ (∀ r ∈ caseRuns, r.contains c.toNat = false) ∨
      ∃ r ∈ caseRuns, r.contains c.toNat = true ∧ lowerChar c = Char.ofNat (r.partner c.toNat) := by
  rw [lowerChar]
  split_ifs with hascii hletter
  · have hcode : 0x41 ≤ c.toNat ∧ c.toNat ≤ 0x5A := hletter
    refine .inr ⟨⟨0x41, 0x5A, 1, 0x61⟩, List.mem_cons_self, ?_, ?_⟩
    · exact CaseRun.contains_iff.2 ⟨hcode.1, hcode.2, Nat.mod_one _⟩
    · rw [CaseRun.partner, show c.toNat + 32 = 0x61 + (c.toNat - 0x41) by omega]
  · refine .inl ⟨rfl, fun r hr => ?_⟩
    rw [← Bool.not_eq_true, CaseRun.contains_iff]
    rintro ⟨hfirst, hlast, -⟩
    rcases first_of_mem hr with h | ⟨h, h'⟩
    · omega
    · rw [h] at hfirst
      rw [h'] at hlast
      exact hletter ⟨hfirst, hlast⟩
  · cases hfind : caseRuns.find? (·.contains c.toNat) with
    | some r =>
      have hn := List.find?_some hfind
      exact .inr ⟨r, List.mem_of_find?_eq_some hfind, hn, rfl⟩
    | none =>
      exact .inl ⟨rfl, fun r hr => by simpa using List.find?_eq_none.1 hfind r hr⟩

theorem toNat_lowerChar {r : CaseRun} {n : Nat} (hr : r ∈ caseRuns) (hn : r.contains n = true)
    {low high : Nat} (hclear : (low, high) ∈ clearRanges) (hlow : 0 < low) :
    (Char.ofNat (r.partner n)).toNat < low ∨ high < (Char.ofNat (r.partner n)).toNat := by
  have h := List.all_eq_true.1 (List.all_eq_true.1 isClearOf_all r hr) _ hclear
  rcases toNat_ofNat (r.partner n) with hcode | hcode
  · rw [hcode]
    exact CaseRun.partner_of_isClearOf h hn
  · rw [hcode]
    exact .inl hlow

theorem isSmall_lowerChar (h : c.toNat ≠ 0x130) : IsSmall (lowerChar c) := by
  rcases lowerChar_cases c with ⟨hc, hruns⟩ | ⟨r, hr, hn, hc⟩
  · rw [hc]
    exact ⟨hruns, h⟩
  · rw [hc]
    refine ⟨fun s hs => ?_, ?_⟩
    · rcases toNat_ofNat (r.partner c.toNat) with hcode | hcode
      · rw [hcode]
        exact CaseRun.contains_partner_of_isApart
          (List.all_eq_true.1 (List.all_eq_true.1 isApart_all r hr) s hs) hn
      · rw [hcode, ← Bool.not_eq_true, CaseRun.contains_iff]
        rintro ⟨hfirst, -, -⟩
        rcases first_of_mem hs with h | h <;> omega
    · have hclear : (0x130, 0x130) ∈ clearRanges := by decide
      have := toNat_lowerChar hr hn hclear (by decide)
      omega

theorem isBlank_lowerChar (h : isBlank c = false) : isBlank (lowerChar c) = false := by
  rcases lowerChar_cases c with ⟨hc, -⟩ | ⟨r, hr, hn, hc⟩
  · rw [hc, h]
  · rw [hc]
    have hclear : ∀ k ∈ clearRanges, 0 < k.1 → (Char.ofNat (r.partner c.toNat)).toNat < k.1 ∨
        k.2 < (Char.ofNat (r.partner c.toNat)).toNat := fun k hk hlow =>
      toNat_lowerChar hr hn hk hlow
    simp only [clearRanges, List.forall_mem_cons, Nat.zero_lt_succ, forall_const] at hclear
    simp only [isBlank, Bool.or_eq_false_iff, Bool.and_eq_false_iff, decide_eq_false_iff_not,
      beq_eq_false_iff_ne]
    omega

/-- A character that is its own partner is small, unless it is the capital I with a dot. -/
theorem isSmall_of_lowerChar (hc : lowerChar c = c) (h : c.toNat ≠ 0x130) : IsSmall c :=
  hc ▸ isSmall_lowerChar h

/-! ### Texts -/

/-- What a character becomes between what stands before it, last character first, and after it. -/
def lowered (before : Text) (c : Char) (after : Text) : Text :=
  if c.toNat = 0x130 then ['i', Char.ofNat 0x307]
  else if c.toNat = 0x3A3 then
    [Char.ofNat (if meetsCased before && !meetsCased after then 0x3C2 else 0x3C3)]
  else [lowerChar c]

theorem lowerAfter_cons (before : Text) (c : Char) (t : Text) :
    lowerAfter before (c :: t) = lowered before c t ++ lowerAfter (c :: before) t := rfl

theorem lowered_ne_nil (before : Text) (c : Char) (after : Text) : lowered before c after ≠ [] := by
  rw [lowered]
  split_ifs <;> exact List.cons_ne_nil _ _

/-- Each character becomes small characters, which are blank only if it is. -/
theorem of_mem_lowered {before after : Text} {d : Char} (hd : d ∈ lowered before c after) :
    IsSmall d ∧ (isBlank c = false → isBlank d = false) := by
  have hspecial : ∀ d ∈ ['i', Char.ofNat 0x307, Char.ofNat 0x3C2, Char.ofNat 0x3C3],
      IsSmall d ∧ (isBlank c = false → isBlank d = false) := by
    simp only [List.forall_mem_cons, List.not_mem_nil, false_imp_iff, implies_true, and_true]
    refine ⟨⟨isSmall_of_lowerChar ?_ ?_, fun _ => ?_⟩, ⟨isSmall_of_lowerChar ?_ ?_, fun _ => ?_⟩,
      ⟨isSmall_of_lowerChar ?_ ?_, fun _ => ?_⟩, isSmall_of_lowerChar ?_ ?_, fun _ => ?_⟩ <;>
    decide
  rw [lowered] at hd
  split_ifs at hd with hdotted hsigma
  · exact hspecial d (List.mem_append_left [Char.ofNat 0x3C2, Char.ofNat 0x3C3] hd)
  · exact hspecial d (by simp [List.mem_singleton.1 hd])
  · exact hspecial d (by simp [List.mem_singleton.1 hd])
  · rw [List.mem_singleton.1 hd]
    exact ⟨isSmall_lowerChar hdotted, isBlank_lowerChar⟩

theorem isSmall_of_mem_lowerAfter {before : Text} (h : c ∈ lowerAfter before t) : IsSmall c := by
  induction t generalizing before with
  | nil => cases h
  | cons d t ih =>
    rw [lowerAfter_cons, List.mem_append] at h
    exact h.elim (fun h => (of_mem_lowered h).1) ih

theorem isSmall_of_mem_lower (h : c ∈ lower t) : IsSmall c := isSmall_of_mem_lowerAfter h

theorem lowerAfter_of_isSmall (before : Text) (h : ∀ c ∈ t, IsSmall c) :
    lowerAfter before t = t := by
  induction t generalizing before with
  | nil => rfl
  | cons c t ih =>
    obtain ⟨hc, ht⟩ := List.forall_mem_cons.1 h
    rw [lowerAfter_cons, lowered, if_neg hc.ne_dotted, if_neg hc.ne_sigma, hc.lowerChar, ih _ ht,
      List.singleton_append]

/-- Small characters are lower case already. -/
theorem lower_of_isSmall (h : ∀ c ∈ t, IsSmall c) : lower t = t := lowerAfter_of_isSmall [] h

/-- Lower-casing twice is lower-casing once. -/
theorem lower_lower (t : Text) : lower (lower t) = lower t :=
  lower_of_isSmall fun _ => isSmall_of_mem_lower

theorem head?_lowerAfter {before : Text} {d : Char} (ht : trimLeft t = t)
    (h : (lowerAfter before t).head? = some d) : isBlank d = false := by
  cases t with
  | nil => cases h
  | cons c t =>
    have hc := trimLeft_eq_self_iff.1 ht c rfl
    rw [lowerAfter_cons, List.head?_append_of_ne_nil _ (lowered_ne_nil _ _ _)] at h
    exact (of_mem_lowered (List.mem_of_mem_head? h)).2 hc

theorem getLast?_lowerAfter {before : Text} {d : Char} (ht : trimRight t = t)
    (h : (lowerAfter before t).getLast? = some d) : isBlank d = false := by
  rw [trimRight_eq_self_iff] at ht
  induction t generalizing before with
  | nil => cases h
  | cons c t ih =>
    rw [lowerAfter_cons] at h
    cases t with
    | nil =>
      rw [lowerAfter, List.append_nil] at h
      exact (of_mem_lowered (List.mem_of_getLast? h)).2 (ht c rfl)
    | cons c' t =>
      have hne : lowerAfter (c :: before) (c' :: t) ≠ [] := by
        rw [lowerAfter_cons]
        exact List.append_ne_nil_of_left_ne_nil (lowered_ne_nil _ _ _) _
      rw [List.getLast?_append_of_ne_nil _ hne] at h
      exact ih (by simpa using ht) h

/-- A trimmed text is trimmed in lower case too. -/
theorem trim_lower (h : trim t = t) : trim (lower t) = lower t := by
  obtain ⟨hleft, hright⟩ := trim_eq_self_iff.1 h
  exact trim_eq_self_iff.2 ⟨trimLeft_eq_self_iff.2 fun _ => head?_lowerAfter hleft,
    trimRight_eq_self_iff.2 fun _ => getLast?_lowerAfter hright⟩

end MarkTidy.Text
