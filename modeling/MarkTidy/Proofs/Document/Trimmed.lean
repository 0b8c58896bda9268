import MarkTidy.Proofs.Document.LineKind

/-!
Lines whose kind changes when they are trimmed. A marker with blanks after it opens a heading or a
list item, and without them it opens nothing. All other lines keep their kind, and blanks before a
line never matter.
-/

namespace MarkTidy.LineKind

open Text

variable {c : Char} {l m v w : Text}

/-! ### What a marker opens -/

theorem not_blank_of_digit (h : isDecimalDigit c = true) : isBlank c = false := by
  by_contra hblank
  rw [not_digit_of_blank (Bool.not_eq_false _ ▸ hblank)] at h
  exact Bool.noConfusion h

theorem Marker.not_blank (hm : Marker m) : ∀ c ∈ m, isBlank c = false := by
  cases hm with
  | signs n =>
    intro c hc
    rw [List.eq_of_mem_replicate hc]
    rfl
  | bullet d hd =>
    have hbullets : ∀ d ∈ ['-', '*', '+'], isBlank d = false := List.all_iff_forall_prop.1 rfl
    exact List.forall_mem_singleton.2 (hbullets d hd)
  | number ds _ hdigits =>
    refine List.forall_mem_append.2 ⟨fun c hc => not_blank_of_digit (hdigits c hc), ?_⟩
    exact List.forall_mem_singleton.2 rfl

theorem Marker.ne_nil (hm : Marker m) : m ≠ [] := by
  cases hm with
  | signs n pos => simpa using Nat.ne_of_gt pos
  | bullet d => exact List.cons_ne_nil d []
  | number ds => simp

theorem Marker.trimLeft_append (hm : Marker m) (v : Text) : trimLeft (m ++ v) = m ++ v := by
  obtain ⟨c, r, rfl⟩ := List.exists_cons_of_ne_nil hm.ne_nil
  exact trimLeft_cons_of_not_blank (hm.not_blank c List.mem_cons_self)

theorem Marker.trim_append (hm : Marker m) (hv : v.all isBlank = true) : trim (m ++ v) = m := by
  rw [trim, hm.trimLeft_append, trimRight_append_of_not_blank hm.not_blank,
    trimRight_eq_nil_iff.2 hv, List.append_nil]

theorem takeWhile_of_blank {p : Char → Bool} (hp : ∀ c, isBlank c = true → p c = false)
    (hv : v.all isBlank = true) : v.takeWhile p = [] := by
  cases v with
  | nil => rfl
  | cons c r => exact List.takeWhile_cons_of_neg (by simp_all)

theorem dropWhile_of_blank {p : Char → Bool} (hp : ∀ c, isBlank c = true → p c = false)
    (hv : v.all isBlank = true) : v.dropWhile p = v := by
  cases v with
  | nil => rfl
  | cons c r => exact List.dropWhile_cons_of_neg (by simp_all)

theorem sign_of_blank (c : Char) (h : isBlank c = true) : decide (c = '#') = false := by
  rw [decide_eq_false_iff_not]
  rintro rfl
  cases h

theorem ne_sign_of_digit (h : isDecimalDigit c = true) : c ≠ '#' := by
  rintro rfl
  cases h

theorem opensHeading_of_ne_sign (h : c ≠ '#') (r : Text) : opensHeading (c :: r) = false := by
  simp [opensHeading, h]

theorem Marker.opensHeading_append (hm : Marker m) (hv : v.all isBlank = true) :
    opensHeading (m ++ v) = (decide ('#' ∈ m) && startsBlank v) := by
  cases hm with
  | signs n pos le =>
    have hsigns : ∀ c ∈ List.replicate n '#', decide (c = '#') = true := fun c hc =>
      decide_eq_true (List.eq_of_mem_replicate hc)
    simp only [opensHeading]
    rw [List.takeWhile_append_of_pos hsigns, List.dropWhile_append_of_pos hsigns,
      takeWhile_of_blank sign_of_blank hv, dropWhile_of_blank sign_of_blank hv]
    simp [pos, le, Nat.ne_of_gt pos]
  | bullet d hd =>
    have hne : d ≠ '#' := by
      rintro rfl
      exact absurd hd (by decide)
    rw [List.singleton_append, opensHeading_of_ne_sign hne]
    simp [Ne.symm hne]
  | number ds hne hdigits =>
    have hsign : '#' ∉ ds ++ ['.'] := by
      rw [List.mem_append, not_or]
      exact ⟨fun h => ne_sign_of_digit (hdigits _ h) rfl, by decide⟩
    obtain ⟨d, ds, rfl⟩ := List.exists_cons_of_ne_nil hne
    rw [decide_eq_false hsign, Bool.false_and]
    exact opensHeading_of_ne_sign (ne_sign_of_digit (hdigits d List.mem_cons_self)) _

theorem Marker.opensListItem_append (hm : Marker m) (v : Text) :
    opensListItem (m ++ v) = (decide ('#' ∉ m) && startsBlank v) := by
  cases hm with
  | signs n pos =>
    obtain ⟨n, rfl⟩ := Nat.exists_eq_add_of_le' pos
    have hdigit : isDecimalDigit '#' = false := rfl
    simp [List.replicate_succ, opensListItem, hdigit]
  | bullet d hd =>
    have hsign : '#' ∉ [d] := fun h => absurd (List.mem_singleton.1 h ▸ hd) (by decide)
    rw [List.singleton_append, opensListItem, if_pos (by simpa using hd), decide_eq_true hsign,
      Bool.true_and]
  | number ds hne hdigits =>
    have hsign : '#' ∉ ds ++ ['.'] := by
      rw [List.mem_append, not_or]
      exact ⟨fun h => ne_sign_of_digit (hdigits _ h) rfl, by decide⟩
    obtain ⟨d, ds, rfl⟩ := List.exists_cons_of_ne_nil hne
    obtain ⟨hd, hdigits⟩ := List.forall_mem_cons.1 hdigits
    have hbullet : ¬(d = '-' ∨ d = '*' ∨ d = '+') := by
      rintro (rfl | rfl | rfl) <;> cases hd
    have hdot : isDecimalDigit '.' = false := rfl
    rw [decide_eq_true hsign, Bool.true_and, List.cons_append, List.cons_append, opensListItem,
      if_neg hbullet, if_pos hd, List.append_assoc, List.dropWhile_append_of_pos hdigits]
    simp [hdot]

/-- A marker with blanks after it opens something, and without them nothing. -/
theorem Marker.ofLine_append (hm : Marker m) (hv : v.all isBlank = true) : ofLine (m ++ v) =
    if v = [] then .other else if '#' ∈ m then .heading else .listItem := by
  simp only [ofLine]
  rw [hm.trimLeft_append, hm.opensHeading_append hv, hm.opensListItem_append]
  by_cases hnil : v = []
  · simp [hnil, startsBlank, hm.ne_nil]
  · rw [startsBlank_of_blank hv hnil]
    by_cases hsign : '#' ∈ m <;> simp [hnil, hsign]

/-! ### Lines that lose their kind -/

theorem ofLine_blank_append (hw : w.all isBlank = true) (l : Text) : ofLine (w ++ l) = ofLine l := by
  rw [← ofLine_trimLeft, trimLeft_append_of_blank hw, ofLine_trimLeft]

theorem Marker.trim_eq (hm : Marker m) (hw : w.all isBlank = true) (hv : v.all isBlank = true) :
    trim (w ++ m ++ v) = m := by
  rw [List.append_assoc, trim, trimLeft_append_of_blank hw, ← trim, hm.trim_append hv]

/-- A bare marker, said of the trimmed line. -/
theorem bareMarker_iff : BareMarker l ↔ Marker (trim l) ∧ trimRight l ≠ l := by
  constructor
  · intro h
    refine ⟨?_, fun hright => not_bareMarker_of_trimRight hright h⟩
    obtain ⟨u, m, v, rfl, hu, hm, hv, -⟩ := h
    exact (hm.trim_eq hu hv).symm ▸ hm
  · rintro ⟨hm, hne⟩
    obtain ⟨v, hv, hl⟩ := exists_eq_trimRight_append l
    obtain ⟨u, hu, hright⟩ := exists_eq_append_trimLeft (trimRight l)
    rw [trimLeft_trimRight] at hright
    refine ⟨u, trim l, v, hright ▸ hl, hu, hm, hv, ?_⟩
    rintro rfl
    rw [List.append_nil] at hl
    exact hne hl.symm

theorem BareMarker.ofLine_eq (h : BareMarker l) :
    ofLine l = if '#' ∈ trim l then .heading else .listItem := by
  obtain ⟨u, m, v, rfl, hu, hm, hv, hne⟩ := h
  rw [hm.trim_eq hu hv, List.append_assoc, ofLine_blank_append hu, hm.ofLine_append hv, if_neg hne]

theorem BareMarker.ofLine_trimRight_eq (h : BareMarker l) : ofLine (trimRight l) = .other := by
  have hother := (bareMarker_iff.1 h).1.ofLine_append (v := []) rfl
  rwa [List.append_nil, if_pos rfl, ← trimLeft_trimRight, ofLine_trimLeft] at hother

/-- Trimming on the right changes the kind of bare markers only. They open something before it and
nothing after it. Blanks before a line have no part in its kind. -/
theorem ofLine_trimRight_ne_iff (l : Text) :
    (ofLine (trimRight l) ≠ ofLine l ↔ Marker (trim l) ∧ trimRight l ≠ l) ∧
      (Marker (trim l) → trimRight l ≠ l → ofLine (trimRight l) = .other ∧
        ofLine l = if '#' ∈ trim l then .heading else .listItem) ∧
      ∀ w : Text, w.all isBlank = true → ofLine (w ++ l) = ofLine l := by
  rw [← bareMarker_iff]
  refine ⟨⟨fun hne => ?_, fun h => ?_⟩, fun hm hright => ?_, fun w hw => ofLine_blank_append hw l⟩
  · by_contra hbare
    exact hne (ofLine_trimRight hbare)
  · rw [h.ofLine_eq, h.ofLine_trimRight_eq]
    split <;> nofun
  · have h := bareMarker_iff.2 ⟨hm, hright⟩
    exact ⟨h.ofLine_trimRight_eq, h.ofLine_eq⟩

/-- A number in Arabic digits between blanks of other kinds, a line feed among them. -/
theorem ofLine_trimRight_ne_iff_sample :
    let l := ['\t', '٣', '.', '\n', ' ']
    Marker (trim l) ∧ trimRight l ≠ l ∧ ofLine l = .listItem ∧ ofLine (trimRight l) = .other ∧
      [' ', ' '].all isBlank = true ∧ ofLine ([' ', ' '] ++ l) = ofLine l := by
  intro l
  have hm : Marker (trim l) := .number ['٣'] (by decide) (List.forall_mem_singleton.2 rfl)
  have hright : trimRight l ≠ l := by decide
  obtain ⟨-, hkinds, hblanks⟩ := ofLine_trimRight_ne_iff l
  obtain ⟨hafter, hbefore⟩ := hkinds hm hright
  exact ⟨hm, hright, hbefore, hafter, rfl, hblanks _ rfl⟩

end MarkTidy.LineKind
