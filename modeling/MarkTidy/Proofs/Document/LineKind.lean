import Mathlib.Data.Bool.AllAny
import MarkTidy.Document.LineKind
import MarkTidy.Proofs.Text.Trim

/-!
What the kind of a line depends on. Blanks before a line do not matter, and nothing matters from the
first character on that can be part of no marker.
-/

namespace MarkTidy.LineKind

open Text

theorem ofLine_trimLeft (l : Text) : ofLine (trimLeft l) = ofLine l := by
  rw [ofLine, trimLeft_trimLeft, ← ofLine]

theorem ofLine_eq_blank_iff {l : Text} : ofLine l = .blank ↔ l.all isBlank = true := by
  rw [← trimLeft_eq_nil_iff]
  constructor
  · intro h
    simp only [ofLine] at h
    split_ifs at h with _ _ hb
    exact List.isEmpty_iff.1 hb
  · intro h
    rw [ofLine, h]
    rfl

/-- A character that is no part of a marker and does not follow one. -/
structure Inert (c : Char) : Prop where
  not_blank : isBlank c = false
  not_digit : isDecimalDigit c = false
  not_mark : c ∉ ['#', '-', '*', '+', '.']

variable {c : Char} {r t : Text}

theorem startsBlank_append (hc : Inert c) : startsBlank (t ++ c :: r) = startsBlank t := by
  cases t with
  | nil => simp [startsBlank, hc.not_blank]
  | cons d t => rfl

theorem dropWhile_append_of_neg {p : Char → Bool} (hc : p c = false) :
    (t ++ c :: r).dropWhile p = t.dropWhile p ++ c :: r := by
  rw [List.dropWhile_append, List.dropWhile_cons_of_neg (by simp [hc])]
  split
  · next h => rw [List.isEmpty_iff.1 h, List.nil_append]
  · rfl

theorem takeWhile_append_of_neg {p : Char → Bool} (hc : p c = false) :
    (t ++ c :: r).takeWhile p = t.takeWhile p := by
  rw [List.takeWhile_append, List.takeWhile_cons_of_neg (by simp [hc]), List.append_nil]
  split
  · next h => rw [(List.takeWhile_prefix p).eq_of_length h]
  · rfl

theorem opensHeading_append (hc : Inert c) : opensHeading (t ++ c :: r) = opensHeading t := by
  have hsign : decide (c = '#') = false := by
    have := hc.not_mark
    simp_all
  simp only [opensHeading]
  rw [takeWhile_append_of_neg hsign, dropWhile_append_of_neg hsign, startsBlank_append hc]

theorem opensListItem_append (hc : Inert c) : opensListItem (t ++ c :: r) = opensListItem t := by
  have hmark := hc.not_mark
  simp only [List.mem_cons, List.not_mem_nil, or_false, not_or] at hmark
  cases t with
  | nil => simp [opensListItem, hmark, hc.not_digit]
  | cons d t =>
    rw [List.cons_append, opensListItem, opensListItem, startsBlank_append hc,
      dropWhile_append_of_neg hc.not_digit]
    cases hd : t.dropWhile isDecimalDigit with
    | nil => simp [hmark]
    | cons e rest =>
      by_cases he : e = '.'
      · simp [he, startsBlank_append hc]
      · simp [he]

theorem trimLeft_append_of_inert (hc : Inert c) : trimLeft (t ++ c :: r) = trimLeft t ++ c :: r :=
  dropWhile_append_of_neg hc.not_blank

/-- From an inert character on, a line does not matter for its kind. -/
theorem ofLine_append (hc : Inert c) (t r : Text) : ofLine (t ++ c :: r) =
    if opensHeading (trimLeft t) then .heading
    else if opensListItem (trimLeft t) then .listItem else .other := by
  simp only [ofLine]
  rw [trimLeft_append_of_inert hc, opensHeading_append hc, opensListItem_append hc]
  simp

/-! ### Markers with nothing after them -/

/-- What opens a heading or a list item, without the blank after it. -/
inductive Marker : Text → Prop where
  | signs (n : Nat) (pos : 1 ≤ n) (le : n ≤ 6) : Marker (List.replicate n '#')
  | bullet (c : Char) (mem : c ∈ ['-', '*', '+']) : Marker [c]
  | number (ds : Text) (ne_nil : ds ≠ []) (digits : ∀ d ∈ ds, isDecimalDigit d = true) :
      Marker (ds ++ ['.'])

/-- A line of a marker, perhaps indented, and nothing but blanks after it, at least one. -/
def BareMarker (l : Text) : Prop :=
  ∃ u m v, l = u ++ m ++ v ∧ u.all isBlank = true ∧ Marker m ∧ v.all isBlank = true ∧ v ≠ []

def blankCodes : List Nat := List.range' 9 5 ++ List.range' 28 5 ++ [0x85, 0xA0, 0x1680] ++
  List.range' 0x2000 11 ++ [0x2028, 0x2029, 0x202F, 0x205F, 0x3000]

theorem mem_blankCodes {c : Char} (h : isBlank c = true) : c.toNat ∈ blankCodes := by
  simp only [isBlank, Bool.or_eq_true, Bool.and_eq_true, decide_eq_true_eq, beq_iff_eq] at h
  simp only [blankCodes, List.mem_append, List.mem_range'_1, List.mem_cons, List.not_mem_nil]
  omega

theorem not_digit_of_blank {c : Char} (h : isBlank c = true) : isDecimalDigit c = false := by
  have hcodes : ∀ n ∈ blankCodes,
      (decimalZeros.find? fun z => z ≤ n && n ≤ z + 9).isSome = false := by decide
  have := hcodes c.toNat (mem_blankCodes h)
  simpa [isDecimalDigit, decimalDigit?] using this

theorem not_mark_of_blank {c : Char} (h : isBlank c = true) : c ∉ ['#', '-', '*', '+', '.'] := by
  intro hc
  have hmarks : ∀ m ∈ ['#', '-', '*', '+', '.'], isBlank m = false := List.all_iff_forall_prop.1 rfl
  rw [hmarks c hc] at h
  exact Bool.noConfusion h

variable {v x l : Text}

theorem startsBlank_of_blank (hv : v.all isBlank = true) (hne : v ≠ []) : startsBlank v = true := by
  obtain ⟨c, v, rfl⟩ := List.exists_cons_of_ne_nil hne
  simp only [List.all_cons, Bool.and_eq_true] at hv
  exact hv.1

theorem startsBlank_append_of_ne_nil (hx : x ≠ []) (v : Text) :
    startsBlank (x ++ v) = startsBlank x := by
  obtain ⟨c, x, rfl⟩ := List.exists_cons_of_ne_nil hx
  rfl

theorem opensHeading_append_of_blank (hv : v.all isBlank = true) (hne : v ≠ []) (hx : ¬Marker x) :
    opensHeading (x ++ v) = opensHeading x := by
  have hstart := startsBlank_of_blank hv hne
  obtain ⟨c, v, rfl⟩ := List.exists_cons_of_ne_nil hne
  have hmark : c ∉ ['#', '-', '*', '+', '.'] := not_mark_of_blank hstart
  have hsign : decide (c = '#') = false := by
    rw [decide_eq_false_iff_not]
    rintro rfl
    exact hmark List.mem_cons_self
  simp only [opensHeading]
  rw [takeWhile_append_of_neg hsign, dropWhile_append_of_neg hsign]
  -- Only if all of `x` is number signs does the blank after it matter.
  by_cases hrest : x.dropWhile (· = '#') = []
  · have hall : ∀ d ∈ x, d = '#' := by simpa [List.dropWhile_eq_nil_iff] using hrest
    have hlen : ¬(1 ≤ x.length ∧ x.length ≤ 6) := by
      intro h
      apply hx
      rw [List.eq_replicate_of_mem hall]
      exact .signs x.length h.1 h.2
    have htake : x.takeWhile (· = '#') = x := by
      rw [List.takeWhile_eq_self_iff]
      simpa using hall
    rw [htake, hrest, List.nil_append, hstart]
    simpa [startsBlank] using hlen
  · rw [startsBlank_append_of_ne_nil hrest]

theorem opensListItem_append_of_blank (hv : v.all isBlank = true) (hne : v ≠ []) (hx : ¬Marker x) :
    opensListItem (x ++ v) = opensListItem x := by
  have hstart := startsBlank_of_blank hv hne
  obtain ⟨c, v, rfl⟩ := List.exists_cons_of_ne_nil hne
  have hdigit : isDecimalDigit c = false := not_digit_of_blank hstart
  have hmark : c ∉ ['#', '-', '*', '+', '.'] := not_mark_of_blank hstart
  simp only [List.mem_cons, List.not_mem_nil, or_false, not_or] at hmark
  cases x with
  | nil => simp [opensListItem, hmark, hdigit]
  | cons d x =>
    rw [List.cons_append, opensListItem, opensListItem, dropWhile_append_of_neg hdigit]
    -- The blank matters right after a bullet and right after the full stop of a number.
    by_cases hbullet : d = '-' ∨ d = '*' ∨ d = '+'
    · have hxne : x ≠ [] := by
        rintro rfl
        exact hx (.bullet d (by simpa using hbullet))
      rw [if_pos hbullet, if_pos hbullet, startsBlank_append_of_ne_nil hxne]
    rw [if_neg hbullet, if_neg hbullet]
    cases hd : isDecimalDigit d with
    | false => rfl
    | true =>
      simp only [if_true]
      cases hrest : x.dropWhile isDecimalDigit with
      | nil => simp [hmark]
      | cons e rest =>
        by_cases he : e = '.'
        · have hne : rest ≠ [] := by
            rintro rfl
            have hdigits : ∀ c ∈ d :: x.takeWhile isDecimalDigit, isDecimalDigit c = true :=
              List.forall_mem_cons.2 ⟨hd, fun c hc => List.mem_takeWhile_imp hc⟩
            have hx' : d :: x = (d :: x.takeWhile isDecimalDigit) ++ ['.'] := by
              rw [List.cons_append, ← he, ← hrest, List.takeWhile_append_dropWhile]
            exact hx (hx' ▸ .number _ (List.cons_ne_nil _ _) hdigits)
          simp [he, startsBlank_append_of_ne_nil hne]
        · simp [he]

/-- Trimming a line on the right keeps its kind, unless it is a bare marker. -/
theorem ofLine_trimRight (h : ¬BareMarker l) : ofLine (trimRight l) = ofLine l := by
  obtain ⟨u, hu, hl⟩ := exists_eq_append_trimLeft l
  obtain ⟨v, hv, ht⟩ := exists_eq_trimRight_append (trimLeft l)
  have hleft : trimLeft (trimRight l) = trimRight (trimLeft l) := trimLeft_trimRight l
  have hempty : (trimRight (trimLeft l)).isEmpty = (trimLeft l).isEmpty := by
    rw [Bool.eq_iff_iff, List.isEmpty_iff, List.isEmpty_iff, trimRight_eq_nil_iff,
      trimLeft_eq_nil_iff, all_blank_trimLeft]
  by_cases hnil : v = []
  · rw [hnil, List.append_nil] at ht
    rw [← ofLine_trimLeft, hleft, ← ht, ofLine_trimLeft]
  have hmarker : ¬Marker (trimRight (trimLeft l)) := by
    intro hm
    refine h ⟨u, trimRight (trimLeft l), v, ?_, hu, hm, hv, hnil⟩
    rw [List.append_assoc, ← ht, ← hl]
  have hheading := opensHeading_append_of_blank hv hnil hmarker
  have hitem := opensListItem_append_of_blank hv hnil hmarker
  rw [← ht] at hheading hitem
  simp only [ofLine]
  rw [hleft, ← hheading, ← hitem, hempty]

/-- A line that does not end in a blank is no bare marker. -/
theorem not_bareMarker_of_trimRight (h : trimRight l = l) : ¬BareMarker l := by
  rintro ⟨u, m, v, rfl, -, -, hv, hne⟩
  have hget : (u ++ m ++ v).getLast? = some (v.getLast hne) := by
    simp [List.getLast?_eq_some_getLast, hne]
  have hlast := trimRight_eq_self_iff.1 h (v.getLast hne) hget
  rw [List.all_eq_true.1 hv _ (List.getLast_mem hne)] at hlast
  exact Bool.noConfusion hlast

end MarkTidy.LineKind
