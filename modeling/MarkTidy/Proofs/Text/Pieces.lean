import Mathlib.Data.List.Basic
import Mathlib.Data.List.TakeWhile
import MarkTidy.Text.Lines

/-!
Lines with their ends, where no line ends otherwise than in a line feed. All but the last of them have
their line feed, and lines that are so joined and cut again come back.
-/

namespace MarkTidy.Text

variable {l r t : Text} {ls ls' : List Text}

/-- A text without the end of any line. -/
def OneLine (t : Text) : Prop := ∀ c ∈ t, isBoundary c = false

/-- No line of a text ends otherwise than in a line feed. -/
def FeedsOnly (t : Text) : Prop := ∀ c ∈ t, isBoundary c = true → c = '\n'

instance (t : Text) : Decidable (OneLine t) :=
  List.decidableBAll (isBoundary · = false) t

instance (t : Text) : Decidable (FeedsOnly t) :=
  List.decidableBAll (fun c => isBoundary c = true → c = '\n') t

/-- A line with a line feed at its end. -/
def Ended (l : Text) : Prop := ∃ r, OneLine r ∧ l = r ++ ['\n']

/-- A line without an end. -/
def Unended (l : Text) : Prop := l ≠ [] ∧ OneLine l

/-- Lines of which only the last may be without an end. -/
inductive IsLines : List Text → Prop where
  | nil : IsLines []
  | last {l : Text} (h : Unended l) : IsLines [l]
  | cons {l : Text} {ls : List Text} (h : Ended l) (rest : IsLines ls) : IsLines (l :: ls)

/-- A line without its end. -/
def bare (l : Text) : Text := l.takeWhile (!isBoundary ·)

/-- The lines of a text without their ends. -/
def rows (t : Text) : List Text := (pieces t).map bare

theorem oneLine_append {u : Text} : OneLine (t ++ u) ↔ OneLine t ∧ OneLine u := List.forall_mem_append

theorem OneLine.cons {c : Char} (hc : isBoundary c = false) (h : OneLine t) : OneLine (c :: t) :=
  List.forall_mem_cons.2 ⟨hc, h⟩

theorem Ended.cons {c : Char} (hc : isBoundary c = false) (h : Ended l) : Ended (c :: l) := by
  obtain ⟨r, hr, rfl⟩ := h
  exact ⟨c :: r, hr.cons hc, rfl⟩

theorem Unended.cons {c : Char} (hc : isBoundary c = false) (h : Unended l) : Unended (c :: l) :=
  ⟨List.cons_ne_nil c l, h.2.cons hc⟩

theorem Ended.getLast? (h : Ended l) : l.getLast? = some '\n' := by
  obtain ⟨r, -, rfl⟩ := h
  exact List.getLast?_concat

theorem Unended.not_ended (h : Unended l) : ¬Ended l := by
  rintro ⟨r, -, rfl⟩
  have hfeed := h.2 '\n' (by simp)
  cases hfeed

theorem bare_ended (h : OneLine r) : bare (r ++ ['\n']) = r := by
  have hfeed : isBoundary '\n' = true := rfl
  have hrow : ∀ c ∈ r, (!isBoundary c) = true := fun c hc => by rw [h c hc, Bool.not_false]
  rw [bare, List.takeWhile_append_of_pos hrow]
  simp [hfeed]

theorem bare_cons {c : Char} (hc : isBoundary c = false) (l : Text) : bare (c :: l) = c :: bare l :=
  List.takeWhile_cons_of_pos (by rw [hc, Bool.not_false])

namespace IsLines

theorem append (h : ∀ l ∈ ls, Ended l) (h' : IsLines ls') : IsLines (ls ++ ls') := by
  induction ls with
  | nil => exact h'
  | cons l ls ih =>
    obtain ⟨hl, hls⟩ := List.forall_mem_cons.1 h
    exact .cons hl (ih hls)

/-- Lines are cut in two: the last of the first part lacks its end only if no more follow. -/
theorem of_append (h : IsLines (ls ++ ls')) :
    IsLines ls ∧ IsLines ls' ∧ (ls' ≠ [] → ∀ l ∈ ls, Ended l) := by
  induction ls with
  | nil => exact ⟨.nil, h, by simp⟩
  | cons l ls ih =>
    rw [List.cons_append] at h
    generalize hall : ls ++ ls' = all at h
    cases h with
    | last hl =>
      obtain ⟨rfl, rfl⟩ := List.append_eq_nil_iff.1 hall
      exact ⟨.last hl, .nil, fun hne => absurd rfl hne⟩
    | cons hl rest =>
      rw [← hall] at rest
      obtain ⟨hls, hls', hend⟩ := ih rest
      exact ⟨.cons hl hls, hls', fun hne => List.forall_mem_cons.2 ⟨hl, hend hne⟩⟩

theorem ended_or_last (h : IsLines ls) : (∀ l ∈ ls, Ended l) ∨
    ∃ ls' l, ls = ls' ++ [l] ∧ (∀ l' ∈ ls', Ended l') ∧ Unended l := by
  induction h with
  | nil => exact .inl (by simp)
  | @last l hl => exact .inr ⟨[], l, rfl, by simp, hl⟩
  | @cons l ls hl _ ih =>
    rcases ih with hls | ⟨ls', x, rfl, hls', hx⟩
    · exact .inl (List.forall_mem_cons.2 ⟨hl, hls⟩)
    · exact .inr ⟨l :: ls', x, rfl, List.forall_mem_cons.2 ⟨hl, hls'⟩, hx⟩

theorem map_cons {c : Char} (hc : isBoundary c = false) (h : IsLines ls) :
    IsLines (ls.map (c :: ·)) := by
  induction h with
  | nil => exact .nil
  | last hl => exact .last (hl.cons hc)
  | cons hl _ ih => exact .cons (hl.cons hc) ih

/-- Text before the first line, without the end of any, becomes part of it. -/
theorem prepend (hr : OneLine r) (h : IsLines (l :: ls)) : IsLines ((r ++ l) :: ls) := by
  induction r with
  | nil => exact h
  | cons c r ih =>
    obtain ⟨hc, hr⟩ := List.forall_mem_cons.1 hr
    cases ih hr with
    | last hl => exact .last (hl.cons hc)
    | cons hl rest => exact .cons (hl.cons hc) rest

end IsLines

/-! ### Cutting a text -/

/-- Lines with one more character at the start of the first. -/
def startWith (c : Char) : List Text → List Text
  | [] => [[c]]
  | l :: ls => (c :: l) :: ls

theorem pieces_cons {c : Char} (hr : c ≠ '\r') (t : Text) : pieces (c :: t) =
    if isBoundary c then [c] :: pieces t else startWith c (pieces t) := by
  rw [pieces.eq_def]
  split
  · next h => cases h
  · next h => exact absurd (List.cons.inj h).1 hr
  · next h =>
    obtain ⟨rfl, rfl⟩ := List.cons.inj h
    rfl

theorem pieces_of_boundary {c : Char} (hc : isBoundary c = true) (hr : c ≠ '\r') (t : Text) :
    pieces (c :: t) = [c] :: pieces t := by
  rw [pieces_cons hr, if_pos hc]

theorem pieces_of_not_boundary {c : Char} (hc : isBoundary c = false) (t : Text) :
    pieces (c :: t) = startWith c (pieces t) := by
  have hr : c ≠ '\r' := by
    rintro rfl
    cases hc
  rw [pieces_cons hr, hc]
  exact if_neg Bool.false_ne_true

theorem flatten_pieces (t : Text) : (pieces t).flatten = t := by
  fun_induction pieces t <;> simp_all

theorem isLines_pieces (h : FeedsOnly t) : IsLines (pieces t) := by
  induction t with
  | nil => exact .nil
  | cons c t ih =>
    obtain ⟨hc, ht⟩ := List.forall_mem_cons.1 h
    cases hb : isBoundary c with
    | true =>
      obtain rfl := hc hb
      rw [pieces_of_boundary rfl (by decide)]
      exact .cons ⟨[], by simp [OneLine], rfl⟩ (ih ht)
    | false =>
      have ih := ih ht
      rw [pieces_of_not_boundary hb]
      generalize pieces t = ls at ih
      cases ih with
      | nil => exact .last ⟨List.cons_ne_nil c [], List.forall_mem_singleton.2 hb⟩
      | last hl => exact .last (hl.cons hb)
      | cons hl rest => exact .cons (hl.cons hb) rest

theorem pieces_ended_append (h : Ended l) (t : Text) : pieces (l ++ t) = l :: pieces t := by
  obtain ⟨r, hr, rfl⟩ := h
  induction r with
  | nil => exact pieces_of_boundary rfl (by decide) t
  | cons c r ih =>
    obtain ⟨hc, hr⟩ := List.forall_mem_cons.1 hr
    rw [List.cons_append, List.cons_append, pieces_of_not_boundary hc, ih hr]
    rfl

theorem pieces_of_unended (h : Unended l) : pieces l = [l] := by
  obtain ⟨hne, hl⟩ := h
  induction l with
  | nil => exact absurd rfl hne
  | cons c l ih =>
    obtain ⟨hc, hl⟩ := List.forall_mem_cons.1 hl
    rw [pieces_of_not_boundary hc]
    cases l with
    | nil => rfl
    | cons d l =>
      rw [ih (List.cons_ne_nil d l) hl]
      rfl

/-- Lines that are joined and cut again come back. -/
theorem pieces_flatten (h : IsLines ls) : pieces ls.flatten = ls := by
  induction h with
  | nil => rfl
  | last hl => rw [List.flatten_singleton, pieces_of_unended hl]
  | cons hl _ ih => rw [List.flatten_cons, pieces_ended_append hl, ih]

theorem rows_flatten (h : IsLines ls) : rows ls.flatten = ls.map bare := by
  rw [rows, pieces_flatten h]

theorem rows_append_feed (h : OneLine r) (t : Text) : rows (r ++ '\n' :: t) = r :: rows t := by
  rw [List.append_cons, rows, pieces_ended_append ⟨r, h, rfl⟩, List.map_cons, bare_ended h, rows]

/-- Which texts have a line without an end. -/
theorem exists_unended_iff (h : FeedsOnly t) :
    (∃ l ∈ pieces t, Unended l) ↔ t ≠ [] ∧ t.getLast? ≠ some '\n' := by
  have hjoin := flatten_pieces t
  constructor
  · rintro ⟨l, hl, hun⟩
    rcases (isLines_pieces h).ended_or_last with hend | ⟨ls, l', hls, -, hne, hl'⟩
    · exact absurd (hend l hl) hun.not_ended
    · rw [hls, List.flatten_concat] at hjoin
      rw [← hjoin, List.getLast?_append_of_ne_nil _ hne]
      refine ⟨List.append_ne_nil_of_right_ne_nil _ hne, fun hlast => ?_⟩
      cases hl' '\n' (List.mem_of_getLast? hlast)
  · rintro ⟨hne, hlast⟩
    rcases (isLines_pieces h).ended_or_last with hend | ⟨ls, l, hls, -, hl⟩
    · rcases List.eq_nil_or_concat (pieces t) with hnil | ⟨ls, l, hls⟩
      · rw [hnil] at hjoin
        exact absurd hjoin.symm hne
      · have hl := (hend l (by simp [hls])).getLast?
        rw [hls, List.concat_eq_append, List.flatten_concat] at hjoin
        rw [← hjoin, List.getLast?_append, hl] at hlast
        exact absurd rfl hlast
    · exact ⟨l, by simp [hls], hl⟩

theorem pieces_injective : Function.Injective pieces := fun t t' h => by
  rw [← flatten_pieces t, h, flatten_pieces]

end MarkTidy.Text
