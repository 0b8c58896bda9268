import MarkTidy.Proofs.Document.Spacing

/-!
The layout of a text, read off its outline. An outline lists the lines with content, each with the
blank lines below it. In the layout these lines stand trimmed in the same order, parted by empty
lines as `separation` says, and there are no other lines.
-/

namespace MarkTidy

open Text

/-- Lines by their content: the blank lines at the top, then each line with content and the blank
lines right below it. -/
structure Outline where
  top : List Text
  entries : List (Text × List Text)
  top_blank : ∀ l ∈ top, l.all isBlank = true
  content : ∀ e ∈ entries, e.1.all isBlank = false
  below_blank : ∀ e ∈ entries, ∀ l ∈ e.2, l.all isBlank = true

namespace Outline

variable {above : Option LineKind} {k : LineKind} {gap : Nat} {ls : List Text}
  {es : List (Text × List Text)}

def lines (o : Outline) : List Text := o.top ++ o.entries.flatMap fun e => e.1 :: e.2

/-- The lines laid out below a line of kind `above` that has `gap` blank lines below it. -/
def layoutBelow (above : LineKind) (gap : Nat) : List (Text × List Text) → List Text
  | [] => []
  | (l, blanks) :: es =>
    List.replicate (separation above (.ofLine l) gap) [] ++
      trimRight l :: layoutBelow (.ofLine l) blanks.length es

/-- The first line with content is trimmed on both sides, the others on the right. -/
def layout (o : Outline) : List Text :=
  match o.entries with
  | [] => []
  | (l, blanks) :: es => trim l :: layoutBelow (.ofLine l) blanks.length es

/-- Every list of lines has an outline. -/
theorem exists_lines_eq (ls : List Text) : ∃ o : Outline, o.lines = ls := by
  induction ls with
  | nil => exact ⟨⟨[], [], by simp, by simp, by simp⟩, rfl⟩
  | cons l ls ih =>
    obtain ⟨o, rfl⟩ := ih
    cases hl : l.all isBlank with
    | true =>
      have htop : ∀ x ∈ l :: o.top, x.all isBlank = true := List.forall_mem_cons.2 ⟨hl, o.top_blank⟩
      exact ⟨⟨l :: o.top, o.entries, htop, o.content, o.below_blank⟩, rfl⟩
    | false =>
      have hcontent : ∀ e ∈ (l, o.top) :: o.entries, e.1.all isBlank = false :=
        List.forall_mem_cons.2 ⟨hl, o.content⟩
      have hbelow : ∀ e ∈ (l, o.top) :: o.entries, ∀ x ∈ e.2, x.all isBlank = true :=
        List.forall_mem_cons.2 ⟨o.top_blank, o.below_blank⟩
      exact ⟨⟨[], (l, o.top) :: o.entries, by simp, hcontent, hbelow⟩, rfl⟩

theorem spread_append_of_blank {bs : List Text} (h : ∀ l ∈ bs, l.all isBlank = true)
    (above : Option LineKind) (gap : Nat) (ls : List Text) :
    Layout.spread above gap (bs ++ ls) = Layout.spread above (gap + bs.length) ls := by
  induction bs generalizing gap with
  | nil => rfl
  | cons b bs ih =>
    obtain ⟨hb, hbs⟩ := List.forall_mem_cons.1 h
    rw [List.cons_append, Layout.spread_cons_of_blank hb, ih hbs, List.length_cons,
      Nat.add_assoc, Nat.add_comm 1]

theorem spread_entries (hc : ∀ e ∈ es, e.1.all isBlank = false)
    (hb : ∀ e ∈ es, ∀ l ∈ e.2, l.all isBlank = true) :
    Layout.spread (some k) gap (es.flatMap fun e => e.1 :: e.2) = layoutBelow k gap es := by
  -- The blank lines of an entry become the gap of the next one.
  induction es generalizing k gap with
  | nil => rfl
  | cons e es ih =>
    obtain ⟨hc, hcs⟩ := List.forall_mem_cons.1 hc
    obtain ⟨hb, hbs⟩ := List.forall_mem_cons.1 hb
    rw [List.flatMap_cons, List.cons_append, Layout.spread_cons_of_content hc,
      spread_append_of_blank hb, Nat.zero_add, ih hcs hbs]
    rfl

theorem trimLeft_unlines_spread (o : Outline) :
    trimLeft (unlines (Layout.spread none 0 o.lines)) = unlines o.layout := by
  obtain ⟨top, entries, htop, hc, hb⟩ := o
  rw [lines, spread_append_of_blank htop]
  cases entries with
  | nil => rfl
  | cons e es =>
    obtain ⟨hc, hcs⟩ := List.forall_mem_cons.1 hc
    obtain ⟨hb, hbs⟩ := List.forall_mem_cons.1 hb
    have hcontent : (trimRight e.1).all isBlank = false := by simpa using hc
    rw [List.flatMap_cons, List.cons_append, Layout.spread_cons_of_content hc,
      spread_append_of_blank hb, Nat.zero_add e.2.length, spread_entries hcs hbs]
    rw [Layout.margin, Option.elim_none, List.replicate_zero, List.nil_append,
      trimLeft_unlines hcontent, trimLeft_trimRight]
    rfl

/-- Laying out a text line by line gives the layout of its outline. -/
theorem normalize_eq_unlines_layout (t : Text) :
    (∃ o : Outline, o.lines = Text.lines t) ∧
      ∀ o : Outline, o.lines = Text.lines t → Layout.normalize t = unlines o.layout := by
  refine ⟨exists_lines_eq _, fun o ho => ?_⟩
  rw [Layout.normalize_eq_spread, ← ho, trimLeft_unlines_spread]

theorem normalize_eq_unlines_layout_sample :
    Layout.normalize "  # T\nText \n- a\n \n\n- b\r\nMore\n".toList =
      "# T\n\nText\n- a\n- b\n\nMore".toList :=
  (normalize_eq_unlines_layout _).2
    { top := []
      entries := [("  # T".toList, []), ("Text ".toList, []), ("- a".toList, [[' '], []]),
        ("- b".toList, []), ("More".toList, [[]])]
      top_blank := by simp
      content := by decide
      below_blank := by decide }
    (by decide)

end Outline

end MarkTidy
