import MarkTidy.Proofs.Diff.Cut
import MarkTidy.Proofs.Text.Lines
import MarkTidy.Proofs.Text.Pieces

/-!
Patches as their readers know them: two rows that name the texts, then hunks, each with a header and
rows of edits, of which the header states the numbers. A patch is applied from the first hunk to the
last, and the lines that a hunk takes must be where its header says.
-/

namespace MarkTidy

open Text

variable {h : Hunk} {hs : List Hunk} {es : List Edit} {below : List Text} {o n : Nat}

namespace Patch

/-! ### Reading -/

/-- The number that decimal digits stand for. -/
def number? (t : Text) : Option Nat :=
  if t ≠ [] ∧ t.all Char.isDigit then some (Nat.ofDigitChars 10 t 0) else none

/-- How many lines come before a range, and its size, which is one if it is left out. The first line
of a range counts from one, and an empty range names the line before it. -/
def range? (t : Text) : Option (Nat × Nat) :=
  match (splitAtChar ',' t).map number? with
  | [some (first + 1)] => some (first, 1)
  | [some first, some 0] => some (first, 0)
  | [some (first + 1), some size] => some (first, size)
  | _ => none

/-- The old range and the new one of a hunk. -/
def header? (row : Text) : Option ((Nat × Nat) × (Nat × Nat)) :=
  match splitAtChar ' ' row with
  | [['@', '@'], '-' :: old, '+' :: new, ['@', '@']] => do
    let old ← range? old
    let new ← range? new
    return (old, new)
  | _ => none

def edit? : Text → Option Edit
  | ' ' :: l => some (.keep l)
  | '-' :: l => some (.remove l)
  | '+' :: l => some (.add l)
  | _ => none

/-- The hunk that a header row opens, if the sizes it states are those of the edits below it. -/
def hunk? (row : Text) (edits : List Edit) : Option Hunk := do
  let ((old, oldSize), (new, newSize)) ← header? row
  let h : Hunk := ⟨old, new, edits⟩
  if h.oldSize = oldSize ∧ h.newSize = newSize then return h else none

/-- The hunks in the rows of a patch, and the edits before the first of them. -/
def hunks? : List Text → Option (List Edit × List Hunk)
  | [] => some ([], [])
  | row :: rows => do
    let (edits, hs) ← hunks? rows
    match edit? row with
    | some e => return (e :: edits, hs)
    | none => return ([], (← hunk? row edits) :: hs)

/-- The hunks of a well-formed patch. -/
def read (d : Text) : Option (List Hunk) :=
  match rows d with
  | first :: second :: rest =>
    if "--- ".toList.isPrefixOf first && "+++ ".toList.isPrefixOf second then do
      let (edits, hs) ← hunks? rest
      if edits = [] then return hs else none
    else none
  | _ => none

/-! ### Applying -/

/-- What hunks make of the old lines that are left, where `seen` old lines have been taken and `made`
new ones given. -/
def applied? (seen made : Nat) (lines : List Text) : List Hunk → Option (List Text)
  | [] => some lines
  | h :: hs =>
    let gap := h.old - seen
    let old := h.edits.filterMap Edit.old?
    if seen ≤ h.old ∧ h.new = made + gap ∧ gap ≤ lines.length ∧ old <+: lines.drop gap then do
      let after ← applied? (h.old + h.oldSize) (h.new + h.newSize) (lines.drop (gap + old.length)) hs
      return lines.take gap ++ h.edits.filterMap Edit.new? ++ after
    else none

/-- The text is a well-formed patch with a hunk, and makes the new lines of the old ones. -/
def Describes (d : Text) (old new : List Text) : Prop :=
  ∃ hs, read d = some hs ∧ hs ≠ [] ∧ applied? 0 0 old hs = some new

/-- Hunks that are cut out of a script make what the script makes. -/
theorem applied?_of_cuts (hcuts : Diff.Cuts o n es hs) :
    applied? o n (es.filterMap Edit.old?) hs = some (es.filterMap Edit.new?) := by
  induction hcuts with
  | done hgap =>
    rw [applied?, Edit.filterMap_old_of_keep hgap]
  | @hunk o n gap rest h hs hgap hold hnew _ _ _ ih =>
    have hlen := Edit.length_old_of_keep hgap
    have hstart : h.old - o = (gap.filterMap Edit.old?).length := by omega
    simp only [List.filterMap_append, List.append_assoc]
    rw [applied?]
    simp only [hstart, List.take_left, List.drop_left]
    rw [if_pos ⟨by omega, by omega, by simp, List.prefix_append _ _⟩, ← List.drop_drop,
      List.drop_left, List.drop_left, ih, Edit.filterMap_old_of_keep hgap]
    simp

/-! ### Reading what was written -/

theorem isDigit_of_mem_natural {m : Nat} {c : Char} (hc : c ∈ natural m) : c.isDigit = true :=
  Nat.isDigit_of_mem_toDigits (by decide) (by decide) hc

theorem number?_natural (m : Nat) : number? (natural m) = some m := by
  have hne : natural m ≠ [] := Nat.toDigits_ne_nil
  have hall : (natural m).all Char.isDigit = true :=
    List.all_eq_true.2 fun _ => isDigit_of_mem_natural
  rw [number?, if_pos ⟨hne, hall⟩]
  simp [natural]

theorem not_mem_natural {c : Char} (hc : c.isDigit = false) (m : Nat) : c ∉ natural m := fun h => by
  rw [isDigit_of_mem_natural h] at hc
  cases hc

theorem isBoundary_of_isDigit {c : Char} (h : c.isDigit = true) : isBoundary c = false := by
  have hrange : 48 ≤ c.toNat ∧ c.toNat ≤ 57 := by
    simpa [Char.isDigit, UInt32.le_iff_toNat_le] using h
  simp [isBoundary]
  omega

theorem oneLine_natural (m : Nat) : OneLine (natural m) := fun _ hc =>
  isBoundary_of_isDigit (isDigit_of_mem_natural hc)

theorem range?_range (start size : Nat) : range? (Hunk.range start size) = some (start, size) := by
  have hcomma (m : Nat) : ',' ∉ natural m := not_mem_natural rfl m
  rw [range?, Hunk.range]
  split_ifs with hone hzero
  · rw [splitAtChar_of_not_mem (hcomma _), List.map_singleton, number?_natural, hone]
  · rw [splitAtChar_append_cons (hcomma _), splitAtChar_of_not_mem (hcomma _), List.map_cons,
      List.map_singleton, number?_natural, number?_natural, hzero]
    cases start <;> rfl
  · obtain ⟨size, rfl⟩ := Nat.exists_eq_succ_of_ne_zero hzero
    rw [splitAtChar_append_cons (hcomma _), splitAtChar_of_not_mem (hcomma _), List.map_cons,
      List.map_singleton, number?_natural, number?_natural]
    rfl

theorem space_not_mem_range (start size : Nat) : ' ' ∉ Hunk.range start size := by
  have hspace (m : Nat) : ' ' ∉ natural m := not_mem_natural rfl m
  rw [Hunk.range]
  split_ifs <;> simp [hspace]

end Patch

namespace Hunk

/-- The header of a hunk without the end of its line. -/
def headerRow (h : Hunk) : Text :=
  "@@".toList ++ ' ' :: ('-' :: range h.old h.oldSize ++ ' ' :: ('+' :: range h.new h.newSize ++
    ' ' :: "@@".toList))

/-- The rows of a hunk, the lines of its edits taken to be without ends. -/
def rows (h : Hunk) : List Text := h.headerRow :: h.edits.map lineOf

@[simp] theorem headerRow_mapLines (f : Text → Text) (h : Hunk) :
    (h.mapLines f).headerRow = h.headerRow := by
  simp [headerRow]

theorem oneLine_range (start size : Nat) : OneLine (range start size) := by
  have hnatural (m : Nat) : OneLine (natural m) := Patch.oneLine_natural m
  rw [range]
  split_ifs
  · exact hnatural _
  · exact oneLine_append.2 ⟨hnatural _, (hnatural _).cons rfl⟩
  · exact oneLine_append.2 ⟨hnatural _, (hnatural _).cons rfl⟩

theorem oneLine_headerRow (h : Hunk) : OneLine h.headerRow := by
  have hend : OneLine "@@".toList := by decide
  have hnew : OneLine ('+' :: range h.new h.newSize ++ ' ' :: "@@".toList) :=
    oneLine_append.2 ⟨(oneLine_range _ _).cons rfl, hend.cons rfl⟩
  have hold := oneLine_append.2 ⟨(oneLine_range h.old h.oldSize).cons (c := '-') rfl,
    hnew.cons (c := ' ') rfl⟩
  exact oneLine_append.2 ⟨hend, hold.cons rfl⟩

end Hunk

namespace Patch

theorem header?_headerRow (h : Hunk) :
    header? h.headerRow = some ((h.old, h.oldSize), (h.new, h.newSize)) := by
  have hold := space_not_mem_range h.old h.oldSize
  have hnew := space_not_mem_range h.new h.newSize
  rw [header?, Hunk.headerRow, splitAtChar_append_cons (by decide),
    splitAtChar_append_cons (by simp [hold]), splitAtChar_append_cons (by simp [hnew]),
    splitAtChar_of_not_mem (by decide)]
  simp [range?_range]

theorem edit?_lineOf (e : Edit) : edit? (Hunk.lineOf e) = some e := by cases e <;> rfl

theorem edit?_headerRow (h : Hunk) : edit? h.headerRow = none := rfl

theorem hunk?_headerRow (h : Hunk) (es : List Edit) :
    hunk? h.headerRow es = if (es.filterMap Edit.old?).length = h.oldSize ∧
      (es.filterMap Edit.new?).length = h.newSize then some ⟨h.old, h.new, es⟩ else none := by
  rw [hunk?, header?_headerRow]
  rfl

theorem hunks?_cons (row : Text) (below : List Text) :
    hunks? (row :: below) = (hunks? below).bind fun p =>
      match edit? row with
      | some e => some (e :: p.1, p.2)
      | none => (hunk? row p.1).bind fun h => some ([], h :: p.2) := rfl

theorem hunks?_lineOf (hbelow : hunks? below = some (es, hs)) (e : Edit) :
    hunks? (Hunk.lineOf e :: below) = some (e :: es, hs) := by
  rw [hunks?_cons, hbelow, Option.bind_some, edit?_lineOf]

theorem hunks?_headerRow (hbelow : hunks? below = some (es, hs)) (h : Hunk) :
    hunks? (h.headerRow :: below) = if (es.filterMap Edit.old?).length = h.oldSize ∧
      (es.filterMap Edit.new?).length = h.newSize then some ([], ⟨h.old, h.new, es⟩ :: hs)
      else none := by
  rw [hunks?_cons, hbelow, Option.bind_some, edit?_headerRow]
  simp only [hunk?_headerRow]
  split_ifs <;> rfl

theorem hunks?_edits (hbelow : hunks? below = some ([], hs)) (es : List Edit) :
    hunks? (es.map Hunk.lineOf ++ below) = some (es, hs) := by
  induction es with
  | nil => exact hbelow
  | cons e es ih => exact hunks?_lineOf ih e

theorem hunks?_flatMap_rows (hs : List Hunk) : hunks? (hs.flatMap Hunk.rows) = some ([], hs) := by
  induction hs with
  | nil => rfl
  | cons h hs ih =>
    rw [List.flatMap_cons, Hunk.rows, List.cons_append, hunks?_headerRow (hunks?_edits ih h.edits),
      if_pos ⟨rfl, rfl⟩]

/-- A hunk with other than the stated number of new lines is not read, whatever is above it. -/
theorem hunks?_eq_none (hsize : (es.filterMap Edit.new?).length ≠ h.newSize) (above : List Text) :
    hunks? (above ++ h.headerRow :: es.map Hunk.lineOf) = none := by
  induction above with
  | nil =>
    have hes : hunks? (es.map Hunk.lineOf ++ []) = some (es, []) := hunks?_edits rfl es
    rw [List.append_nil] at hes
    rw [List.nil_append, hunks?_headerRow hes, if_neg fun hsizes => hsize hsizes.2]
  | cons row above ih =>
    rw [List.cons_append, hunks?_cons, ih, Option.bind_none]

theorem read_titles {a b : Text} (ha : OneLine a) (hb : OneLine b) (t : Text) :
    read ("--- ".toList ++ a ++ '\n' :: ("+++ ".toList ++ b ++ '\n' :: t)) =
      (hunks? (rows t)).bind fun p => if p.1 = [] then some p.2 else none := by
  have hfirst : OneLine ("--- ".toList ++ a) := oneLine_append.2 ⟨by decide, ha⟩
  have hsecond : OneLine ("+++ ".toList ++ b) := oneLine_append.2 ⟨by decide, hb⟩
  rw [read, rows_append_feed hfirst, rows_append_feed hsecond]
  rfl

end Patch

end MarkTidy
