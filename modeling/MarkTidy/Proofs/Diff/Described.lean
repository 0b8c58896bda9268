import MarkTidy.Proofs.Diff.Patch

/-!
When a diff is a patch. The lines of a script keep the ends that they have in their texts. An old last
line without its end runs into a line that is added after it, and the diff is no patch then. Every
other one is a patch that makes the new lines of the old ones.
-/

namespace MarkTidy

open Text

variable {old new name : Text} {xs ys : List Text} {x y : Text} {before es : List Edit}
  {hs : List Hunk} {o n : Nat}

namespace Edit

open Hunk (lineOf)

theorem exists_lineOf_eq {e : Edit} (h : e.old? = some x) :
    ∃ c, isBoundary c = false ∧ lineOf e = c :: x := by
  cases e with
  | keep l => exact ⟨' ', rfl, congrArg (' ' :: ·) (Option.some.inj h)⟩
  | remove l => exact ⟨'-', rfl, congrArg ('-' :: ·) (Option.some.inj h)⟩
  | add l => cases h

/-- A script in which lines are added after an old last line without its end. -/
inductive RunsOn : List Edit → Prop where
  | intro {before : List Edit} {x : Text} {ys : List Text}
      (hbefore : ∀ e ∈ before, Ended (lineOf e)) (hx : Unended x) (hys : IsLines ys) (hne : ys ≠ []) :
      RunsOn (before ++ remove x :: ys.map add)

theorem RunsOn.prepend (hbefore : ∀ e ∈ before, Ended (lineOf e)) (h : RunsOn es) :
    RunsOn (before ++ es) := by
  cases h with
  | intro hes hx hys hne =>
    rw [← List.append_assoc]
    exact .intro (List.forall_mem_append.2 ⟨hbefore, hes⟩) hx hys hne

/-- An old line without its end and the line that is added after it make one line. -/
theorem isLines_merge (hbefore : ∀ e ∈ before, Ended (lineOf e)) (hx : Unended x)
    (hys : IsLines (y :: ys)) :
    IsLines ((before ++ remove (x ++ '+' :: y) :: ys.map add).map lineOf) := by
  have hrow : OneLine ('-' :: x) := hx.2.cons rfl
  have hadded : IsLines ((('-' :: x) ++ '+' :: y) :: ys.map ('+' :: ·)) :=
    .prepend hrow (hys.map_cons (c := '+') rfl)
  rw [List.map_append, List.map_cons, List.map_map]
  exact .append (List.forall_mem_map.2 hbefore) hadded

/-- A list that is cut in two is also cut before or after some member. -/
theorem append_eq_append_cons {u v w : List Edit} {e : Edit} (h : u ++ v = before ++ e :: w) :
    (∃ m, before = u ++ m ∧ v = m ++ e :: w) ∨ ∃ m, u = before ++ e :: m ∧ w = m ++ v := by
  rcases List.append_eq_append_iff.1 h with hm | ⟨m, rfl, hm⟩
  · exact .inl hm
  · cases m with
    | nil => exact .inl ⟨[], by simp, hm.symm⟩
    | cons d m =>
      obtain ⟨rfl, rfl⟩ := List.cons.inj hm
      exact .inr ⟨m, rfl, rfl⟩

namespace Turns

theorem ended (h : Turns xs ys es) (hold : ∀ l ∈ xs, Ended l) (hnew : ∀ l ∈ ys, Ended l) :
    ∀ e ∈ es, Ended (lineOf e) := by
  intro e he
  cases e with
  | keep l => exact (hold l (h.old_eq ▸ List.mem_filterMap.2 ⟨_, he, rfl⟩)).cons rfl
  | remove l => exact (hold l (h.old_eq ▸ List.mem_filterMap.2 ⟨_, he, rfl⟩)).cons rfl
  | add l => exact (hnew l (h.new_eq ▸ List.mem_filterMap.2 ⟨_, he, rfl⟩)).cons rfl

theorem eq_nil (h : Turns [] [] es) : es = [] := by
  refine List.eq_nil_iff_forall_not_mem.2 fun e he => ?_
  have hold : ∀ e ∈ es, e.old? = none := List.filterMap_eq_nil_iff.1 h.old_eq
  have hnew : ∀ e ∈ es, e.new? = none := List.filterMap_eq_nil_iff.1 h.new_eq
  cases e with
  | keep l => cases hold _ he
  | remove l => cases hold _ he
  | add l => cases hnew _ he

/-- Only an old last line that runs into an added one keeps the lines of a script from being lines. -/
theorem isLines_or_runsOn (h : Turns xs ys es) (hold : IsLines xs) (hnew : IsLines ys) :
    IsLines (es.map lineOf) ∨ RunsOn es := by
  induction h with
  | change xs ys =>
    by_cases hys : ys = []
    · left
      rw [hys, List.map_nil, List.append_nil, List.map_map]
      exact hold.map_cons rfl
    · rcases hold.ended_or_last with hxs | ⟨xs, x, rfl, hxs, hx⟩
      · left
        rw [List.map_append, List.map_map, List.map_map]
        refine .append ?_ (hnew.map_cons rfl)
        exact List.forall_mem_map.2 fun l hl => (hxs l hl).cons rfl
      · right
        rw [List.map_append, List.append_assoc]
        refine .intro ?_ hx hnew hys
        exact List.forall_mem_map.2 fun l hl => (hxs l hl).cons rfl
  | @around a a' s c c' es es' hbefore hs hafter _ ih =>
    rw [List.append_assoc] at hold hnew
    obtain ⟨-, hsc, ha⟩ := hold.of_append
    obtain ⟨-, hsc', ha'⟩ := hnew.of_append
    obtain ⟨hlines, hc, hsend⟩ := hsc.of_append
    obtain ⟨-, hc', hsend'⟩ := hsc'.of_append
    -- What comes before kept lines has its ends in both texts, and only the last part can run on.
    have hes : ∀ e ∈ es, Ended (lineOf e) :=
      hbefore.ended (ha (List.append_ne_nil_of_left_ne_nil hs c))
        (ha' (List.append_ne_nil_of_left_ne_nil hs c'))
    by_cases hlast : c = [] ∧ c' = []
    · left
      obtain ⟨rfl, rfl⟩ := hlast
      rw [hafter.eq_nil, List.append_nil, List.map_append, List.map_map]
      exact .append (List.forall_mem_map.2 hes) (hlines.map_cons rfl)
    · have hs : ∀ l ∈ s, Ended l := by
        by_cases hc : c = []
        · exact hsend' fun hc' => hlast ⟨hc, hc'⟩
        · exact hsend hc
      have hkept : ∀ e ∈ es ++ s.map keep, Ended (lineOf e) :=
        List.forall_mem_append.2 ⟨hes, List.forall_mem_map.2 fun l hl => (hs l hl).cons rfl⟩
      rcases ih hc hc' with hes' | hrun
      · left
        rw [List.map_append]
        exact .append (List.forall_mem_map.2 hkept) hes'
      · exact .inr (hrun.prepend hkept)

theorem runsOn_iff (h : Turns xs ys es) (hold : IsLines xs) (hnew : IsLines ys) :
    RunsOn es ↔ (∃ x ∈ xs, Unended x) ∧ ∃ l, es.getLast? = some (add l) := by
  constructor
  · intro hrun
    obtain @⟨before, x, added, -, hx, -, hne⟩ := hrun
    have hmem : x ∈ xs := h.old_eq ▸ List.mem_filterMap.2 ⟨remove x, by simp, rfl⟩
    obtain ⟨added, l, rfl⟩ := (List.eq_nil_or_concat' added).resolve_left hne
    refine ⟨⟨x, hmem, hx⟩, l, ?_⟩
    rw [List.map_append, ← List.cons_append, ← List.append_assoc]
    exact List.getLast?_concat
  · rintro ⟨⟨x, hx, hun⟩, l, hl⟩
    refine (h.isLines_or_runsOn hold hnew).resolve_left fun hlines => ?_
    obtain ⟨es, rfl⟩ := List.getLast?_eq_some_iff.1 hl
    rw [List.map_append] at hlines
    have hended := List.forall_mem_map.1 (hlines.of_append.2.2 (by simp))
    rw [← h.old_eq] at hx
    obtain ⟨e, he, hex⟩ := List.mem_filterMap.1 hx
    obtain ⟨c, hc, hline⟩ := exists_lineOf_eq hex
    rcases List.mem_append.1 he with he | he
    · exact (hun.cons hc).not_ended (hline ▸ hended e he)
    · obtain rfl := List.mem_singleton.1 he
      cases hex

end Turns

end Edit

namespace Hunk

/-- The lines of a hunk with their ends. -/
def lines (h : Hunk) : List Text := h.header :: h.edits.map lineOf

theorem render_eq_flatten (h : Hunk) : h.render = h.lines.flatten := by
  simp [render, lines, List.flatMap_def]

theorem header_eq (h : Hunk) : h.header = h.headerRow ++ ['\n'] := by
  unfold header
  simp [headerRow]

theorem ended_header (h : Hunk) : Ended h.header := ⟨h.headerRow, h.oneLine_headerRow, h.header_eq⟩

theorem bare_header (h : Hunk) : bare h.header = h.headerRow := by
  rw [header_eq, bare_ended h.oneLine_headerRow]

theorem bare_lineOf (e : Edit) : bare (lineOf e) = lineOf (e.mapLine bare) := by
  cases e <;> exact bare_cons rfl _

theorem map_bare_lineOf (es : List Edit) :
    (es.map lineOf).map bare = (es.map (Edit.mapLine bare)).map lineOf := by
  simp [bare_lineOf]

theorem map_bare_lines (h : Hunk) : h.lines.map bare = (h.mapLines bare).rows := by
  rw [lines, List.map_cons, bare_header, map_bare_lineOf, rows, headerRow_mapLines]
  rfl

end Hunk

namespace Diff.Cuts

open Hunk (lineOf)

/-- The hunks of a script have lines, if the script has. -/
theorem isLines (hcuts : Cuts o n es hs) (h : IsLines (es.map lineOf)) :
    IsLines (hs.flatMap Hunk.lines) := by
  induction hcuts with
  | done _ => exact .nil
  | @hunk o n gap rest h' hs _ _ _ _ _ hrest ih =>
    rw [List.map_append] at h
    obtain ⟨hfirst, hlines, hended⟩ := h.of_append
    rw [List.map_append] at hfirst hended
    rw [List.flatMap_cons, Hunk.lines, List.cons_append]
    refine .cons h'.ended_header ?_
    cases rest with
    | nil =>
      rw [hrest.eq_nil, List.flatMap_nil, List.append_nil]
      exact hfirst.of_append.2.1
    | cons e rest =>
      have hall := hended (by simp)
      exact .append (fun l hl => hall l (List.mem_append_right _ hl)) (ih hlines)

/-- The script from some removed line on, the lines after which are added, ends the last hunk. -/
theorem exists_last (hcuts : Cuts o n es hs) (hes : es = before ++ .remove x :: ys.map .add) :
    ∃ hs' h es', hs = hs' ++ [h] ∧ h.edits = es' ++ .remove x :: ys.map .add ∧
      (∀ e ∈ es', e ∈ before) ∧ ∀ h' ∈ hs', ∀ e ∈ h'.edits, e ∈ before := by
  induction hcuts generalizing before with
  | done hgap => cases hgap (.remove x) (by simp [hes])
  | @hunk o n gap rest h hs hgap _ _ _ hnext hrest ih =>
    rw [List.append_assoc] at hes
    rcases Edit.append_eq_append_cons hes with ⟨mid, rfl, hmid⟩ | ⟨gap, rfl, -⟩
    · rcases Edit.append_eq_append_cons hmid with ⟨left, rfl, hleft⟩ | ⟨added, hedits, hadded⟩
      · obtain ⟨hs', last, es', rfl, hlast, hes', hhs'⟩ := ih hleft
        refine ⟨h :: hs', last, es', rfl, hlast, fun e he => by simp [hes' e he], ?_⟩
        exact List.forall_mem_cons.2 ⟨fun e he => by simp [he],
          fun h' hh' e he => by simp [hhs' h' hh' e he]⟩
      · -- The line after a hunk is kept, and so no hunk ends among the added lines.
        have hrestnil : rest = [] := by
          refine List.head?_eq_none_iff.1 (Option.eq_none_iff_forall_not_mem.2 fun e he => ?_)
          have hmem : e ∈ ys.map Edit.add :=
            hadded ▸ List.mem_append_right _ (List.mem_of_mem_head? he)
          obtain ⟨y, -, rfl⟩ := List.mem_map.1 hmem
          cases hnext _ he
        rw [hrestnil] at hrest hadded
        rw [List.append_nil] at hadded
        rw [hrest.eq_nil, hadded]
        exact ⟨[], h, mid, rfl, hedits, fun e he => List.mem_append_right gap he, by simp⟩
    · cases hgap (.remove x) (by simp)

end Diff.Cuts

/-! ### Diffs -/

namespace Diff

theorem hunks_ne_nil (h : xs ≠ ys) : hunks (Edit.compare xs ys) ≠ [] := by
  intro hnil
  have hcuts := cuts_hunks (Edit.compare xs ys)
  have hturns := Edit.turns_compare xs ys
  rw [hnil] at hcuts
  generalize Edit.compare xs ys = es at hcuts hturns
  cases hcuts with
  | done hkeep => exact h (by rw [← hturns.old_eq, Edit.filterMap_old_of_keep hkeep, hturns.new_eq])

/-- The two title lines stand before the lines of the hunks. -/
theorem unified_eq (hhunks : hunks (Edit.compare (pieces old) (pieces new)) = hs) (hne : hs ≠ [])
    (name : Text) : unified old new name =
      "--- ".toList ++ (name ++ " (original)".toList) ++ '\n' ::
        ("+++ ".toList ++ (name ++ " (updated)".toList) ++ '\n' ::
          (hs.flatMap Hunk.lines).flatten) := by
  obtain ⟨h, hs, rfl⟩ := List.exists_cons_of_ne_nil hne
  rw [unified, hhunks]
  have hjoin : hs.flatMap Hunk.render = (hs.flatMap Hunk.lines).flatten := by
    rw [List.flatMap_congr fun h _ => h.render_eq_flatten]
    simp [List.flatMap_def, List.flatten_flatten, Function.comp_def]
  simp [hjoin, Hunk.render_eq_flatten]

theorem read_unified (hhunks : hunks (Edit.compare (pieces old) (pieces new)) = hs) (hne : hs ≠ [])
    (hname : OneLine name) : Patch.read (unified old new name) =
      (Patch.hunks? (rows (hs.flatMap Hunk.lines).flatten)).bind fun p =>
        if p.1 = [] then some p.2 else none := by
  have hfirst : OneLine (name ++ " (original)".toList) := oneLine_append.2 ⟨hname, by decide⟩
  have hsecond : OneLine (name ++ " (updated)".toList) := oneLine_append.2 ⟨hname, by decide⟩
  rw [unified_eq hhunks hne]
  exact Patch.read_titles hfirst hsecond _

theorem describes_unified (hne : old ≠ new) (hname : OneLine name)
    (hlines : IsLines ((Edit.compare (pieces old) (pieces new)).map Hunk.lineOf)) :
    Patch.Describes (unified old new name) (rows old) (rows new) := by
  have hturns := Edit.turns_compare (pieces old) (pieces new)
  have hcuts := cuts_hunks (Edit.compare (pieces old) (pieces new))
  have hhunks := hunks_ne_nil (pieces_injective.ne hne)
  have hread := read_unified rfl hhunks hname
  have happlied := Patch.applied?_of_cuts (hcuts.mapLines bare)
  rw [Edit.filterMap_old_mapLine, Edit.filterMap_new_mapLine, hturns.old_eq,
    hturns.new_eq] at happlied
  have hrows : ∀ hs : List Hunk, (hs.flatMap Hunk.lines).map bare =
      (hs.map (Hunk.mapLines bare)).flatMap Hunk.rows := fun hs => by
    rw [List.map_flatMap, List.flatMap_map, List.flatMap_congr fun h _ => h.map_bare_lines]
  rw [rows_flatten (hcuts.isLines hlines), hrows, Patch.hunks?_flatMap_rows] at hread
  exact ⟨_, hread, by simpa using hhunks, happlied⟩

/-- An old last line and the first line that is added after it make one row, and so the last hunk
has fewer new lines than its header states. -/
theorem read_unified_of_runsOn (hname : OneLine name)
    (hrun : Edit.RunsOn (Edit.compare (pieces old) (pieces new))) :
    Patch.read (unified old new name) = none := by
  have hcuts := cuts_hunks (Edit.compare (pieces old) (pieces new))
  generalize hes : Edit.compare (pieces old) (pieces new) = es at hrun hcuts
  obtain @⟨before, x, ys, hbefore, hx, hys, hne⟩ := hrun
  obtain ⟨y, ys, rfl⟩ := List.exists_cons_of_ne_nil hne
  obtain ⟨hs, h, es, hhunks, hedits, hes', hhs⟩ := hcuts.exists_last rfl
  rw [← hes] at hhunks
  rw [read_unified hhunks (by simp) hname]
  have hended : ∀ l ∈ hs.flatMap Hunk.lines, Ended l := by
    intro l hl
    obtain ⟨h', hh', hl⟩ := List.mem_flatMap.1 hl
    rcases List.mem_cons.1 hl with rfl | hl
    · exact h'.ended_header
    · obtain ⟨e, he, rfl⟩ := List.mem_map.1 hl
      exact hbefore e (hhs h' hh' e he)
  have hjoin : ((hs ++ [h]).flatMap Hunk.lines).flatten = (hs.flatMap Hunk.lines ++
      h.header :: (es ++ .remove (x ++ '+' :: y) :: ys.map Edit.add).map Hunk.lineOf).flatten := by
    simp [Hunk.lines, Hunk.lineOf, hedits]
  have hlines := Edit.isLines_merge (fun e he => hbefore e (hes' e he)) hx hys
  rw [hjoin, rows_flatten (.append hended (.cons h.ended_header hlines)), List.map_append,
    List.map_cons, h.bare_header, Hunk.map_bare_lineOf, Patch.hunks?_eq_none ?_]
  · rfl
  · rw [Edit.filterMap_new_mapLine, List.length_map, Hunk.newSize, hedits]
    simp [Edit.new?, List.filterMap_cons]

/-- The diff of two texts that differ is a well-formed patch and makes the new lines of the old ones,
unless the old text does not end in a line feed and the comparison adds a line last. -/
theorem unified_describes_iff (hne : old ≠ new) (hold : FeedsOnly old) (hnew : FeedsOnly new)
    (hname : OneLine name) :
    Patch.Describes (unified old new name) (rows old) (rows new) ↔
      ¬(old ≠ [] ∧ old.getLast? ≠ some '\n' ∧
        ∃ l, (Edit.compare (pieces old) (pieces new)).getLast? = some (.add l)) := by
  have hturns := Edit.turns_compare (pieces old) (pieces new)
  rw [← and_assoc, ← exists_unended_iff hold,
    ← hturns.runsOn_iff (isLines_pieces hold) (isLines_pieces hnew)]
  constructor
  · rintro ⟨hs, hread, -, -⟩ hrun
    rw [read_unified_of_runsOn hname hrun] at hread
    cases hread
  · intro hrun
    have hlines := hturns.isLines_or_runsOn (isLines_pieces hold) (isLines_pieces hnew)
    exact describes_unified hne hname (hlines.resolve_right hrun)

theorem unified_describes_iff_sample :
    Patch.Describes (unified "a\nb".toList "a\n".toList "a.md".toList)
      (rows "a\nb".toList) (rows "a\n".toList) := by
  refine (unified_describes_iff (by decide) (by decide) (by decide) (by decide)).2 ?_
  rintro ⟨-, -, l, hl⟩
  have hlast : (Edit.compare (pieces "a\nb".toList) (pieces "a\n".toList)).getLast? =
      some (.remove ['b']) := by decide
  cases hlast.symm.trans hl

/-- Where the blank space at the end of a text without a line feed is taken away, the old line and the
new one are told in one row. -/
theorem unified_not_describes :
    unified "x  ".toList "x".toList "a.md".toList =
        "--- a.md (original)\n+++ a.md (updated)\n@@ -1 +1 @@\n-x  +x".toList ∧
      ¬Patch.Describes (unified "x  ".toList "x".toList "a.md".toList)
        (rows "x  ".toList) (rows "x".toList) := by
  -- A literal would be decoded anew at each evaluation, its characters stand as they are.
  have hchars : "--- a.md (original)\n+++ a.md (updated)\n@@ -1 +1 @@\n-x  +x".toList = _ :=
    String.toList_ofList
  have htext : unified "x  ".toList "x".toList "a.md".toList =
      "--- a.md (original)\n+++ a.md (updated)\n@@ -1 +1 @@\n-x  +x".toList := by
    rw [hchars]
    decide
  have hread : Patch.read "--- a.md (original)\n+++ a.md (updated)\n@@ -1 +1 @@\n-x  +x".toList =
      none := by
    rw [hchars]
    decide
  refine ⟨htext, ?_⟩
  rintro ⟨hs, hhs, -, -⟩
  rw [htext, hread] at hhs
  cases hhs

end Diff

end MarkTidy
