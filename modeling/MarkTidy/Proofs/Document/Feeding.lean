import MarkTidy.Proofs.Document.Spacing

/-!
Layouts that can be reached. Lines are fed one by one, each with a line that is said to come next,
be it right or wrong. Whatever is said, the lines laid out are trimmed, no two blank ones stand next
to each other, and those with content are the lines with content that were fed.
-/

namespace MarkTidy.Layout

open Text

variable {s : Layout} {fed ls : List Text} {l line : Text} {next : Option Text} {b : Bool}

/-- The layouts that feeding can lead to, with the lines that were fed. -/
inductive Reached : List Text → Layout → Prop
  | start : Reached [] {}
  | feed {fed : List Text} {s : Layout} (line : Text) (next : Option Text) :
    Reached fed s → Reached (fed ++ [line]) (s.feed line next)

/-- Laying out lines in order, each with the one after it as the next, leads through such layouts
alone. -/
theorem Reached.feedAll (h : Reached fed s) (ls : List Text) :
    Reached (fed ++ ls) (s.feedAll ls) := by
  induction ls generalizing fed s with
  | nil => rwa [List.append_nil]
  | cons l ls ih =>
    have hrest := ih (.feed l ls.head? h)
    rwa [List.append_assoc, List.singleton_append] at hrest

/-- The lines with content. -/
def contents (ls : List Text) : List Text := ls.filter fun l => !l.all isBlank

theorem contents_concat_of_blank (h : line.all isBlank = true) (ls : List Text) :
    contents (ls ++ [line]) = contents ls := by
  simp [contents, h]

theorem contents_concat_of_content (h : line.all isBlank = false) (ls : List Text) :
    contents (ls ++ [line]) = contents ls ++ [line] := by
  simp [contents, h]

theorem content_of_ofLine (h : LineKind.ofLine line ≠ .blank) : line.all isBlank = false :=
  Bool.eq_false_iff.2 fun hl => h (LineKind.ofLine_eq_blank_iff.2 hl)

/-! ### What each step keeps -/

/-- Lines laid out as they should be: trimmed, without line feeds, no two empty ones next to each
other. `ls` are those with content. -/
structure Orderly (s : Layout) (ls : List Text) : Prop where
  trimmed : ∀ l ∈ s.reversed, trimRight l = l
  unbroken : ∀ l ∈ s.reversed, '\n' ∉ l
  parted : s.reversed.IsChain Parted
  content : contents s.reversed = ls.reverse

namespace Orderly

theorem start : Orderly {} [] := ⟨nofun, nofun, .nil, rfl⟩

theorem mark (h : Orderly s ls) (k : LineKind) : Orderly { s with last := some k } ls :=
  ⟨h.trimmed, h.unbroken, h.parted, h.content⟩

theorem eq_nil_of_blank (h : Orderly s ls) (hl : l ∈ s.reversed) (hb : l.all isBlank = true) :
    l = [] := by
  rw [← h.trimmed l hl, trimRight_eq_nil_iff, hb]

/-- A line with content may follow any line. -/
theorem push (h : Orderly s ls) (hl : l.all isBlank = false) (hfeed : '\n' ∉ l) :
    Orderly (s.push (trimRight l)) (ls ++ [trimRight l]) where
  trimmed := List.forall_mem_cons.2 ⟨trimRight_trimRight l, h.trimmed⟩
  unbroken := List.forall_mem_cons.2
    ⟨fun hmem => hfeed ((trimRight_isPrefix l).subset hmem), h.unbroken⟩
  parted := by
    have hne : trimRight l ≠ [] := by simp [trimRight_eq_nil_iff, hl]
    exact List.isChain_cons.2 ⟨fun _ _ => .inl hne, h.parted⟩
  content := by
    have hcontent : contents (trimRight l :: s.reversed) = trimRight l :: contents s.reversed := by
      simp [contents, hl]
    rw [Layout.push, hcontent, h.content, List.reverse_append, List.reverse_singleton,
      List.singleton_append]

/-- An empty line is added only where the last line has content, or there is none. -/
theorem pushEmptyIf (h : Orderly s ls)
    (hb : b = true → (s.reversed.isEmpty || s.endsInContent) = true) :
    Orderly (s.pushEmptyIf b) ls := by
  cases b with
  | false => exact h
  | true =>
    refine ⟨List.forall_mem_cons.2 ⟨rfl, h.trimmed⟩,
      List.forall_mem_cons.2 ⟨List.not_mem_nil, h.unbroken⟩, ?_, h.content⟩
    refine List.isChain_cons.2 ⟨fun l hl => .inr ?_, h.parted⟩
    rintro rfl
    have hends := hb rfl
    rw [Layout.endsInContent, Option.mem_def.1 hl] at hends
    obtain ⟨x, hx⟩ := List.head?_eq_some_iff.1 (Option.mem_def.1 hl)
    simp [hx] at hends

theorem dropBlank (h : Orderly s ls) : Orderly s.dropBlank ls where
  trimmed l hl := h.trimmed l ((List.dropWhile_suffix _).subset hl)
  unbroken l hl := h.unbroken l ((List.dropWhile_suffix _).subset hl)
  parted := h.parted.suffix (List.dropWhile_suffix _)
  content := by
    have hblank : contents (s.reversed.takeWhile (·.all isBlank)) = [] := by
      refine List.filter_eq_nil_iff.2 fun l hl => ?_
      simpa using List.mem_takeWhile_imp hl
    have hsplit : s.reversed.takeWhile (·.all isBlank) ++ s.dropBlank.reversed = s.reversed :=
      List.takeWhile_append_dropWhile
    have hcontent := h.content
    rwa [← hsplit, contents, List.filter_append, ← contents, ← contents, hblank,
      List.nil_append] at hcontent

/-- There is never more than one blank line at the end to be dropped. -/
theorem length_le_dropBlank (h : Orderly s ls) :
    s.reversed.length ≤ s.dropBlank.reversed.length + 1 := by
  obtain ⟨lines, last⟩ := s
  rw [Layout.dropBlank]
  cases lines with
  | nil => exact Nat.zero_le _
  | cons l lines =>
    cases hl : l.all isBlank with
    | false => simp [hl]
    | true =>
      have hnil : l = [] := h.eq_nil_of_blank List.mem_cons_self hl
      have hstop : lines.dropWhile (fun l => l.all isBlank) = lines := by
        cases lines with
        | nil => rfl
        | cons l' lines =>
          have hne : l' ≠ [] :=
            (List.isChain_cons_cons.1 h.parted).1.resolve_left (not_not_intro hnil)
          have hl' : ¬l'.all isBlank = true := fun hb =>
            hne (h.eq_nil_of_blank (List.mem_cons_of_mem _ List.mem_cons_self) hb)
          exact List.dropWhile_cons_of_neg hl'
      simp [hl, hstop]

/-- Whatever line is said to come next, a step lays out the line that is fed, and no other one with
content. -/
theorem feed (h : Orderly s ls) (hfeed : '\n' ∉ line) (next : Option Text) :
    Orderly (s.feed line next) (if line.all isBlank then ls else ls ++ [trimRight line]) := by
  cases hkind : LineKind.ofLine line with
  | blank =>
    rw [if_pos (LineKind.ofLine_eq_blank_iff.1 hkind), Layout.feed, hkind]
    exact h.pushEmptyIf id
  | heading =>
    have hl : line.all isBlank = false := content_of_ofLine (by simp [hkind])
    have habove : Orderly (s.pushEmptyIf s.endsInContent) ls := h.pushEmptyIf fun he => by simp [he]
    rw [hl, if_neg Bool.false_ne_true, Layout.feed, hkind]
    -- The empty line below a heading stands under the heading itself.
    refine ((habove.push hl hfeed).mark .heading).pushEmptyIf fun _ => ?_
    simp [Layout.endsInContent, Layout.push, hl]
  | listItem =>
    have hl : line.all isBlank = false := content_of_ofLine (by simp [hkind])
    rw [hl, if_neg Bool.false_ne_true, Layout.feed, hkind]
    dsimp only
    split_ifs
    · exact (h.dropBlank.push hl hfeed).mark .listItem
    · exact (h.push hl hfeed).mark .listItem
  | other =>
    have hl : line.all isBlank = false := content_of_ofLine (by simp [hkind])
    have habove : Orderly (s.pushEmptyIf (s.last = some .listItem && s.endsInContent)) ls :=
      h.pushEmptyIf fun he => by simp_all
    rw [hl, if_neg Bool.false_ne_true, Layout.feed, hkind]
    exact (habove.push hl hfeed).mark .other

end Orderly

theorem last_pushEmptyIf (s : Layout) (b : Bool) : (s.pushEmptyIf b).last = s.last := by
  cases b <;> rfl

theorem last_feed (s : Layout) (line : Text) (next : Option Text) :
    (s.feed line next).last =
      if line.all isBlank then s.last else some (LineKind.ofLine line) := by
  cases hkind : LineKind.ofLine line with
  | blank =>
    rw [if_pos (LineKind.ofLine_eq_blank_iff.1 hkind), Layout.feed, hkind]
    exact last_pushEmptyIf s _
  | heading =>
    rw [content_of_ofLine (by simp [hkind]), if_neg Bool.false_ne_true, Layout.feed, hkind]
    exact last_pushEmptyIf _ _
  | listItem | other =>
    rw [content_of_ofLine (by simp [hkind]), if_neg Bool.false_ne_true, Layout.feed, hkind]

/-! ### What holds after each step -/

namespace Reached

theorem orderly (h : Reached fed s) (hfed : ∀ l ∈ fed, '\n' ∉ l) :
    Orderly s ((contents fed).map trimRight) := by
  induction h with
  | start => exact .start
  | @feed fed s line next _ ih =>
    obtain ⟨hfed, hline⟩ := List.forall_mem_append.1 hfed
    have hstep := (ih hfed).feed (hline line (List.mem_singleton_self line)) next
    cases hl : line.all isBlank with
    | true => rwa [hl, if_pos rfl, ← contents_concat_of_blank hl] at hstep
    | false =>
      rw [hl, if_neg Bool.false_ne_true] at hstep
      rwa [contents_concat_of_content hl, List.map_append]

/-- The layout knows the kind of the last line with content, by the line as it was fed. -/
theorem last_eq (h : Reached fed s) :
    s.last = (contents fed).getLast?.map LineKind.ofLine := by
  induction h with
  | start => rfl
  | @feed fed s line next _ ih =>
    rw [last_feed]
    cases hl : line.all isBlank with
    | true => rw [if_pos rfl, ih, contents_concat_of_blank hl]
    | false =>
      rw [if_neg Bool.false_ne_true, contents_concat_of_content hl, List.getLast?_concat,
        Option.map_some]

theorem last_ne_blank (h : Reached fed s) : s.last ≠ some .blank := by
  rw [h.last_eq]
  intro hblank
  obtain ⟨l, hl, hkind⟩ := Option.map_eq_some_iff.1 hblank
  have hcontent := (List.mem_filter.1 (List.mem_of_getLast? hl)).2
  simp [LineKind.ofLine_eq_blank_iff.1 hkind] at hcontent

end Reached

theorem isChain_lines (h : Orderly s ls) : s.lines.IsChain Parted := by
  rw [Layout.lines, List.isChain_reverse]
  exact h.parted.imp fun _ _ => Or.symm

/-- After any lines, each fed with any line as the next, the layout is in order: the lines laid out
are trimmed and parted by single empty lines at most, they are the lines with content that were fed,
the last kind is that of the last of these, no more than one line can be dropped at the end, and
joining the lines leaves no run of line feeds to collapse. -/
theorem reached_in_order (h : Reached fed s) (hfed : ∀ l ∈ fed, '\n' ∉ l) :
    (∀ l ∈ s.lines, trimRight l = l) ∧
      (s.lines.IsChain fun l l' => ¬(l.all isBlank = true ∧ l'.all isBlank = true)) ∧
      contents s.lines = (contents fed).map trimRight ∧
      s.last = (contents fed).getLast?.map LineKind.ofLine ∧ s.last ≠ some .blank ∧
      s.lines.length ≤ s.dropBlank.lines.length + 1 ∧
      collapseFeeds 0 (unlines s.lines) = unlines s.lines ∧ s.finish = trim (unlines s.lines) := by
  have horder := h.orderly hfed
  have hmem : ∀ l, l ∈ s.lines ↔ l ∈ s.reversed := fun l => List.mem_reverse
  have hcollapse : collapseFeeds 0 (unlines s.lines) = unlines s.lines :=
    collapseFeeds_unlines (fun l hl => horder.unbroken l ((hmem l).1 hl)) (isChain_lines horder)
      (.inl (Nat.zero_le 1))
  refine ⟨fun l hl => horder.trimmed l ((hmem l).1 hl), ?_, ?_, h.last_eq, h.last_ne_blank, ?_,
    hcollapse, ?_⟩
  · refine (isChain_lines horder).imp_of_mem_imp fun l l' hl hl' hparted hblank => ?_
    have hnil := horder.eq_nil_of_blank ((hmem l).1 hl) hblank.1
    have hnil' := horder.eq_nil_of_blank ((hmem l').1 hl') hblank.2
    exact hparted.elim (· hnil) (· hnil')
  · rw [contents, Layout.lines, List.filter_reverse, ← contents, horder.content,
      List.reverse_reverse]
  · simpa [Layout.lines] using horder.length_le_dropBlank
  · exact congrArg trim hcollapse

/-- A heading is told of a line that does not come, so that an empty line is laid out below it and
dropped again between the list items. -/
theorem reached_in_order_sample :
    let s : Layout := (((({} : Layout).feed "# A ".toList (some ['x'])).feed [' '] none).feed
      "- a".toList none).feed "b".toList (some [])
    s.lines = ["# A".toList, [], "- a".toList, [], ['b']] ∧ s.last = some .other ∧
      contents s.lines = ["# A".toList, "- a".toList, ['b']] ∧
      collapseFeeds 0 (unlines s.lines) = unlines s.lines ∧ s.finish = trim (unlines s.lines) := by
  intro s
  have hreached : Reached ["# A ".toList, [' '], "- a".toList, ['b']] s :=
    .feed _ _ (.feed _ _ (.feed _ _ (.feed _ _ .start)))
  obtain ⟨-, -, hcontents, hlast, -, -, hcollapse, hfinish⟩ :=
    reached_in_order hreached (by decide)
  exact ⟨by decide, hlast, hcontents, hcollapse, hfinish⟩

end MarkTidy.Layout
