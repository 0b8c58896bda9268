import Mathlib.Data.List.Chain
import MarkTidy.Document.Layout
import MarkTidy.Proofs.Document.LineKind
import MarkTidy.Proofs.Text.Lines

/-!
Spacing without a state. How many empty lines part two lines with content depends on their kinds and
on whether they were parted before; `spread` writes the lines of a text with these separations, and
the layout of a text is what `spread` writes.
-/

namespace MarkTidy

open Text

/-- How many empty lines part two lines with content that had `gap` blank lines between them. -/
def separation (above below : LineKind) (gap : Nat) : Nat :=
  if above = .heading ∨ below = .heading ∨ (above = .listItem ∧ below = .other) then 1
  else if above = .listItem ∧ below = .listItem then 0
  else min gap 1

theorem separation_le_one (above below : LineKind) (gap : Nat) :
    separation above below gap ≤ 1 := by
  unfold separation
  split_ifs <;> omega

theorem separation_min (above below : LineKind) (gap : Nat) :
    separation above below (min gap 1) = separation above below gap := by
  unfold separation
  split_ifs <;> omega

theorem separation_separation (above below : LineKind) (gap : Nat) :
    separation above below (separation above below gap) = separation above below gap := by
  unfold separation
  split_ifs <;> omega

namespace Layout

/-- The empty lines above a line with content; there are none above the first. -/
def margin (above : Option LineKind) (below : LineKind) (gap : Nat) : List Text :=
  List.replicate (above.elim 0 fun k => separation k below gap) []

/-- The lines with content, parted by empty lines. The last line with content so far was of kind
`above`, and `gap` blank lines have come after it. -/
def spread (above : Option LineKind) (gap : Nat) : List Text → List Text
  | [] => []
  | l :: ls =>
    if l.all isBlank then spread above (gap + 1) ls
    else margin above (.ofLine l) gap ++ trimRight l :: spread (some (.ofLine l)) 0 ls

variable {above : Option LineKind} {k : LineKind} {gap p : Nat} {l line : Text}
  {ls base : List Text} {s : Layout} {next : Option Text}

theorem spread_cons_of_blank (h : l.all isBlank = true) :
    spread above gap (l :: ls) = spread above (gap + 1) ls := by
  rw [spread, if_pos h]

theorem spread_cons_of_content (h : l.all isBlank = false) :
    spread above gap (l :: ls) =
      margin above (.ofLine l) gap ++ trimRight l :: spread (some (.ofLine l)) 0 ls := by
  rw [spread, if_neg (by simp [h])]

/-- Whether the next line has content. -/
def contentAhead (next : Option Text) : Bool := (next.map (!·.all isBlank)).getD false

/-- How many empty lines are laid out right below a line of this kind. -/
def below (k : LineKind) (next : Option Text) : Nat :=
  if k = .heading ∧ contentAhead next = true then 1 else 0

theorem below_le_one (k : LineKind) (next : Option Text) : below k next ≤ 1 := by
  unfold below
  split <;> omega

/-- A layout at rest: `base` ends in a line with content of kind `k`, and `p` empty lines, at most
one, have been laid out after it. -/
structure Rests (s : Layout) (k : LineKind) (p : Nat) (base : List Text) : Prop where
  last : s.last = some k
  reversed : s.reversed = List.replicate p [] ++ base
  le_one : p ≤ 1
  content : ∃ x rest, base = x :: rest ∧ x.all isBlank = false

theorem Rests.endsInContent (h : Rests s k p base) : s.endsInContent = decide (p = 0) := by
  obtain ⟨x, rest, rfl, hx⟩ := h.content
  have hp : p = 0 ∨ p = 1 := by have := h.le_one; omega
  rcases hp with rfl | rfl
  · rw [Layout.endsInContent, h.reversed]
    simpa using hx
  · rw [Layout.endsInContent, h.reversed]
    rfl

/-- A blank line leaves exactly one empty line after the content. -/
theorem Rests.feed_blank (h : Rests s k p base) (hl : line.all isBlank = true) :
    Rests (s.feed line next) k 1 base := by
  obtain ⟨x, rest, hb, hx⟩ := h.content
  have hne : s.reversed.isEmpty = false := by simp [h.reversed, hb]
  have hfeed : s.feed line next = s.pushEmptyIf (decide (p = 0)) := by
    rw [feed, LineKind.ofLine_eq_blank_iff.2 hl]
    simp only [hne, h.endsInContent, Bool.false_or]
  have hp : p = 0 ∨ p = 1 := by have := h.le_one; omega
  rw [hfeed]
  rcases hp with rfl | rfl
  · exact ⟨h.last, congrArg ([] :: ·) h.reversed, Nat.le_refl 1, h.content⟩
  · exact ⟨h.last, h.reversed, Nat.le_refl 1, h.content⟩

/-- A line with content is parted from the one before it as `separation` says. After a heading the
layout already has its empty line. -/
theorem Rests.feed_content (h : Rests s k p base) (hl : line.all isBlank = false)
    (hk : k = .heading → p = 1) :
    Rests (s.feed line next) (.ofLine line)
      (below (.ofLine line) next)
      (trimRight line :: (List.replicate (separation k (.ofLine line) p) [] ++ base)) := by
  have hends := h.endsInContent
  have hdrop : s.dropBlank.reversed = base := by
    obtain ⟨x, rest, rfl, hx⟩ := h.content
    have hp : ∀ l ∈ List.replicate p ([] : Text), l.all isBlank = true := by simp
    rw [Layout.dropBlank, h.reversed]
    exact (List.dropWhile_append_of_pos hp).trans (List.dropWhile_cons_of_neg (by simp [hx]))
  have hlast := h.last
  have hrev := h.reversed
  have hp : p = 0 ∨ p = 1 := by have := h.le_one; omega
  -- Kind by kind: what is pushed, given the kind of the line above and whether `p` is 0 or 1.
  have hfeed : s.feed line next =
      ⟨List.replicate (below (.ofLine line) next) [] ++
        trimRight line :: (List.replicate (separation k (.ofLine line) p) [] ++ base),
        some (.ofLine line)⟩ := by
    cases hkind : LineKind.ofLine line with
    | blank => simp [LineKind.ofLine_eq_blank_iff.1 hkind] at hl
    | heading =>
      have hn : (next.map fun l => !l.all isBlank).getD false = contentAhead next := rfl
      simp only [feed, hkind, hends, hn]
      rcases hp with rfl | rfl <;> cases hc : contentAhead next <;>
        simp [pushEmptyIf, push, hrev, separation, below, hc]
    | listItem =>
      simp only [feed, hkind, hlast]
      rcases hp with rfl | rfl <;> cases k <;>
        simp_all [push, separation, below]
    | other =>
      simp only [feed, hkind, hlast, hends]
      rcases hp with rfl | rfl <;> cases k <;>
        simp_all [pushEmptyIf, push, separation, below]
  rw [hfeed]
  exact ⟨rfl, rfl, below_le_one _ _, trimRight line, _, rfl, by simpa using hl⟩

/-- How many empty lines are laid out before the lines `ls` are read. -/
def pending (k : LineKind) (gap : Nat) (ls : List Text) : Nat :=
  if 0 < gap ∨ (k = .heading ∧ contentAhead ls.head? = true) then 1 else 0

theorem pending_zero (k : LineKind) (ls : List Text) : pending k 0 ls = below k ls.head? := by
  simp [pending, below]

theorem separation_pending (hl : l.all isBlank = false) (below : LineKind) :
    separation k below (pending k gap (l :: ls)) = separation k below gap := by
  have ha : contentAhead (l :: ls).head? = true := by simp [contentAhead, hl]
  by_cases hk : k = .heading
  · simp [separation, hk]
  · have hp : pending k gap (l :: ls) = min gap 1 := by
      unfold pending
      simp only [hk, ha, false_and, or_false]
      split <;> omega
    rw [hp, separation_min]

/-- A run of the layout from rest writes what `spread` writes, and at most one more empty line. -/
theorem Rests.feedAll (h : Rests s k (pending k gap ls) base) :
    ∃ p ≤ 1, (s.feedAll ls).reversed =
      List.replicate p [] ++ (spread (some k) gap ls).reverse ++ base := by
  induction ls generalizing s k gap base with
  | nil => exact ⟨_, h.le_one, by simpa [Layout.feedAll, spread] using h.reversed⟩
  | cons l ls ih =>
    rw [Layout.feedAll]
    -- A step keeps the layout at rest, with as many empty lines pending as the next step expects.
    cases hl : l.all isBlank with
    | true =>
      have hp : pending k (gap + 1) ls = 1 := by simp [pending]
      rw [spread_cons_of_blank hl]
      exact ih (hp ▸ h.feed_blank hl)
    | false =>
      have hk : k = .heading → pending k gap (l :: ls) = 1 := by
        intro hk
        simp [pending, hk, contentAhead, hl]
      have hfed : Rests (s.feed l ls.head?) _ _ _ := h.feed_content hl hk
      rw [← pending_zero] at hfed
      obtain ⟨p, hp1, hrev⟩ := ih hfed
      refine ⟨p, hp1, ?_⟩
      rw [hrev, spread_cons_of_content hl, separation_pending hl]
      simp [margin]

/-- A layout without content yet: it has empty lines only. -/
structure AtTop (s : Layout) (p : Nat) : Prop where
  last : s.last = none
  reversed : s.reversed = List.replicate p []

theorem AtTop.endsInContent (h : AtTop s p) : s.endsInContent = false := by
  rw [Layout.endsInContent, h.reversed]
  cases p <;> rfl

theorem AtTop.feed_blank (h : AtTop s p) (hl : line.all isBlank = true) (hp : p ≤ 1) :
    AtTop (s.feed line next) 1 := by
  have hfeed : s.feed line next = s.pushEmptyIf (decide (p = 0)) := by
    simp [feed, LineKind.ofLine_eq_blank_iff.2 hl, h.endsInContent, h.reversed]
  rw [hfeed]
  obtain rfl | rfl : p = 0 ∨ p = 1 := by omega
  · exact ⟨h.last, congrArg ([] :: ·) h.reversed⟩
  · exact h

/-- The first line with content stands right below the empty lines. -/
theorem AtTop.feed_content (h : AtTop s p) (hl : line.all isBlank = false) :
    Rests (s.feed line next) (.ofLine line)
      (below (.ofLine line) next)
      (trimRight line :: List.replicate p []) := by
  have hn : (next.map fun l => !l.all isBlank).getD false = contentAhead next := rfl
  have hfeed : s.feed line next =
      ⟨List.replicate (below (.ofLine line) next) [] ++
        trimRight line :: List.replicate p [], some (.ofLine line)⟩ := by
    cases hkind : LineKind.ofLine line with
    | blank => simp [LineKind.ofLine_eq_blank_iff.1 hkind] at hl
    | heading =>
      simp only [feed, hkind, h.endsInContent, hn]
      cases hc : contentAhead next <;> simp [pushEmptyIf, push, h.reversed, below, hc]
    | listItem => simp [feed, hkind, h.last, push, h.reversed, below]
    | other => simp [feed, hkind, h.last, pushEmptyIf, push, h.reversed, below]
  rw [hfeed]
  exact ⟨rfl, rfl, below_le_one _ _, trimRight line, _, rfl, by simpa using hl⟩

/-- Before any content, blank lines leave at most one empty line, and the first line with content
follows it directly. -/
theorem AtTop.feedAll (h : AtTop s p) (hp : p ≤ 1) (gap : Nat) (ls : List Text) :
    ∃ q r, q ≤ 1 ∧ r ≤ 1 ∧ (spread none gap ls = [] → q = 0) ∧ (s.feedAll ls).reversed =
      List.replicate q [] ++ (spread none gap ls).reverse ++ List.replicate r [] := by
  induction ls generalizing s p gap with
  | nil =>
    refine ⟨0, p, Nat.zero_le 1, hp, fun _ => rfl, ?_⟩
    simpa [Layout.feedAll, spread] using h.reversed
  | cons l ls ih =>
    rw [Layout.feedAll]
    cases hl : l.all isBlank with
    | true =>
      rw [spread_cons_of_blank hl]
      exact ih (h.feed_blank hl hp) (Nat.le_refl 1) (gap + 1)
    | false =>
      have hrest : Rests (s.feed l ls.head?) _ _ _ := h.feed_content hl
      rw [← pending_zero] at hrest
      obtain ⟨q, hq, hrev'⟩ := hrest.feedAll
      refine ⟨q, p, hq, hp, ?_, ?_⟩
      · simp [spread_cons_of_content hl]
      · rw [hrev', spread_cons_of_content hl]
        simp [margin]

/-! ### Joining the lines -/

theorem feed_not_mem_spread (h : ∀ l ∈ ls, '\n' ∉ l) : ∀ l ∈ spread above gap ls, '\n' ∉ l := by
  induction ls generalizing above gap with
  | nil => simp [spread]
  | cons l ls ih =>
    have hls : ∀ x ∈ ls, '\n' ∉ x := fun x hx => h x (List.mem_cons_of_mem _ hx)
    cases hl : l.all isBlank with
    | true =>
      rw [spread_cons_of_blank hl]
      exact ih hls
    | false =>
      rw [spread_cons_of_content hl]
      intro x hx
      rcases List.mem_append.1 hx with hx | hx
      · rw [List.eq_of_mem_replicate hx]
        exact List.not_mem_nil
      rcases List.mem_cons.1 hx with rfl | hx
      · intro hc
        exact h l List.mem_cons_self ((trimRight_isPrefix l).subset hc)
      · exact ih hls x hx

/-- The lines that are written end in one with content, which is trimmed. -/
theorem getLast?_spread (h : (spread above gap ls).getLast? = some l) :
    l.all isBlank = false ∧ trimRight l = l := by
  induction ls generalizing above gap with
  | nil => simp [spread] at h
  | cons x ls ih =>
    cases hx : x.all isBlank with
    | true =>
      rw [spread_cons_of_blank hx] at h
      exact ih h
    | false =>
      rw [spread_cons_of_content hx, List.getLast?_append, List.getLast?_cons] at h
      cases hlast : (spread (some (.ofLine x)) 0 ls).getLast? with
      | none =>
        obtain rfl : trimRight x = l := by simpa [hlast] using h
        exact ⟨by simpa using hx, trimRight_trimRight x⟩
      | some y =>
        obtain rfl : y = l := by simpa [hlast] using h
        exact ih hlast

/-- Of two lines next to each other, at most one is empty. -/
def Parted (l l' : Text) : Prop := l ≠ [] ∨ l' ≠ []

theorem isChain_parted_spread (hl : l ≠ []) (hp : p ≤ 1) :
    (l :: (spread (some k) gap ls ++ List.replicate p [])).IsChain Parted := by
  induction ls generalizing l k gap with
  | nil =>
    have hp' : p = 0 ∨ p = 1 := by omega
    rcases hp' with rfl | rfl
    · exact .singleton l
    · exact .cons_cons (.inl hl) (.singleton [])
  | cons x ls ih =>
    cases hx : x.all isBlank with
    | true =>
      rw [spread_cons_of_blank hx]
      exact ih hl
    | false =>
      have hne : trimRight x ≠ [] := by simp [trimRight_eq_nil_iff, hx]
      rw [spread_cons_of_content hx, margin, Option.elim_some]
      have hs := separation_le_one k (.ofLine x) gap
      have hs' : separation k (.ofLine x) gap = 0 ∨ separation k (.ofLine x) gap = 1 := by omega
      rcases hs' with hs' | hs' <;> rw [hs']
      · exact .cons_cons (.inl hl) (ih hne)
      · exact .cons_cons (.inl hl) (.cons_cons (.inr hne) (ih hne))

theorem collapseFeeds_append (h : '\n' ∉ l) (hl : l ≠ []) (run : Nat) (r : Text) :
    collapseFeeds run (l ++ r) = l ++ collapseFeeds 0 r := by
  induction l generalizing run with
  | nil => exact absurd rfl hl
  | cons c l ih =>
    obtain ⟨hc, hmem⟩ := List.ne_and_not_mem_of_not_mem_cons h
    rw [List.cons_append, collapseFeeds, if_neg (Ne.symm hc)]
    cases l with
    | nil => rfl
    | cons d l => rw [ih hmem (List.cons_ne_nil d l), List.cons_append (a := c)]

/-- There is no run of line feeds to collapse where no two lines next to each other are empty. -/
theorem collapseFeeds_unlines (hls : ∀ l ∈ ls, '\n' ∉ l) (hc : ls.IsChain Parted) {run : Nat}
    (hrun : run ≤ 1 ∨ (run = 2 ∧ ls.head? ≠ some [])) :
    collapseFeeds run (unlines ls) = unlines ls := by
  -- `run` is at most 1 after a line with content, and 2 only where the next line has content.
  induction ls generalizing run with
  | nil => rfl
  | cons l ls ih =>
    obtain ⟨hl, hls⟩ := List.forall_mem_cons.1 hls
    cases ls with
    | nil =>
      by_cases hne : l = []
      · rw [hne]
        rfl
      · simpa [collapseFeeds] using collapseFeeds_append hl hne run []
    | cons l' ls =>
      obtain ⟨hp, hc⟩ := List.isChain_cons_cons.1 hc
      rw [unlines_cons_cons]
      by_cases hne : l = []
      · have hrun' : run ≤ 1 := hrun.resolve_right fun h => h.2 (by simp [hne])
        have hl' : l' ≠ [] := hp.resolve_left (not_not_intro hne)
        rw [hne, List.nil_append, collapseFeeds, if_pos rfl, if_pos (by omega)]
        rw [ih hls hc (by simp only [List.head?_cons]; grind)]
      · rw [collapseFeeds_append hl hne, collapseFeeds, if_pos rfl, if_pos (by omega)]
        rw [ih hls hc (.inl (Nat.le_refl 1))]

theorem isChain_parted_top {q r : Nat} (hq : q ≤ 1) (hr : r ≤ 1)
    (hnil : spread none gap ls = [] → q = 0) :
    (List.replicate r [] ++ (spread none gap ls ++ List.replicate q [])).IsChain Parted := by
  have hr' : r = 0 ∨ r = 1 := by omega
  induction ls generalizing gap with
  | nil =>
    rw [hnil rfl]
    rcases hr' with rfl | rfl
    · exact .nil
    · exact .singleton []
  | cons x ls ih =>
    cases hx : x.all isBlank with
    | true =>
      rw [spread_cons_of_blank hx] at hnil ⊢
      exact ih hnil
    | false =>
      have hne : trimRight x ≠ [] := by simp [trimRight_eq_nil_iff, hx]
      have hchain : (trimRight x :: (spread (some (.ofLine x)) 0 ls ++
          List.replicate q [])).IsChain Parted := isChain_parted_spread hne hq
      rw [spread_cons_of_content hx]
      rcases hr' with rfl | rfl
      · exact hchain
      · exact .cons_cons (.inr hne) hchain

/-- At most one empty line on either side of the lines does not show in the trimmed text. -/
theorem trim_unlines_top {q r : Nat} (hq : q ≤ 1) (hr : r ≤ 1)
    (hnil : spread none gap ls = [] → q = 0) :
    trim (unlines (List.replicate r [] ++ (spread none gap ls ++ List.replicate q []))) =
      trimLeft (unlines (spread none gap ls)) := by
  have hq' : q = 0 ∨ q = 1 := by omega
  have hr' : r = 0 ∨ r = 1 := by omega
  cases hlast : (spread none gap ls).getLast? with
  | none =>
    have hs : spread none gap ls = [] := List.getLast?_eq_none_iff.1 hlast
    rw [hs, hnil hs]
    rcases hr' with rfl | rfl <;> rfl
  | some l =>
    have hne : spread none gap ls ≠ [] := by
      intro hs
      simp [hs] at hlast
    obtain ⟨hl, ht⟩ := getLast?_spread hlast
    have hright : trimRight (unlines (spread none gap ls ++ List.replicate q [])) =
        unlines (spread none gap ls) := by
      rcases hq' with rfl | rfl
      · simpa using trimRight_unlines hlast hl ht
      · rw [List.replicate_one, unlines_concat hne, trimRight_append_of_blank rfl,
          trimRight_unlines hlast hl ht]
    have hleft : trim (unlines (spread none gap ls ++ List.replicate q [])) =
        trimLeft (unlines (spread none gap ls)) := by
      rw [← trimLeft_trimRight, hright]
    rcases hr' with rfl | rfl
    · exact hleft
    · rw [List.replicate_one, List.singleton_append, unlines_cons _ (by simp [hne]),
        List.nil_append]
      exact hleft

/-- The layout of a text is what `spread` writes of its lines, trimmed on the left. -/
theorem normalize_eq_spread (t : Text) :
    normalize t = trimLeft (unlines (spread none 0 (Text.lines t))) := by
  obtain ⟨q, r, hq, hr, hnil, hrev⟩ :=
    AtTop.feedAll (s := {}) (p := 0) ⟨rfl, rfl⟩ (Nat.zero_le 1) 0 (Text.lines t)
  have hlines : (feedAll {} (Text.lines t)).lines =
      List.replicate r [] ++ (spread none 0 (Text.lines t) ++ List.replicate q []) := by
    rw [Layout.lines, hrev]
    simp
  have hfree : ∀ l ∈ List.replicate r [] ++ (spread none 0 (Text.lines t) ++ List.replicate q []),
      '\n' ∉ l := by
    have h : ∀ l ∈ spread none 0 (Text.lines t), '\n' ∉ l :=
      feed_not_mem_spread fun l => feed_not_mem_of_mem_lines
    simp only [List.mem_append, List.mem_replicate]
    rintro l (⟨-, rfl⟩ | hl | ⟨-, rfl⟩)
    · exact List.not_mem_nil
    · exact h l hl
    · exact List.not_mem_nil
  have hchain := isChain_parted_top hq hr hnil
  have hcollapse := collapseFeeds_unlines hfree hchain (.inl (Nat.zero_le 1))
  calc normalize t = trim (collapseFeeds 0 (unlines (feedAll {} (Text.lines t)).lines)) := rfl
    _ = trim (unlines (List.replicate r [] ++
          (spread none 0 (Text.lines t) ++ List.replicate q []))) := by rw [hlines, hcollapse]
    _ = trimLeft (unlines (spread none 0 (Text.lines t))) := trim_unlines_top hq hr hnil

end Layout

end MarkTidy
