import MarkTidy.Proofs.Document.DashedLine
import MarkTidy.Proofs.Document.Frontmatter

/-!
The boundary between frontmatter and body. Frontmatter stays where it is when another body takes
the place of the one behind it, unless nothing stands between its two dashed lines: then a dashed
line of the new body closes it anew, and the boundary moves down. It can do so once, and once more
if there was no frontmatter before.
-/

namespace MarkTidy.Frontmatter

open Text

variable {b b' bs d front o r s t x : Text}

/-! ### Opening lines -/

/-- Three dashes, then at most spaces and tabs, and a line break. -/
def Opening (o : Text) : Prop :=
  ∃ sp brk, o = dashes ++ (sp ++ brk) ∧ (∀ c ∈ sp, c = ' ' ∨ c = '\t') ∧
    (brk = ['\n'] ∨ brk = ['\r', '\n'])

theorem afterOpening_append (ho : Opening o) (r : Text) : afterOpening (o ++ r) = some r := by
  obtain ⟨sp, brk, rfl, hsp, hbrk⟩ := ho
  have hdrop : ∀ {t : Text}, (∀ c, t.head? = some c → ¬(c = ' ' ∨ c = '\t')) →
      (sp ++ t).dropWhile (fun c => c = ' ' ∨ c = '\t') = t := by
    intro t ht
    rw [List.dropWhile_append_of_pos (by simpa using hsp)]
    cases t with
    | nil => rfl
    | cons c t => exact List.dropWhile_cons_of_neg (by simpa using ht c rfl)
  have hsplit : dashes ++ (sp ++ brk) ++ r = '-' :: '-' :: '-' :: (sp ++ (brk ++ r)) := by
    simp [dashes]
  rw [hsplit, afterOpening]
  rcases hbrk with rfl | rfl
  · rw [hdrop (by simp)]
    rfl
  · rw [hdrop (by simp)]
    rfl

theorem afterOpening_eq_some_iff : afterOpening d = some r ↔ ∃ o, Opening o ∧ d = o ++ r := by
  constructor
  · intro h
    unfold afterOpening at h
    split at h
    · next t =>
      have ht : t = t.takeWhile (fun c => c = ' ' ∨ c = '\t') ++
          t.dropWhile (fun c => c = ' ' ∨ c = '\t') := List.takeWhile_append_dropWhile.symm
      have hsp : ∀ c ∈ t.takeWhile (fun c => c = ' ' ∨ c = '\t'), c = ' ' ∨ c = '\t' :=
        fun c hc => by simpa using List.mem_takeWhile_imp hc
      split at h
      · next rest heq =>
        obtain rfl := Option.some.inj h
        refine ⟨_, ⟨_, ['\n'], rfl, hsp, .inl rfl⟩, ?_⟩
        rw [heq] at ht
        simpa [dashes] using ht
      · next rest heq =>
        obtain rfl := Option.some.inj h
        refine ⟨_, ⟨_, ['\r', '\n'], rfl, hsp, .inr rfl⟩, ?_⟩
        rw [heq] at ht
        simpa [dashes] using ht
      · cases h
    · cases h
  · rintro ⟨o, ho, rfl⟩
    exact afterOpening_append ho r

/-- An opening line is dashed, and the line feed that ends it is its only one. -/
theorem Opening.exists_eq (ho : Opening o) :
    ∃ bs, o = dashes ++ bs ++ ['\n'] ∧ bs.all isBlank = true ∧ '\n' ∉ bs := by
  obtain ⟨sp, brk, rfl, hsp, hbrk⟩ := ho
  have hblank : sp.all isBlank = true := by
    rw [List.all_eq_true]
    intro c hc
    rcases hsp c hc with rfl | rfl <;> rfl
  have hfeed : '\n' ∉ sp := fun hc => by simpa using hsp _ hc
  rcases hbrk with rfl | rfl
  · exact ⟨sp, by simp, hblank, hfeed⟩
  · exact ⟨sp ++ ['\r'], by simp, by simp [hblank, isBlank_return], by simp [hfeed]⟩

theorem Opening.startsDashed (ho : Opening o) (r : Text) : StartsDashed (o ++ r) := by
  obtain ⟨bs, rfl, hbs, -⟩ := ho.exists_eq
  rw [List.append_assoc, List.singleton_append, startsDashed_append_feed]
  exact startsDashed_dashes_append hbs

theorem Opening.dashedBelow_append_iff (ho : Opening o) :
    DashedBelow (o ++ r) ↔ StartsDashed r ∨ DashedBelow r := by
  obtain ⟨bs, rfl, -, hfeed⟩ := ho.exists_eq
  rw [List.append_assoc, List.singleton_append, dashedBelow_append_feed]
  have hdashes : '\n' ∉ dashes ++ bs := by simp [dashes, hfeed]
  simp [not_dashedBelow_of_not_mem hdashes]

/-! ### Closing lines -/

/-- The first line of a text has content. -/
def Topped (t : Text) : Prop := t.all isBlank = false ∧ '\n' ∉ t.takeWhile isBlank

/-- The blanks from a closing delimiter to the body: they end the closing line, and the body does
not start with a blank line. -/
structure Closes (bs body : Text) : Prop where
  blank : bs.all isBlank = true
  body : body = [] ∨ (∃ u, bs = u ++ ['\n']) ∧ Topped body

theorem afterLastFeed_eq_some_iff :
    afterLastFeed t = some x ↔ ∃ u, t = u ++ '\n' :: x ∧ '\n' ∉ x := by
  have hfeed : decide ('\n' ≠ '\n') = false := rfl
  constructor
  · intro h
    unfold afterLastFeed at h
    split at h
    · next hmem =>
      obtain ⟨v, u, hrev, hv⟩ := List.eq_append_cons_of_mem (List.mem_reverse.2 hmem)
      rw [hrev, LineKind.takeWhile_append_of_neg hfeed, takeWhile_of_not_mem hv] at h
      obtain rfl := Option.some.inj h
      refine ⟨u.reverse, ?_, by simpa using hv⟩
      simpa using congrArg List.reverse hrev
    · cases h
  · rintro ⟨u, rfl, hx⟩
    have hrev : (u ++ '\n' :: x).reverse = x.reverse ++ '\n' :: u.reverse := by simp
    rw [afterLastFeed, if_pos (by simp), hrev, LineKind.takeWhile_append_of_neg hfeed,
      takeWhile_of_not_mem (by simpa using hx), List.reverse_reverse]

theorem Topped.exists_eq (h : Topped t) : ∃ sp c r, t = sp ++ c :: r ∧ sp.all isBlank = true ∧
    '\n' ∉ sp ∧ isBlank c = false := by
  obtain ⟨hcontent, hfeed⟩ := h
  have ht : t = t.takeWhile isBlank ++ trimLeft t := List.takeWhile_append_dropWhile.symm
  cases hr : trimLeft t with
  | nil => rw [trimLeft_eq_nil_iff.1 hr] at hcontent; cases hcontent
  | cons c r => exact ⟨_, c, r, hr ▸ ht, List.all_takeWhile, hfeed, not_blank_of_trimLeft hr⟩

theorem topped_append_cons {c : Char} (hc : isBlank c = false) :
    Topped (t ++ c :: r) ↔ '\n' ∉ t.takeWhile isBlank := by
  rw [Topped, LineKind.takeWhile_append_of_neg hc]
  simp [hc]

theorem afterClosing_append (h : Closes bs b) : afterClosing (dashes ++ (bs ++ b)) = some b := by
  have hdashes : dashes ++ (bs ++ b) = '-' :: '-' :: '-' :: (bs ++ b) := rfl
  rw [hdashes, afterClosing]
  rcases h.body with rfl | ⟨⟨u, rfl⟩, htop⟩
  · have hnil : (bs ++ []).dropWhile isBlank = [] := by
      rw [List.append_nil]
      exact trimLeft_eq_nil_iff.2 h.blank
    rw [hnil]
  · obtain ⟨sp, c, r, rfl, hsp, hfeed, hc⟩ := htop.exists_eq
    have hall : ∀ d ∈ u ++ ['\n'] ++ sp, isBlank d = true := by
      rw [← List.all_eq_true, List.all_append, h.blank, hsp]
      rfl
    have hneg : ¬isBlank c = true := by simp [hc]
    have hlast : afterLastFeed (u ++ ['\n'] ++ sp) = some sp :=
      afterLastFeed_eq_some_iff.2 ⟨u, by simp, hfeed⟩
    rw [← List.append_assoc, List.dropWhile_append_of_pos hall, List.takeWhile_append_of_pos hall,
      List.dropWhile_cons_of_neg hneg, List.takeWhile_cons_of_neg hneg, List.append_nil, hlast]
    rfl

theorem exists_of_afterClosing (h : afterClosing t = some b) :
    ∃ bs, t = dashes ++ (bs ++ b) ∧ Closes bs b := by
  unfold afterClosing at h
  split at h
  · next r =>
    split at h
    · next hr =>
      obtain rfl := Option.some.inj h
      exact ⟨r, by simp [dashes], trimLeft_eq_nil_iff.1 hr, .inl rfl⟩
    · next c rest hr =>
      obtain ⟨sp, hsp, rfl⟩ := Option.map_eq_some_iff.1 h
      obtain ⟨u, hu, hfeed⟩ := afterLastFeed_eq_some_iff.1 hsp
      have happ : r = (u ++ '\n' :: sp) ++ c :: rest := by
        rw [← hu, ← hr, List.takeWhile_append_dropWhile]
      have hall : (u ++ '\n' :: sp).all isBlank = true := hu ▸ List.all_takeWhile
      simp only [List.all_append, List.all_cons, Bool.and_eq_true] at hall
      have htop : Topped (sp ++ c :: rest) := by
        rw [topped_append_cons (not_blank_of_trimLeft hr),
          List.takeWhile_eq_self_iff.2 (List.all_eq_true.1 hall.2.2)]
        exact hfeed
      have hblank : (u ++ ['\n']).all isBlank = true := by simp [hall.1, hall.2.1]
      exact ⟨u ++ ['\n'], by simp [happ, dashes], hblank, .inr ⟨⟨u, rfl⟩, htop⟩⟩
  · cases h

theorem afterClosing_isSome_iff : (afterClosing t).isSome ↔ StartsDashed t := by
  constructor
  · intro h
    obtain ⟨b, hb⟩ := Option.isSome_iff_exists.1 h
    obtain ⟨bs, rfl, hblank, rfl | ⟨⟨u, rfl⟩, -⟩⟩ := exists_of_afterClosing hb
    · rw [List.append_nil]
      exact startsDashed_dashes_append hblank
    · rw [List.append_assoc, List.singleton_append, ← List.append_assoc, startsDashed_append_feed]
      rw [List.all_append, Bool.and_eq_true] at hblank
      exact startsDashed_dashes_append hblank.1
  · intro h
    obtain ⟨bs, hblank, rfl | ⟨s, rfl⟩⟩ := h.exists_eq
    · have h := afterClosing_append (b := []) ⟨hblank, .inl rfl⟩
      rw [List.append_nil] at h
      rw [h]
      rfl
    · have hdashes : dashes ++ (bs ++ '\n' :: s) = '-' :: '-' :: '-' :: (bs ++ '\n' :: s) := rfl
      rw [hdashes, afterClosing]
      split
      · rfl
      · rw [List.all_eq_true] at hblank
        have hmem : '\n' ∈ (bs ++ '\n' :: s).takeWhile isBlank := by
          rw [List.takeWhile_append_of_pos hblank, List.takeWhile_cons_of_pos (by rfl)]
          simp
        rw [afterLastFeed, if_pos hmem]
        rfl

theorem afterLaterClosing_isSome_iff : (afterLaterClosing t).isSome ↔ DashedBelow t := by
  induction t with
  | nil => simp [afterLaterClosing, not_dashedBelow_nil]
  | cons c r ih =>
    rw [afterLaterClosing, dashedBelow_cons, ← ih, ← afterClosing_isSome_iff]
    split_ifs with hc
    · cases hr : afterClosing r <;> simp [hc]
    · simp [hc]

/-- A document has frontmatter exactly if it starts with an opening line and has a dashed line
below the first. -/
theorem isSome_body?_iff :
    (body? d).isSome ↔ (∃ o, Opening o ∧ o <+: d) ∧ DashedBelow d := by
  have hbody : ∀ {o}, Opening o → ∀ r, (body? (o ++ r)).isSome ↔ DashedBelow (o ++ r) := by
    intro o ho r
    rw [body?, afterOpening_append ho, Option.bind_some, Option.isSome_or, Bool.or_eq_true,
      afterLaterClosing_isSome_iff, afterClosing_isSome_iff, ho.dashedBelow_append_iff, or_comm]
  constructor
  · intro h
    cases hr : afterOpening d with
    | none => simp [body?, hr] at h
    | some r =>
      obtain ⟨o, ho, rfl⟩ := afterOpening_eq_some_iff.1 hr
      exact ⟨⟨o, ho, List.prefix_append o r⟩, (hbody ho r).1 h⟩
  · rintro ⟨⟨o, ho, r, rfl⟩, hr⟩
    exact (hbody ho r).2 hr

/-! ### Where the boundary is -/

theorem not_dashedBelow_dashes_append (h : bs.all isBlank = true) :
    ¬DashedBelow (dashes ++ bs) := by
  have hbs := not_dashedBelow_of_blank h
  simpa [dashes, dashedBelow_cons] using hbs

/-- How frontmatter can stand before a body. It is missing, its closing line is right below the
opening line, or its closing line is the first dashed line further down. -/
inductive Boundary : Text → Text → Prop where
  | absent {d : Text} (none : body? d = none) : Boundary [] d
  | hollow {o bs b : Text} (opening : Opening o) (closes : Closes bs b)
      (only : ¬DashedBelow (dashes ++ (bs ++ b))) : Boundary (o ++ (dashes ++ bs)) b
  | full {o x bs b : Text} (opening : Opening o) (closes : Closes bs b)
      (first : ¬DashedBelow x) : Boundary (o ++ (x ++ '\n' :: (dashes ++ bs))) b

theorem afterLaterClosing_append (hx : ¬DashedBelow x) (h : Closes bs b) :
    afterLaterClosing (x ++ '\n' :: (dashes ++ (bs ++ b))) = some b := by
  induction x with
  | nil => rw [List.nil_append, afterLaterClosing, if_pos rfl, afterClosing_append h]
  | cons c x ih =>
    rw [dashedBelow_cons, not_or] at hx
    rw [List.cons_append, afterLaterClosing, ih hx.2]
    split_ifs with hc
    · have hno : ¬(afterClosing (x ++ '\n' :: (dashes ++ (bs ++ b)))).isSome = true := by
        rw [afterClosing_isSome_iff, startsDashed_append_feed]
        exact fun hstart => hx.1 ⟨hc, hstart⟩
      rw [Option.not_isSome_iff_eq_none.1 hno]
    · rfl

theorem exists_of_afterLaterClosing (h : afterLaterClosing t = some b) :
    ∃ x bs, t = x ++ '\n' :: (dashes ++ (bs ++ b)) ∧ Closes bs b ∧ ¬DashedBelow x := by
  induction t with
  | nil => cases h
  | cons c r ih =>
    -- Unless `c` is the line feed before the delimiter, the delimiter is found further down.
    have hlater : afterLaterClosing r = some b → (c = '\n' → ¬StartsDashed r) →
        ∃ x bs, c :: r = x ++ '\n' :: (dashes ++ (bs ++ b)) ∧ Closes bs b ∧ ¬DashedBelow x := by
      intro hr hstart
      obtain ⟨x, bs, rfl, hbs, hx⟩ := ih hr
      rw [startsDashed_append_feed] at hstart
      refine ⟨c :: x, bs, rfl, hbs, ?_⟩
      rw [dashedBelow_cons, not_or]
      exact ⟨fun hc => hstart hc.1 hc.2, hx⟩
    rw [afterLaterClosing] at h
    split_ifs at h with hc
    · cases hr : afterClosing r with
      | some b' =>
        rw [hr] at h
        obtain rfl := Option.some.inj h
        obtain ⟨bs, rfl, hbs⟩ := exists_of_afterClosing hr
        exact ⟨[], bs, by rw [hc, List.nil_append], hbs, not_dashedBelow_nil⟩
      | none =>
        rw [hr] at h
        apply hlater h
        intro _ hstart
        rw [← afterClosing_isSome_iff, hr] at hstart
        cases hstart
    · exact hlater h fun hc' => absurd hc' hc

theorem split_of_body (h : body? (front ++ b) = some b) : split (front ++ b) = ⟨front, b⟩ := by
  rw [split, h]
  simp

theorem Boundary.split_eq (h : Boundary front b) : split (front ++ b) = ⟨front, b⟩ := by
  cases h with
  | absent none => rw [List.nil_append, split, none]
  | @hollow o bs b opening closes only =>
    apply split_of_body
    have hlater : afterLaterClosing (dashes ++ (bs ++ b)) = none := by
      rw [← Option.not_isSome_iff_eq_none, afterLaterClosing_isSome_iff]
      exact only
    rw [List.append_assoc, List.append_assoc, body?, afterOpening_append opening, Option.bind_some,
      hlater, afterClosing_append closes]
    rfl
  | @full o x bs b opening closes first =>
    apply split_of_body
    have happ : o ++ (x ++ '\n' :: (dashes ++ bs)) ++ b =
        o ++ (x ++ '\n' :: (dashes ++ (bs ++ b))) := by simp
    rw [happ, body?, afterOpening_append opening, Option.bind_some,
      afterLaterClosing_append first closes]
    rfl

/-- Every document is cut at a boundary. -/
theorem exists_boundary (d : Text) :
    ∃ front b, split d = ⟨front, b⟩ ∧ d = front ++ b ∧ Boundary front b := by
  have hcut : ∃ front b, d = front ++ b ∧ Boundary front b := by
    cases hb : body? d with
    | none => exact ⟨[], d, rfl, .absent hb⟩
    | some b =>
      obtain ⟨r, hr, hbody⟩ := Option.bind_eq_some_iff.1 hb
      obtain ⟨o, ho, rfl⟩ := afterOpening_eq_some_iff.1 hr
      rcases Option.or_eq_some_iff.1 hbody with hlater | ⟨hlater, hfirst⟩
      · obtain ⟨x, bs, rfl, hbs, hx⟩ := exists_of_afterLaterClosing hlater
        exact ⟨_, b, by simp, .full ho hbs hx⟩
      · obtain ⟨bs, rfl, hbs⟩ := exists_of_afterClosing hfirst
        refine ⟨_, b, by simp, .hollow ho hbs ?_⟩
        rw [← afterLaterClosing_isSome_iff, hlater]
        exact Bool.false_ne_true
  obtain ⟨front, b, rfl, h⟩ := hcut
  exact ⟨front, b, h.split_eq, rfl, h⟩

theorem front_eq_nil_iff : (split d).front = [] ↔ body? d = none := by
  constructor
  · intro h
    obtain ⟨front, b, hsplit, rfl, hcut⟩ := exists_boundary d
    obtain rfl : front = [] := by rwa [hsplit] at h
    have hne : ∀ {o x}, Opening o → ¬[] = o ++ x := by
      rintro o x ho hnil
      obtain ⟨bs, rfl, -, -⟩ := ho.exists_eq
      simp [dashes] at hnil
    generalize hfront : [] = front at hcut
    cases hcut with
    | absent none => exact none
    | hollow opening _ _ => exact absurd hfront (hne opening)
    | full opening _ _ => exact absurd hfront (hne opening)
  · intro h
    rw [split, h]

theorem Closes.dashedBelow_iff (h : Closes bs b) :
    DashedBelow (dashes ++ (bs ++ b)) ↔ StartsDashed b ∨ DashedBelow b := by
  rcases h.body with rfl | ⟨⟨u, rfl⟩, -⟩
  · have hbs := not_dashedBelow_dashes_append h.blank
    have hstart : ¬StartsDashed [] := by simp [StartsDashed, dashes]
    simp [hbs, hstart, not_dashedBelow_nil]
  · have hblank := h.blank
    rw [List.all_append, Bool.and_eq_true] at hblank
    have hu := not_dashedBelow_dashes_append hblank.1
    have happ : dashes ++ (u ++ ['\n'] ++ b) = (dashes ++ u) ++ '\n' :: b := by simp
    rw [happ, dashedBelow_append_feed]
    exact or_iff_right hu

/-! ### Another body -/

/-- Frontmatter that is missing, or whose closing line is right below the opening line. -/
def Hollow (front : Text) : Prop :=
  front = [] ∨ ∃ o bs, Opening o ∧ bs.all isBlank = true ∧ front = o ++ (dashes ++ bs)

/-- How often a boundary below this frontmatter can still move. -/
def slack (front : Text) : Nat :=
  match afterOpening front with
  | none => 2
  | some r => if (afterLaterClosing r).isSome then 0 else 1

theorem slack_hollow (ho : Opening o) (h : bs.all isBlank = true) :
    slack (o ++ (dashes ++ bs)) = 1 := by
  have hno : ¬(afterLaterClosing (dashes ++ bs)).isSome = true := by
    rw [afterLaterClosing_isSome_iff]
    exact not_dashedBelow_dashes_append h
  rw [slack, afterOpening_append ho]
  exact if_neg hno

theorem slack_full (ho : Opening o) (h : bs.all isBlank = true) :
    slack (o ++ (x ++ '\n' :: (dashes ++ bs))) = 0 := by
  have hyes : (afterLaterClosing (x ++ '\n' :: (dashes ++ bs))).isSome = true := by
    rw [afterLaterClosing_isSome_iff, dashedBelow_append_feed]
    exact .inr (.inl (startsDashed_dashes_append h))
  rw [slack, afterOpening_append ho]
  exact if_pos hyes

theorem Hollow.slack_pos (h : Hollow front) : 0 < slack front := by
  rcases h with rfl | ⟨o, bs, ho, hbs, rfl⟩
  · exact Nat.zero_lt_two
  · rw [slack_hollow ho hbs]
    exact Nat.one_pos

/-- What may take the place of a body: empty if that one is, and with content in the first line if
that one has. -/
structure Replaces (b' b : Text) : Prop where
  nil : b = [] → b' = []
  topped : Topped b → Topped b'

theorem Closes.replace (h : Closes bs b) (hb : Replaces b' b) : Closes bs b' :=
  ⟨h.blank, h.body.imp hb.nil (And.imp_right hb.topped)⟩

/-- A boundary that has moved down. -/
structure Moved (front front' : Text) : Prop where
  hollow : Hollow front
  grows : front <+: front'
  slack_lt : slack front' < slack front

theorem Moved.ne (h : Moved front s) : s ≠ front := by
  rintro rfl
  exact absurd h.slack_lt (Nat.lt_irrefl _)

/-- The blanks after a closing delimiter hold no other one. -/
theorem not_feed_dashes_isPrefix (h : bs.all isBlank = true) :
    ¬x ++ '\n' :: dashes <+: dashes ++ bs := by
  rintro ⟨z, hz⟩
  have hdash : '-' ∉ bs := fun hmem => Bool.noConfusion (List.all_eq_true.1 h _ hmem)
  have hcount := congrArg (List.count '-') hz
  simp only [List.count_append, List.count_cons, List.count_eq_zero.2 hdash, dashes] at hcount
  cases x with
  | nil => simp [dashes] at hz
  | cons c x =>
    obtain rfl : c = '-' := (List.cons.inj hz).1
    rw [List.count_cons_self] at hcount
    simp only [List.count_nil, beq_self_eq_true, if_true] at hcount
    omega

/-- If an empty frontmatter is closed anew further down, that closing line is in the body. -/
theorem Boundary.moved_of_dashedBelow (ho : Opening o) (hbs : bs.all isBlank = true)
    (h : DashedBelow (dashes ++ (bs ++ b))) :
    Moved (o ++ (dashes ++ bs)) (split (o ++ (dashes ++ (bs ++ b)))).front := by
  have hopening := afterOpening_append ho (dashes ++ (bs ++ b))
  obtain ⟨front', b'', hsplit, hd, hcut⟩ := exists_boundary (o ++ (dashes ++ (bs ++ b)))
  rw [hsplit]
  rw [hd] at hopening
  cases hcut with
  | absent none =>
    have hsome := isSome_body?_iff.2 ⟨⟨o, ho, List.prefix_append o _⟩,
      ho.dashedBelow_append_iff.2 (.inr h)⟩
    rw [hd, List.nil_append, none] at hsome
    cases hsome
  | @hollow o' bs' _ opening closes only =>
    rw [List.append_assoc, afterOpening_append opening] at hopening
    rw [← Option.some.inj hopening, List.append_assoc] at h
    exact absurd h only
  | @full o' x bs' _ opening closes first =>
    rw [List.append_assoc, afterOpening_append opening] at hopening
    -- The opening line is the same. The new closing line starts below the old one, for there is no
    -- line feed and delimiter in the blanks of the old one.
    have hrest := Option.some.inj hopening
    obtain rfl : o' = o := by
      rw [List.append_assoc, hrest] at hd
      exact (List.append_cancel_right hd).symm
    refine ⟨.inr ⟨o', bs, ho, hbs, rfl⟩, ?_, ?_⟩
    · rw [List.prefix_append_right_inj]
      have hpre : dashes ++ bs <+: x ++ '\n' :: (dashes ++ bs') ++ b'' := by
        rw [hrest, ← List.append_assoc]
        exact List.prefix_append _ b
      rcases List.prefix_or_prefix_of_prefix hpre (List.prefix_append _ b'') with hle | hge
      · exact hle
      · refine absurd (List.IsPrefix.trans ?_ hge) (not_feed_dashes_isPrefix (x := x) hbs)
        exact ⟨bs', by simp⟩
    · rw [slack_hollow ho hbs, slack_full ho closes.blank]
      exact Nat.zero_lt_one

theorem front_eq_hollow_iff (ho : Opening o) (h : Closes bs b) :
    (split (o ++ (dashes ++ (bs ++ b)))).front = o ++ (dashes ++ bs) ↔
      ¬DashedBelow (dashes ++ (bs ++ b)) := by
  constructor
  · exact fun hfront hbelow => (Boundary.moved_of_dashedBelow ho h.blank hbelow).ne hfront
  · intro hbelow
    have hsplit := (Boundary.hollow ho h hbelow).split_eq
    rw [List.append_assoc, List.append_assoc] at hsplit
    rw [hsplit]

/-- A boundary stays where it is before another body, or it moves down. -/
theorem Boundary.replace (h : Boundary front b) (hb : Replaces b' b) :
    Boundary front b' ∨ Moved front (split (front ++ b')).front := by
  cases h with
  | absent none =>
    obtain ⟨front', b'', hsplit, hd, hcut⟩ := exists_boundary b'
    rw [List.nil_append, hsplit]
    cases hcut with
    | absent none' => exact .inl (hd ▸ .absent none')
    | hollow opening closes _ =>
      refine .inr ⟨.inl rfl, List.nil_prefix, ?_⟩
      rw [slack_hollow opening closes.blank]
      exact Nat.one_lt_two
    | full opening closes _ =>
      refine .inr ⟨.inl rfl, List.nil_prefix, ?_⟩
      rw [slack_full opening closes.blank]
      exact Nat.zero_lt_two
  | @hollow o bs _ opening closes only =>
    by_cases hbelow : DashedBelow (dashes ++ (bs ++ b'))
    · apply Or.inr
      rw [List.append_assoc, List.append_assoc]
      exact moved_of_dashedBelow opening closes.blank hbelow
    · exact .inl (.hollow opening (closes.replace hb) hbelow)
  | full opening closes first => exact .inl (.full opening (closes.replace hb) first)

end MarkTidy.Frontmatter
