import Mathlib.Data.List.Basic
import MarkTidy.Ignore.Rule
import MarkTidy.Text.Search

/-!
How deep an anchored rule reaches. A glob matches a text that can be cut into parts that its pieces
take, one each. A star or a question mark takes slashes too, so a rule with one of them matches
paths with other numbers of components than its pattern has.
-/

namespace MarkTidy

open Text

namespace Glob

/-- What a piece of a glob can stand for. -/
inductive Takes : Piece → Text → Prop
  | star (u : Text) : Takes .star u
  | one {s : CharSet} {c : Char} : s.contains c = true → Takes (.one s) [c]

/-- The pieces take a text, part by part. -/
inductive Matches : List Piece → Text → Prop
  | nil : Matches [] []
  | cons {q : Piece} {ps : List Piece} {u t : Text} :
    Takes q u → Matches ps t → Matches (q :: ps) (u ++ t)

variable {q : Piece} {ps qs : List Piece} {s : CharSet} {c : Char} {t u v : Text}
  {row : List Bool} {P : Text → Prop} {n : Nat}

theorem takes_one_iff : Takes (.one s) u ↔ ∃ c, u = [c] ∧ s.contains c = true := by
  constructor
  · rintro ⟨⟩
    exact ⟨_, rfl, ‹_›⟩
  · rintro ⟨c, rfl, hc⟩
    exact .one hc

theorem matches_cons_iff :
    Matches (q :: ps) t ↔ ∃ u v, t = u ++ v ∧ Takes q u ∧ Matches ps v := by
  constructor
  · rintro (_ | ⟨hu, hv⟩)
    exact ⟨_, _, rfl, hu, hv⟩
  · rintro ⟨u, v, rfl, hu, hv⟩
    exact .cons hu hv

theorem Matches.append (h : Matches ps u) (h' : Matches qs v) : Matches (ps ++ qs) (u ++ v) := by
  induction h with
  | nil => exact h'
  | cons hu _ ih =>
    rw [List.append_assoc]
    exact .cons hu ih

/-! ### The row of a matcher -/

/-- The row says for each place of the text, its end included, whether `P` holds from there on. -/
def Marks (P : Text → Prop) : Text → List Bool → Prop
  | [], row => ∃ b, row = [b] ∧ (b = true ↔ P [])
  | c :: t, row => ∃ b bs, row = b :: bs ∧ (b = true ↔ P (c :: t)) ∧ Marks P t bs

theorem Marks.head (h : Marks P t row) : ∃ b bs, row = b :: bs ∧ (b = true ↔ P t) := by
  cases t with
  | nil =>
    obtain ⟨b, rfl, hb⟩ := h
    exact ⟨b, [], rfl, hb⟩
  | cons c t =>
    obtain ⟨b, bs, rfl, hb, -⟩ := h
    exact ⟨b, bs, rfl, hb⟩

theorem Marks.any_iff (h : Marks P t row) : row.any id = true ↔ ∃ u v, t = u ++ v ∧ P v := by
  induction t generalizing row with
  | nil =>
    obtain ⟨b, rfl, hb⟩ := h
    simp [hb]
  | cons c t ih =>
    obtain ⟨b, bs, rfl, hb, hbs⟩ := h
    rw [List.any_cons, Bool.or_eq_true, id, hb, ih hbs]
    constructor
    · rintro (hP | ⟨u, v, rfl, hP⟩)
      · exact ⟨[], _, rfl, hP⟩
      · exact ⟨c :: u, v, rfl, hP⟩
    · rintro ⟨u, v, huv, hP⟩
      cases u with
      | nil => exact .inl (huv ▸ hP)
      | cons d u => exact .inr ⟨u, v, (List.cons.inj huv).2, hP⟩

theorem marks_end (t : Text) : Marks (Matches []) t (t.map (fun _ => false) ++ [true]) := by
  induction t with
  | nil => exact ⟨true, rfl, by simp [Matches.nil]⟩
  | cons c t ih =>
    refine ⟨false, _, rfl, ?_, ih⟩
    simp only [Bool.false_eq_true, false_iff]
    intro hnil
    cases hnil

theorem Marks.takeOne (h : Marks (Matches ps) t row) :
    Marks (Matches (.one s :: ps)) t (takeOne s t row) := by
  induction t generalizing row with
  | nil =>
    refine ⟨false, rfl, ?_⟩
    simp [matches_cons_iff, takes_one_iff]
  | cons c t ih =>
    obtain ⟨b, bs, rfl, -, hbs⟩ := h
    obtain ⟨b', bs', rfl, hb'⟩ := hbs.head
    refine ⟨s.contains c && b', _, rfl, ?_, ih hbs⟩
    rw [Bool.and_eq_true, hb', matches_cons_iff]
    simp [takes_one_iff]

theorem Marks.takeAny (h : Marks (Matches ps) t row) :
    Marks (Matches (.star :: ps)) t (takeAny row) := by
  have hstar : ∀ t, Matches (.star :: ps) t ↔ ∃ u v, t = u ++ v ∧ Matches ps v := by
    simp [matches_cons_iff, Takes.star]
  induction t generalizing row with
  | nil =>
    obtain ⟨b, rfl, hb⟩ := h
    refine ⟨b || false, rfl, ?_⟩
    simp [hb, hstar]
  | cons c t ih =>
    have hany := h.any_iff
    obtain ⟨b, bs, rfl, -, hbs⟩ := h
    exact ⟨_, _, rfl, by rw [hstar, ← hany]; rfl, ih hbs⟩

theorem marks_matchRow (t : Text) (ps : List Piece) : Marks (Matches ps) t (matchRow t ps) := by
  induction ps with
  | nil => exact marks_end t
  | cons q ps ih =>
    cases q with
    | star => exact ih.takeAny
    | one s => exact ih.takeOne

theorem isMatch_iff {pattern : Text} : isMatch pattern t = true ↔ Matches (pieces pattern) t := by
  obtain ⟨b, bs, hrow, hb⟩ := (marks_matchRow t (pieces pattern)).head
  rw [isMatch, hrow, ← hb]
  rfl

/-! ### How many slashes the pieces take -/

/-- The piece takes a slash and nothing else, or no slash. -/
def Steady : Piece → Prop
  | .star => False
  | .one s => s.contains '/' = true → ∀ c, s.contains c = true → c = '/'

def takesSlash : Piece → Bool
  | .star => false
  | .one s => s.contains '/'

theorem Takes.count_eq (h : Takes q u) (hq : Steady q) :
    u.count '/' = if takesSlash q then 1 else 0 := by
  cases h with
  | star => exact hq.elim
  | @one s c hc =>
    cases hslash : s.contains '/' with
    | true => simp [takesSlash, hslash, hq hslash c hc]
    | false =>
      have hne : c ≠ '/' := fun h => by simp [h ▸ hc] at hslash
      simp [takesSlash, hslash, hne]

theorem Matches.count_eq (h : Matches ps t) (hps : ∀ q ∈ ps, Steady q) :
    t.count '/' = ps.countP takesSlash := by
  induction h with
  | nil => rfl
  | cons hu _ ih =>
    obtain ⟨hq, hps⟩ := List.forall_mem_cons.1 hps
    rw [List.count_append, hu.count_eq hq, ih hps, List.countP_cons, Nat.add_comm]

theorem Matches.exists_takes (h : Matches ps t) (hq : q ∈ ps) : ∃ u, Takes q u := by
  induction h with
  | nil => cases hq
  | @cons q' ps u t hu _ ih =>
    rcases List.mem_cons.1 hq with rfl | hq
    · exact ⟨u, hu⟩
    · exact ih hq

theorem exists_matches (h : ∀ q ∈ ps, ∃ u, Takes q u) : ∃ t, Matches ps t := by
  induction ps with
  | nil => exact ⟨[], .nil⟩
  | cons q ps ih =>
    obtain ⟨⟨u, hu⟩, hps⟩ := List.forall_mem_cons.1 h
    obtain ⟨t, ht⟩ := ih hps
    exact ⟨u ++ t, .cons hu ht⟩

theorem exists_takes_of_not_steady (h : ¬Steady q) :
    ∃ u v, Takes q u ∧ Takes q v ∧ u.count '/' ≠ v.count '/' := by
  cases q with
  | star => exact ⟨[], ['/'], .star _, .star _, by decide⟩
  | one s =>
    obtain ⟨hslash, c, hc, hne⟩ : s.contains '/' = true ∧ ∃ c, s.contains c = true ∧ c ≠ '/' := by
      simpa [Steady] using h
    exact ⟨['/'], [c], .one hslash, .one hc, by simp [hne]⟩

/-- All texts that the pieces take have `n` slashes exactly if there is no such text, or each piece
takes a fixed number of slashes and these add up to `n`. -/
theorem forall_matches_count_iff : (∀ t, Matches ps t → t.count '/' = n) ↔
    (∃ q ∈ ps, ∀ u, ¬Takes q u) ∨ (∀ q ∈ ps, Steady q) ∧ ps.countP takesSlash = n := by
  constructor
  · intro h
    by_cases hvacant : ∃ q ∈ ps, ∀ u, ¬Takes q u
    · exact .inl hvacant
    have htakes : ∀ q ∈ ps, ∃ u, Takes q u := by simpa using hvacant
    have hsteady : ∀ q ∈ ps, Steady q := by
      intro q hq
      by_contra hne
      obtain ⟨u, v, hu, hv, hcount⟩ := exists_takes_of_not_steady hne
      obtain ⟨before, after, rfl⟩ := List.append_of_mem hq
      obtain ⟨a, ha⟩ := exists_matches fun q hq => htakes q (List.mem_append_left _ hq)
      obtain ⟨b, hb⟩ := exists_matches fun q hq =>
        htakes q (List.mem_append_right _ (List.mem_cons_of_mem _ hq))
      have hcountu := h _ (ha.append (.cons hu hb))
      have hcountv := h _ (ha.append (.cons hv hb))
      simp only [List.count_append] at hcountu hcountv
      omega
    obtain ⟨t, ht⟩ := exists_matches htakes
    exact .inr ⟨hsteady, ht.count_eq hsteady ▸ h t ht⟩
  · rintro (⟨q, hq, hvacant⟩ | ⟨hsteady, rfl⟩) t ht
    · obtain ⟨u, hu⟩ := ht.exists_takes hq
      exact absurd hu (hvacant u)
    · exact ht.count_eq hsteady

/-! ### Patterns without brackets -/

/-- What a character other than an opening bracket stands for. -/
def plain (c : Char) : Piece :=
  if c = '*' then .star else if c = '?' then .one .all else .one (.singleton c)

theorem pieces_eq_map {pattern : Text} (h : '[' ∉ pattern) :
    pieces pattern = pattern.map plain := by
  have hfuel : ∀ fuel, pattern.length ≤ fuel →
      piecesAtMost fuel pattern = pattern.map plain := by
    induction pattern with
    | nil =>
      rintro (_ | fuel) - <;> rfl
    | cons c r ih =>
      rintro (_ | fuel) hlen
      · cases hlen
      obtain ⟨hc, hr⟩ : '[' ≠ c ∧ '[' ∉ r := by simpa using h
      have hrest := ih hr fuel (Nat.le_of_succ_le_succ hlen)
      simp only [piecesAtMost, hrest, List.map_cons, plain, if_neg hc.symm]
      split_ifs <;> rfl
  exact hfuel _ (Nat.le_refl _)

theorem contains_all (c : Char) : CharSet.all.contains c = true := rfl

theorem contains_singleton_iff {d : Char} : (CharSet.singleton c).contains d = true ↔ d = c := by
  have hrange : (CharSet.singleton c).contains d = (decide (c ≤ d) && decide (d ≤ c)) := by
    simp [CharSet.contains, CharSet.singleton]
  rw [hrange, Bool.and_eq_true, decide_eq_true_iff, decide_eq_true_iff]
  exact ⟨fun h => Char.le_antisymm h.2 h.1, fun h => h ▸ ⟨Char.le_refl _, Char.le_refl _⟩⟩

theorem exists_takes_plain (c : Char) : ∃ u, Takes (plain c) u := by
  unfold plain
  split_ifs
  · exact ⟨[], .star []⟩
  · exact ⟨['/'], .one (contains_all '/')⟩
  · exact ⟨[c], .one (contains_singleton_iff.2 rfl)⟩

theorem steady_plain_iff : Steady (plain c) ↔ c ≠ '*' ∧ c ≠ '?' := by
  unfold plain
  split_ifs with hstar hany
  · simp [Steady, hstar]
  · have hnot : ¬Steady (.one .all) := fun h => absurd (h rfl 'a' rfl) (by decide)
    simp [hnot, hany]
  · have hsteady : Steady (.one (.singleton c)) := by
      intro hslash d hd
      rw [contains_singleton_iff.1 hd, contains_singleton_iff.1 hslash]
    simp [hsteady, hstar, hany]

theorem takesSlash_plain (hc : c ≠ '?') : takesSlash (plain c) = (c == '/') := by
  unfold plain
  split_ifs with hstar
  · simp [takesSlash, hstar]
  · rw [takesSlash, Bool.eq_iff_iff, contains_singleton_iff, beq_iff_eq, eq_comm]

theorem Takes.count_plain_le (h : Takes (plain c) u) : [c].count '/' ≤ u.count '/' := by
  by_cases hc : c = '/'
  · subst hc
    obtain ⟨d, rfl, hd⟩ := takes_one_iff.1 h
    simp [contains_singleton_iff.1 hd]
  · simp [hc]

theorem Matches.count_map_plain_le {pattern : Text} (h : Matches (pattern.map plain) t) :
    pattern.count '/' ≤ t.count '/' := by
  induction pattern generalizing t with
  | nil => exact Nat.zero_le _
  | cons c r ih =>
    obtain ⟨u, v, rfl, hu, hv⟩ := matches_cons_iff.1 h
    have hhead := hu.count_plain_le
    have hrest := ih hv
    rw [← List.singleton_append, List.count_append, List.count_append]
    omega

/-- Without brackets, nothing but stars and question marks can take another number of slashes. -/
theorem forall_matches_count_iff_of_plain {pattern : Text} (h : '[' ∉ pattern) :
    (∀ t, Matches (pieces pattern) t → t.count '/' = pattern.count '/') ↔
      '*' ∉ pattern ∧ '?' ∉ pattern := by
  have hvacant : ¬∃ q ∈ pattern.map plain, ∀ u, ¬Takes q u := by
    rintro ⟨q, hq, hno⟩
    obtain ⟨c, -, rfl⟩ := List.mem_map.1 hq
    obtain ⟨u, hu⟩ := exists_takes_plain c
    exact hno u hu
  rw [pieces_eq_map h, forall_matches_count_iff, or_iff_right hvacant, List.forall_mem_map]
  simp only [steady_plain_iff]
  constructor
  · rintro ⟨hsteady, -⟩
    exact ⟨fun hm => (hsteady _ hm).1 rfl, fun hm => (hsteady _ hm).2 rfl⟩
  · rintro ⟨hstar, hany⟩
    refine ⟨fun c hc => ⟨fun h => hstar (h ▸ hc), fun h => hany (h ▸ hc)⟩, ?_⟩
    rw [List.countP_map, List.count]
    exact List.countP_congr fun c hc => by
      rw [Function.comp_apply, takesSlash_plain fun h => hany (h ▸ hc)]

end Glob

/-! ### Anchored rules -/

namespace IgnoreRule

/-- The number of components of a path, or of a pattern. -/
def components (path : Text) : Nat := (splitAtChar '/' path).length

theorem components_eq (path : Text) : components path = path.count '/' + 1 := by
  induction path with
  | nil => rfl
  | cons c r ih =>
    rw [components] at ih
    rw [components, splitAtChar]
    by_cases hc : c = '/'
    · simp [hc, ih]
    · rw [if_neg hc, List.count_cons_of_ne hc]
      cases hr : splitAtChar '/' r with
      | nil => simp [hr] at ih
      | cons part parts => simpa [hr] using ih

/-- Every path that the rule matches has as many components as the rule's pattern. -/
def Pinned (r : IgnoreRule) : Prop :=
  ∀ path isDirectory, r.isMatch path isDirectory = true → components path = components r.pattern

variable {r : IgnoreRule}

theorem pinned_iff_forall_matches (h : r.anchored = true) : r.Pinned ↔
    ∀ t, Glob.Matches (Glob.pieces r.pattern) t → t.count '/' = r.pattern.count '/' := by
  simp only [Pinned, isMatch, h, if_true, Bool.and_eq_true, Glob.isMatch_iff, components_eq,
    Nat.add_right_cancel_iff]
  exact ⟨fun hp t ht => hp t true ⟨by simp, ht⟩, fun hp t _ ht => hp t ht.2⟩

/-- An anchored rule is held to the depth of its pattern exactly if it matches nothing, or each
piece of the pattern takes a fixed number of slashes and these are the slashes of the pattern. For a
pattern without brackets this means that it has no star and no question mark; it may then match
deeper paths, but never paths that are less deep. -/
theorem pinned_iff (h : r.anchored = true) :
    (r.Pinned ↔ (∃ q ∈ Glob.pieces r.pattern, ∀ u, ¬Glob.Takes q u) ∨
      (∀ q ∈ Glob.pieces r.pattern, Glob.Steady q) ∧
        (Glob.pieces r.pattern).countP Glob.takesSlash = r.pattern.count '/') ∧
      ('[' ∉ r.pattern → (r.Pinned ↔ '*' ∉ r.pattern ∧ '?' ∉ r.pattern) ∧
        ∀ path isDirectory, r.isMatch path isDirectory = true →
          components r.pattern ≤ components path) := by
  rw [pinned_iff_forall_matches h]
  refine ⟨Glob.forall_matches_count_iff, fun hbracket =>
    ⟨Glob.forall_matches_count_iff_of_plain hbracket, fun path isDirectory hmatch => ?_⟩⟩
  rw [isMatch, Bool.and_eq_true, if_pos h, Glob.isMatch_iff, Glob.pieces_eq_map hbracket] at hmatch
  rw [components_eq, components_eq]
  exact Nat.succ_le_succ hmatch.2.count_map_plain_le

/-- A rule with a star matches documents below the directory that it names, but none above it. -/
theorem pinned_iff_sample :
    let starred : IgnoreRule := ⟨"docs/*.md".toList, false, false, true⟩
    let literal : IgnoreRule := ⟨"docs/a.md".toList, false, false, true⟩
    starred.anchored = true ∧ ¬starred.Pinned ∧
      (∀ path isDirectory, starred.isMatch path isDirectory = true → 2 ≤ components path) ∧
        literal.Pinned := by
  intro starred literal
  have hstarred := (pinned_iff (r := starred) rfl).2 (by decide)
  have hliteral := (pinned_iff (r := literal) rfl).2 (by decide)
  exact ⟨rfl, fun hp => (hstarred.1.1 hp).1 (by decide), hstarred.2, hliteral.1.2 (by decide)⟩

/-- The rule for the documents at the root matches documents below it. -/
theorem isMatch_below_root :
    ∃ r, ofLine? "/*.md".toList = some r ∧ r.anchored = true ∧
      occursIn "**".toList r.pattern = false ∧ r.isMatch "docs/a.md".toList false = true ∧
        components "docs/a.md".toList ≠ components r.pattern :=
  ⟨⟨"*.md".toList, false, false, true⟩, by decide, rfl, by decide, by decide,
    by decide⟩

end IgnoreRule

end MarkTidy
