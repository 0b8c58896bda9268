import MarkTidy.Proofs.Text.Lines
import MarkTidy.Proofs.Text.Search

/-!
Two ways to end a line. A text whose lines end in a bare line feed can be given a carriage return
before each of them. Words without either character are found at the same places, trimming leaves
the same, and the lines are the same.
-/

namespace MarkTidy.Text

variable {a b c : Char} {pat t u : Text} {p : Char → Bool}

/-- A character with a carriage return before it, if it is a line feed. -/
def returned (c : Char) : Text := if c = '\n' then ['\r', '\n'] else [c]

/-- The text with a carriage return before every line feed. -/
def addReturns (t : Text) : Text := t.flatMap returned

/-- The text without the carriage returns that stand before a line feed. -/
def dropReturns : Text → Text
  | [] => []
  | '\r' :: '\n' :: r => '\n' :: dropReturns r
  | c :: r => c :: dropReturns r

@[simp] theorem addReturns_nil : addReturns [] = [] := rfl

@[simp] theorem addReturns_feed (t : Text) :
    addReturns ('\n' :: t) = '\r' :: '\n' :: addReturns t := rfl

theorem addReturns_cons (h : c ≠ '\n') (t : Text) : addReturns (c :: t) = c :: addReturns t := by
  simp [addReturns, returned, h]

@[simp] theorem addReturns_append (t u : Text) :
    addReturns (t ++ u) = addReturns t ++ addReturns u := List.flatMap_append

theorem addReturns_of_not_mem (h : '\n' ∉ t) : addReturns t = t := by
  induction t with
  | nil => rfl
  | cons c t ih =>
    obtain ⟨hc, ht⟩ := List.ne_and_not_mem_of_not_mem_cons h
    rw [addReturns_cons (Ne.symm hc), ih ht]

theorem addReturns_eq_nil_iff : addReturns t = [] ↔ t = [] := by
  cases t with
  | nil => simp
  | cons c t => by_cases hc : c = '\n' <;> simp [hc, addReturns_cons]

/-! ### Returns that are dropped again -/

theorem dropReturns_cons (h : c ≠ '\r') (t : Text) : dropReturns (c :: t) = c :: dropReturns t := by
  rw [dropReturns]
  intro r hr
  exact absurd hr h

theorem unifyBreaks_of_not_mem (h : '\r' ∉ t) : unifyBreaks t = t := by
  induction t with
  | nil => rfl
  | cons c t ih =>
    obtain ⟨hc, ht⟩ := List.ne_and_not_mem_of_not_mem_cons h
    rw [unifyBreaks, if_neg (Ne.symm hc), ih ht]
    rintro r rfl
    exact absurd rfl hc

theorem dropReturns_addReturns_append (h : '\r' ∉ t) (u : Text) :
    dropReturns (addReturns t ++ u) = t ++ dropReturns u := by
  induction t with
  | nil => rfl
  | cons c t ih =>
    obtain ⟨hc, ht⟩ := List.ne_and_not_mem_of_not_mem_cons h
    by_cases hfeed : c = '\n'
    · rw [hfeed, addReturns_feed]
      exact congrArg ('\n' :: ·) (ih ht)
    · rw [addReturns_cons hfeed, List.cons_append, dropReturns_cons (Ne.symm hc), ih ht,
        List.cons_append]

/-! ### Search -/

/-- A word without line breaks is at the front of both texts, with the same text after it. -/
theorem isPrefixOf_addReturns (hr : '\r' ∉ pat) (hn : '\n' ∉ pat) (t : Text) :
    pat.isPrefixOf (addReturns t) = pat.isPrefixOf t ∧
      (pat.isPrefixOf t = true →
        (addReturns t).drop pat.length = addReturns (t.drop pat.length)) := by
  induction pat generalizing t with
  | nil => simp
  | cons x pat ih =>
    obtain ⟨hxr, hr⟩ := List.ne_and_not_mem_of_not_mem_cons hr
    obtain ⟨hxn, hn⟩ := List.ne_and_not_mem_of_not_mem_cons hn
    cases t with
    | nil => simp
    | cons c t =>
      by_cases hc : c = '\n'
      · have hret : (x == '\r') = false := beq_eq_false_iff_ne.2 (Ne.symm hxr)
        have hfeed : (x == '\n') = false := beq_eq_false_iff_ne.2 (Ne.symm hxn)
        simp [hc, List.isPrefixOf_cons_cons, hret, hfeed]
      · obtain ⟨hpre, hdrop⟩ := ih hr hn t
        rw [addReturns_cons hc, List.isPrefixOf_cons_cons, List.isPrefixOf_cons_cons, hpre]
        refine ⟨rfl, fun h => ?_⟩
        rw [Bool.and_eq_true] at h
        exact hdrop h.2

/-- A word without line breaks is found at the same place. -/
theorem breakOn_addReturns (hne : pat ≠ []) (hr : '\r' ∉ pat) (hn : '\n' ∉ pat) (t : Text) :
    breakOn pat (addReturns t) =
      (breakOn pat t).map fun p => (addReturns p.1, addReturns p.2) := by
  have hbreak : ∀ {c}, c ∉ pat → ∀ u, ¬pat.isPrefixOf (c :: u) = true := by
    intro c hc u h
    obtain ⟨x, xs, rfl⟩ := List.exists_cons_of_ne_nil hne
    obtain ⟨rfl, -⟩ := List.cons_prefix_cons.1 (List.isPrefixOf_iff_prefix.1 h)
    exact hc List.mem_cons_self
  induction t with
  | nil => simp [breakOn, hne]
  | cons c t ih =>
    by_cases hc : c = '\n'
    · rw [hc, addReturns_feed, breakOn, if_neg (hbreak hr _), breakOn, if_neg (hbreak hn _), breakOn,
        if_neg (hbreak hn _), ih]
      cases breakOn pat t <;> rfl
    · obtain ⟨hpre, hdrop⟩ := isPrefixOf_addReturns hr hn (c :: t)
      rw [addReturns_cons hc] at hpre hdrop ⊢
      rw [breakOn, breakOn, hpre]
      split_ifs with h
      · rw [hdrop h]
        rfl
      · rw [ih]
        cases breakOn pat t with
        | none => rfl
        | some q => simp [addReturns_cons hc]

theorem infix_addReturns_iff (hne : pat ≠ []) (hr : '\r' ∉ pat) (hn : '\n' ∉ pat) :
    pat <:+: addReturns t ↔ pat <:+: t := by
  rw [← occursIn_iff, ← occursIn_iff, occursIn, occursIn, breakOn_addReturns hne hr hn,
    Option.isSome_map]

/-! ### Trimming -/

theorem dropWhile_addReturns (hp : p '\r' = p '\n') (t : Text) :
    (addReturns t).dropWhile p = addReturns (t.dropWhile p) := by
  induction t with
  | nil => rfl
  | cons c t ih =>
    by_cases hc : c = '\n'
    · rw [hc, addReturns_feed]
      cases h : p '\n' <;> simp [h, hp, ih]
    · rw [addReturns_cons hc]
      cases h : p c <;> simp [h, ih, addReturns_cons hc]

theorem takeWhile_addReturns (hp : p '\r' = p '\n') (t : Text) :
    (addReturns t).takeWhile p = addReturns (t.takeWhile p) := by
  induction t with
  | nil => rfl
  | cons c t ih =>
    by_cases hc : c = '\n'
    · rw [hc, addReturns_feed]
      cases h : p '\n' <;> simp [h, hp, ih]
    · rw [addReturns_cons hc]
      cases h : p c <;> simp [h, ih, addReturns_cons hc]

theorem trimRight_addReturns (t : Text) : trimRight (addReturns t) = addReturns (trimRight t) := by
  induction t with
  | nil => rfl
  | cons c t ih =>
    have hfeed : isBlank '\n' = true := rfl
    by_cases hc : c = '\n'
    · by_cases ht : trimRight t = []
      · simp [hc, trimRight_cons, ih, ht, hfeed, isBlank_return]
      · have ht' := addReturns_eq_nil_iff.not.2 ht
        simp [hc, trimRight_cons, ih, ht, ht']
    · rw [addReturns_cons hc, trimRight_cons, trimRight_cons, ih]
      simp only [addReturns_eq_nil_iff]
      split_ifs
      · rfl
      · rw [addReturns_cons hc]

theorem trim_addReturns (t : Text) : trim (addReturns t) = addReturns (trim t) := by
  have hleft : trimLeft (addReturns t) = addReturns (trimLeft t) := dropWhile_addReturns rfl t
  rw [trim, hleft, trimRight_addReturns, ← trim]

/-! ### Lines -/

theorem lines_addReturns (h : '\r' ∉ t) : lines (addReturns t) = lines t := by
  induction t with
  | nil => rfl
  | cons c t ih =>
    obtain ⟨hc, ht⟩ := List.ne_and_not_mem_of_not_mem_cons h
    by_cases hfeed : c = '\n'
    · rw [hfeed, addReturns_feed, lines_return_feed, lines_feed, ih ht]
    · have hunbroken : ∀ r, Unbroken c r := fun r => ⟨hfeed, fun h => hc h.1.symm⟩
      obtain ⟨l, ls, hl, hcons⟩ := lines_cons (hunbroken (addReturns t))
      obtain ⟨l', ls', hl', hcons'⟩ := lines_cons (hunbroken t)
      rw [ih ht, hl'] at hl
      obtain ⟨rfl, rfl⟩ := List.cons.inj hl
      rw [addReturns_cons hfeed, hcons, hcons']

end MarkTidy.Text
