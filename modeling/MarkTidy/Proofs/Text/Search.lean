import Mathlib.Data.List.Infix
import MarkTidy.Text.Search

/-!
Search as a relation. A pattern is found exactly if it is an infix, and the cut is made where the
pattern has not yet come up. Words that do not hold some character do not reach across it. An entry
is found by its name.
-/

namespace MarkTidy.Text

variable {pat t a b : Text}

theorem breakOn_eq_none_iff : breakOn pat t = none ↔ ¬pat <:+: t := by
  induction t with
  | nil =>
    rw [breakOn, List.infix_nil]
    split
    · next h => simpa using h
    · next h => simpa using h
  | cons c r ih =>
    rw [breakOn, List.infix_cons_iff, ← List.isPrefixOf_iff_prefix]
    split
    · next h => simp [h]
    · next h => simp [h, ih]

theorem lookup_cons {α : Type} (e : Text × α) (entries : List (Text × α)) (name : Text) :
    (e :: entries).lookup name = if name = e.1 then some e.2 else entries.lookup name := by
  obtain ⟨name', a⟩ := e
  rw [List.lookup_cons]
  by_cases h : name = name'
  · rw [if_pos h, beq_iff_eq.2 h]
  · rw [if_neg h, beq_eq_false_iff_ne.2 h]

theorem occursIn_iff : occursIn pat t = true ↔ pat <:+: t := by
  rw [occursIn, Option.isSome_iff_ne_none, ne_eq, breakOn_eq_none_iff, not_not]

theorem occursIn_eq_false_iff : occursIn pat t = false ↔ ¬pat <:+: t := by
  rw [← occursIn_iff, Bool.not_eq_true]

theorem not_infix_dropLast (hp : pat ≠ []) : ¬pat <:+: pat.dropLast := by
  intro h
  have hlen := h.length_le
  have hpos := List.length_pos_of_ne_nil hp
  rw [List.length_dropLast] at hlen
  omega

theorem append_dropLast_isPrefix (a pat b : Text) : a ++ pat.dropLast <+: a ++ pat ++ b := by
  rw [List.append_assoc]
  exact (List.prefix_append_right_inj a).2
    ((List.dropLast_prefix pat).trans (List.prefix_append pat b))

/-- The cut is at the leftmost place: the pattern does not come up before its last character
there. -/
theorem breakOn_eq_some_iff (hp : pat ≠ []) :
    breakOn pat t = some (a, b) ↔ t = a ++ pat ++ b ∧ ¬pat <:+: a ++ pat.dropLast := by
  constructor
  · intro h
    refine ⟨eq_append_of_breakOn h, ?_⟩
    induction t generalizing a with
    | nil => simp [breakOn, hp] at h
    | cons c r ih =>
      have ht := eq_append_of_breakOn h
      rw [breakOn] at h
      split at h
      · next hpre =>
        obtain ⟨rfl, -⟩ := Prod.mk.inj (Option.some.inj h)
        exact not_infix_dropLast hp
      · next hpre =>
        obtain ⟨⟨a', b'⟩, hr, heq⟩ := Option.map_eq_some_iff.1 h
        obtain ⟨rfl, rfl⟩ := Prod.mk.inj heq
        rw [List.cons_append, List.infix_cons_iff, not_or]
        refine ⟨fun hinf => hpre (List.isPrefixOf_iff_prefix.2 (hinf.trans ?_)), ih hr⟩
        exact ht ▸ append_dropLast_isPrefix (c :: a') pat b'
  · rintro ⟨rfl, hno⟩
    induction a with
    | nil =>
      obtain ⟨c, r, rfl⟩ := List.exists_cons_of_ne_nil hp
      simp [breakOn]
    | cons c a ih =>
      -- A match at the very front would lie before the last character of the known place.
      have hpre : ¬pat.isPrefixOf (c :: (a ++ pat ++ b)) = true := by
        intro h
        refine hno (List.prefix_of_prefix_length_le (List.isPrefixOf_iff_prefix.1 h)
          (append_dropLast_isPrefix (c :: a) pat b) ?_).isInfix
        simp only [List.length_append, List.length_cons, List.length_dropLast]
        omega
      have hrest := ih fun h => hno (List.infix_cons h)
      rw [List.cons_append, List.cons_append, breakOn, if_neg hpre, hrest]
      rfl

/-- What comes after the pattern has no part in where the cut is made. -/
theorem breakOn_append (hp : pat ≠ []) (h : breakOn pat t = some (a, b)) (r : Text) :
    breakOn pat (a ++ pat ++ r) = some (a, r) :=
  (breakOn_eq_some_iff hp).2 ⟨rfl, ((breakOn_eq_some_iff hp).1 h).2⟩

theorem isPrefix_of_breakOn (h : breakOn pat t = some (a, b)) : a <+: t := by
  rw [eq_append_of_breakOn h, List.append_assoc]
  exact List.prefix_append _ _

end MarkTidy.Text
