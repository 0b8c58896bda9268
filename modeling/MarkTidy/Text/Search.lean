import MarkTidy.Text.Basic

/-!
Search for a fixed pattern. Everything here looks at the leftmost occurrence.
-/

namespace MarkTidy.Text

/-- The text before the first occurrence of `pat` and the text after it. -/
def breakOn (pat : Text) : Text → Option (Text × Text)
  | [] => if pat.isEmpty then some ([], []) else none
  | c :: r =>
    if pat.isPrefixOf (c :: r) then some ([], (c :: r).drop pat.length)
    else (breakOn pat r).map fun p => (c :: p.1, p.2)

def occursIn (pat t : Text) : Bool := (breakOn pat t).isSome

/-- The text with the first occurrence of `pat` replaced, if there is one. -/
def replaceFirst? (pat new t : Text) : Option Text :=
  (breakOn pat t).map fun p => p.1 ++ new ++ p.2

theorem eq_append_of_breakOn {pat t before after : Text}
    (h : breakOn pat t = some (before, after)) : t = before ++ pat ++ after := by
  induction t generalizing before with
  | nil =>
    simp only [breakOn, List.isEmpty_iff] at h
    split at h
    · next hp =>
      simp only [Option.some.injEq, Prod.mk.injEq] at h
      simp [hp, ← h.1, ← h.2]
    · cases h
  | cons c r ih =>
    simp only [breakOn] at h
    split at h
    · next hp =>
      obtain ⟨u, hu⟩ := List.isPrefixOf_iff_prefix.1 hp
      simp only [Option.some.injEq, Prod.mk.injEq] at h
      rw [← h.1, ← h.2, ← hu]
      simp
    · simp only [Option.map_eq_some_iff, Prod.mk.injEq] at h
      obtain ⟨⟨u, v⟩, hp, h₁, h₂⟩ := h
      subst h₁ h₂
      simpa using ih hp

theorem length_after_of_breakOn {pat t before after : Text}
    (h : breakOn pat t = some (before, after)) :
    t.length = before.length + pat.length + after.length := by
  rw [eq_append_of_breakOn h]
  simp [Nat.add_assoc]

end MarkTidy.Text
