import Mathlib.Data.List.Induction
import MarkTidy.Ignore.Rule

/-!
What a list of ignore rules decides. Only the last rule that matches a path counts.
-/

namespace MarkTidy.IgnoreRule

open Text

variable {rules : List IgnoreRule} {path : Text} {isDirectory : Bool}

/-- Some rules ignore a path if one matches it, and the last one that does is not negated. -/
def Ignored (rules : List IgnoreRule) (path : Text) (isDirectory : Bool) : Prop :=
  ∃ before r after, rules = before ++ r :: after ∧ r.isMatch path isDirectory = true ∧
    r.negated = false ∧ ∀ s ∈ after, s.isMatch path isDirectory = false

theorem ignores_concat (rules : List IgnoreRule) (r : IgnoreRule) (path : Text)
    (isDirectory : Bool) :
    ignores (rules ++ [r]) path isDirectory =
      if r.isMatch path isDirectory then !r.negated else ignores rules path isDirectory := by
  rw [ignores, List.foldl_append]
  rfl

theorem ignored_concat_iff {r : IgnoreRule} :
    Ignored (rules ++ [r]) path isDirectory ↔
      if r.isMatch path isDirectory then r.negated = false
      else Ignored rules path isDirectory := by
  constructor
  · rintro ⟨before, s, after, heq, hs, hneg, hafter⟩
    rcases List.eq_nil_or_concat after with rfl | ⟨init, last, rfl⟩
    · obtain ⟨-, hlast⟩ := List.append_inj' heq rfl
      obtain rfl : r = s := (List.cons.inj hlast).1
      rwa [if_pos hs]
    · rw [List.concat_eq_append] at heq hafter
      rw [← List.cons_append, ← List.append_assoc] at heq
      obtain ⟨rfl, hlast⟩ := List.append_inj' heq rfl
      obtain rfl : r = last := (List.cons.inj hlast).1
      rw [if_neg (by simp [hafter r (by simp)])]
      exact ⟨before, s, init, rfl, hs, hneg, fun u hu => hafter u (List.mem_append_left _ hu)⟩
  · intro h
    split_ifs at h with hr
    · exact ⟨rules, r, [], rfl, hr, h, nofun⟩
    · obtain ⟨before, s, after, rfl, hs, hneg, hafter⟩ := h
      refine ⟨before, s, after ++ [r], by simp, hs, hneg, fun u hu => ?_⟩
      rcases List.mem_append.1 hu with hu | hu
      · exact hafter u hu
      · rw [List.mem_singleton.1 hu]
        exact Bool.not_eq_true _ ▸ hr

theorem ignores_iff : ignores rules path isDirectory = true ↔ Ignored rules path isDirectory := by
  induction rules using List.reverseRecOn with
  | nil => simp [ignores, Ignored]
  | append_singleton rules r ih =>
    rw [ignores_concat, ignored_concat_iff, ← ih]
    split_ifs <;> simp

end MarkTidy.IgnoreRule
