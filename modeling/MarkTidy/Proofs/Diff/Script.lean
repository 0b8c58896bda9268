import Mathlib.Data.List.Infix
import MarkTidy.Diff.Edit

/-!
What the comparison of two texts comes to. A block is a stretch of lines that both texts have, whatever
lines were let start one, and so the script of their comparison gives both texts back.
-/

namespace MarkTidy.Edit

variable {old new u v ys c c' : List Text} {rs : List Nat} {i r : Nat} {x y : Text}

/-! ### Blocks -/

namespace Block

variable {b best : Block}

/-- A stretch of lines that both texts have at the places that the block says. -/
def IsShared (old new : List Text) (b : Block) : Prop :=
  ∃ a s c a' c', old = a ++ s ++ c ∧ new = a' ++ s ++ c' ∧
    a.length = b.old ∧ a'.length = b.new ∧ s.length = b.size

/-- Two lists end in the same `r` lines. -/
def SharedEnd (u v : List Text) (r : Nat) : Prop := ∃ s, s.length = r ∧ s <:+ u ∧ s <:+ v

theorem sharedEnd_zero (u v : List Text) : SharedEnd u v 0 :=
  ⟨[], rfl, List.nil_suffix, List.nil_suffix⟩

theorem SharedEnd.concat (h : SharedEnd u v r) (x : Text) :
    SharedEnd (u ++ [x]) (v ++ [x]) (r + 1) := by
  obtain ⟨s, rfl, ⟨a, rfl⟩, ⟨a', rfl⟩⟩ := h
  exact ⟨s ++ [x], by simp, ⟨a, by simp⟩, ⟨a', by simp⟩⟩

/-- For each line to come after `v`, how many equal lines end there and at the end of `u`. -/
inductive RunsEnd (u : List Text) : List Text → List Text → List Nat → Prop where
  | nil (v : List Text) : RunsEnd u v [] []
  | cons {v ys : List Text} {y : Text} {r : Nat} {rs : List Nat} (h : SharedEnd u (v ++ [y]) r)
      (rest : RunsEnd u (v ++ [y]) ys rs) : RunsEnd u v (y :: ys) (r :: rs)

theorem runsEnd_zero (u v ys : List Text) : RunsEnd u v ys (ys.map fun _ => 0) := by
  induction ys generalizing v with
  | nil => exact .nil v
  | cons y ys ih => exact .cons (sharedEnd_zero u _) (ih _)

/-- A further line makes the runs before its equals longer and ends all others. -/
theorem RunsEnd.zipWith (h : RunsEnd u v ys rs) (hr : SharedEnd u v r) (x : Text) :
    RunsEnd (u ++ [x]) v ys
      (List.zipWith (fun y run => if y = x then run + 1 else 0) ys (r :: rs)) := by
  induction h generalizing r with
  | nil => exact .nil _
  | @cons v ys y r' rs hr' _ ih =>
    rw [List.zipWith_cons_cons]
    refine .cons ?_ (ih hr')
    split_ifs with hxy
    · exact hxy ▸ hr.concat y
    · exact sharedEnd_zero _ _

theorem IsShared.improve (hbest : IsShared old new best) (h : SharedEnd u v r)
    (hold : old = u ++ c) (hnew : new = v ++ c') :
    IsShared old new (best.improve (u.length - 1) (v.length - 1) r) := by
  rw [Block.improve]
  split_ifs with hlt
  · obtain ⟨s, rfl, ⟨a, rfl⟩, ⟨a', rfl⟩⟩ := h
    refine ⟨a, s, c, a', c', hold, hnew, ?_, ?_, rfl⟩ <;> simp only [List.length_append] <;> omega
  · exact hbest

theorem IsShared.improveAll (hbest : IsShared old new best) (h : RunsEnd u v ys rs)
    (hold : old = u ++ c) (hnew : new = v ++ ys) :
    IsShared old new (best.improveAll (u.length - 1) v.length rs) := by
  induction h generalizing best with
  | nil => exact hbest
  | @cons v ys y r rs hr _ ih =>
    have hnew' : new = v ++ [y] ++ ys := by simpa using hnew
    have hnext := hbest.improve hr hold hnew'
    have hrest := ih hnext hnew'
    simpa [Block.improveAll] using hrest

theorem isShared_sweep {usable : Text → Bool} {before : List Nat} {xs : List Text}
    (hbest : IsShared old new best) (h : RunsEnd u [] new before) (hold : old = u ++ xs) :
    IsShared old new (sweep usable new best before u.length xs) := by
  induction xs generalizing u best before with
  | nil => exact hbest
  | cons x xs ih =>
    have hruns : RunsEnd (u ++ [x]) [] new
        (if usable x then runsAt x new before else new.map fun _ => 0) := by
      split_ifs
      · exact h.zipWith (sharedEnd_zero _ _) x
      · exact runsEnd_zero _ _ _
    have hold' : old = u ++ [x] ++ xs := by simpa using hold
    have hnext := hbest.improveAll hruns hold' rfl
    have hrest := ih hnext hruns hold'
    simpa [sweep] using hrest

theorem exists_sharedLength (xs ys : List Text) : ∃ s xs' ys',
    xs = s ++ xs' ∧ ys = s ++ ys' ∧ s.length = sharedLength xs ys := by
  induction xs generalizing ys with
  | nil => exact ⟨[], [], ys, rfl, rfl, by simp [sharedLength]⟩
  | cons x xs ih =>
    cases ys with
    | nil => exact ⟨[], x :: xs, [], rfl, rfl, by simp [sharedLength]⟩
    | cons y ys =>
      rw [sharedLength]
      split_ifs with hxy
      · obtain ⟨s, xs', ys', hxs, hys, hs⟩ := ih ys
        exact ⟨x :: s, xs', ys', by rw [hxs, List.cons_append], by rw [hys, hxy, List.cons_append],
          by rw [List.length_cons, hs]⟩
      · exact ⟨[], x :: xs, y :: ys, rfl, rfl, rfl⟩

theorem take_of_length {a s c : List Text} (ha : a.length = i) : (a ++ s ++ c).take i = a := by
  rw [← ha, List.append_assoc, List.take_left]

theorem take_drop_of_length {a s c : List Text} (ha : a.length = i) (hs : s.length = r) :
    ((a ++ s ++ c).drop i).take r = s := by
  rw [← ha, ← hs, List.append_assoc, List.drop_left, List.take_left]

theorem drop_of_length {a s c : List Text} (ha : a.length = i) (hs : s.length = r) :
    (a ++ s ++ c).drop (i + r) = c := by
  rw [← ha, ← hs, ← List.length_append, List.drop_left]

theorem isShared_longest (usable : Text → Bool) (old new : List Text) :
    IsShared old new (longest usable old new) := by
  have hstart : IsShared old new ⟨0, 0, 0⟩ := ⟨[], [], old, [], new, rfl, rfl, rfl, rfl, rfl⟩
  have hsweep : IsShared old new (sweep usable new ⟨0, 0, 0⟩ _ [].length old) :=
    isShared_sweep hstart (runsEnd_zero [] [] new) rfl
  rw [longest]
  rw [List.length_nil] at hsweep
  generalize sweep usable new ⟨0, 0, 0⟩ _ _ old = b at hsweep ⊢
  obtain ⟨a, s, c, a', c', rfl, rfl, ha, ha', hs⟩ := hsweep
  rw [take_of_length ha, take_of_length ha', drop_of_length ha hs, drop_of_length ha' hs]
  obtain ⟨up, a₁, a₁', hup, hup', hlen⟩ := exists_sharedLength a.reverse a'.reverse
  obtain ⟨down, c₁, c₁', hdown, hdown', hlen'⟩ := exists_sharedLength c c'
  obtain rfl : a = a₁.reverse ++ up.reverse := by
    rw [← List.reverse_append, ← hup, List.reverse_reverse]
  obtain rfl : a' = a₁'.reverse ++ up.reverse := by
    rw [← List.reverse_append, ← hup', List.reverse_reverse]
  rw [← hlen, ← hlen']
  refine ⟨a₁.reverse, up.reverse ++ s ++ down, c₁, a₁'.reverse, c₁', ?_, ?_, ?_, ?_, ?_⟩
  · simp [hdown]
  · simp [hdown']
  · simp only [List.length_append, List.length_reverse] at ha ⊢
    omega
  · simp only [List.length_append, List.length_reverse] at ha' ⊢
    omega
  · simp [hs]
    omega

end Block

/-! ### Scripts -/

/-- A script that turns one list of lines into another: it replaces all lines, or keeps a stretch of
them and turns into each other what is before it and what is after it. -/
inductive Turns : List Text → List Text → List Edit → Prop where
  | change (xs ys : List Text) : Turns xs ys (xs.map remove ++ ys.map add)
  | around {a a' s c c' : List Text} {es es' : List Edit} (before : Turns a a' es) (hs : s ≠ [])
      (after : Turns c c' es') : Turns (a ++ s ++ c) (a' ++ s ++ c') (es ++ s.map keep ++ es')

theorem turns_compareAtMost (usable : Text → Bool) (fuel : Nat) (old new : List Text) :
    Turns old new (compareAtMost usable fuel old new) := by
  induction fuel generalizing old new with
  | zero => exact .change old new
  | succ fuel ih =>
    have hshared := Block.isShared_longest usable old new
    simp only [compareAtMost]
    generalize Block.longest usable old new = b at hshared ⊢
    split_ifs with hsize
    · exact .change old new
    · obtain ⟨a, s, c, a', c', rfl, rfl, ha, ha', hs⟩ := hshared
      rw [Block.take_of_length ha, Block.take_of_length ha', Block.take_drop_of_length ha hs,
        Block.drop_of_length ha hs, Block.drop_of_length ha' hs]
      refine .around (ih a a') ?_ (ih c c')
      rintro rfl
      exact hsize hs.symm

theorem turns_compare (old new : List Text) : Turns old new (compare old new) :=
  turns_compareAtMost _ _ _ _

namespace Turns

variable {es : List Edit}

theorem old_eq (h : Turns old new es) : es.filterMap old? = old := by
  induction h with
  | change xs ys => simp [List.filterMap_map, Function.comp_def, old?]
  | around _ _ _ ih ih' => simp [List.filterMap_map, Function.comp_def, old?, ih, ih']

theorem new_eq (h : Turns old new es) : es.filterMap new? = new := by
  induction h with
  | change xs ys => simp [List.filterMap_map, Function.comp_def, new?]
  | around _ _ _ ih ih' => simp [List.filterMap_map, Function.comp_def, new?, ih, ih']

end Turns

end MarkTidy.Edit
