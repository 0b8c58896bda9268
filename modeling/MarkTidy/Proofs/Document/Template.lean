import MarkTidy.Proofs.Document.Words

/-!
Templates: texts with labelled slots. Reworking a text does not look into what fills its slots, so
it acts on the template: whatever solid words fill the slots, the result is one and the same
template filled with them, and its slots come in the same order.
-/

namespace MarkTidy

open Text

/-- A character of a template, or a slot with its label. -/
inductive Piece (α : Type) where
  | char (c : Char)
  | slot (a : α)
deriving DecidableEq, Repr

abbrev Template (α : Type) := List (Piece α)

/-- Characters that math delimiters are made of. -/
def delimiting : List Char := ['\\', '[', ']', '(', ')']

/-- A word that no rule takes apart: it has no blanks and no delimiters, and in front nothing that a
marker is made of. -/
structure Solid (k : Text) : Prop where
  head : ∃ c r, k = c :: r ∧ LineKind.Inert c
  not_blank : ∀ c ∈ k, isBlank c = false
  not_delimiting : ∀ c ∈ k, c ∉ delimiting

theorem Solid.ne_nil {k : Text} (h : Solid k) : k ≠ [] := by
  obtain ⟨c, r, rfl, -⟩ := h.head
  exact List.cons_ne_nil c r

namespace Template

variable {α : Type} {σ : α → Text} {u v w : Template α} {a : α} {as : List α} {t : Text}

/-- The text of a template, with a word for each slot. -/
def fill (σ : α → Text) : Template α → Text
  | [] => []
  | .char c :: w => c :: fill σ w
  | .slot a :: w => σ a ++ fill σ w

/-- The labels of the slots, in order. -/
def slots : Template α → List α
  | [] => []
  | .char _ :: w => slots w
  | .slot a :: w => a :: slots w

/-- A text as a template without slots. -/
def ofText (t : Text) : Template α := t.map .char

@[simp] theorem fill_nil (σ : α → Text) : fill σ [] = [] := rfl

@[simp] theorem fill_char (σ : α → Text) (c : Char) (w : Template α) :
    fill σ (.char c :: w) = c :: fill σ w := rfl

@[simp] theorem fill_slot (σ : α → Text) (a : α) (w : Template α) :
    fill σ (.slot a :: w) = σ a ++ fill σ w := rfl

@[simp] theorem fill_append (σ : α → Text) (u v : Template α) :
    fill σ (u ++ v) = fill σ u ++ fill σ v := by
  induction u with
  | nil => rfl
  | cons p u ih => cases p <;> simp [ih]

@[simp] theorem slots_append (u v : Template α) : slots (u ++ v) = slots u ++ slots v := by
  induction u with
  | nil => rfl
  | cons p u ih => cases p <;> simp [slots, ih]

@[simp] theorem fill_ofText (σ : α → Text) (t : Text) : fill σ (ofText t) = t := by
  induction t with
  | nil => rfl
  | cons c t ih => exact congrArg (c :: ·) ih

@[simp] theorem slots_ofText (t : Text) : slots (ofText (α := α) t) = [] := by
  induction t with
  | nil => rfl
  | cons c t ih => exact ih

/-- A template starts with the text before its first slot. -/
theorem eq_ofText_or_slot (w : Template α) :
    (∃ t, w = ofText t) ∨ ∃ t a v, w = ofText t ++ .slot a :: v := by
  induction w with
  | nil => exact .inl ⟨[], rfl⟩
  | cons p w ih =>
    cases p with
    | slot a => exact .inr ⟨[], a, w, rfl⟩
    | char c =>
      rcases ih with ⟨t, rfl⟩ | ⟨t, a, v, rfl⟩
      · exact .inl ⟨c :: t, rfl⟩
      · exact .inr ⟨c :: t, a, v, rfl⟩

theorem eq_ofText_of_slots_eq_nil (h : slots w = []) : ∃ t, w = ofText t := by
  rcases eq_ofText_or_slot w with ht | ⟨t, a, v, rfl⟩
  · exact ht
  · simp [slots] at h

theorem exists_first_slot (h : slots w = a :: as) :
    ∃ t v, w = ofText t ++ .slot a :: v ∧ slots v = as := by
  rcases eq_ofText_or_slot w with ⟨t, rfl⟩ | ⟨t, b, v, rfl⟩
  · simp at h
  · have h : b :: slots v = a :: as := by simpa [slots] using h
    obtain ⟨rfl, hv⟩ := List.cons.inj h
    exact ⟨t, v, rfl, hv⟩

theorem fill_congr {τ : α → Text} (h : ∀ a ∈ slots w, σ a = τ a) : fill σ w = fill τ w := by
  induction w with
  | nil => rfl
  | cons p w ih =>
    cases p with
    | char c => exact congrArg (c :: ·) (ih h)
    | slot a =>
      obtain ⟨ha, hw⟩ := List.forall_mem_cons.1 h
      rw [fill_slot, fill_slot, ha, ih hw]

/-- A function on texts that acts on templates. -/
def Parametric (f : Text → Text) : Prop :=
  ∀ (α : Type) (w : Template α), ∃ w' : Template α, slots w' = slots w ∧
    ∀ σ : α → Text, (∀ a, Solid (σ a)) → f (fill σ w) = fill σ w'

theorem parametric_id : Parametric id := fun _ w => ⟨w, rfl, fun _ _ => rfl⟩

theorem Parametric.comp {f g : Text → Text} (hf : Parametric f) (hg : Parametric g) :
    Parametric (f ∘ g) := by
  intro α w
  obtain ⟨v, hv, hg⟩ := hg α w
  obtain ⟨u, hu, hf⟩ := hf α v
  exact ⟨u, hu.trans hv, fun σ hσ => (congrArg f (hg σ hσ)).trans (hf σ hσ)⟩

end Template

end MarkTidy
