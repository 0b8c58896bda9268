import MarkTidy.Proofs.Document.Template

/-!
Every step of reworking acts on templates: trimming, finding a math delimiter, rewriting math,
cutting into lines, spacing the lines and joining them.
-/

namespace MarkTidy

open Text

variable {α : Type}

def Piece.isBlank : Piece α → Bool
  | .char c => Text.isBlank c
  | .slot _ => false

namespace Template

variable {σ : α → Text} {w : Template α} {t pat : Text}

/-! ### Trimming -/

theorem fill_eq_nil_iff (hσ : ∀ a, Solid (σ a)) : fill σ w = [] ↔ w = [] := by
  cases w with
  | nil => simp
  | cons p w => cases p <;> simp [(hσ _).ne_nil]

theorem parametric_trimRight : Parametric trimRight := by
  intro α w
  induction w with
  | nil => exact ⟨[], rfl, fun _ _ => rfl⟩
  | cons p w ih =>
    obtain ⟨w', hs, hf⟩ := ih
    cases p with
    | slot a =>
      refine ⟨.slot a :: w', congrArg (a :: ·) hs, fun σ hσ => ?_⟩
      rw [fill_slot, trimRight_append_of_not_blank (hσ a).not_blank, hf σ hσ, fill_slot]
    | char c =>
      by_cases h : w' = [] ∧ isBlank c = true
      · refine ⟨[], h.1 ▸ hs, fun σ hσ => ?_⟩
        simp only [fill_char, trimRight_cons, hf σ hσ, fill_eq_nil_iff hσ, if_pos h, fill_nil]
      · refine ⟨.char c :: w', hs, fun σ hσ => ?_⟩
        simp only [fill_char, trimRight_cons, hf σ hσ, fill_eq_nil_iff hσ, if_neg h]

theorem parametric_trimLeft : Parametric trimLeft := by
  intro α w
  induction w with
  | nil => exact ⟨[], rfl, fun _ _ => rfl⟩
  | cons p w ih =>
    obtain ⟨w', hs, hf⟩ := ih
    cases p with
    | slot a =>
      refine ⟨.slot a :: w, rfl, fun σ hσ => ?_⟩
      obtain ⟨c, r, hc, hinert⟩ := (hσ a).head
      rw [fill_slot, hc, List.cons_append, trimLeft_cons_of_not_blank hinert.not_blank]
    | char c =>
      cases hc : isBlank c with
      | true => exact ⟨w', hs, fun σ hσ => (trimLeft_cons_of_blank hc).trans (hf σ hσ)⟩
      | false => exact ⟨.char c :: w, rfl, fun σ hσ => trimLeft_cons_of_not_blank hc⟩

theorem parametric_trim : Parametric trim := parametric_trimRight.comp parametric_trimLeft

/-! ### Kinds -/

theorem all_blank_fill (hσ : ∀ a, Solid (σ a)) (w : Template α) :
    (fill σ w).all isBlank = w.all Piece.isBlank := by
  induction w with
  | nil => rfl
  | cons p w ih =>
    cases p with
    | char c => exact congrArg (isBlank c && ·) ih
    | slot a =>
      obtain ⟨c, r, hc, hinert⟩ := (hσ a).head
      simp [hc, hinert.not_blank, Piece.isBlank]

theorem slots_eq_nil_of_blank (h : w.all Piece.isBlank = true) : slots w = [] := by
  induction w with
  | nil => rfl
  | cons p w ih =>
    rw [List.all_cons, Bool.and_eq_true] at h
    cases p with
    | char c => exact ih h.2
    | slot a => exact Bool.noConfusion h.1

/-- The kind of a line does not depend on what fills its slots. -/
theorem exists_ofLine (w : Template α) :
    ∃ k, ∀ σ, (∀ a, Solid (σ a)) → LineKind.ofLine (fill σ w) = k := by
  rcases eq_ofText_or_slot w with ⟨t, rfl⟩ | ⟨t, a, v, rfl⟩
  · exact ⟨LineKind.ofLine t, fun σ _ => by rw [fill_ofText]⟩
  · refine ⟨if LineKind.opensHeading (trimLeft t) then .heading
      else if LineKind.opensListItem (trimLeft t) then .listItem else .other, fun σ hσ => ?_⟩
    obtain ⟨c, r, hc, hinert⟩ := (hσ a).head
    rw [fill_append, fill_ofText, fill_slot, hc, List.cons_append]
    exact LineKind.ofLine_append hinert t (r ++ fill σ v)

/-! ### Math -/

/-- A word of delimiting characters at the front of a filled template is in the template. -/
theorem eq_append_or_not_prefix (hpat : ∀ c ∈ pat, c ∈ delimiting) (w : Template α) :
    (∃ v, w = ofText pat ++ v) ∨ ∀ σ, (∀ a, Solid (σ a)) → ¬pat <+: fill σ w := by
  induction pat generalizing w with
  | nil => exact .inl ⟨w, rfl⟩
  | cons c pat ih =>
    obtain ⟨hc, hpat⟩ := List.forall_mem_cons.1 hpat
    rcases w with _ | ⟨d | a, w⟩
    · exact .inr fun σ _ h => by simp at h
    · by_cases hcd : c = d
      · rcases ih hpat w with ⟨v, rfl⟩ | h
        · exact .inl ⟨v, by rw [hcd]; rfl⟩
        · exact .inr fun σ hσ hpre => h σ hσ (List.cons_prefix_cons.1 hpre).2
      · exact .inr fun σ _ hpre => hcd (List.cons_prefix_cons.1 hpre).1
    · apply Or.inr
      intro σ hσ hpre
      obtain ⟨d, r, hd, -⟩ := (hσ a).head
      have hnot := (hσ a).not_delimiting d (hd ▸ List.mem_cons_self)
      rw [fill_slot, hd, List.cons_append] at hpre
      exact hnot ((List.cons_prefix_cons.1 hpre).1 ▸ hc)

/-- A delimiter is found at one place of the template, whatever fills its slots, or nowhere. -/
theorem exists_breakOn (hne : pat ≠ []) (hpat : ∀ c ∈ pat, c ∈ delimiting) (w : Template α) :
    (∀ σ, (∀ a, Solid (σ a)) → ¬pat <:+: fill σ w) ∨
      ∃ u v, w = u ++ ofText pat ++ v ∧
        ∀ σ, (∀ a, Solid (σ a)) → breakOn pat (fill σ w) = some (fill σ u, fill σ v) := by
  induction w with
  | nil => exact .inl fun σ _ h => hne (List.infix_nil.1 h)
  | cons p w ih =>
    -- At the front of the template the delimiter is there for all fillings or for none.
    rcases eq_append_or_not_prefix hpat (p :: w) with ⟨v, hv⟩ | hpre
    · refine .inr ⟨[], v, hv, fun σ _ => (breakOn_eq_some_iff hne).2 ⟨?_, not_infix_dropLast hne⟩⟩
      rw [hv, fill_append, fill_ofText, fill_nil, List.nil_append]
    cases p with
    | char c =>
      rcases ih with h | ⟨u, v, rfl, h⟩
      · apply Or.inl
        intro σ hσ hinf
        exact (List.infix_cons_iff.1 hinf).elim (hpre σ hσ) (h σ hσ)
      · refine .inr ⟨.char c :: u, v, rfl, fun σ hσ => ?_⟩
        have hfalse : ¬pat.isPrefixOf (c :: fill σ (u ++ ofText pat ++ v)) = true :=
          fun hp => hpre σ hσ (List.isPrefixOf_iff_prefix.1 hp)
        rw [fill_char, breakOn, if_neg hfalse, h σ hσ]
        rfl
    | slot a =>
      have hout : ∀ σ : α → Text, (∀ a, Solid (σ a)) → ∀ c ∈ σ a, c ∉ pat :=
        fun σ hσ c hc hcp => (hσ a).not_delimiting c hc (hpat c hcp)
      rcases ih with h | ⟨u, v, rfl, h⟩
      · apply Or.inl
        intro σ hσ hinf
        exact h σ hσ ((infix_append_left_iff hne (hout σ hσ) _).1 hinf)
      · refine .inr ⟨.slot a :: u, v, rfl, fun σ hσ => ?_⟩
        obtain ⟨heq, hno⟩ := (breakOn_eq_some_iff hne).1 (h σ hσ)
        refine (breakOn_eq_some_iff hne).2 ⟨by rw [fill_slot, heq]; simp, fun hinf => hno ?_⟩
        rw [fill_slot, List.append_assoc] at hinf
        exact (infix_append_left_iff hne (hout σ hσ) _).1 hinf

theorem opening_delimiting (k : Math.Kind) : ∀ c ∈ k.delimiters.opening, c ∈ delimiting := by
  cases k <;> exact List.all_iff_forall_prop.1 rfl

theorem closing_delimiting (k : Math.Kind) : ∀ c ∈ k.delimiters.closing, c ∈ delimiting := by
  cases k <;> exact List.all_iff_forall_prop.1 rfl

theorem parametric_rewriteKind (k : Math.Kind) : Parametric (Math.rewriteKind k) := by
  intro α w
  generalize hn : w.length = n
  -- Each span leaves a shorter template after it.
  induction n using Nat.strongRecOn generalizing w with
  | ind n ih =>
    rcases exists_breakOn k.opening_ne_nil (opening_delimiting k) w with h | ⟨u, v, rfl, hu⟩
    · refine ⟨w, rfl, fun σ hσ => Math.rewriteKind_of_not_hasSpan fun hspan => h σ hσ ?_⟩
      obtain ⟨a, b, hab, -⟩ := (inOrder_pair_iff k.opening_ne_nil).1 hspan
      exact ⟨a, b, (eq_append_of_breakOn hab).symm⟩
    rcases exists_breakOn k.closing_ne_nil (closing_delimiting k) v with h | ⟨x, y, rfl, hx⟩
    · refine ⟨_, rfl, fun σ hσ => Math.rewriteKind_of_not_hasSpan fun hspan => ?_⟩
      obtain ⟨a, b, hab, hb⟩ := (inOrder_pair_iff k.opening_ne_nil).1 hspan
      obtain ⟨-, rfl⟩ := Prod.mk.inj (Option.some.inj ((hu σ hσ).symm.trans hab))
      exact h σ hσ hb
    obtain ⟨x', hxs, hxf⟩ := parametric_trim α x
    have hlt : y.length < n := by
      have hpos := List.length_pos_of_ne_nil k.opening_ne_nil
      simp only [← hn, ofText, List.length_append, List.length_map]
      omega
    obtain ⟨y', hys, hyf⟩ := ih _ hlt y rfl
    refine ⟨u ++ (ofText k.dollars ++ x' ++ ofText k.dollars) ++ y', ?_, fun σ hσ => ?_⟩
    · simp [hxs, hys]
    · rw [Math.rewriteKind_of_span (hu σ hσ) (hx σ hσ), hxf σ hσ, hyf σ hσ]
      simp

theorem parametric_rewrite : Parametric Math.rewrite :=
  (parametric_rewriteKind .inline).comp (parametric_rewriteKind .display)

/-! ### Lines -/

theorem lines_append_of_not_blank {k l : Text} {ls : List Text}
    (hk : ∀ c ∈ k, isBlank c = false) (h : lines t = l :: ls) :
    lines (k ++ t) = (k ++ l) :: ls := by
  induction k with
  | nil => exact h
  | cons c k ih =>
    obtain ⟨hc, hk⟩ := List.forall_mem_cons.1 hk
    have hunbroken : Unbroken c (k ++ t) := by
      refine ⟨fun h => ?_, fun h => ?_⟩
      · rw [h] at hc
        exact Bool.noConfusion hc
      · rw [h.1, isBlank_return] at hc
        exact Bool.noConfusion hc
    obtain ⟨l', ls', hl', hcons⟩ := lines_cons hunbroken
    rw [ih hk] at hl'
    obtain ⟨rfl, rfl⟩ := List.cons.inj hl'
    exact hcons

theorem exists_feed_of_head? (hσ : ∀ a, Solid (σ a)) (h : (fill σ w).head? = some '\n') :
    ∃ v, w = .char '\n' :: v := by
  rcases w with _ | ⟨c | a, w⟩
  · simp at h
  · obtain rfl : c = '\n' := by simpa using h
    exact ⟨w, rfl⟩
  · obtain ⟨c, r, hc, hinert⟩ := (hσ a).head
    obtain rfl : c = '\n' := by simpa [hc] using h
    exact Bool.noConfusion hinert.not_blank

/-- Cutting into lines cuts the template. -/
theorem exists_lines (w : Template α) : ∃ (x : Template α) (xs : List (Template α)),
    slots x ++ xs.flatMap slots = slots w ∧
      ∀ σ, (∀ a, Solid (σ a)) → lines (fill σ w) = fill σ x :: xs.map (fill σ) := by
  induction w with
  | nil => exact ⟨[], [], rfl, fun σ _ => by rw [fill_nil, lines]; rfl⟩
  | cons p w ih =>
    obtain ⟨x, xs, hs, hf⟩ := ih
    cases p with
    | slot a =>
      refine ⟨.slot a :: x, xs, congrArg (a :: ·) hs, fun σ hσ => ?_⟩
      exact lines_append_of_not_blank (hσ a).not_blank (hf σ hσ)
    | char c =>
      by_cases hfeed : c = '\n'
      · refine ⟨[], x :: xs, hs, fun σ hσ => ?_⟩
        rw [fill_char, hfeed, lines_feed, hf σ hσ]
        rfl
      by_cases hret : c = '\r' ∧ ∃ v, w = .char '\n' :: v
      · obtain ⟨rfl, v, rfl⟩ := hret
        refine ⟨x, xs, hs, fun σ hσ => ?_⟩
        rw [fill_char, fill_char, lines_return_feed, ← lines_feed]
        exact hf σ hσ
      · refine ⟨.char c :: x, xs, hs, fun σ hσ => ?_⟩
        obtain ⟨l, ls, hl, hcons⟩ :=
          lines_cons ⟨hfeed, fun h => hret ⟨h.1, exists_feed_of_head? hσ h.2⟩⟩
        rw [hf σ hσ] at hl
        obtain ⟨rfl, rfl⟩ := List.cons.inj hl
        exact hcons

/-- Spacing the lines spaces the lines of the template. -/
theorem exists_spread (ws : List (Template α)) (above : Option LineKind) (gap : Nat) :
    ∃ vs : List (Template α), vs.flatMap slots = ws.flatMap slots ∧
      ∀ σ, (∀ a, Solid (σ a)) →
        Layout.spread above gap (ws.map (fill σ)) = vs.map (fill σ) := by
  induction ws generalizing above gap with
  | nil => exact ⟨[], rfl, fun _ _ => rfl⟩
  | cons w ws ih =>
    cases hw : w.all Piece.isBlank with
    | true =>
      obtain ⟨vs, hs, hf⟩ := ih above (gap + 1)
      refine ⟨vs, by simp [hs, slots_eq_nil_of_blank hw], fun σ hσ => ?_⟩
      rw [List.map_cons, Layout.spread_cons_of_blank (by rw [all_blank_fill hσ, hw]), hf σ hσ]
    | false =>
      obtain ⟨k, hk⟩ := exists_ofLine w
      obtain ⟨w', hw's, hw'⟩ := parametric_trimRight α w
      obtain ⟨vs, hs, hf⟩ := ih (some k) 0
      refine ⟨(Layout.margin above k gap).map ofText ++ w' :: vs, ?_, fun σ hσ => ?_⟩
      · simp [hs, hw's, Layout.margin]
      · rw [List.map_cons, Layout.spread_cons_of_content (by rw [all_blank_fill hσ, hw]), hk σ hσ,
          hw' σ hσ, hf σ hσ]
        simp [Layout.margin]

theorem exists_unlines (ws : List (Template α)) :
    ∃ w, slots w = ws.flatMap slots ∧ ∀ σ : α → Text, unlines (ws.map (fill σ)) = fill σ w := by
  induction ws with
  | nil => exact ⟨[], rfl, fun _ => rfl⟩
  | cons v ws ih =>
    obtain ⟨w, hs, hf⟩ := ih
    cases ws with
    | nil => exact ⟨v, by simp, fun σ => by simp⟩
    | cons v' ws =>
      refine ⟨v ++ .char '\n' :: w, by simp [slots, hs], fun σ => ?_⟩
      rw [fill_append, fill_char, ← hf σ]
      exact unlines_cons_cons _ _ _

theorem parametric_normalize : Parametric Layout.normalize := by
  intro α w
  obtain ⟨x, xs, hxs, hlines⟩ := exists_lines w
  obtain ⟨ys, hys, hspread⟩ := exists_spread (x :: xs) none 0
  obtain ⟨z, hzs, hunlines⟩ := exists_unlines ys
  obtain ⟨w', hw's, htrim⟩ := parametric_trimLeft α z
  refine ⟨w', ?_, fun σ hσ => ?_⟩
  · rw [hw's, hzs, hys, ← hxs, List.flatMap_cons]
  · rw [Layout.normalize_eq_spread, hlines σ hσ, ← List.map_cons, hspread σ hσ, hunlines,
      htrim σ hσ]

/-- Reworking acts on templates. -/
theorem parametric_rework (r : Rules) : Parametric r.rework := by
  have hrework : r.rework =
      (if r.spacing then Layout.normalize else id) ∘ (if r.math then Math.rewrite else id) := by
    funext t
    cases hm : r.math <;> cases hs : r.spacing <;> simp [Rules.rework, hm, hs]
  rw [hrework]
  apply Parametric.comp
  · split
    · exact parametric_normalize
    · exact parametric_id
  · split
    · exact parametric_rewrite
    · exact parametric_id

end Template

end MarkTidy
