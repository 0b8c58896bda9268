import MarkTidy.Document.Lint
import MarkTidy.Proofs.Document.Math
import MarkTidy.Proofs.Document.Spacing

/-!
Linting adds dollar signs and line feeds and no other words: what occurs in the reworked text, in
some order, occurred in the text in that order.
-/

namespace MarkTidy

open Text

variable {t e : Text} {ws : List Text} {ls : List Text}

/-- A word free of the characters that linting writes. -/
structure Plain (w : Text) : Prop where
  ne_nil : w ≠ []
  dollar : '$' ∉ w
  feed : '\n' ∉ w

namespace Math

theorem plain_delimiters (k : Kind) :
    ∀ w ∈ [k.delimiters.opening, k.delimiters.closing], Plain w := by
  cases k <;> exact List.forall_mem_cons.2 ⟨⟨nofun, by decide, by decide⟩,
    List.forall_mem_singleton.2 ⟨nofun, by decide, by decide⟩⟩

/-- Words without dollar signs are not made by rewriting, nor where its text meets another one. -/
theorem inOrder_of_rewriteKind_append (k : Kind) (hws : ∀ w ∈ ws, w ≠ [] ∧ '$' ∉ w)
    (h : InOrder ws (rewriteKind k t ++ e)) : InOrder ws (t ++ e) := by
  induction t using span_induction k generalizing ws with
  | plain t hspan => rwa [rewriteKind_of_not_hasSpan hspan] at h
  | span t before inside content after ho hc ih =>
    have split : ∀ {vs : List Text} {a b : Text}, (∀ w ∈ vs, w ≠ [] ∧ '$' ∉ w) →
        InOrder vs (a ++ (k.dollars ++ b)) →
        ∃ vs₁ vs₂, vs = vs₁ ++ vs₂ ∧ InOrder vs₁ a ∧ InOrder vs₂ b := fun hvs hab =>
      hab.split_append (fun w hw => (hvs w hw).1)
        (fun w hw c hc' => mem_dollars hc' ▸ (hvs w hw).2) k.dollars_ne_nil
    rw [rewriteKind_of_span ho hc] at h
    simp only [List.append_assoc] at h
    -- The dollar signs part the words: before the span, in its content, and after it.
    obtain ⟨ws₁, ws₂, rfl, h₁, h₂⟩ := split hws h
    have hws₂ : ∀ w ∈ ws₂, w ≠ [] ∧ '$' ∉ w := fun w hw => hws w (List.mem_append_right _ hw)
    obtain ⟨ws₂, ws₃, rfl, h₂, h₃⟩ := split hws₂ h₂
    have h₃ := ih (fun w hw => hws₂ w (List.mem_append_right _ hw)) h₃
    rw [eq_append_of_span ho hc]
    simp only [List.append_assoc]
    refine h₁.append (InOrder.append_left ?_ _)
    exact (h₂.of_infix (trim_isInfix content)).append (h₃.append_left _)

theorem inOrder_of_rewriteKind (k : Kind) (hws : ∀ w ∈ ws, Plain w)
    (h : InOrder ws (rewriteKind k t)) : InOrder ws t := by
  have hwords : ∀ w ∈ ws, w ≠ [] ∧ '$' ∉ w := fun w hw => ⟨(hws w hw).ne_nil, (hws w hw).dollar⟩
  rw [← List.append_nil t]
  rw [← List.append_nil (rewriteKind k t)] at h
  exact inOrder_of_rewriteKind_append k hwords h

end Math

namespace Layout

/-- Lines, each of them ended by a line feed. -/
def ended (ls : List Text) : Text := ls.flatMap (· ++ ['\n'])

theorem ended_cons (l : Text) (ls : List Text) : ended (l :: ls) = l ++ '\n' :: ended ls := by
  simp [ended]

theorem unlines_prefix_ended (ls : List Text) : unlines ls <+: ended ls := by
  induction ls with
  | nil => exact List.nil_prefix
  | cons l ls ih =>
    cases ls with
    | nil => exact ⟨['\n'], by simp [ended]⟩
    | cons l' ls =>
      rw [unlines_cons_cons, ended_cons]
      exact (List.prefix_append_right_inj l).2 ((List.prefix_cons_inj '\n').2 ih)

theorem inOrder_of_ended_spread (hws : ∀ w ∈ ws, Plain w) {above : Option LineKind} {gap : Nat}
    (h : InOrder ws (ended (spread above gap ls))) : InOrder ws (ended ls) := by
  induction ls generalizing above gap ws with
  | nil => exact h
  | cons l ls ih =>
    rw [ended_cons]
    cases hl : l.all isBlank with
    | true =>
      rw [spread_cons_of_blank hl] at h
      have := (ih hws h).append_left (l ++ ['\n'])
      rwa [List.append_assoc] at this
    | false =>
      have hfeed : ∀ w ∈ ws, '\n' ∉ w := fun w hw => (hws w hw).feed
      have hmargin : ∀ c ∈ ended (margin above (.ofLine l) gap), c = '\n' := by
        intro c hc
        obtain ⟨x, hx, hc⟩ := List.mem_flatMap.1 hc
        rw [List.eq_of_mem_replicate hx] at hc
        exact List.mem_singleton.1 hc
      rw [spread_cons_of_content hl, ended, List.flatMap_append, ← ended, ← ended, ended_cons] at h
      -- The margin is line feeds only, and one more line feed ends the line.
      have h := InOrder.of_append_left (fun w hw => (hws w hw).ne_nil)
        (fun w hw c hc => hmargin c hc ▸ hfeed w hw) h
      obtain ⟨ws₁, ws₂, rfl, h₁, h₂⟩ := h.split hfeed
      have h₂ := ih (fun w hw => hws w (List.mem_append_right _ hw)) h₂
      exact (h₁.of_infix (trimRight_isPrefix l).isInfix).append (h₂.append_left ['\n'])

theorem inOrder_of_ended_lines (hws : ∀ w ∈ ws, Plain w) (hls : Text.lines t = ls)
    (h : InOrder ws (ended ls)) : InOrder ws t := by
  induction ls generalizing t ws with
  | nil => exact absurd hls (lines_ne_nil t)
  | cons l ls ih =>
    rw [ended_cons] at h
    obtain ⟨ws₁, ws₂, rfl, h₁, h₂⟩ := h.split fun w hw => (hws w hw).feed
    have hws₂ : ∀ w ∈ ws₂, Plain w := fun w hw => hws w (List.mem_append_right _ hw)
    rcases lines_eq_cons hls with ⟨rfl, rfl⟩ | ⟨brk, r, -, rfl, hr⟩
    · obtain rfl : ws₂ = [] := h₂.eq_nil fun w hw => (hws₂ w hw).ne_nil
      simpa using h₁
    · exact (h₁.append_right brk).append (ih hws₂ hr h₂)

theorem inOrder_of_normalize (hws : ∀ w ∈ ws, Plain w) (h : InOrder ws (normalize t)) :
    InOrder ws t := by
  rw [normalize_eq_spread] at h
  have h := h.of_infix (trimLeft_suffix _).isInfix
  have h := h.of_infix (unlines_prefix_ended _).isInfix
  exact inOrder_of_ended_lines hws rfl (inOrder_of_ended_spread hws h)

theorem count_normalize_le (t : Text) : (normalize t).count '\\' ≤ t.count '\\' := by
  have hplain : Plain ['\\'] := ⟨by simp, by decide, by decide⟩
  have hwords : ∀ w ∈ List.replicate ((normalize t).count '\\') ['\\'], Plain w :=
    fun w hw => List.eq_of_mem_replicate hw ▸ hplain
  exact inOrder_replicate_iff.1
    (inOrder_of_normalize hwords (inOrder_replicate_iff.2 (Nat.le_refl _)))

end Layout

/-- Linting adds no words. -/
theorem Rules.inOrder_of_rework (r : Rules) (hws : ∀ w ∈ ws, Plain w)
    (h : InOrder ws (r.rework t)) : InOrder ws t := by
  have hmath : ∀ {vs : List Text}, (∀ w ∈ vs, Plain w) →
      InOrder vs (if r.math then Math.rewrite t else t) → InOrder vs t := by
    intro vs hvs hv
    cases hm : r.math with
    | true =>
      rw [hm, if_pos rfl, Math.rewrite] at hv
      exact Math.inOrder_of_rewriteKind .display hvs (Math.inOrder_of_rewriteKind .inline hvs hv)
    | false => simpa [hm] using hv
  rw [Rules.rework] at h
  cases hs : r.spacing with
  | true =>
    rw [hs, if_pos rfl] at h
    exact hmath hws (Layout.inOrder_of_normalize hws h)
  | false =>
    rw [hs] at h
    exact hmath hws h

end MarkTidy
