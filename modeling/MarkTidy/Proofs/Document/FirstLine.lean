import MarkTidy.Proofs.Document.Boundary
import MarkTidy.Proofs.Document.Idempotence

/-!
The first line of a body. Math and fenced blocks change a text only from a dollar sign, a backslash
or a backquote on, so what is decided before these stays as it is; spacing brings the first line
with content to the top. Of the lines below, reworking may take away dashed ones, but it adds none.
-/

namespace MarkTidy

open Text Template Frontmatter

variable {P : Text → Prop} {bs p t : Text} {c : Char} {ls : List Text}

/-- The characters that math, fences and rewritten math start with. -/
def stops : List Char := ['$', '\\', '\x60']

theorem not_blank_of_mem_stops : ∀ c ∈ stops, isBlank c = false := List.all_iff_forall_prop.1 rfl

theorem not_dash_of_mem_stops : ∀ c ∈ stops, c ∉ dashes := List.all_iff_forall_prop.1 rfl

/-- A property of texts that is decided before the first of these characters. -/
def Early (P : Text → Prop) : Prop :=
  ∀ a r r' : Text, ∀ c ∈ stops, ∀ c' ∈ stops, P (a ++ c :: r) → P (a ++ c' :: r')

theorem not_mem_dashed (hc : c ∈ stops) (hbs : bs.all isBlank = true) :
    c ∉ dashes ++ (bs ++ ['\n']) := by
  have hblank := not_blank_of_mem_stops c hc
  have hmem : c ∉ bs := fun h => by simp [List.all_eq_true.1 hbs c h] at hblank
  have hne : c ≠ '\n' := by
    rintro rfl
    cases hblank
  simp [not_dash_of_mem_stops c hc, hmem, hne]

theorem early_eq (hp : ∀ c ∈ stops, c ∉ p) : Early (· = p) := by
  rintro a r r' c hc c' - rfl
  exact absurd (List.mem_append_right a List.mem_cons_self) (hp c hc)

theorem early_topped : Early Topped := by
  intro a r r' c hc c' hc' h
  rw [topped_append_cons (not_blank_of_mem_stops c hc)] at h
  exact (topped_append_cons (not_blank_of_mem_stops c' hc')).2 h

theorem early_opening : Early fun t => ∃ o, Opening o ∧ o <+: t := by
  rintro a r r' c hc c' hc' ⟨o, ho, hpre⟩
  obtain ⟨bs, rfl, hbs, -⟩ := ho.exists_eq
  have hmem : c ∉ dashes ++ bs ++ ['\n'] := by
    rw [List.append_assoc]
    exact not_mem_dashed hc hbs
  rw [isPrefix_append_cons hmem] at hpre
  exact ⟨_, ho, hpre.trans (List.prefix_append a _)⟩

theorem early_startsDashed : Early StartsDashed := by
  intro a r r' c hc c' hc' h
  obtain ⟨bs, hbs, h⟩ := h.exists_eq
  have hmem := not_mem_dashed hc hbs
  -- A first line that is dashed ends before `c`.
  have hpre : dashes ++ (bs ++ ['\n']) <+: a ++ c :: r := by
    rcases h with h | ⟨s, h⟩
    · have hline : c ∈ dashes ++ bs := h ▸ List.mem_append_right a List.mem_cons_self
      apply absurd _ hmem
      rw [← List.append_assoc]
      exact List.mem_append_left _ hline
    · exact ⟨s, by simp [h]⟩
  rw [isPrefix_append_cons hmem] at hpre
  obtain ⟨s, rfl⟩ := hpre
  have hs : dashes ++ (bs ++ ['\n']) ++ s ++ c' :: r' =
      (dashes ++ bs) ++ '\n' :: (s ++ c' :: r') := by simp
  rw [hs, startsDashed_append_feed]
  exact startsDashed_dashes_append hbs

theorem early_startsDashed_trimLeft : Early fun t => StartsDashed (trimLeft t) := by
  intro a r r' c hc c' hc' h
  have htrim : ∀ {d : Char} {x : Text}, d ∈ stops → trimLeft (a ++ d :: x) = trimLeft a ++ d :: x :=
    fun hd => LineKind.dropWhile_append_of_neg (not_blank_of_mem_stops _ hd)
  rw [htrim hc] at h
  rw [htrim hc']
  exact early_startsDashed _ r r' c hc c' hc' h

/-- Rewriting math changes nothing before the first span. -/
theorem Early.rewriteKind (h : Early P) (k : Math.Kind) (t : Text) :
    P (Math.rewriteKind k t) ↔ P t := by
  by_cases hspan : Math.HasSpan k t
  · obtain ⟨before, inside, content, after, ho, hc⟩ := Math.exists_span hspan
    have hopening : ∃ y, k.delimiters.opening = '\\' :: y := by cases k <;> exact ⟨_, rfl⟩
    have hdollars : ∃ y, k.dollars = '$' :: y := by cases k <;> exact ⟨_, rfl⟩
    obtain ⟨y, hy⟩ := hopening
    obtain ⟨z, hz⟩ := hdollars
    rw [Math.rewriteKind_of_span ho hc, Math.eq_append_of_span ho hc, hy, hz]
    simp only [List.append_assoc, List.cons_append]
    exact ⟨h _ _ _ _ (by decide) _ (by decide), h _ _ _ _ (by decide) _ (by decide)⟩
  · rw [Math.rewriteKind_of_not_hasSpan hspan]

theorem Early.rewritten (h : Early P) (rules : Rules) (t : Text) :
    P (rules.rewritten t) ↔ P t := by
  rw [Rules.rewritten]
  split_ifs
  · rw [Math.rewrite, h.rewriteKind, h.rewriteKind]
  · exact Iff.rfl

/-- Words for slots that all start with a backquote. -/
def Quoted {α : Type} (σ : α → Text) : Prop := ∀ b, ∃ x, σ b = '\x60' :: x

theorem Knot.quoted_source : Quoted Knot.source := by
  intro b
  cases b <;> exact ⟨_, rfl⟩

theorem Knot.quoted_seam : Quoted Knot.seam := fun _ => ⟨[], rfl⟩

/-- What fills the slots does not matter for what is decided before the first of them. -/
theorem Early.fill (h : Early P) {α : Type} {σ τ : α → Text} (hσ : Quoted σ) (hτ : Quoted τ)
    (w : Template α) : P (fill σ w) ↔ P (fill τ w) := by
  rcases eq_ofText_or_slot w with ⟨t, rfl⟩ | ⟨t, b, v, rfl⟩
  · rw [fill_ofText, fill_ofText]
  · obtain ⟨x, hx⟩ := hσ b
    obtain ⟨y, hy⟩ := hτ b
    simp only [fill_append, fill_ofText, fill_slot, hx, hy, List.cons_append]
    exact ⟨h _ _ _ _ (by decide) _ (by decide), h _ _ _ _ (by decide) _ (by decide)⟩

/-! ### Spacing -/

namespace Layout

theorem head?_spread_none (gap : Nat) (ls : List Text) :
    (spread none gap ls).head? = (ls.find? (!·.all isBlank)).map trimRight := by
  induction ls generalizing gap with
  | nil => rfl
  | cons l ls ih =>
    cases hl : l.all isBlank with
    | true =>
      rw [spread_cons_of_blank hl, List.find?_cons_of_neg (by simp [hl])]
      exact ih (gap + 1)
    | false =>
      rw [spread_cons_of_content hl, List.find?_cons_of_pos (by simp [hl])]
      rfl

/-- A spaced text starts with the first line with content. -/
theorem exists_normalize_of_find {l : Text}
    (h : (Text.lines t).find? (!·.all isBlank) = some l) :
    ∃ xs, normalize t = unlines (trim l :: xs) := by
  have hl : l.all isBlank = false := by simpa using List.find?_some h
  have hhead := head?_spread_none 0 (Text.lines t)
  rw [h] at hhead
  obtain ⟨xs, hxs⟩ := List.head?_eq_some_iff.1 hhead
  refine ⟨xs, ?_⟩
  rw [normalize_eq_spread, hxs, trimLeft_unlines (by simpa using hl), trimLeft_trimRight]

theorem normalize_of_find_none (h : (Text.lines t).find? (!·.all isBlank) = none) :
    normalize t = [] := by
  have hhead := head?_spread_none 0 (Text.lines t)
  rw [h] at hhead
  rw [normalize_eq_spread, List.head?_eq_none_iff.1 hhead]
  rfl

theorem startsDashed_normalize_iff : StartsDashed (normalize t) ↔ StartsDashed (trimLeft t) := by
  rw [startsDashed_trimLeft_iff rfl]
  cases hfind : (Text.lines t).find? (!·.all isBlank) with
  | none =>
    rw [normalize_of_find_none hfind]
    simp [StartsDashed, dashes]
  | some l =>
    obtain ⟨xs, hxs⟩ := exists_normalize_of_find hfind
    have hfeed : '\n' ∉ trim l := fun h =>
      feed_not_mem_of_mem_lines (List.mem_of_find?_eq_some hfind) ((trim_isInfix l).subset h)
    rw [hxs, startsDashed_unlines_cons hfeed, trim, trimRight_trimRight, ← trim]
    simp

/-- If the first line of a spaced text is dashed, it has nothing after the dashes. -/
theorem eq_dashes_or_of_normalize (h : StartsDashed (normalize t)) :
    normalize t = dashes ∨ dashes ++ ['\n'] <+: normalize t := by
  rw [startsDashed_normalize_iff, startsDashed_trimLeft_iff rfl] at h
  obtain ⟨l, hfind, hl⟩ := h
  obtain ⟨xs, hxs⟩ := exists_normalize_of_find hfind
  rw [hxs, hl]
  cases xs with
  | nil => exact .inl rfl
  | cons x xs =>
    rw [unlines_cons_cons]
    exact .inr ⟨unlines (x :: xs), by simp⟩

theorem topped_normalize (h : Topped t) : Topped (normalize t) := by
  cases hfind : (Text.lines t).find? (!·.all isBlank) with
  | none =>
    rw [List.find?_eq_none] at hfind
    have hblank := all_blank_of_lines rfl fun l hl => by simpa using hfind l hl
    rw [h.1] at hblank
    cases hblank
  | some l =>
    have hl : l.all isBlank = false := by simpa using List.find?_some hfind
    obtain ⟨xs, hxs⟩ := exists_normalize_of_find hfind
    obtain ⟨c, r, hr, hc⟩ := exists_trim_eq_cons hl
    have hcons : unlines ((c :: r) :: xs) = [] ++ c :: unlines (r :: xs) := by
      cases xs <;> simp [unlines_cons_cons]
    rw [hxs, hr, hcons, topped_append_cons hc]
    exact List.not_mem_nil

end Layout

namespace Rules

theorem topped_rework (rules : Rules) (h : Topped t) : Topped (rules.rework t) := by
  have hmath := (early_topped.rewritten rules t).2 h
  rw [rework_eq]
  split_ifs
  · exact Layout.topped_normalize hmath
  · exact hmath

theorem rework_nil (rules : Rules) : rules.rework [] = [] := by
  obtain ⟨math, spacing⟩ := rules
  cases math <;> cases spacing <;> rfl

end Rules

/-! ### Lines below the first -/

theorem Math.dashedBelow_of_rewriteKind {k : Kind} (h : DashedBelow (rewriteKind k t)) :
    DashedBelow t := by
  rw [dashedBelow_iff_isInfix] at h ⊢
  obtain ⟨bs, hbs, h⟩ := h
  have hdollar : '$' ∉ dashes ++ (bs ++ ['\n']) := not_mem_dashed (by decide) hbs
  have hwords : ∀ w ∈ ['\n' :: (dashes ++ (bs ++ ['\n']))], w ≠ [] ∧ '$' ∉ w := by
    simp [hdollar]
  refine ⟨bs, hbs, inOrder_singleton.1 ?_⟩
  exact inOrder_of_rewriteKind_append k hwords (inOrder_singleton.2 h)

namespace Layout

theorem exists_of_mem_spread {above : Option LineKind} {gap : Nat} {x : Text}
    (h : x ∈ spread above gap ls) : x = [] ∨ ∃ l ∈ ls, x = trimRight l := by
  induction ls generalizing above gap with
  | nil => simp [spread] at h
  | cons l ls ih =>
    rw [List.exists_mem_cons_iff, or_left_comm]
    cases hl : l.all isBlank with
    | true =>
      rw [spread_cons_of_blank hl] at h
      exact .inr (ih h)
    | false =>
      rw [spread_cons_of_content hl] at h
      rcases List.mem_append.1 h with h | h
      · exact .inr (.inl (List.eq_of_mem_replicate h))
      rcases List.mem_cons.1 h with rfl | h
      · exact .inl rfl
      · exact .inr (ih h)

theorem dashedBelow_of_normalize (h : DashedBelow (normalize t)) : DashedBelow t := by
  rcases normalize_eq t with hnil | ⟨l, ls, ⟨pre, hlines⟩, -, -, heq⟩
  · rw [hnil] at h
    exact absurd h not_dashedBelow_nil
  rw [heq, dashedBelow_unlines_cons (feed_not_mem_of_suffix ⟨pre, hlines⟩)] at h
  obtain ⟨x, hx, hdashes⟩ := h
  rcases exists_of_mem_spread hx with rfl | ⟨y, hy, rfl⟩
  · cases hdashes
  rw [trimRight_trimRight] at hdashes
  -- The line comes after `l`, so it is not the first line of the text.
  cases pre with
  | nil => exact dashedBelow_of_mem_lines hlines.symm hy hdashes
  | cons l' pre => exact dashedBelow_of_mem_lines hlines.symm (by simp [hy]) hdashes

end Layout

theorem Rules.dashedBelow_of_rework (rules : Rules) (h : DashedBelow (rules.rework t)) :
    DashedBelow t := by
  have hmath : DashedBelow (rules.rewritten t) → DashedBelow t := by
    intro h
    rw [Rules.rewritten] at h
    split_ifs at h
    · exact Math.dashedBelow_of_rewriteKind (Math.dashedBelow_of_rewriteKind h)
    · exact h
  rw [Rules.rework_eq] at h
  split_ifs at h
  · exact hmath (Layout.dashedBelow_of_normalize h)
  · exact hmath h

end MarkTidy
