import MarkTidy.Document.Math
import MarkTidy.Proofs.Text.Span
import MarkTidy.Proofs.Text.Trim

/-!
Rewriting math span by span: the text up to and with the first span, then the rest in the same way.
A text falls into plain parts and leftmost-shortest spans of a kind in one way only.
-/

namespace MarkTidy.Math

open Text

variable {k : Kind} {t before inside content after : Text}

/-- Whether a text has a span of this kind: an opening delimiter with a closing one after it. -/
def HasSpan (k : Kind) (t : Text) : Prop := InOrder [k.delimiters.opening, k.delimiters.closing] t

theorem Kind.opening_ne_nil (k : Kind) : k.delimiters.opening ≠ [] := by cases k <;> exact nofun

theorem Kind.closing_ne_nil (k : Kind) : k.delimiters.closing ≠ [] := by cases k <;> exact nofun

theorem mem_dollars {k : Kind} {c : Char} (h : c ∈ k.dollars) : c = '$' := by
  cases k <;> simpa [Kind.dollars] using h

theorem Kind.dollars_ne_nil (k : Kind) : k.dollars ≠ [] := by cases k <;> exact nofun

/-- Which end of a span a delimiter stands at. -/
inductive Side where
  | opening
  | closing
deriving DecidableEq, Repr

/-- The character that tells a delimiter from the three others. -/
def Kind.bracket : Kind → Side → Char
  | .display, .opening => '['
  | .display, .closing => ']'
  | .inline, .opening => '('
  | .inline, .closing => ')'

def Kind.delimiter (k : Kind) (s : Side) : Text := ['\\', k.bracket s]

theorem Kind.opening_eq (k : Kind) : k.delimiters.opening = k.delimiter .opening := by
  cases k <;> rfl

theorem Kind.closing_eq (k : Kind) : k.delimiters.closing = k.delimiter .closing := by
  cases k <;> rfl

theorem Kind.delimiter_ne_nil (k : Kind) (s : Side) : k.delimiter s ≠ [] := List.cons_ne_nil _ _

theorem Kind.delimiter_append (k : Kind) (s : Side) (t : Text) :
    k.delimiter s ++ t = '\\' :: k.bracket s :: t := rfl

theorem Kind.bracket_ne_backslash (k : Kind) (s : Side) : k.bracket s ≠ '\\' := by
  cases k <;> cases s <;> decide

/-- A delimiter does not end in the character it starts with, so it has no overlap with the next. -/
theorem delimiter_infix_append_backslash (k : Kind) (s : Side) {a : Text} :
    k.delimiter s <:+: a ++ ['\\'] ↔ k.delimiter s <:+: a := by
  rw [List.infix_concat_iff, or_iff_right]
  intro h
  rcases List.suffix_concat_iff.1 h with h | ⟨u, hu, -⟩
  · cases h
  · have hlast := congrArg List.getLast? hu
    rw [List.getLast?_concat] at hlast
    exact k.bracket_ne_backslash s (Option.some.inj hlast)

theorem rewriteKind_of_not_hasSpan (h : ¬HasSpan k t) : rewriteKind k t = t := by
  rw [rewriteKind, spans, Spans.cut_of_not_inOrder k.opening_ne_nil h, Spans.render_nil]

theorem rewriteKind_of_span (ho : breakOn k.delimiters.opening t = some (before, inside))
    (hc : breakOn k.delimiters.closing inside = some (content, after)) :
    rewriteKind k t =
      before ++ (k.dollars ++ trim content ++ k.dollars) ++ rewriteKind k after := by
  rw [rewriteKind, spans, Spans.cut_of_span k.opening_ne_nil ho hc, Spans.render_cons]
  rfl

theorem exists_span (h : HasSpan k t) : ∃ before inside content after,
    breakOn k.delimiters.opening t = some (before, inside) ∧
      breakOn k.delimiters.closing inside = some (content, after) := by
  obtain ⟨before, inside, ho, hin⟩ := (inOrder_pair_iff k.opening_ne_nil).1 h
  obtain ⟨⟨content, after⟩, hc⟩ := Option.isSome_iff_exists.1 (occursIn_iff.2 hin)
  exact ⟨before, inside, content, after, ho, hc⟩

/-- Induction along the spans of a text. -/
theorem span_induction {motive : Text → Prop} (k : Kind)
    (plain : ∀ t, ¬HasSpan k t → motive t)
    (span : ∀ t before inside content after,
      breakOn k.delimiters.opening t = some (before, inside) →
      breakOn k.delimiters.closing inside = some (content, after) → motive after → motive t)
    (t : Text) : motive t := by
  generalize hn : t.length = n
  induction n using Nat.strongRecOn generalizing t with
  | ind n ih =>
    by_cases h : HasSpan k t
    · obtain ⟨before, inside, content, after, ho, hc⟩ := exists_span h
      have hlt := Spans.length_after_lt k.opening_ne_nil ho hc
      exact span t before inside content after ho hc (ih _ (hn ▸ hlt) after rfl)
    · exact plain t h

theorem eq_append_of_span (ho : breakOn k.delimiters.opening t = some (before, inside))
    (hc : breakOn k.delimiters.closing inside = some (content, after)) :
    t = before ++ k.delimiters.opening ++ (content ++ k.delimiters.closing ++ after) := by
  rw [eq_append_of_breakOn ho, eq_append_of_breakOn hc]

/-! ### Counting backslashes -/

/-- Each span that is rewritten takes two backslashes away. -/
theorem count_rewriteKind_span {before inside content after : Text}
    (ho : breakOn k.delimiters.opening t = some (before, inside))
    (hc : breakOn k.delimiters.closing inside = some (content, after))
    (hafter : (rewriteKind k after).count '\\' ≤ after.count '\\') :
    (rewriteKind k t).count '\\' + 2 ≤ t.count '\\' := by
  have htrim := (trim_isInfix content).sublist.count_le '\\'
  have hdollars : k.dollars.count '\\' = 0 := by cases k <;> rfl
  have hopening : k.delimiters.opening.count '\\' = 1 := by cases k <;> rfl
  have hclosing : k.delimiters.closing.count '\\' = 1 := by cases k <;> rfl
  rw [rewriteKind_of_span ho hc, eq_append_of_span ho hc]
  simp only [List.count_append, hdollars, hopening, hclosing]
  omega

theorem count_rewriteKind_le (k : Kind) (t : Text) :
    (rewriteKind k t).count '\\' ≤ t.count '\\' := by
  induction t using span_induction k with
  | plain t h => rw [rewriteKind_of_not_hasSpan h]
  | span t before inside content after ho hc ih =>
    have h := count_rewriteKind_span ho hc ih
    omega

theorem count_rewriteKind_lt (h : HasSpan k t) : (rewriteKind k t).count '\\' < t.count '\\' := by
  obtain ⟨before, inside, content, after, ho, hc⟩ := exists_span h
  have h := count_rewriteKind_span ho hc (count_rewriteKind_le k after)
  omega

theorem rewrite_of_not_hasSpan (h : ∀ k, ¬HasSpan k t) : rewrite t = t := by
  rw [rewrite, rewriteKind_of_not_hasSpan (h .display), rewriteKind_of_not_hasSpan (h .inline)]

theorem count_rewrite_lt (h : HasSpan k t) : (rewrite t).count '\\' < t.count '\\' := by
  have hinline := count_rewriteKind_le .inline (rewriteKind .display t)
  by_cases hd : HasSpan .display t
  · have hdisplay := count_rewriteKind_lt hd
    rw [rewrite]
    omega
  · cases k with
    | display => exact absurd h hd
    | inline =>
      rw [rewrite, rewriteKind_of_not_hasSpan hd]
      exact count_rewriteKind_lt h

/-! ### The one decomposition -/

/-- The spans are a leftmost-shortest cut of the text: no plain part in front of a span has an
opening delimiter, no content a closing one, and the rest has no span. -/
structure Decomposes (k : Kind) (t : Text) (s : Spans) : Prop where
  source : s.source k.delimiters = t
  before : ∀ p ∈ s.parts, ¬k.delimiters.opening <:+: p.1
  content : ∀ p ∈ s.parts, ¬k.delimiters.closing <:+: p.2
  rest : ¬HasSpan k s.rest

theorem decomposes_iff_leftmost {s : Spans} :
    Decomposes k t s ↔ s.source k.delimiters = t ∧ s.Leftmost k.delimiters := by
  have hopening : ∀ a : Text, k.delimiters.opening <:+: a ++ k.delimiters.opening.dropLast ↔
      k.delimiters.opening <:+: a := fun a => by
    rw [k.opening_eq]
    exact delimiter_infix_append_backslash k .opening
  have hclosing : ∀ a : Text, k.delimiters.closing <:+: a ++ k.delimiters.closing.dropLast ↔
      k.delimiters.closing <:+: a := fun a => by
    rw [k.closing_eq]
    exact delimiter_infix_append_backslash k .closing
  constructor
  · intro h
    exact ⟨h.source, fun p hp => (hopening p.1).not.2 (h.before p hp),
      fun p hp => (hclosing p.2).not.2 (h.content p hp), h.rest⟩
  · rintro ⟨hs, h⟩
    exact ⟨hs, fun p hp => (hopening p.1).not.1 (h.before p hp),
      fun p hp => (hclosing p.2).not.1 (h.content p hp), h.rest⟩

theorem decomposes_iff {s : Spans} : Decomposes k t s ↔ s = spans k t := by
  rw [decomposes_iff_leftmost]
  constructor
  · rintro ⟨rfl, h⟩
    exact (Spans.cut_source k.opening_ne_nil k.closing_ne_nil h).symm
  · rintro rfl
    exact ⟨Spans.render_cut k.delimiters t,
      Spans.leftmost_cut k.opening_ne_nil k.closing_ne_nil t⟩

/-- A text has one leftmost-shortest decomposition, and rewriting writes its contents, trimmed,
between dollar signs and the rest as it stands. -/
theorem rewriteKind_decomposition (k : Kind) (t : Text) :
    ∃ s : Spans, (∀ s', Decomposes k t s' ↔ s' = s) ∧
      rewriteKind k t = s.render fun content => k.dollars ++ trim content ++ k.dollars :=
  ⟨spans k t, fun _ => decomposes_iff, rfl⟩

end MarkTidy.Math
