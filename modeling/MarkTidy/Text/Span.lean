import MarkTidy.Text.Search

/-!
Delimited spans. A text is cut from the left into spans, each from an opening delimiter to the
nearest closing delimiter after it. Spans do not nest and do not overlap; an opening delimiter
with nothing to close it stays plain.
-/

namespace MarkTidy.Text

/-- The opening and the closing delimiter of a kind of span. -/
structure Delimiters where
  opening : Text
  closing : Text
deriving DecidableEq, Repr

/-- A text cut into spans: each span's content with the plain text before it, then the plain rest. -/
structure Spans where
  parts : List (Text × Text)
  rest : Text
deriving DecidableEq, Repr

namespace Spans

/-- The spans of a text, at most `fuel` of them. -/
def cutAtMost (d : Delimiters) : Nat → Text → Spans
  | 0, t => ⟨[], t⟩
  | fuel + 1, t =>
    match breakOn d.opening t with
    | none => ⟨[], t⟩
    | some (before, inside) =>
      match breakOn d.closing inside with
      | none => ⟨[], t⟩
      | some (content, after) =>
        let tail := cutAtMost d fuel after
        ⟨(before, content) :: tail.parts, tail.rest⟩

/-- All spans of a text. There are never more of them than characters. -/
def cut (d : Delimiters) (t : Text) : Spans := cutAtMost d t.length t

/-- The contents of the spans, in order. -/
def contents (s : Spans) : List Text := s.parts.map (·.2)

/-- The text with every span written by `f` from its content. -/
def render (f : Text → Text) (s : Spans) : Text :=
  s.parts.flatMap (fun p => p.1 ++ f p.2) ++ s.rest

/-- The text with every span written by `f` from its number and its content. -/
def renderIdx (f : Nat → Text → Text) (s : Spans) : Text :=
  s.parts.zipIdx.flatMap (fun p => p.1.1 ++ f p.2 p.1.2) ++ s.rest

theorem render_cutAtMost (d : Delimiters) (fuel : Nat) (t : Text) :
    (cutAtMost d fuel t).render (fun c => d.opening ++ c ++ d.closing) = t := by
  induction fuel generalizing t with
  | zero => simp [cutAtMost, render]
  | succ fuel ih =>
    simp only [cutAtMost]
    split
    · simp [render]
    · next before inside hb =>
      split
      · simp [render]
      · next content after hc =>
        have := ih after
        simp only [render] at this ⊢
        rw [eq_append_of_breakOn hb, eq_append_of_breakOn hc]
        simp only [List.flatMap_cons, List.append_assoc] at this ⊢
        rw [this]

/-- Writing every span back with its delimiters gives the text. -/
theorem render_cut (d : Delimiters) (t : Text) :
    (cut d t).render (fun c => d.opening ++ c ++ d.closing) = t :=
  render_cutAtMost d t.length t

end Spans

end MarkTidy.Text
