import MarkTidy.Text.Blank
import MarkTidy.Text.Span

/-!
Math delimiters. Display math `\[…\]` becomes `$$…$$` and inline math `\(…\)` becomes `$…$`, with
the content trimmed. Display math is rewritten first.
-/

namespace MarkTidy.Math

open Text

inductive Kind where
  | display
  | inline
deriving DecidableEq, Repr

/-- The delimiters that are read. -/
def Kind.delimiters : Kind → Delimiters
  | .display => ⟨['\\', '['], ['\\', ']']⟩
  | .inline => ⟨['\\', '('], ['\\', ')']⟩

/-- The delimiter that is written on both sides. -/
def Kind.dollars : Kind → Text
  | .display => ['$', '$']
  | .inline => ['$']

/-- The math spans of one kind. -/
def spans (k : Kind) (t : Text) : Spans := Spans.cut k.delimiters t

/-- The text with the math of one kind rewritten. -/
def rewriteKind (k : Kind) (t : Text) : Text :=
  (spans k t).render fun content => k.dollars ++ trim content ++ k.dollars

def rewrite (t : Text) : Text := rewriteKind .inline (rewriteKind .display t)

end MarkTidy.Math
