import MarkTidy.Document.Fence
import MarkTidy.Document.Layout
import MarkTidy.Document.Math

/-!
The whole pass over a document: protect, rewrite math, lay out, restore. Frontmatter and fenced
code come back as they were.
-/

namespace MarkTidy

/-- Which rules are on. -/
structure Rules where
  math : Bool := true
  spacing : Bool := true
deriving DecidableEq, Repr

/-- A linted document, with the records of the pass. -/
structure Linted where
  text : Text
  changed : Bool
  log : List Log.Record
deriving DecidableEq, Repr

namespace Rules

/-- The rules at work on a body whose fenced blocks have been taken out. -/
def rework (r : Rules) (body : Text) : Text :=
  let body := if r.math then Math.rewrite body else body
  if r.spacing then Layout.normalize body else body

/-- Lints a document; `drawn` are the nonces to try first. -/
def lint (r : Rules) (drawn : List Text) (d : Text) : Linted :=
  let p := Protected.ofText drawn d
  let (body, lost) := p.restore (r.rework p.body)
  let text := p.front ++ body
  let changed := text ≠ d
  let verdict : Log.Record :=
    { level := .debug
      logger := "mylint.linter".toList
      message := if changed then "Lint changed document".toList else "Lint was a no-op".toList }
  ⟨text, changed, p.record :: lost.map Protected.lostRecord ++ [verdict]⟩

end Rules

end MarkTidy
