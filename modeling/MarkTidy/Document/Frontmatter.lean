import MarkTidy.Text.Blank

/-!
Frontmatter. A document may open with a block fenced by lines of three dashes. Its opening line is
`---` and at most spaces, tabs and a carriage return; its closing line is `---` and blanks. The
block takes with it the blank lines that follow the closing line.

The closing line is the first one that has at least one line feed between it and the opening line;
only if there is no such line may the block be empty.
-/

namespace MarkTidy.Frontmatter

open Text

/-- A document cut in two; `front` is empty if the document has no frontmatter. -/
structure Split where
  front : Text
  body : Text
deriving DecidableEq, Repr

/-- What follows the opening line, if the document starts with one. -/
def afterOpening : Text → Option Text
  | '-' :: '-' :: '-' :: r =>
    match r.dropWhile (fun c => c = ' ' ∨ c = '\t') with
    | '\n' :: rest => some rest
    | '\r' :: '\n' :: rest => some rest
    | _ => none
  | _ => none

/-- What follows the last line feed of a text. -/
def afterLastFeed (t : Text) : Option Text :=
  if '\n' ∈ t then some (t.reverse.takeWhile (· ≠ '\n')).reverse else none

/-- What follows the closing delimiter and the blank lines after it, if the text starts with one. -/
def afterClosing : Text → Option Text
  | '-' :: '-' :: '-' :: r =>
    match r.dropWhile isBlank with
    | [] => some []
    | c :: rest => (afterLastFeed (r.takeWhile isBlank)).map (· ++ c :: rest)
  | _ => none

/-- What follows the first closing delimiter that stands right after a line feed of the text. -/
def afterLaterClosing : Text → Option Text
  | [] => none
  | c :: r =>
    if c = '\n' then
      match afterClosing r with
      | some body => some body
      | none => afterLaterClosing r
    else afterLaterClosing r

/-- The body of a document with frontmatter. -/
def body? (d : Text) : Option Text :=
  (afterOpening d).bind fun r => (afterLaterClosing r).or (afterClosing r)

/-- Cuts a document into frontmatter and body. -/
def split (d : Text) : Split :=
  match body? d with
  | some body => ⟨d.take (d.length - body.length), body⟩
  | none => ⟨[], d⟩

end MarkTidy.Frontmatter
