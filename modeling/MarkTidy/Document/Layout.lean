import MarkTidy.Document.LineKind
import MarkTidy.Text.Lines

/-!
Blank lines. Lines are laid out one after another, each with a look at the next:

* a heading gets an empty line above it, unless it opens the document, and one below it when the
  next line has content;
* blank lines between two list items are dropped;
* an empty line parts a list from the prose after it;
* blank lines in a row become one.
-/

namespace MarkTidy

open Text

/-- The lines laid out so far, last line first, and the kind of the last one that was not blank. -/
structure Layout where
  reversed : List Text := []
  last : Option LineKind := none
deriving DecidableEq, Repr

namespace Layout

def lines (l : Layout) : List Text := l.reversed.reverse

def endsBlank (l : Layout) : Bool := (l.reversed.head?.map (·.all isBlank)).getD false

def endsInContent (l : Layout) : Bool := (l.reversed.head?.map (!·.all isBlank)).getD false

/-- Adds a line at the end. -/
def push (l : Layout) (line : Text) : Layout := { l with reversed := line :: l.reversed }

/-- Adds an empty line at the end if `p` holds. -/
def pushEmptyIf (l : Layout) (p : Bool) : Layout := if p then l.push [] else l

/-- Removes the blank lines at the end. -/
def dropBlank (l : Layout) : Layout := { l with reversed := l.reversed.dropWhile (·.all isBlank) }

/-- Lays out one line, given the next line of the input. -/
def feed (l : Layout) (line : Text) (next : Option Text) : Layout :=
  let kind := LineKind.ofLine line
  let mark (l : Layout) : Layout := { l.push (trimRight line) with last := some kind }
  match kind with
  | .heading =>
    (mark (l.pushEmptyIf l.endsInContent)).pushEmptyIf ((next.map (!·.all isBlank)).getD false)
  | .listItem => mark (if l.last = some .listItem then l.dropBlank else l)
  | .blank => l.pushEmptyIf (l.reversed.isEmpty || l.endsInContent)
  | .other => mark (l.pushEmptyIf (l.last = some .listItem && l.endsInContent))

/-- Lays out lines in order, each with the one after it as its next line. -/
def feedAll (l : Layout) : List Text → Layout
  | [] => l
  | line :: rest => (l.feed line rest.head?).feedAll rest

/-- Runs of three and more line feeds become two; `run` line feeds have just been read. -/
def collapseFeeds (run : Nat) : Text → Text
  | [] => []
  | c :: r =>
    if c = '\n' then
      if run < 2 then c :: collapseFeeds (run + 1) r else collapseFeeds run r
    else c :: collapseFeeds 0 r

/-- The text of the laid-out lines, trimmed. -/
def finish (l : Layout) : Text := trim (collapseFeeds 0 (['\n'].intercalate l.lines))

/-- The text with its blank lines normalised. -/
def normalize (t : Text) : Text := (feedAll {} (Text.lines t)).finish

end Layout

end MarkTidy
