import MarkTidy.Text.Basic

/-!
Three ways to cut text into lines. A document is laid out by lines that end in a line feed, with
or without a carriage return before it; a diff and an ignore file see every Unicode line boundary;
a configuration file is read with all its line ends turned into line feeds.
-/

namespace MarkTidy.Text

/-- The lines of a document: cut at each line feed, less one carriage return before it. -/
def lines : Text → List Text
  | [] => [[]]
  | '\n' :: r => [] :: lines r
  | '\r' :: '\n' :: r => [] :: lines r
  | c :: r => match lines r with
    | [] => [[c]]
    | l :: ls => (c :: l) :: ls

/-- Characters that end a line by themselves. -/
def isBoundary (c : Char) : Bool :=
  let n := c.toNat
  (0x0A ≤ n && n ≤ 0x0D) || (0x1C ≤ n && n ≤ 0x1E) || n == 0x85 || n == 0x2028 || n == 0x2029

/-- The lines of a text with their ends, so that joining them gives the text back. -/
def pieces : Text → List Text
  | [] => []
  | '\r' :: '\n' :: r => ['\r', '\n'] :: pieces r
  | c :: r =>
    if isBoundary c then [c] :: pieces r
    else match pieces r with
      | [] => [[c]]
      | l :: ls => (c :: l) :: ls

/-- Carriage returns, alone or before a line feed, become line feeds. -/
def unifyBreaks : Text → Text
  | [] => []
  | '\r' :: '\n' :: r => '\n' :: unifyBreaks r
  | c :: r => (if c = '\r' then '\n' else c) :: unifyBreaks r

end MarkTidy.Text
