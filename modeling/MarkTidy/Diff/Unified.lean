import MarkTidy.Diff.Edit
import MarkTidy.Text.Lines

/-!
The unified format of a diff: two header lines, then hunks of changes, each with at most three
lines of context before and after. Changes parted by at most six kept lines share a hunk.
-/

namespace MarkTidy

open Text

/-- A stretch of an edit script, and the line numbers at which it starts, counted from zero. -/
structure Hunk where
  old : Nat
  new : Nat
  edits : List Edit
deriving DecidableEq, Repr

namespace Hunk

def oldSize (h : Hunk) : Nat := (h.edits.filterMap Edit.old?).length

def newSize (h : Hunk) : Nat := (h.edits.filterMap Edit.new?).length

def extend (h : Hunk) (edits : List Edit) : Hunk := { h with edits := h.edits ++ edits }

/-- A range of lines: its first line, counted from one, and its length. A length of one is left
out, and an empty range names the line before it. -/
def range (start size : Nat) : Text :=
  if size = 1 then natural (start + 1)
  else natural (if size = 0 then start else start + 1) ++ ',' :: natural size

def header (h : Hunk) : Text :=
  "@@ -".toList ++ range h.old h.oldSize ++ " +".toList ++ range h.new h.newSize ++ " @@\n".toList

/-- A line of a hunk; its end, or the lack of one, is the line's own. -/
def lineOf : Edit → Text
  | .keep l => ' ' :: l
  | .remove l => '-' :: l
  | .add l => '+' :: l

def render (h : Hunk) : Text := h.header ++ h.edits.flatMap lineOf

end Hunk

namespace Diff

def context : Nat := 3

/-- The hunks of an edit script given as runs of kept and of changed lines; `current` is the hunk
that is still open. -/
def hunksFrom (old new : Nat) (current : Option Hunk) : List (List Edit) → List Hunk
  | [] => current.toList
  | run :: rest =>
    let oldAfter := old + (run.filterMap Edit.old?).length
    let newAfter := new + (run.filterMap Edit.new?).length
    let n := run.length
    if run.all Edit.isKeep then
      let reopened : Hunk := ⟨oldAfter - min n context, newAfter - min n context, run.drop (n - context)⟩
      match current with
      | none => if rest.isEmpty then [] else hunksFrom oldAfter newAfter (some reopened) rest
      | some h =>
        if rest.isEmpty then [h.extend (run.take context)]
        else if 2 * context < n then
          h.extend (run.take context) :: hunksFrom oldAfter newAfter (some reopened) rest
        else hunksFrom oldAfter newAfter (some (h.extend run)) rest
    else
      hunksFrom oldAfter newAfter (some ((current.getD ⟨old, new, []⟩).extend run)) rest

def hunks (edits : List Edit) : List Hunk :=
  hunksFrom 0 0 none (edits.splitBy fun a b => a.isKeep == b.isKeep)

/-- The unified diff of two texts under a name; empty if they have the same lines. -/
def unified (old new name : Text) : Text :=
  match hunks (Edit.compare (pieces old) (pieces new)) with
  | [] => []
  | hs =>
    "--- ".toList ++ name ++ " (original)\n+++ ".toList ++ name ++ " (updated)\n".toList ++
      hs.flatMap Hunk.render

end Diff

end MarkTidy
