import MarkTidy.Ignore.Glob
import MarkTidy.Text.Blank

/-!
Ignore rules. A rule is one line of an ignore file: a glob, perhaps negated, perhaps for directories
only, and anchored to the root if it has a slash before its end. Of several rules the last one
that matches decides.
-/

namespace MarkTidy

open Text

structure IgnoreRule where
  pattern : Text
  negated : Bool
  directoryOnly : Bool
  anchored : Bool
deriving DecidableEq, Repr

namespace IgnoreRule

/-- Reads a line of an ignore file. Blank lines, comments and bare slashes are no rules. -/
def ofLine? (line : Text) : Option IgnoreRule :=
  let t := trim line
  if t.isEmpty || t.head? = some '#' then none
  else
    let negated := t.head? = some '!'
    let t := if negated then t.drop 1 else t
    let directoryOnly := t.getLast? = some '/'
    let t := (t.reverse.dropWhile (· = '/')).reverse
    let anchored := t.contains '/'
    let t := t.dropWhile (· = '/')
    if t.isEmpty then none else some ⟨t, negated, directoryOnly, anchored⟩

/-- The last component of a path. -/
def lastComponent (path : Text) : Text := (splitAtChar '/' path).getLast?.getD []

/-- Whether the rule matches a path relative to the root. -/
def isMatch (r : IgnoreRule) (path : Text) (isDirectory : Bool) : Bool :=
  (!r.directoryOnly || isDirectory) &&
    Glob.isMatch r.pattern (if r.anchored then path else lastComponent path)

/-- The rules of an ignore file's lines. -/
def ofLines (lines : List Text) : List IgnoreRule := lines.filterMap ofLine?

/-- Whether the last rule that matches a path ignores it. -/
def ignores (rules : List IgnoreRule) (path : Text) (isDirectory : Bool) : Bool :=
  rules.foldl (fun verdict r => if r.isMatch path isDirectory then !r.negated else verdict) false

end IgnoreRule

end MarkTidy
