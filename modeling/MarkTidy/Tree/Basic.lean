import MarkTidy.Text.Basic

/-!
A tree of files. A folder has named entries, a link has the text of the path that it leads to, and
a file has text or bytes that encode none. A location is the names on the way from the root.
-/

namespace MarkTidy

inductive Content where
  | text (t : Text)
  /-- Bytes that are no text in UTF-8. -/
  | binary (bytes : List UInt8)
deriving DecidableEq, Repr

namespace Content

/-- The content with text at its end. -/
def append (more : Text) : Content → Content
  | text t => text (t ++ more)
  | binary bytes => binary (bytes ++ (String.ofList more).toUTF8.toList)

end Content

inductive Tree where
  | file (content : Content)
  | link (target : Text)
  | folder (entries : List (Text × Tree))
deriving Repr

abbrev Location := List Text

namespace Tree

/-- The entry with a name; only a folder has any. -/
def child? (t : Tree) (name : Text) : Option Tree :=
  match t with
  | folder entries => entries.lookup name
  | _ => none

/-- What is at a location, which leads through folders alone. -/
def at? : Tree → Location → Option Tree
  | t, [] => some t
  | t, name :: rest => (t.child? name).bind (at? · rest)

/-- Entries with one replaced, or added at their end. -/
def putEntry (name : Text) (t : Tree) : List (Text × Tree) → List (Text × Tree)
  | [] => [(name, t)]
  | e :: rest => if e.1 = name then (name, t) :: rest else e :: putEntry name t rest

/-- The tree with another at a location. Folders that are missing on the way are made; a file on
the way leaves the tree as it is. -/
def put : Tree → Location → Tree → Tree
  | _, [], new => new
  | folder entries, name :: rest, new =>
    folder (putEntry name (put ((entries.lookup name).getD (folder [])) rest new) entries)
  | t, _ :: _, _ => t

/-- The tree without what is at a location. -/
def erase : Tree → Location → Tree
  | t, [] => t
  | folder entries, [name] => folder (entries.filter (·.1 ≠ name))
  | folder entries, name :: rest =>
    match entries.lookup name with
    | some t => folder (putEntry name (erase t rest) entries)
    | none => folder entries
  | t, _ => t

mutual

/-- The number of links in a tree. -/
def links : Tree → Nat
  | file _ => 0
  | link _ => 1
  | folder entries => linksOf entries

def linksOf : List (Text × Tree) → Nat
  | [] => 0
  | e :: rest => linksIn e + linksOf rest

def linksIn : Text × Tree → Nat
  | (_, t) => links t

end

end Tree

end MarkTidy
