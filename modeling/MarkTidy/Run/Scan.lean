import MarkTidy.Config.Load
import MarkTidy.Ignore.Rule

/-!
The documents below a folder. Of each folder the files come first and then the folders, both sorted
by name. A link to a folder is not followed; any other link is a file, wherever it may lead.
-/

namespace MarkTidy.Scan

open Text

/-- Folders that never hold documents. -/
def excludedFolders : List String := [
  ".git", ".hg", ".svn", ".venv", "venv", "node_modules", "__pycache__", ".pytest_cache",
  ".mypy_cache", ".idea", ".obsidian", ".trash"]

/-- A location below a folder as ignore rules see it. -/
def relative (l : Location) : Text := (l.intersperse ['/']).flatten

/-- An entry of a folder: its name, whether it counts as a folder, and the files that it stands
for. -/
structure Entry where
  name : Text
  isFolder : Bool
  files : List Location

/-- Some entries in the order of their names. -/
def ordered (entries : List Entry) : List Location :=
  (entries.mergeSort fun a b => precedes a.name b.name).flatMap (·.files)

mutual

/-- The files below a folder. `leadsToFolder` is said of links, and `ignored` of all entries, with
whether they are folders. -/
def files (leadsToFolder : Location → Bool) (ignored : Location → Bool → Bool) (here : Location) :
    Tree → List Location
  | .folder entries =>
    let found := entriesOf leadsToFolder ignored here entries
    ordered (found.filter (!·.isFolder)) ++ ordered (found.filter (·.isFolder))
  | _ => []

def entriesOf (leadsToFolder : Location → Bool) (ignored : Location → Bool → Bool)
    (here : Location) : List (Text × Tree) → List Entry
  | [] => []
  | e :: rest =>
    entryOf leadsToFolder ignored here e :: entriesOf leadsToFolder ignored here rest

def entryOf (leadsToFolder : Location → Bool) (ignored : Location → Bool → Bool)
    (here : Location) : Text × Tree → Entry
  | (name, t) =>
    let l := here ++ [name]
    let below := files leadsToFolder ignored l t
    match t with
    | .folder _ =>
      ⟨name, true, if excludedFolders.contains (String.ofList name) || ignored l true then []
        else below⟩
    | .link _ => ⟨name, false, if leadsToFolder l || ignored l false then [] else [l]⟩
    | .file _ => ⟨name, false, if ignored l false then [] else [l]⟩

end

/-- The ignore rules for a folder: those of its ignore file, and then some lines more. -/
def rulesFor (w : Place) (root : Location) (more : List Text) : Except Failure (List IgnoreRule) := do
  let file := (Path.ofLocation root).child ".gitignore".toList
  let lines ← if ← w.holds file then pure (pieces (← w.text file)) else pure []
  return IgnoreRule.ofLines lines ++ IgnoreRule.ofLines more

/-- The documents below a path, which are the files with one of some extensions. A path of a file
stands for that file, whatever its extension. -/
def documents (w : Place) (p : Path) (shown : Text) (extensions excluded : List Text) :
    Except Failure (List Location) := do
  let root ← w.resolve (← w.expandHome p)
  let path := Path.ofLocation root
  if !(← w.holds path) then throw (.pathNotFound shown)
  if ← w.isFile path then return [root]
  let extensions := if extensions.isEmpty then Config.defaultExtensions else extensions
  let suffixes := extensions.map lower
  let rules ← rulesFor w root excluded
  let leadsToFolder (l : Location) : Bool :=
    match w.isFolder (.ofLocation (root ++ l)) with
    | .ok b => b
    | .error _ => false
  let ignored (l : Location) (isFolder : Bool) : Bool := IgnoreRule.ignores rules (relative l) isFolder
  let found := files leadsToFolder ignored [] ((w.tree.at? root).getD (.folder []))
  return (found.filter fun l => suffixes.contains (lower (Path.suffixOf (l.getLast?.getD [])))).map
    (root ++ ·)

end MarkTidy.Scan
