import MarkTidy.Config.Setting
import MarkTidy.Document.Lint
import MarkTidy.Tree.Place

/-!
The configuration of a run. It is read from a file of a fixed name in the folder that is asked for, or
in the folder of the file that is asked for. Without that file, or where it says nothing, there are
defaults.
-/

namespace MarkTidy

open Text

/-- The extensions of documents, if no others are asked for. -/
def Config.defaultExtensions : List Text := [".md".toList, ".markdown".toList]

structure Config where
  root : Location
  rules : Rules := {}
  extensions : List Text := Config.defaultExtensions
  excluded : List Text := []
deriving DecidableEq, Repr

namespace Config

def fileName : Text := ".mylint.yml".toList

/-- The configuration that a table of settings asks for. -/
def ofSetting (root : Location) (s : Setting) : Config :=
  let rules := s.get "rules".toList
  let extensions := (s.get "extensions".toList).texts.map Setting.extension
  { root
    rules :=
      { math := (rules.get "math".toList).switch?.getD true
        spacing := (rules.get "spacing".toList).switch?.getD true }
    extensions := if extensions.isEmpty then defaultExtensions else extensions
    excluded := (s.get "exclude_paths".toList).texts }

/-- The keys of the settings that are lists of texts. -/
def listed : List Text := ["extensions".toList, "exclude_paths".toList]

/-- The depth of the collections that settings are made of: a table, with lists and tables in it. -/
def depth : Nat := 2

/-- The configuration that a document asks for; a void one asks for the defaults. -/
def ofDocument (root : Location) (d : Yaml.Document) : Except Failure Config :=
  if d.root.isVoid then .ok { root }
  else match d.root with
    | .table _ =>
      let s := Setting.ofValue d depth d.root
      if listed.any fun key => (s.get key).isOverlong then .error (.unreadableScalar .unreadable)
      else .ok (ofSetting root s)
    | _ => .error .configNotTable

/-- The configuration in the text of a file. -/
def ofText (root : Location) (file t : Text) : Except Failure Config :=
  if t.all isBlank then .ok { root }
  else match Yaml.Document.ofText t with
    | .error .malformed => .error (.malformedConfig file)
    | .error fault => .error (.unreadableScalar fault)
    | .ok d => ofDocument root d

/-- Where the configuration file of a path is, or would be. -/
def fileOf (w : Place) (p : Path) : Except Failure Location := do
  let p ← w.expandHome p
  if ← w.isFolder p then w.resolve (p.child fileName)
  else if p.name = fileName then w.resolve p
  else w.resolve (p.parent.child fileName)

/-- The configuration for a path. -/
def load (w : Place) (p : Path) : Except Failure Config := do
  let file ← fileOf w p
  let path := Path.ofLocation file
  let root ← w.resolve path.parent
  if ← w.holds path then ofText root path.name (unifyBreaks (← w.text path))
  else return { root }

end Config

end MarkTidy
