import MarkTidy.Proofs.Config.Extension
import MarkTidy.Proofs.Run.Effect
import MarkTidy.Proofs.Run.Walk

/-!
What a run does is planned from the files alone: for each path its configuration and the documents
below it. A plan reads configuration and ignore files, and of everything else only the names and
kinds of entries.
-/

namespace MarkTidy

open Text

variable {w w' : Place} {p : Path} {l root : Location} {shown : Text}
  {extensions excluded : List Text}

/-! ### Configuration files -/

namespace Config

theorem fileOf_congr (h : Place.Alike w w') (p : Path) : fileOf w p = fileOf w' p := by
  simp only [fileOf, h.expandHome, h.isFolder, h.resolve]

theorem load_congr (h : Place.Alike w w') (p : Path)
    (hc : ∀ file l, fileOf w p = .ok file → w.locate (.ofLocation file) = .ok l →
      w.tree.contentAt? l = w'.tree.contentAt? l) : load w p = load w' p := by
  rw [load, load, ← fileOf_congr h]
  cases hfile : fileOf w p with
  | error e => rfl
  | ok file =>
    have htext : w.text (.ofLocation file) = w'.text (.ofLocation file) :=
      h.text fun l hl => hc file l hfile hl
    simp only [bind, Except.bind, h.resolve, h.holds, htext]

theorem isStep_fileName : Tree.IsStep fileName := by
  constructor <;> decide

/-- A configuration file has its fixed name. -/
theorem exists_resolve_of_fileOf {file : Location} (h : fileOf w p = .ok file) :
    ∃ q : Path, w.resolve (q.child fileName) = .ok file := by
  obtain ⟨q, -, h⟩ := Place.exists_of_bind h
  obtain ⟨b, -, h⟩ := Place.exists_of_bind h
  split_ifs at h with hfolder hname
  · exact ⟨_, h⟩
  · have hlast : q.parts.getLast? = some fileName := by
      rw [Path.name] at hname
      cases hparts : q.parts.getLast? with
      | none =>
        rw [hparts] at hname
        exact absurd hname.symm isStep_fileName.ne_nil
      | some last =>
        rw [hparts] at hname
        exact congrArg some hname
    have hq : q.parent.child fileName = q := by
      rw [Path.parent, Path.child, List.dropLast_append_getLast? _ hlast]
    exact ⟨_, hq ▸ h⟩
  · exact ⟨_, h⟩

end Config

/-! ### Scans -/

namespace Scan

open MarkTidy.Tree

variable {leads : Location → Bool} {ignored : Location → Bool → Bool}

/-- The walk does not look into files. -/
theorem files_outline (here : Location) (t : Tree) :
    files leads ignored here t.outline = files leads ignored here t := by
  induction t using folder_induction generalizing here with
  | file c => rfl
  | link target => rfl
  | folder entries ih =>
    have hentries : (entries.map fun e => (e.1, e.2.outline)).map (entryOf leads ignored here) =
        entries.map (entryOf leads ignored here) := by
      rw [List.map_map]
      refine List.map_congr_left fun e he => ?_
      obtain ⟨name, s⟩ := e
      have hs := ih _ he (here ++ [name])
      cases s with
      | file c => rfl
      | link target => rfl
      | folder es =>
        rw [Function.comp_apply, entryOf, outline_folder, entryOf, ← outline_folder, hs]
    rw [outline_folder, files, files, entriesOf_eq_map, entriesOf_eq_map, hentries]

theorem files_congr (h : w.tree.outline = w'.tree.outline) (root : Location) :
    files leads ignored [] ((w.tree.at? root).getD (.folder [])) =
      files leads ignored [] ((w'.tree.at? root).getD (.folder [])) := by
  have hroot : ((w.tree.at? root).getD (.folder [])).outline =
      ((w'.tree.at? root).getD (.folder [])).outline := by
    have hat : (w.tree.at? root).map outline = (w'.tree.at? root).map outline := by
      rw [← at?_outline, h, at?_outline]
    rw [← Option.getD_map outline, ← Option.getD_map outline, hat]
  rw [← files_outline, hroot, files_outline]

theorem rulesFor_congr (h : Place.Alike w w')
    (hc : ∀ l, w.locate ((Path.ofLocation root).child ".gitignore".toList) = .ok l →
      w.tree.contentAt? l = w'.tree.contentAt? l) (more : List Text) :
    rulesFor w root more = rulesFor w' root more := by
  simp only [rulesFor, h.holds, h.text hc]

theorem documents_congr (h : Place.SameOutline w w') (p : Path) (shown : Text)
    (extensions excluded : List Text)
    (hc : ∀ q root l, w.resolve q = .ok root →
      w.locate ((Path.ofLocation root).child ".gitignore".toList) = .ok l →
        w.tree.contentAt? l = w'.tree.contentAt? l) :
    documents w p shown extensions excluded = documents w' p shown extensions excluded := by
  rw [documents, documents, h.alike.expandHome]
  cases hq : w'.expandHome p with
  | error e => rfl
  | ok q =>
    dsimp only [bind, Except.bind]
    rw [h.alike.resolve]
    cases hroot : w'.resolve q with
    | error e => rfl
    | ok root =>
      have hrules := rulesFor_congr h.alike
        (fun l => hc q root l ((h.alike.resolve q).trans hroot)) excluded
      simp only [h.alike.holds, h.alike.isFile, h.alike.isFolder, hrules, files_congr h.outline]

end Scan

/-! ### Plans -/

namespace Run

/-- What a run finds at one path. -/
structure Plan where
  target : Path
  config : Config
  documents : List Location

/-- The plan for one path, as the files are now. -/
def plan (w : Place) (shown : Text) : Except Failure Plan := do
  let target ← w.expandHome (Path.ofText shown)
  if !(← w.holds target) then throw (.pathNotFound shown)
  let config ← Config.load w target
  let documents ← Scan.documents w target target.toText config.extensions config.excluded
  return { target, config, documents }

/-- A plan depends on the outline of the tree, and on configuration and ignore files. -/
theorem plan_congr (h : Place.SameOutline w w') (shown : Text)
    (hconfig : ∀ p file l, Config.fileOf w p = .ok file → w.locate (.ofLocation file) = .ok l →
      w.tree.contentAt? l = w'.tree.contentAt? l)
    (hignore : ∀ q root l, w.resolve q = .ok root →
      w.locate ((Path.ofLocation root).child ".gitignore".toList) = .ok l →
        w.tree.contentAt? l = w'.tree.contentAt? l) : plan w shown = plan w' shown := by
  simp only [plan, h.alike.expandHome, h.alike.holds, Config.load_congr h.alike _ (hconfig _),
    Scan.documents_congr h _ _ _ _ hignore]

namespace Plan

/-- Lints the documents of a plan. -/
def lint (q : Plan) (dryRun : Bool) : Action (List Outcome) :=
  q.documents.mapM fun l => lintFile (.ofLocation l) q.config.rules q.config.extensions dryRun

/-- The record of how many documents a plan has. -/
def record (q : Plan) : Log.Record :=
  Run.record .debug
    ("Found ".toList ++ natural q.documents.length ++ " document(s) under ".toList)
    q.target.toText []

end Plan

/-- Tidying below a path is to make a plan, log it, and lint its documents. -/
theorem run_tidyPath (w : World) (dryRun : Bool) (shown : Text) :
    (tidyPath dryRun shown).run w =
      match plan w.place shown with
      | .error e => (.error e, w)
      | .ok q => (do Action.log q.record; q.lint dryRun : Action (List Outcome)).run w := by
  rw [tidyPath, plan, Action.run_ask_bind]
  cases w.place.expandHome (Path.ofText shown) with
  | error e => rfl
  | ok target =>
    simp only [Place.ok_bind, Action.run_ask_bind]
    cases w.place.holds target with
    | error e => rfl
    | ok there =>
      cases there with
      | false => rfl
      | true =>
        simp only [Place.ok_bind, Bool.not_true, Bool.false_eq_true, if_false, Action.run_ask_bind]
        cases Config.load w.place target with
        | error e => rfl
        | ok config =>
          simp only [Place.ok_bind]
          cases Scan.documents w.place target target.toText config.extensions config.excluded with
          | error e => rfl
          | ok documents => rfl

end Run

end MarkTidy
