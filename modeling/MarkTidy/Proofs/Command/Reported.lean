import MarkTidy.Command.Run
import MarkTidy.Proofs.Run.Touched

/-!
What a command reports. A fix that comes to its end names each file that it has rewritten; one that
fails on the way names none, though it has rewritten those before.
-/

namespace MarkTidy

open Text World

variable {w w' : World} {p : Path} {l : Location}

namespace Action

/-- An opened log file is there, and no other file has changed. -/
theorem exists_of_openFile (hhere : w.place.tree.kindAt? w.place.here = some .folder)
    (h : (openFile p).run w = (.ok l, w')) :
    w'.place.here = w.place.here ∧ w'.place.tree.kindAt? l = some .file ∧
      ∀ l', l' ≠ l → w.place.tree.contentAt? l' = w'.place.tree.contentAt? l' := by
  rw [openFile, run_bind_of_ok (run_get w), run_ask_bind] at h
  generalize Path.ofLocation _ = path at h
  cases hloc : w.place.locate path with
  | error e =>
    rw [hloc] at h
    cases h
  | ok x =>
    have hend : Tree.IsEnd w.place.tree x :=
      Tree.isEnd_of_locate hhere (Place.locate_eq_ok_iff.1 hloc).2
    rw [hloc] at h
    dsimp only at h
    cases hat : w.place.tree.at? x with
    | some s =>
      rw [hat] at h
      cases s with
      | file c =>
        cases h
        exact ⟨rfl, by rw [Tree.kindAt?, hat]; rfl, fun _ _ => rfl⟩
      | link target =>
        rw [Tree.IsEnd, Tree.kindAt?, hat] at hend
        exact hend.elim
      | folder entries => cases h
    | none =>
      rw [hat] at h
      have hk : w.place.tree.kindAt? x = none := by rw [Tree.kindAt?, hat]; rfl
      rw [Tree.IsEnd, hk] at hend
      obtain ⟨base, name, rfl, hbase⟩ := hend
      cases h
      refine ⟨rfl, Tree.kindAt?_eq_file_iff.2 ⟨_, Tree.contentAt?_put_new hbase name _⟩, ?_⟩
      exact fun l' hne => (Tree.contentAt?_put_of_ne hne (by simp [hk]) _).symm

theorem run_openLog_some (threshold : Level) (p : Path) (w : World) :
    (openLog threshold (some p)).run w =
      match (openFile p).run w with
      | (.ok l, v) => (.ok (), { v with target := some { threshold, file := some l } })
      | (.error e, v) => (.error e, v) := by
  have h : openLog threshold (some p) = openFile p >>= fun l =>
      modify fun w => { w with target := some { threshold, file := some l } } := by
    rw [openLog, Option.mapM_some]
    simp
  rw [h, run_bind]
  rcases (openFile p).run w with ⟨r, v⟩
  cases r <;> rfl

/-- Opening the log leaves all files but the log file as they are. -/
theorem ready_of_openLog (hhere : w.place.tree.kindAt? w.place.here = some .folder)
    {threshold : Level} {file : Option Path}
    (h : (openLog threshold file).run w = (.ok (), w')) :
    w'.place.here = w.place.here ∧ LogReady w' ∧ ∀ l, w'.logFile? ≠ some l →
      w.place.tree.contentAt? l = w'.place.tree.contentAt? l := by
  cases file with
  | none =>
    cases h
    exact ⟨rfl, nofun, fun _ _ => rfl⟩
  | some p =>
    rw [run_openLog_some] at h
    rcases hfile : (openFile p).run w with ⟨r, v⟩
    rw [hfile] at h
    cases r with
    | error e => cases h
    | ok l =>
      cases h
      obtain ⟨hsame, hk, hcontents⟩ := exists_of_openFile hhere hfile
      refine ⟨hsame, ?_, fun l' hl' => hcontents l' fun heq => hl' (heq ▸ rfl)⟩
      rintro _ ⟨⟩
      exact hk

end Action

namespace Command

/-- The lines of updated documents. -/
def updatedLines (here : Location) (ps : List Path) : Text :=
  ps.flatMap fun p => Report.line ("Updated ".toList ++ Report.shown here p)

theorem stdout_ofFix (here : Location) (os : List Outcome) :
    (Report.ofFix here false os).stdout =
      updatedLines here ((Report.changed os).map (·.path)) ++
        Report.line (Report.summary os false) := by
  rw [Report.ofFix, updatedLines, List.flatMap_map]
  rfl

theorem ofFailure_silent (f : Failure) :
    (Report.ofFailure f).exit ≠ some 0 ∧ (Report.ofFailure f).stdout = [] := by
  rw [Report.ofFailure]
  split_ifs
  · exact ⟨by simp, rfl⟩
  · exact ⟨by simp, rfl⟩
  · exact ⟨by simp, rfl⟩

/-- A run that comes to its end names each file that holds something else than before. -/
theorem exists_changed_of_tidy {paths : List Text} {os : List Outcome} (hready : LogReady w)
    (h : (Run.tidy false paths).run w = (.ok os, w')) (hlog : w.logFile? ≠ some l)
    (hne : w.place.tree.contentAt? l ≠ w'.place.tree.contentAt? l) :
    ∃ p ∈ (Report.changed os).map (·.path), w'.place.locate p = .ok l := by
  have haccounts := Run.accounts_tidy false paths w hready
  rw [h] at haccounts
  have hreported : Run.Reported w.place (.ok os) l := by
    by_contra hout
    exact hne (haccounts.contents l (fun ht => hout ht.2) hlog)
  obtain ⟨o, ho, hs, hloc⟩ := hreported os rfl
  exact ⟨o.path, List.mem_map_of_mem (List.mem_filter.2 ⟨ho, decide_eq_true hs⟩),
    haccounts.alike.locate o.path ▸ hloc⟩

/-- A fix that comes to its end has a line for each file that it has rewritten; one that does not
says nothing on standard output. -/
theorem stdout_of_fix {args : List Text} {i : Invocation} {w : World}
    (hargs : Invocation.ofArgs args = .ok i) (hverb : i.verb = .fix) (hdry : i.dryRun = false)
    (hhere : w.place.tree.kindAt? w.place.here = some .folder) :
    let after := (run args w).2
    ((run args w).1.exit = some 0 ∧ ∃ ps last,
        (run args w).1.stdout = updatedLines w.place.here ps ++ Report.line last ∧
        ∀ l, after.logFile? ≠ some l →
          w.place.tree.contentAt? l ≠ after.place.tree.contentAt? l →
            ∃ p ∈ ps, after.place.locate p = .ok l) ∨
      ((run args w).1.exit ≠ some 0 ∧ (run args w).1.stdout = []) := by
  obtain ⟨verb, paths, dryRun, verbose, quiet, logFile⟩ := i
  obtain rfl : verb = .fix := hverb
  obtain rfl : dryRun = false := hdry
  rw [run, hargs]
  dsimp only [Invocation.run]
  rcases hopen : (Action.openLog (Level.ofSwitches verbose quiet)
    (logFile.map Path.ofText)).run { w with stderr := [] } with ⟨r, v⟩
  cases r with
  | error f => exact .inr ⟨nofun, rfl⟩
  | ok _ =>
    obtain ⟨hsame, hready, hopened⟩ :=
      Action.ready_of_openLog (w := { w with stderr := [] }) hhere hopen
    have hfollows := Run.accounts_tidy false paths v hready
    have hdry : (false || decide (Verb.fix = .check)) = false := rfl
    dsimp only
    rw [hdry]
    rcases htidy : (Run.tidy false paths).run v with ⟨r, v'⟩
    rw [htidy] at hfollows
    cases r with
    | error f => exact .inr (ofFailure_silent f)
    | ok os =>
      have hv' : v'.place.here = w.place.here := hfollows.place.here.symm.trans hsame
      refine .inl ⟨rfl, (Report.changed os).map (·.path), Report.summary os false, ?_, ?_⟩
      · rw [← hv']
        exact stdout_ofFix v'.place.here os
      · intro l hlog hne
        have hlogv : v.logFile? ≠ some l := hfollows.logFile? ▸ hlog
        refine exists_changed_of_tidy hready htidy hlogv fun hkept => hne ?_
        exact (hopened l hlogv).trans hkept

/-- A fix of one document. -/
theorem stdout_of_fix_sample :
    let args := ["fix".toList, "a.md".toList]
    let w : World := { place := ⟨.folder [("a.md".toList, .file (.text "x  ".toList))], [], []⟩ }
    (run args w).1.exit = some 0 ∧
      (run args w).2.place.tree.contentAt? ["a.md".toList] = some (.text "x".toList) ∧
      ∃ ps last, (run args w).1.stdout = updatedLines [] ps ++ Report.line last ∧
        ∃ p ∈ ps, (run args w).2.place.locate p = .ok ["a.md".toList] := by
  intro args w
  have hexit : (run args w).1.exit = some 0 := by decide +kernel
  have hnew : (run args w).2.place.tree.contentAt? ["a.md".toList] = some (.text "x".toList) := by
    decide +kernel
  have hlog : (run args w).2.logFile? ≠ some ["a.md".toList] := by
    have hnone : (run args w).2.logFile? = none := by decide +kernel
    rw [hnone]
    nofun
  have hargs : Invocation.ofArgs args =
      .ok ⟨.fix, ["a.md".toList], false, false, false, none⟩ := rfl
  have hfix := stdout_of_fix (w := w) hargs rfl rfl rfl
  obtain ⟨-, ps, last, hout, hps⟩ | ⟨hfail, -⟩ := hfix
  · refine ⟨hexit, hnew, ps, last, hout, hps _ hlog ?_⟩
    rw [hnew]
    decide
  · exact absurd hexit hfail

/-- A document is rewritten before a later path turns out to be missing: nothing is said of it. -/
theorem stdout_of_fix_of_missing :
    let args := ["fix".toList, "a.md".toList, "missing.md".toList]
    let w : World := { place := ⟨.folder [("a.md".toList, .file (.text "x  ".toList))], [], []⟩ }
    (run args w).1.exit = some 1 ∧
      w.place.tree.contentAt? ["a.md".toList] = some (.text "x  ".toList) ∧
      (run args w).2.place.tree.contentAt? ["a.md".toList] = some (.text "x".toList) ∧
      (run args w).1.stdout = [] := by
  intro args w
  exact ⟨by decide +kernel, rfl, by decide +kernel, by decide +kernel⟩

end Command

end MarkTidy
