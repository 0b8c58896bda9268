import MarkTidy.Proofs.Command.Reported

/-!
Failures that a command answers for: a path that leads to nothing, and a faulty configuration. Wherever
a run comes to one, the command says so and exits with 1. But the log is opened before the run, and
if a folder on the way to the log file is not there, the command ends without an answer.
-/

namespace MarkTidy

open Text

/-- A path leads to nothing, or the configuration is at fault. -/
def Failure.IsForeseen (f : Failure) : Prop := f.group = .notFound ∨ f.isConfig = true

namespace Place

variable {w : Place} {p : Path} {f : Failure}

/-- A folder on the way to a file is not there. -/
structure LacksFolder (w : Place) (p : Path) : Prop where
  usable : isUsable p = true
  missing : w.tree.locate w.here p = .error .missing

theorem LacksFolder.locate_eq (h : w.LacksFolder p) :
    w.locate p = .error (.missingFile p.toText) := by
  rw [locate, h.usable, h.missing]
  rfl

/-- To locate a file fails for no other foreseen reason. -/
theorem lacksFolder_of_locate (h : w.locate p = .error f) (hf : f.IsForeseen) :
    w.LacksFolder p := by
  rw [locate] at h
  cases husable : isUsable p with
  | false =>
    rw [husable] at h
    cases h
    rcases hf with hf | hf <;> cases hf
  | true =>
    refine ⟨husable, ?_⟩
    rw [husable] at h
    cases hloc : w.tree.locate w.here p with
    | ok l =>
      rw [hloc] at h
      cases h
    | error e =>
      rw [hloc] at h
      cases e with
      | missing => rfl
      | notFolder | tooManyLinks | nameTooLong =>
        cases h
        rcases hf with hf | hf <;> cases hf

end Place

namespace Action

variable {w : World} {p : Path} {f : Failure}

/-- The path of a log file, from the root on and without dots. -/
def logPath (w : Place) (p : Path) : Path :=
  .ofLocation (lexical (if p.isAbsolute then [] else w.here) p.parts)

/-- A log file cannot be opened for a foreseen reason exactly if a folder on the way to it is not
there. -/
theorem openFile_foreseen_iff (hf : f.IsForeseen) : ((openFile p).run w).1 = .error f ↔
    w.place.LacksFolder (logPath w.place p) ∧ f = .missingFile (logPath w.place p).toText := by
  rw [logPath, openFile, run_bind_of_ok (run_get w), run_ask_bind]
  generalize Path.ofLocation _ = path
  cases hloc : w.place.locate path with
  | error e =>
    refine ⟨fun h => ?_, ?_⟩
    · cases h
      have hlacks := Place.lacksFolder_of_locate hloc hf
      exact ⟨hlacks, Except.error.inj (hloc.symm.trans hlacks.locate_eq)⟩
    · rintro ⟨hlacks, rfl⟩
      exact hloc.symm.trans hlacks.locate_eq
  | ok l =>
    -- What is there may still be a folder, but that is not foreseen.
    refine iff_of_false (fun h => ?_) fun h => ?_
    · dsimp only at h
      cases hat : w.place.tree.at? l with
      | none =>
        rw [hat] at h
        cases h
      | some s =>
        rw [hat] at h
        cases s with
        | folder entries =>
          cases h
          rcases hf with hf | hf <;> cases hf
        | file c => cases h
        | link target => cases h
    · cases hloc.symm.trans h.1.locate_eq

/-- The log is opened unless its file cannot be. -/
theorem openLog_error_iff {threshold : Level} {file : Option Path} :
    ((openLog threshold file).run w).1 = .error f ↔
      ∃ p, file = some p ∧ ((openFile p).run w).1 = .error f := by
  cases file with
  | none => exact iff_of_false nofun (by simp)
  | some p =>
    rw [run_openLog_some]
    rcases hrun : (openFile p).run w with ⟨r, v⟩
    cases r <;> simp [hrun]

end Action

namespace Command

variable {w : World} {f g : Failure}

/-- What a command says of a foreseen failure. -/
def answer (f : Failure) : Text :=
  if f.group = .notFound then f.message else "mylint failed: ".toList ++ f.message

theorem ofFailure_of_foreseen (hf : f.IsForeseen) :
    Report.ofFailure f = { exit := some 1, stderr := Report.line (answer f) } := by
  rw [Report.ofFailure, answer]
  split_ifs with hgroup hconfig
  · rfl
  · rfl
  · exact absurd hf (not_or.2 ⟨hgroup, hconfig⟩)

theorem not_foreseen_of_ofFailure (h : (Report.ofFailure f).failure = some g) : ¬g.IsForeseen := by
  rw [Report.ofFailure] at h
  split_ifs at h with hgroup hconfig
  obtain rfl := Option.some.inj h
  exact not_or.2 ⟨hgroup, hconfig⟩

namespace Invocation

/-- The log of a command, as it is opened before the run. -/
def openLog (i : Invocation) : Action Unit :=
  Action.openLog (Level.ofSwitches i.verbose i.quiet) (i.logFile.map Path.ofText)

/-- What a command runs when its log is open. -/
def tidy (i : Invocation) : Action (List Outcome) :=
  Run.tidy (i.dryRun || i.verb = .check) i.paths

/-- What a command reports of a run that has come to its end. -/
def report (i : Invocation) (here : Location) (os : List Outcome) : Report :=
  match i.verb with
  | .fix => Report.ofFix here i.dryRun os
  | .check => Report.ofCheck here os

theorem failure_report (i : Invocation) (here : Location) (os : List Outcome) :
    (i.report here os).failure = none := by
  rw [report]
  split
  · rfl
  · rw [Report.ofCheck]
    split <;> rfl

theorem run_eq (i : Invocation) (w : World) : i.run w =
    match i.openLog.run w with
    | (.error f, v) => ({ exit := none, failure := some f }, v)
    | (.ok (), v) =>
      match i.tidy.run v with
      | (.error f, v') => (Report.ofFailure f, v')
      | (.ok os, v') => (i.report v'.place.here os, v') := by
  rw [run, ← openLog]
  rcases i.openLog.run w with ⟨r, v⟩
  cases r with
  | error e => rfl
  | ok _ =>
    dsimp only
    rw [← tidy]
    rcases i.tidy.run v with ⟨r, v'⟩
    cases r with
    | error e => rfl
    | ok os => exact congrArg (·, v') (by cases hverb : i.verb <;> rw [report, hverb])

/-- The run of a command, once its log is open, comes to a failure. -/
def ComesTo (i : Invocation) (w : World) (f : Failure) (after : World) : Prop :=
  ∃ v, i.openLog.run w = (.ok (), v) ∧ i.tidy.run v = (.error f, after)

/-- What escapes of the foreseen failures is what the log cannot be opened for. -/
theorem failure_run_iff (i : Invocation) (w : World) (hf : f.IsForeseen) :
    (i.run w).1.failure = some f ↔ (i.openLog.run w).1 = .error f := by
  rw [run_eq]
  rcases i.openLog.run w with ⟨r, v⟩
  cases r with
  | error e => simp
  | ok _ =>
    refine iff_of_false (fun h => ?_) nofun
    dsimp only at h
    rcases htidy : i.tidy.run v with ⟨r, v'⟩
    rw [htidy] at h
    cases r with
    | error e => exact not_foreseen_of_ofFailure h hf
    | ok os =>
      dsimp only at h
      rw [failure_report] at h
      cases h

theorem run_of_comesTo {i : Invocation} {after : World} (h : i.ComesTo w f after) :
    i.run w = (Report.ofFailure f, after) := by
  obtain ⟨v, hopen, htidy⟩ := h
  rw [run_eq, hopen]
  dsimp only
  rw [htidy]

end Invocation

/-- Of the failures that a command is to answer for, it leaves one without an answer: that a folder on
the way to the log file is not there. Any other, wherever a run comes to it, is said on standard error
after what has been logged, and the exit code is 1. -/
theorem failure_foreseen_iff {args : List Text} {i : Invocation} {w : World}
    (hargs : Invocation.ofArgs args = .ok i) :
    (∀ f : Failure, f.IsForeseen → ((run args w).1.failure = some f ↔
      ∃ name, i.logFile = some name ∧
        w.place.LacksFolder (Action.logPath w.place (Path.ofText name)) ∧
        f = .missingFile (Action.logPath w.place (Path.ofText name)).toText)) ∧
    ∀ (f : Failure) (after : World), i.ComesTo { w with stderr := [] } f after → f.IsForeseen →
      run args w =
        ({ exit := some 1, stderr := after.stderr ++ Report.line (answer f) }, after) := by
  rw [run, hargs]
  constructor
  · intro f hf
    dsimp only
    rw [Invocation.failure_run_iff i _ hf, Invocation.openLog, Action.openLog_error_iff]
    simp only [Action.openFile_foreseen_iff hf, Option.map_eq_some_iff]
    constructor
    · rintro ⟨_, ⟨name, hname, rfl⟩, hlacks⟩
      exact ⟨name, hname, hlacks⟩
    · rintro ⟨name, hname, hlacks⟩
      exact ⟨_, ⟨name, hname, rfl⟩, hlacks⟩
  · intro f after hcomes hf
    dsimp only
    rw [Invocation.run_of_comesTo hcomes, ofFailure_of_foreseen hf]

/-- A check of a path that leads to nothing. -/
theorem failure_foreseen_iff_sample :
    let args := ["check".toList, "no.md".toList]
    let w : World := { place := ⟨.folder [("a.md".toList, .file (.text "x".toList))], [], []⟩ }
    (run args w).1.exit = some 1 ∧
      (∃ logged, (run args w).1.stderr = logged ++ "Path not found: no.md\n".toList) ∧
      ∀ f : Failure, f.IsForeseen → (run args w).1.failure ≠ some f := by
  intro args w
  let i : Invocation := ⟨.check, ["no.md".toList], false, false, false, none⟩
  let v : World := { w with target := some { threshold := .info } }
  have hargs : Invocation.ofArgs args = .ok i := rfl
  have htidy : (i.tidy.run v).1 = .error (.pathNotFound "no.md".toList) := by decide +kernel
  have hcomes : i.ComesTo w (.pathNotFound "no.md".toList) (i.tidy.run v).2 :=
    ⟨v, rfl, Prod.ext htidy rfl⟩
  obtain ⟨hescapes, hanswers⟩ := failure_foreseen_iff (w := w) hargs
  have hrun := hanswers _ _ hcomes (.inl rfl)
  refine ⟨by rw [hrun], ⟨(i.tidy.run v).2.stderr, by rw [hrun]; rfl⟩, fun f hf h => ?_⟩
  obtain ⟨name, hname, -⟩ := (hescapes f hf).1 h
  cases hname

/-- The log file is to be in a folder that is not there: the failure escapes. -/
theorem failure_of_logFile :
    let args := ["--log-file".toList, "no/x.log".toList, "check".toList, "a.md".toList]
    let w : World := { place := ⟨.folder [("a.md".toList, .file (.text "x".toList))], [], []⟩ }
    (∃ i, Invocation.ofArgs args = .ok i ∧ i.verb = .check) ∧
      (Failure.missingFile "/no/x.log".toList).IsForeseen ∧
      (run args w).1 = { exit := none, failure := some (.missingFile "/no/x.log".toList) } := by
  intro args w
  exact ⟨⟨_, rfl, rfl⟩, .inl rfl, by decide +kernel⟩

end Command

end MarkTidy
