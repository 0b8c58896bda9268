import MarkTidy.Command.Run
import MarkTidy.Proofs.Run.Foretold

/-!
A check tells what a fix does. Both find the same documents and come to the same outcomes; the check
writes to no file, and the fix to exactly those that the check says would be rewritten.
-/

namespace MarkTidy

open Text MarkTidy.Tree

namespace Run

variable {w : Place} {v : World} {dryRun : Bool} {d : Config × Location} {o : Outcome}
  {os : List Outcome} {l : Location}

/-! ### Dry outcomes and others -/

/-- The outcome of a run that was not dry. -/
def wet (o : Outcome) : Outcome := { o with dryRun := false }

theorem foretell_wet (w : Place) (p : Path) (rules : Rules) (extensions : List Text) :
    foretell w p rules extensions false = (foretell w p rules extensions true).map wet := by
  rw [foretell, foretell]
  split_ifs
  · cases w.content p with
    | error e => rfl
    | ok c =>
      cases c with
      | binary bytes => rfl
      | text old =>
        simp only [Except.map, verdict]
        split_ifs <;> rfl
  · rfl

theorem mapM_map {α : Type} (f : α → Except Failure Outcome) (xs : List α) :
    xs.mapM (fun x => (f x).map wet) = (xs.mapM f).map (List.map wet) := by
  induction xs with
  | nil => rfl
  | cons x xs ih =>
    rw [List.mapM_cons, List.mapM_cons, ih]
    cases f x with
    | error e => rfl
    | ok o => cases xs.mapM f <;> rfl

theorem foretellAll_wet (w : Place) (paths : List Text) :
    foretellAll w false paths = (foretellAll w true paths).map (List.map wet) := by
  induction paths with
  | nil => rfl
  | cons shown paths ih =>
    rw [foretellAll, foretellAll, ih]
    cases plan w shown with
    | error e => rfl
    | ok q =>
      have hq : q.foretell w false = (q.foretell w true).map (List.map wet) := by
        rw [Plan.foretell, Plan.foretell, ← mapM_map]
        simp only [foretell_wet]
      rw [Place.ok_bind, Place.ok_bind, hq]
      cases q.foretell w true with
      | error e => rfl
      | ok os =>
        cases foretellAll w true paths with
        | error e => rfl
        | ok os' => exact congrArg Except.ok List.map_append.symm

/-! ### Outcomes of scanned documents -/

/-- The outcome of a scanned document. -/
def IsOutcome (w : Place) (dryRun : Bool) (d : Config × Location) (o : Outcome) : Prop :=
  foretell w (.ofLocation d.2) d.1.rules d.1.extensions dryRun = .ok o

theorem forall₂_of_mapM {α β : Type} {f : α → Except Failure β} {xs : List α} {ys : List β}
    (h : xs.mapM f = .ok ys) : List.Forall₂ (fun x y => f x = .ok y) xs ys := by
  induction xs generalizing ys with
  | nil =>
    cases h
    exact .nil
  | cons x xs ih =>
    rw [List.mapM_cons] at h
    obtain ⟨y, hy, h⟩ := Place.exists_of_bind h
    obtain ⟨ys', hys, h⟩ := Place.exists_of_bind h
    cases h
    exact .cons hy (ih hys)

/-- Each scanned document has its outcome, in the order of scanning. -/
theorem forall₂_outcomes {paths : List Text} (h : foretellAll w dryRun paths = .ok os) :
    List.Forall₂ (IsOutcome w dryRun) (scanned w paths) os := by
  induction paths generalizing os with
  | nil =>
    cases h
    exact .nil
  | cons shown paths ih =>
    obtain ⟨q, hq, h⟩ := Place.exists_of_bind h
    obtain ⟨os₁, hos₁, h⟩ := Place.exists_of_bind h
    obtain ⟨os₂, hos₂, h⟩ := Place.exists_of_bind h
    cases h
    rw [scanned, hq]
    exact List.rel_append (List.forall₂_map_left_iff.2 (forall₂_of_mapM hos₁)) (ih hos₂)

theorem rewritten_text {p : Path} {rules : Rules} {extensions : List Text} (old : Text)
    (hext : extensions.contains (lower p.suffix) = true) :
    rewritten p rules extensions (.text old) = .text (rules.lint [] old).text :=
  if_pos hext

/-- Of a document with this content, what the run leaves is what an updated one has to hold. -/
theorem status_of_foretell {p : Path} {rules : Rules} {extensions : List Text} {c : Content}
    (hc : w.content p = .ok c) (h : foretell w p rules extensions dryRun = .ok o) :
    o.status = .updated ↔ rewritten p rules extensions c ≠ c := by
  by_cases hext : extensions.contains (lower p.suffix) = true
  · rw [foretell, if_pos hext, hc] at h
    obtain rfl := Except.ok.inj h
    cases c with
    | binary bytes =>
      have hsame : rewritten p rules extensions (.binary bytes) = .binary bytes := if_pos hext
      simp [verdict, hsame]
    | text old =>
      have hchanged : (rules.lint [] old).changed = decide ((rules.lint [] old).text ≠ old) := rfl
      rw [rewritten_text old hext, verdict, hchanged]
      by_cases hnew : (rules.lint [] old).text = old
      · simp [hnew]
      · simp [hnew]
  · rw [foretell, if_neg hext] at h
    obtain rfl := Except.ok.inj h
    simp [rewritten_of_other hext]

/-- An updated document held text with one of the extensions. -/
theorem exists_text_of_rewritten_ne {p : Path} {rules : Rules} {extensions : List Text} {c : Content}
    (h : rewritten p rules extensions c ≠ c) :
    ∃ old, c = .text old ∧ rewritten p rules extensions c = .text (rules.lint [] old).text := by
  by_cases hext : extensions.contains (lower p.suffix) = true
  · cases c with
    | binary bytes => exact absurd (if_pos hext) h
    | text old => exact ⟨old, rfl, rewritten_text old hext⟩
  · exact absurd (rewritten_of_other hext c) h

/-! ### Both runs -/

theorem stands_start (h : v.logFile? = none) (dryRun : Bool) : Stands v.place dryRun [] v :=
  ⟨h, .refl _, fun _ _ => rfl, nofun⟩

theorem exists_scanned_of_outcome {scanned : List (Config × Location)}
    (h : List.Forall₂ (IsOutcome w dryRun) scanned os) (ho : o ∈ os) :
    ∃ d ∈ scanned, IsOutcome w dryRun d o := by
  obtain ⟨i, hi, rfl⟩ := List.getElem_of_mem ho
  have hi' : i < scanned.length := h.length_eq ▸ hi
  exact ⟨scanned[i], List.getElem_mem hi', List.Forall₂.get h hi' hi⟩

theorem exists_outcome_of_scanned {scanned : List (Config × Location)}
    (h : List.Forall₂ (IsOutcome w dryRun) scanned os) (hd : d ∈ scanned) :
    ∃ o ∈ os, IsOutcome w dryRun d o := by
  obtain ⟨i, hi, rfl⟩ := List.getElem_of_mem hd
  have hi' : i < os.length := h.length_eq ▸ hi
  exact ⟨os[i], List.getElem_mem hi', List.Forall₂.get h hi hi'⟩

/-- A location holds something else at the end if the document there is updated. -/
theorem Stands.ne_iff (hw : w.Plain) {scanned : List (Config × Location)}
    (h : Stands w false scanned v) (hscanned : ∀ d ∈ scanned, IsScanned w d)
    (hos : List.Forall₂ (IsOutcome w dryRun) scanned os) (l : Location) :
    v.place.tree.contentAt? l ≠ w.tree.contentAt? l ↔
      ∃ o ∈ os, o.status = .updated ∧ o.path = .ofLocation l := by
  have hdocument : ∀ d ∈ scanned, ∀ o, IsOutcome w dryRun d o →
      (v.place.tree.contentAt? d.2 ≠ w.tree.contentAt? d.2 ↔ o.status = .updated) := by
    intro d hd o ho
    obtain ⟨c, hc⟩ := kindAt?_eq_file_iff.1 (hscanned d hd).file
    have hcontent : w.content (.ofLocation d.2) = .ok c :=
      Place.content_eq_ok_iff.2 ⟨_, hw.locate_of_file (hscanned d hd).file, hc⟩
    rw [h.treated d hd, hc, Option.map_some, status_of_foretell hcontent ho]
    exact not_congr Option.some_inj
  constructor
  · intro hne
    have hmem : l ∈ scanned.map (·.2) := by
      by_contra hout
      exact hne (h.contentAt?_eq hout)
    obtain ⟨d, hd, rfl⟩ := List.mem_map.1 hmem
    obtain ⟨o, ho, hout⟩ := exists_outcome_of_scanned hos hd
    exact ⟨o, ho, (hdocument d hd o hout).1 hne, path_of_foretell hout⟩
  · rintro ⟨o, ho, hs, hpath⟩
    obtain ⟨d, hd, hout⟩ := exists_scanned_of_outcome hos ho
    have hl : d.2 = l := congrArg Path.parts ((path_of_foretell hout).symm.trans hpath)
    rw [← hl]
    exact (hdocument d hd o hout).2 hs

/-- A run changes something if it says so of some document. -/
theorem Stands.exists_ne_iff (hw : w.Plain) {scanned : List (Config × Location)}
    (h : Stands w false scanned v) (hscanned : ∀ d ∈ scanned, IsScanned w d)
    (hos : List.Forall₂ (IsOutcome w dryRun) scanned os) :
    (∃ l, v.place.tree.contentAt? l ≠ w.tree.contentAt? l) ↔ ∃ o ∈ os, o.status = .updated := by
  constructor
  · rintro ⟨l, hl⟩
    obtain ⟨o, ho, hs, -⟩ := (h.ne_iff hw hscanned hos l).1 hl
    exact ⟨o, ho, hs⟩
  · rintro ⟨o, ho, hs⟩
    obtain ⟨d, -, hd⟩ := exists_scanned_of_outcome hos ho
    exact ⟨d.2, (h.ne_iff hw hscanned hos d.2).2 ⟨o, ho, hs, path_of_foretell hd⟩⟩

/-- What holds something else at the end is a scanned document: it held text, and holds that text
linted. -/
theorem Stands.exists_text {scanned : List (Config × Location)} (h : Stands w false scanned v)
    (hscanned : ∀ d ∈ scanned, IsScanned w d)
    (hne : v.place.tree.contentAt? l ≠ w.tree.contentAt? l) :
    ∃ c old, (c, l) ∈ scanned ∧ w.tree.contentAt? l = some (.text old) ∧
      v.place.tree.contentAt? l = some (.text (c.rules.lint [] old).text) := by
  have hmem : l ∈ scanned.map (·.2) := by
    by_contra hout
    exact hne (h.contentAt?_eq hout)
  obtain ⟨⟨c, l⟩, hd, rfl⟩ := List.mem_map.1 hmem
  obtain ⟨before, hbefore⟩ := kindAt?_eq_file_iff.1 (hscanned _ hd).file
  have htreated := h.treated _ hd
  rw [hbefore, Option.map_some] at htreated
  have hnew : rewritten (.ofLocation l) c.rules c.extensions before ≠ before := fun hsame =>
    hne (htreated.trans (by rw [hbefore]; exact congrArg some hsame))
  obtain ⟨old, rfl, hlinted⟩ := exists_text_of_rewritten_ne hnew
  exact ⟨c, old, hd, hbefore, htreated.trans (congrArg some hlinted)⟩

theorem isScanned_of_scanned (hw : w.Plain) (paths : List Text) :
    ∀ d ∈ scanned w paths, IsScanned w d := by
  induction paths with
  | nil => exact fun d hd => absurd hd List.not_mem_nil
  | cons shown paths ih =>
    rw [scanned]
    cases hq : plan w shown with
    | error e => exact fun d hd => absurd hd List.not_mem_nil
    | ok q =>
      intro d hd
      exact (List.mem_append.1 hd).elim (isScanned_of_plan hw hq d) (ih d)

end Run

namespace Command

theorem run_openLog_none (threshold : Level) (w : World) :
    (Action.openLog threshold none).run w = (.ok (), { w with target := some { threshold } }) :=
  rfl

theorem exit_ofCheck (here : Location) (os : List Outcome) :
    (Report.ofCheck here os).exit = some (if ∃ o ∈ os, o.status = .updated then 1 else 0) := by
  rw [Report.ofCheck]
  split
  · next hnone =>
    rw [if_neg]
    rintro ⟨o, ho, hs⟩
    exact List.filter_eq_nil_iff.1 hnone o ho (decide_eq_true hs)
  · next found hfound =>
    rw [if_pos]
    obtain ⟨o, ho⟩ := List.exists_mem_of_ne_nil _ hfound
    obtain ⟨ho, hs⟩ := List.mem_filter.1 ho
    exact ⟨o, ho, of_decide_eq_true hs⟩

/-- The exit code of a check without a log file tells whether there is anything to rewrite. -/
theorem exit_of_check {args : List Text} {i : Invocation} {w : World} {os : List Outcome}
    (hw : w.place.Plain) (hargs : Invocation.ofArgs args = .ok i) (hverb : i.verb = .check)
    (hlog : i.logFile = none) (hnodup : ((Run.scanned w.place i.paths).map (·.2)).Nodup)
    (hconfig : ∀ d ∈ Run.scanned w.place i.paths, d.2.getLast? ≠ some Config.fileName)
    (hos : Run.foretellAll w.place true i.paths = .ok os) :
    (run args w).1.exit = some (if ∃ o ∈ os, o.status = .updated then 1 else 0) := by
  obtain ⟨verb, paths, dryRun, verbose, quiet, logFile⟩ := i
  obtain rfl : verb = .check := hverb
  obtain rfl : logFile = none := hlog
  let v : World := { w with
    stderr := [], target := some { threshold := Level.ofSwitches verbose quiet } }
  have hstart : Run.Stands v.place true [] v := Run.stands_start rfl true
  obtain ⟨v', hrun, -⟩ := hstart.tidy hw paths nofun hnodup hconfig
  have hdry : (dryRun || decide (Verb.check = .check)) = true := by simp
  rw [run, hargs]
  dsimp only [Invocation.run, Option.map_none]
  rw [run_openLog_none, hdry]
  dsimp only
  rw [hrun.trans (congrArg (·, v') hos)]
  exact exit_ofCheck v'.place.here os

/-- What a check finds is what a fix does, from the same files and for the same paths. -/
theorem fix_agrees_with_check {w w' : World} {paths : List Text} (hw : w.place.Plain)
    (hplace : w'.place = w.place) (hlog : w.logFile? = none) (hlog' : w'.logFile? = none)
    (hnodup : ((Run.scanned w.place paths).map (·.2)).Nodup)
    (hconfig : ∀ d ∈ Run.scanned w.place paths, d.2.getLast? ≠ some Config.fileName) :
    let checked := (Run.check paths).run w
    let fixed := (Run.tidy false paths).run w'
    -- the check leaves all files as they are, and the fix comes to the same
    (∀ l, checked.2.place.tree.contentAt? l = w.place.tree.contentAt? l) ∧
    fixed.1 = checked.1.map (List.map fun o => { o with dryRun := false }) ∧
    ∀ os, checked.1 = .ok os →
      -- the fix rewrites the updated documents alone, each by the rules of its path
      (∀ l, fixed.2.place.tree.contentAt? l ≠ w.place.tree.contentAt? l ↔
        ∃ o ∈ os, o.status = .updated ∧ o.path = .ofLocation l) ∧
      (∀ l, fixed.2.place.tree.contentAt? l ≠ w.place.tree.contentAt? l →
        ∃ c old, (c, l) ∈ Run.scanned w.place paths ∧
          w.place.tree.contentAt? l = some (.text old) ∧
          fixed.2.place.tree.contentAt? l = some (.text (c.rules.lint [] old).text)) ∧
      -- the exit code of the command
      ∀ args i, Invocation.ofArgs args = .ok i → i.verb = .check → i.paths = paths →
        i.logFile = none →
        ((∃ l, fixed.2.place.tree.contentAt? l ≠ w.place.tree.contentAt? l) →
          (run args w).1.exit = some 1) ∧
        ((∀ l, fixed.2.place.tree.contentAt? l = w.place.tree.contentAt? l) →
          (run args w).1.exit = some 0) := by
  intro checked fixed
  have hstart : Run.Stands w.place true [] w := Run.stands_start hlog true
  have hstart' : Run.Stands w.place false [] w' := hplace ▸ Run.stands_start hlog' false
  obtain ⟨v, hrun, -⟩ := hstart.tidy hw paths nofun hnodup hconfig
  obtain ⟨v', hrun', hstands⟩ := hstart'.tidy hw paths nofun hnodup hconfig
  have hchecked : checked = (Run.foretellAll w.place true paths, v) := hrun
  have hfixed : fixed = (Run.foretellAll w.place false paths, v') := hrun'
  have hwet := Run.foretellAll_wet w.place paths
  refine ⟨fun l => ?_, ?_, fun os hos => ?_⟩
  · refine ((Run.follows_dry hstart.logReady paths).contents l id ?_).symm
    rw [hlog]
    nofun
  · rw [hchecked, hfixed]
    exact hwet
  · replace hos : Run.foretellAll w.place true paths = .ok os := by
      rw [hchecked] at hos
      exact hos
    have hos' : Run.foretellAll w.place false paths = .ok (os.map Run.wet) := by
      rw [hwet, hos]
      rfl
    have hend : Run.Stands w.place false (Run.scanned w.place paths) v' := hstands _ hos'
    have hscanned := Run.isScanned_of_scanned hw paths
    have houtcomes := Run.forall₂_outcomes hos
    rw [hfixed]
    refine ⟨hend.ne_iff hw hscanned houtcomes, fun l => hend.exists_text hscanned, ?_⟩
    rintro args i hargs hverb rfl hnofile
    have hexit := exit_of_check hw hargs hverb hnofile hnodup hconfig hos
    have hchanged := hend.exists_ne_iff hw hscanned houtcomes
    constructor
    · intro hsome
      rw [hexit, if_pos (hchanged.1 hsome)]
    · intro hnone
      rw [hexit, if_neg]
      rintro hsome
      obtain ⟨l, hl⟩ := hchanged.2 hsome
      exact hl (hnone l)

/-- Of two documents one is rewritten. -/
theorem fix_agrees_with_check_sample :
    let w : World := { place := ⟨.folder [
      ("b.md".toList, .file (.text "- b".toList)),
      ("d".toList, .folder [("a.md".toList, .file (.text "a  ".toList))])], [], []⟩ }
    let paths := [".".toList]
    let checked := (Run.check paths).run w
    let fixed := (Run.tidy false paths).run w
    w.place.Plain ∧
      (Run.scanned w.place paths).map (·.2) = [["b.md".toList], ["d".toList, "a.md".toList]] ∧
      (∀ l, checked.2.place.tree.contentAt? l = w.place.tree.contentAt? l) ∧
      fixed.1 = checked.1.map (List.map fun o => { o with dryRun := false }) ∧
      ∃ os, checked.1 = .ok os ∧ os.map (·.status) = [.unchanged, .updated] ∧
        (∀ l, fixed.2.place.tree.contentAt? l ≠ w.place.tree.contentAt? l ↔
          ∃ o ∈ os, o.status = .updated ∧ o.path = .ofLocation l) ∧
        (run ["check".toList] w).1.exit = some 1 := by
  intro w paths checked fixed
  have hsound : w.place.tree.Sound := by
    simp only [w, sound_folder_iff, sound_file, List.forall_mem_cons, List.not_mem_nil,
      false_imp_iff, implies_true, and_true]
    decide +kernel
  have hplain : w.place.Plain := ⟨hsound, rfl, rfl⟩
  have hscanned : (Run.scanned w.place paths).map (·.2) =
      [["b.md".toList], ["d".toList, "a.md".toList]] := by decide +kernel
  have hconfig : ∀ d ∈ Run.scanned w.place paths, d.2.getLast? ≠ some Config.fileName := by
    intro d hd
    have hmem : d.2 ∈ (Run.scanned w.place paths).map (·.2) := List.mem_map_of_mem hd
    rw [hscanned] at hmem
    have hall : ∀ l ∈ [["b.md".toList], ["d".toList, "a.md".toList]],
        l.getLast? ≠ some Config.fileName := by decide
    exact hall d.2 hmem
  have hstatus : checked.1.toOption.map (List.map (·.status)) = some [.unchanged, .updated] := by
    decide +kernel
  have hargs : Invocation.ofArgs ["check".toList] =
      .ok ⟨.check, paths, false, false, false, none⟩ := rfl
  have hrewritten : fixed.2.place.tree.contentAt? ["d".toList, "a.md".toList] ≠
      w.place.tree.contentAt? ["d".toList, "a.md".toList] := by decide +kernel
  obtain ⟨hsame, hequal, hok⟩ := fix_agrees_with_check hplain rfl rfl rfl
    (by rw [hscanned]; decide) hconfig
  refine ⟨hplain, hscanned, hsame, hequal, ?_⟩
  rcases hchecked : checked.1 with f | os
  · rw [hchecked] at hstatus
    cases hstatus
  · obtain ⟨hchanged, -, hexit⟩ := hok os hchecked
    rw [hchecked] at hstatus
    exact ⟨os, rfl, Option.some_inj.1 hstatus, hchanged,
      (hexit _ _ hargs rfl rfl rfl).1 ⟨_, hrewritten⟩⟩

end Command

end MarkTidy
