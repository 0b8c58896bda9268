import MarkTidy.Proofs.Run.Plan

/-!
Which files a run may have written to. A dry run writes to none but the log file; any other run that
comes to its end has named all others as updated.
-/

namespace MarkTidy.Run

open Text World

variable {w w' : World} {dryRun : Bool} {x y : Action (List Outcome)} {l : Location}

/-! ### Runs in parts -/

theorem lint_cons (q : Plan) (l : Location) (ls : List Location) (dryRun : Bool) :
    ({ q with documents := l :: ls } : Plan).lint dryRun = (do
      let o ← lintFile (.ofLocation l) q.config.rules q.config.extensions dryRun
      let os ← ({ q with documents := ls } : Plan).lint dryRun
      return [o] ++ os) := by
  simp only [Plan.lint, List.mapM_cons, List.singleton_append]

theorem tidy_nil (dryRun : Bool) : tidy dryRun [] = pure [] := by
  simp [tidy]

theorem tidy_cons (dryRun : Bool) (shown : Text) (paths : List Text) :
    tidy dryRun (shown :: paths) = (do
      let os ← tidyPath dryRun shown
      let os' ← tidy dryRun paths
      return os ++ os') := by
  simp [tidy, List.mapM_cons]

/-! ### What is reported -/

/-- A file that the path of an updated document leads to. After a failure it may be any. -/
def Reported (w : Place) (r : Except Failure (List Outcome)) (l : Location) : Prop :=
  ∀ os, r = .ok os → ∃ o ∈ os, o.status = .updated ∧ w.locate o.path = .ok l

/-- An action that writes to the log file and, unless it is dry, to the files that it reports. -/
def Accounts (dryRun : Bool) (x : Action (List Outcome)) : Prop :=
  ∀ w, LogReady w →
    Follows (fun l => dryRun = false ∧ Reported w.place (x.run w).1 l) w (x.run w).2

theorem accounts_nil (dryRun : Bool) : Accounts dryRun (pure []) := fun w _ => .refl _ w

theorem Accounts.append (hx : Accounts dryRun x) (hy : Accounts dryRun y) :
    Accounts dryRun (do let os ← x; let os' ← y; return os ++ os') := by
  intro w hready
  have hw := hx w hready
  cases hxr : x.run w with
  | mk r v =>
    rw [hxr] at hw
    cases r with
    | error e =>
      rw [Action.run_bind_of_error hxr]
      exact hw
    | ok os =>
      rw [Action.run_bind_of_ok hxr]
      have hv := hy v (hw.logReady hready)
      cases hyr : y.run v with
      | mk r' v' =>
        rw [hyr] at hv
        cases r' with
        | error e =>
          rw [Action.run_bind_of_error hyr]
          exact (hw.mono fun l hl => ⟨hl.1, nofun⟩).trans (hv.mono fun l hl => ⟨hl.1, nofun⟩)
        | ok os' =>
          rw [Action.run_bind_of_ok hyr]
          have hfirst : ∀ l, Reported w.place (.ok os) l → Reported w.place (.ok (os ++ os')) l := by
            rintro l hl _ ⟨⟩
            obtain ⟨o, ho, h⟩ := hl os rfl
            exact ⟨o, List.mem_append_left _ ho, h⟩
          have hsecond : ∀ l, Reported v.place (.ok os') l →
              Reported w.place (.ok (os ++ os')) l := by
            rintro l hl _ ⟨⟩
            obtain ⟨o, ho, hs, hloc⟩ := hl os' rfl
            exact ⟨o, List.mem_append_right _ ho, hs, hw.alike.locate o.path ▸ hloc⟩
          exact (hw.mono fun l hl => ⟨hl.1, hfirst l hl.2⟩).trans
            (hv.mono fun l hl => ⟨hl.1, hsecond l hl.2⟩)

theorem path_of_foretell {w : Place} {p : Path} {rules : Rules} {extensions : List Text}
    {o : Outcome} (h : foretell w p rules extensions dryRun = .ok o) : o.path = p := by
  rw [foretell] at h
  split_ifs at h
  · cases hc : w.content p with
    | error e =>
      rw [hc] at h
      cases h
    | ok c =>
      rw [hc] at h
      cases h
      cases c with
      | binary bytes => rfl
      | text old =>
        rw [verdict]
        split_ifs <;> rfl
  · cases h
    rfl

theorem accounts_lintFile (p : Path) (rules : Rules) (extensions : List Text) (dryRun : Bool) :
    Accounts dryRun (do let o ← lintFile p rules extensions dryRun; return [o]) := by
  intro w hready
  obtain ⟨v, h⟩ := settles_lintFile hready p rules extensions dryRun
  cases hfore : foretell w.place p rules extensions dryRun with
  | error e =>
    rw [Action.run_bind_of_error (h.run.trans (by rw [hfore]))]
    exact h.follows.mono fun l hl => ⟨hl.1, nofun⟩
  | ok o =>
    rw [Action.run_bind_of_ok (h.run.trans (by rw [hfore]))]
    refine h.follows.mono fun l ⟨hdry, hl, o', ho', hs⟩ => ⟨hdry, ?_⟩
    rintro _ ⟨⟩
    obtain rfl := Except.ok.inj (hfore.symm.trans ho')
    exact ⟨o, List.mem_singleton_self _, hs, path_of_foretell hfore ▸ hl⟩

theorem accounts_lint (q : Plan) (dryRun : Bool) : Accounts dryRun (q.lint dryRun) := by
  obtain ⟨target, config, documents⟩ := q
  induction documents with
  | nil => exact accounts_nil dryRun
  | cons l ls ih =>
    have h := (accounts_lintFile (.ofLocation l) config.rules config.extensions dryRun).append ih
    rw [lint_cons ⟨target, config, ls⟩ l ls]
    simpa only [bind_assoc, pure_bind] using h

theorem accounts_tidyPath (dryRun : Bool) (shown : Text) :
    Accounts dryRun (tidyPath dryRun shown) := by
  intro w hready
  rw [run_tidyPath]
  cases plan w.place shown with
  | error e => exact .refl _ w
  | ok q =>
    obtain ⟨v, hlog, hv⟩ := Action.follows_log hready q.record
    have h := accounts_lint q dryRun v (hv.logReady hready)
    dsimp only
    rw [Action.run_bind_of_ok hlog]
    refine (hv.mono fun _ => False.elim).trans (h.mono fun l hl => ⟨hl.1, fun os hos => ?_⟩)
    obtain ⟨o, ho, hs, hloc⟩ := hl.2 os hos
    exact ⟨o, ho, hs, hv.alike.locate o.path ▸ hloc⟩

/-- A run that is not dry reports each file that it writes to, if it comes to its end. -/
theorem accounts_tidy (dryRun : Bool) (paths : List Text) : Accounts dryRun (tidy dryRun paths) := by
  induction paths with
  | nil =>
    rw [tidy_nil]
    exact accounts_nil dryRun
  | cons shown paths ih =>
    rw [tidy_cons]
    exact (accounts_tidyPath dryRun shown).append ih

/-- A dry run writes to the log file alone. -/
theorem follows_dry (hready : LogReady w) (paths : List Text) :
    Follows untouched w ((tidy true paths).run w).2 :=
  (accounts_tidy true paths w hready).mono fun _ hl => Bool.noConfusion hl.1

end MarkTidy.Run
