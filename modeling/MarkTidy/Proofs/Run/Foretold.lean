import MarkTidy.Proofs.Run.Touched

/-!
Runs that can be foretold. Where there are no links, and no document is scanned twice or is a
configuration file, a run finds and reads what was there when it started, however much it has
rewritten on the way.
-/

namespace MarkTidy

open Text MarkTidy.Tree

/-! ### Places without links -/

/-- A place that is stored as it should be and has no links; its own folder is there. -/
structure Place.Plain (w : Place) : Prop where
  sound : w.tree.Sound
  links : w.tree.links = 0
  here : w.tree.kindAt? w.here = some .folder

namespace Place.Plain

variable {w : Place} {l file root : Location} {p : Path}

theorem no_link (h : w.Plain) (l : Location) (target : Text) :
    w.tree.kindAt? l ≠ some (.link target) :=
  kindAt?_ne_link h.links l target

theorem isStep_here (h : w.Plain) : ∀ n ∈ w.here, IsStep n := by
  obtain ⟨s, hs, -⟩ := kindAt?_eq_some_iff.1 h.here
  exact fun n hn => (h.sound.isName_of_at? hs n hn).toIsStep

/-- A path that was written out leads nowhere else. -/
theorem eq_of_locate (h : w.Plain) (hl : ∀ n ∈ l, IsStep n) {l' : Location}
    (hloc : w.locate (.ofLocation l) = .ok l') : l' = l :=
  Tree.eq_of_locate h.no_link hl (locate_eq_ok_iff.1 hloc).2

theorem locate_of_file (h : w.Plain) (hl : w.tree.kindAt? l = some .file) :
    w.locate (.ofLocation l) = .ok l := by
  obtain ⟨s, hs, hk⟩ := kindAt?_eq_some_iff.1 hl
  refine locate_ofLocation h.sound hs ?_
  rintro target rfl
  cases hk

/-- A configuration file is found under its own name. -/
theorem getLast?_of_fileOf (h : w.Plain) (hfile : Config.fileOf w p = .ok file)
    (hloc : w.locate (.ofLocation file) = .ok l) : l.getLast? = some Config.fileName := by
  obtain ⟨q, hq⟩ := Config.exists_resolve_of_fileOf hfile
  rw [h.eq_of_locate (isStep_of_resolve h.isStep_here hq) hloc]
  exact getLast?_resolve h.no_link Config.isStep_fileName hq

/-- An ignore file has no extension. -/
theorem suffix_of_ignore (h : w.Plain) (hroot : w.resolve p = .ok root)
    (hloc : w.locate ((Path.ofLocation root).child ".gitignore".toList) = .ok l) :
    (Path.ofLocation l).suffix = [] := by
  have hstep : IsStep ".gitignore".toList := by constructor <;> decide
  have hl : l = root ++ [".gitignore".toList] := by
    refine h.eq_of_locate (fun n hn => ?_) hloc
    rcases List.mem_append.1 hn with hn | hn
    · exact isStep_of_resolve h.isStep_here hroot n hn
    · rwa [List.mem_singleton.1 hn]
  rw [hl, Path.suffix, Path.name, Path.ofLocation, List.getLast?_concat]
  decide

theorem kindAt?_of_mem_documents (h : w.Plain) {shown : Text} {extensions excluded : List Text}
    {ls : List Location} (hls : Scan.documents w p shown extensions excluded = .ok ls)
    (hl : l ∈ ls) : w.tree.kindAt? l = some .file := by
  obtain ⟨q, -, hls⟩ := exists_of_bind hls
  obtain ⟨root, hroot, hls⟩ := exists_of_bind hls
  obtain ⟨there, -, hls⟩ := exists_of_bind hls
  cases there with
  | false => cases hls
  | true =>
    obtain ⟨single, hsingle, hls⟩ := exists_of_bind hls
    cases single with
    | true =>
      obtain rfl := Except.ok.inj hls
      rw [List.mem_singleton.1 hl]
      refine kindAt?_of_kindOf? h.no_link (isStep_of_resolve h.isStep_here hroot) ?_
      rw [isFile_eq] at hsingle
      cases hk : w.kindOf? (.ofLocation root) with
      | error e =>
        rw [hk] at hsingle
        cases hsingle
      | ok k =>
        rw [hk] at hsingle
        rw [of_decide_eq_true (Except.ok.inj hsingle)]
    | false =>
      obtain ⟨rules, -, hls⟩ := exists_of_bind hls
      obtain rfl := Except.ok.inj hls
      obtain ⟨p', hp', rfl⟩ := List.mem_map.1 hl
      replace hp' := List.mem_of_mem_filter hp'
      cases hs : w.tree.at? root with
      | none =>
        rw [hs] at hp'
        simp [Scan.files, Scan.entriesOf, Scan.ordered] at hp'
      | some s =>
        rw [hs, Option.getD_some] at hp'
        obtain ⟨p'', rfl, hlisted⟩ := (Scan.mem_files (h.sound.of_at? hs)).1 hp'
        rw [kindAt?_append hs]
        rcases hlisted.stop with hstop | ⟨target, hstop, -⟩
        · exact hstop
        · rw [← kindAt?_append hs] at hstop
          exact absurd hstop (h.no_link _ _)

end Place.Plain

namespace Run

variable {w : Place} {v v' : World} {dryRun : Bool} {done : List (Config × Location)}
  {c : Config} {l : Location} {shown : Text}

/-! ### What is foretold -/

/-- What will become of the documents of a plan, as the files are now. -/
def Plan.foretell (q : Plan) (w : Place) (dryRun : Bool) : Except Failure (List Outcome) :=
  q.documents.mapM fun l =>
    Run.foretell w (.ofLocation l) q.config.rules q.config.extensions dryRun

/-- What will become of the documents below some paths, as the files are now. -/
def foretellAll (w : Place) (dryRun : Bool) : List Text → Except Failure (List Outcome)
  | [] => .ok []
  | shown :: paths => do
    let q ← plan w shown
    let os ← q.foretell w dryRun
    let os' ← foretellAll w dryRun paths
    return os ++ os'

/-- The documents of a plan, with its configuration. -/
def Plan.scanned (q : Plan) : List (Config × Location) := q.documents.map (q.config, ·)

/-- The documents that are found below some paths, with the configuration of the path that each was
found below. Nothing is found once a path is at fault. -/
def scanned (w : Place) : List Text → List (Config × Location)
  | [] => []
  | shown :: paths =>
    match plan w shown with
    | .ok q => q.scanned ++ scanned w paths
    | .error _ => []

theorem documents_of_plan {q : Plan} (h : plan w shown = .ok q) :
    Scan.documents w q.target q.target.toText q.config.extensions q.config.excluded =
      .ok q.documents ∧ Config.load w q.target = .ok q.config := by
  obtain ⟨target, -, h⟩ := Place.exists_of_bind h
  obtain ⟨there, -, h⟩ := Place.exists_of_bind h
  cases there with
  | false => cases h
  | true =>
    obtain ⟨config, hconfig, h⟩ := Place.exists_of_bind h
    obtain ⟨documents, hdocuments, h⟩ := Place.exists_of_bind h
    obtain rfl := Except.ok.inj h
    exact ⟨hdocuments, hconfig⟩

/-- What scanning promises of a document. -/
structure IsScanned (w : Place) (d : Config × Location) : Prop where
  file : w.tree.kindAt? d.2 = some .file
  extensions : [] ∉ d.1.extensions

theorem isScanned_of_plan (h : w.Plain) {q : Plan} (hq : plan w shown = .ok q) :
    ∀ d ∈ q.scanned, IsScanned w d := by
  rintro _ hd
  obtain ⟨l, hl, rfl⟩ := List.mem_map.1 hd
  obtain ⟨hdocuments, hconfig⟩ := documents_of_plan hq
  exact ⟨h.kindAt?_of_mem_documents hdocuments hl, Config.nil_not_mem_extensions hconfig⟩

/-! ### How the files stand -/

/-- What a run leaves of a scanned document. -/
def after (dryRun : Bool) (d : Config × Location) (c : Content) : Content :=
  if dryRun then c else rewritten (.ofLocation d.2) d.1.rules d.1.extensions c

/-- How the files stand when some scanned documents are done: these are as they shall be, all others
as they were. -/
structure Stands (w : Place) (dryRun : Bool) (done : List (Config × Location)) (v : World) :
    Prop where
  log : v.logFile? = none
  place : Place.SameOutline w v.place
  kept : ∀ l, l ∉ done.map (·.2) → w.tree.contentAt? l = v.place.tree.contentAt? l
  treated : ∀ d ∈ done,
    v.place.tree.contentAt? d.2 = (w.tree.contentAt? d.2).map (after dryRun d)

namespace Stands

theorem logReady (h : Stands w dryRun done v) : v.LogReady := fun l hl => by
  rw [h.log] at hl
  cases hl

theorem follows (h : Stands w dryRun done v) (hv : World.Follows untouched v v') :
    Stands w dryRun done v' where
  log := hv.logFile? ▸ h.log
  place := h.place.trans hv.place
  kept l hl := (h.kept l hl).trans (hv.contents l id (by rw [h.log]; nofun))
  treated d hd := by rw [← h.treated d hd, ← hv.contents d.2 id (by rw [h.log]; nofun)]

/-- A file without an extension is as it was. -/
theorem eq_of_suffix (h : Stands w dryRun done v) (hdone : ∀ d ∈ done, IsScanned w d)
    (hl : (Path.ofLocation l).suffix = []) :
    w.tree.contentAt? l = v.place.tree.contentAt? l := by
  by_cases hmem : l ∈ done.map (·.2)
  · obtain ⟨d, hd, rfl⟩ := List.mem_map.1 hmem
    have hsame : after dryRun d = id := by
      funext c
      have hext : ¬d.1.extensions.contains (lower (Path.ofLocation d.2).suffix) = true := by
        rw [hl, List.contains_iff_mem]
        exact (hdone d hd).extensions
      cases dryRun with
      | true => rfl
      | false => exact rewritten_of_other hext c
    rw [h.treated d hd, hsame, Option.map_id, id]
  · exact h.kept l hmem

/-- A plan is made as at the start. -/
theorem plan_eq (hw : w.Plain) (h : Stands w dryRun done v) (hdone : ∀ d ∈ done, IsScanned w d)
    (hconfig : ∀ d ∈ done, d.2.getLast? ≠ some Config.fileName) (shown : Text) :
    plan v.place shown = plan w shown := by
  refine (plan_congr h.place shown ?_ ?_).symm
  · intro p file l hfile hloc
    refine h.kept l fun hmem => ?_
    obtain ⟨d, hd, rfl⟩ := List.mem_map.1 hmem
    exact hconfig d hd (hw.getLast?_of_fileOf hfile hloc)
  · intro q root l hroot hloc
    exact h.eq_of_suffix hdone (hw.suffix_of_ignore hroot hloc)

theorem contentAt?_eq (h : Stands w dryRun done v) (hnew : l ∉ done.map (·.2)) :
    v.place.tree.contentAt? l = w.tree.contentAt? l :=
  (h.kept l hnew).symm

/-- A document that is not done yet will become what was foretold at the start. -/
theorem foretell_eq (hw : w.Plain) (h : Stands w dryRun done v)
    (hl : w.tree.kindAt? l = some .file) (hnew : l ∉ done.map (·.2)) (rules : Rules)
    (extensions : List Text) : foretell v.place (.ofLocation l) rules extensions dryRun =
      foretell w (.ofLocation l) rules extensions dryRun := by
  have hcontent : w.content (.ofLocation l) = v.place.content (.ofLocation l) := by
    refine h.place.alike.content fun l' hl' => ?_
    obtain rfl := Except.ok.inj ((hw.locate_of_file hl).symm.trans hl')
    exact h.kept l hnew
  rw [foretell, foretell, hcontent]

/-- One more document is done. -/
theorem step (hw : w.Plain) (h : Stands w dryRun done v) {d : Config × Location}
    (hd : IsScanned w d) (hnew : d.2 ∉ done.map (·.2)) :
    ∃ o v', (lintFile (.ofLocation d.2) d.1.rules d.1.extensions dryRun).run v = (.ok o, v') ∧
      foretell w (.ofLocation d.2) d.1.rules d.1.extensions dryRun = .ok o ∧
      Stands w dryRun (done ++ [d]) v' := by
  obtain ⟨v', hv'⟩ := settles_lintFile h.logReady (.ofLocation d.2) d.1.rules d.1.extensions dryRun
  have hlocw : w.locate (.ofLocation d.2) = .ok d.2 := hw.locate_of_file hd.file
  have hloc : v.place.locate (.ofLocation d.2) = .ok d.2 := h.place.alike.locate _ ▸ hlocw
  have hnolog : ∀ l, v.logFile? ≠ some l := fun l => by rw [h.log]; nofun
  have hother : ∀ l, l ≠ d.2 → v.place.tree.contentAt? l = v'.place.tree.contentAt? l :=
    fun l hne => hv'.follows.contents l
      (fun hr => hne (Except.ok.inj (hr.2.1.symm.trans hloc))) (hnolog l)
  obtain ⟨c, hc⟩ := Tree.kindAt?_eq_file_iff.1 hd.file
  have hcontent : w.content (.ofLocation d.2) = .ok c := Place.content_eq_ok_iff.2 ⟨_, hlocw, hc⟩
  obtain ⟨o, ho⟩ : ∃ o,
      foretell w (.ofLocation d.2) d.1.rules d.1.extensions dryRun = .ok o := by
    rw [foretell, hcontent]
    split_ifs
    · exact ⟨_, rfl⟩
    · exact ⟨_, rfl⟩
  refine ⟨o, v', hv'.run.trans (by rw [h.foretell_eq hw hd.file hnew, ho]), ho, ?_⟩
  refine ⟨hv'.follows.logFile? ▸ h.log, h.place.trans hv'.follows.place, fun l hl => ?_, ?_⟩
  · rw [List.map_append, List.mem_append, not_or] at hl
    exact (h.kept l hl.1).trans (hother l fun hld => hl.2 (by simp [hld]))
  · intro e he
    rcases List.mem_append.1 he with he | he
    · rw [← h.treated e he]
      refine (hother e.2 fun hed => hnew ?_).symm
      exact hed ▸ List.mem_map_of_mem he
    · rw [List.mem_singleton.1 he, ← h.contentAt?_eq hnew]
      cases dryRun with
      | true =>
        have hsame := hv'.follows.contents d.2 (fun hr => Bool.noConfusion hr.1) (hnolog d.2)
        have hid : after true d = id := rfl
        rw [hid, Option.map_id, id, hsame]
      | false => exact hv'.result rfl d.2 hloc (hnolog d.2)

theorem lint (hw : w.Plain) (q : Plan) (h : Stands w dryRun done v)
    (hq : ∀ d ∈ q.scanned, IsScanned w d) (hnodup : ((done ++ q.scanned).map (·.2)).Nodup) :
    ∃ os v', (q.lint dryRun).run v = (.ok os, v') ∧ q.foretell w dryRun = .ok os ∧
      Stands w dryRun (done ++ q.scanned) v' := by
  obtain ⟨target, config, documents⟩ := q
  induction documents generalizing done v with
  | nil => exact ⟨[], v, rfl, rfl, by rwa [Plan.scanned, List.map_nil, List.append_nil]⟩
  | cons l ls ih =>
    have hsplit : done ++ (Plan.mk target config (l :: ls)).scanned =
        done ++ [(config, l)] ++ (Plan.mk target config ls).scanned := by
      rw [List.append_assoc]
      rfl
    have hnew : l ∉ done.map (·.2) := by
      rw [hsplit, List.map_append, List.map_append] at hnodup
      have hdisjoint := (List.nodup_append.1 (List.nodup_append.1 hnodup).1).2.2
      exact fun hmem => hdisjoint l hmem l (by simp) rfl
    obtain ⟨o, v₁, hrun, ho, hv₁⟩ := h.step hw (hq (config, l) (by simp [Plan.scanned])) hnew
    obtain ⟨os, v₂, hrun', hos, hv₂⟩ := ih hv₁
      (fun d hd => hq d (by simpa [Plan.scanned] using Or.inr hd)) (hsplit ▸ hnodup)
    refine ⟨o :: os, v₂, ?_, ?_, hsplit ▸ hv₂⟩
    · rw [lint_cons ⟨target, config, ls⟩, Action.run_bind_of_ok hrun, Action.run_bind_of_ok hrun']
      rfl
    · rw [Plan.foretell] at hos ⊢
      rw [List.mapM_cons, ho, Place.ok_bind, hos]
      rfl

/-- A run comes to what was foretold, whatever it has rewritten on the way. -/
theorem tidy (hw : w.Plain) (paths : List Text) (h : Stands w dryRun done v)
    (hdone : ∀ d ∈ done, IsScanned w d)
    (hnodup : ((done ++ scanned w paths).map (·.2)).Nodup)
    (hconfig : ∀ d ∈ done ++ scanned w paths, d.2.getLast? ≠ some Config.fileName) :
    ∃ v', (Run.tidy dryRun paths).run v = (foretellAll w dryRun paths, v') ∧
      ∀ os, foretellAll w dryRun paths = .ok os → Stands w dryRun (done ++ scanned w paths) v' := by
  induction paths generalizing done v with
  | nil =>
    refine ⟨v, by rw [tidy_nil]; rfl, fun os _ => ?_⟩
    rwa [scanned, List.append_nil]
  | cons shown paths ih =>
    have hplan := h.plan_eq hw hdone (fun d hd => hconfig d (List.mem_append_left _ hd)) shown
    have hpath := run_tidyPath v dryRun shown
    rw [tidy_cons, foretellAll]
    cases hq : plan w shown with
    | error e =>
      rw [hplan, hq] at hpath
      exact ⟨v, Action.run_bind_of_error hpath, nofun⟩
    | ok q =>
      rw [hplan, hq] at hpath
      have hscanned : scanned w (shown :: paths) = q.scanned ++ scanned w paths := by
        rw [scanned, hq]
      rw [hscanned, ← List.append_assoc] at hnodup hconfig ⊢
      obtain ⟨v₁, hlog, hv₁⟩ := Action.follows_log h.logReady q.record
      have hq' := isScanned_of_plan hw hq
      obtain ⟨os, v₂, hlint, hos, hv₂⟩ := (h.follows hv₁).lint hw q hq'
        (by rw [List.map_append] at hnodup; exact (List.nodup_append.1 hnodup).1)
      have hdone' : ∀ d ∈ done ++ q.scanned, IsScanned w d := fun d hd =>
        (List.mem_append.1 hd).elim (hdone d) (hq' d)
      obtain ⟨v₃, hrest, hv₃⟩ := ih hv₂ hdone' hnodup hconfig
      dsimp only at hpath
      rw [Action.run_bind_of_ok hlog] at hpath
      rw [Action.run_bind_of_ok (hpath.trans hlint), Place.ok_bind, hos, Place.ok_bind]
      cases hos' : foretellAll w dryRun paths with
      | error e =>
        rw [hos'] at hrest
        exact ⟨v₃, Action.run_bind_of_error hrest, nofun⟩
      | ok os' =>
        rw [hos'] at hrest
        exact ⟨v₃, Action.run_bind_of_ok hrest, fun _ _ => hv₃ os' hos'⟩

end Stands

end Run

end MarkTidy
