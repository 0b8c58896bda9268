import MarkTidy.Proofs.Run.Documents
import MarkTidy.Proofs.Run.Touched
import MarkTidy.Proofs.Tree.Resolve
import MarkTidy.Proofs.Tree.Wanting

/-!
Documents that are not there. A scan lists a link whatever it leads to, if it is not to a folder; to
lint it is to open what it leads to. So a run below a folder that is there ends for want of a file
exactly if it comes to a link that leads to nothing.
-/

namespace MarkTidy

open Text MarkTidy.Tree

/-! ### Plans that want for no file -/

section

variable {w : Place} {p : Path} {l root : Location} {f : Failure} {shown : Text}
  {extensions excluded : List Text} {ls : List Location}

theorem Config.group_of_ofDocument {d : Yaml.Document} (h : ofDocument root d = .error f) :
    f.group ≠ .notFound := by
  rw [ofDocument] at h
  split at h
  · cases h
  · split at h
    · dsimp only at h
      split at h
      · cases h
        intro hgroup
        cases hgroup
      · cases h
    · cases h
      intro hgroup
      cases hgroup

theorem Config.group_of_ofText {file t : Text} (h : ofText root file t = .error f) :
    f.group ≠ .notFound := by
  rw [ofText] at h
  split at h
  · cases h
  · split at h
    · cases h
      intro hgroup
      cases hgroup
    · cases h
      intro hgroup
      cases hgroup
    · exact group_of_ofDocument h

theorem Config.group_of_fileOf (h : Config.fileOf w p = .error f) : f.group ≠ .notFound := by
  rcases Place.error_of_bind h with h | ⟨q, -, h⟩
  · exact Place.group_of_expandHome h
  rcases Place.error_of_bind h with h | ⟨folder, -, h⟩
  · exact Place.group_of_isFolder h
  split_ifs at h
  · exact Place.group_of_resolve h
  · exact Place.group_of_resolve h
  · exact Place.group_of_resolve h

theorem Config.group_of_load (hhere : w.tree.kindAt? w.here = some .folder)
    (h : Config.load w p = .error f) : f.group ≠ .notFound := by
  rcases Place.error_of_bind h with h | ⟨file, -, h⟩
  · exact Config.group_of_fileOf h
  rcases Place.error_of_bind h with h | ⟨root, -, h⟩
  · exact Place.group_of_resolve h
  rcases Place.error_of_bind h with h | ⟨there, hthere, h⟩
  · exact Place.group_of_holds h
  cases there with
  | false => cases h
  | true =>
    rcases Place.error_of_bind h with h | ⟨t, -, h⟩
    · exact Place.group_of_text hhere hthere h
    · exact Config.group_of_ofText h

theorem Scan.group_of_rulesFor (hhere : w.tree.kindAt? w.here = some .folder) {more : List Text}
    (h : Scan.rulesFor w root more = .error f) : f.group ≠ .notFound := by
  rcases Place.error_of_bind h with h | ⟨there, hthere, h⟩
  · exact Place.group_of_holds h
  cases there with
  | false => cases h
  | true =>
    rcases Place.error_of_bind h with h | ⟨t, -, h⟩
    · exact Place.group_of_text hhere hthere h
    · cases h

/-- A path as it is written leads to a folder. -/
structure IsTarget (w : Place) (shown : Text) (p : Path) : Prop where
  expand : w.expandHome (Path.ofText shown) = .ok p
  isFolder : w.isFolder p = .ok true

namespace IsTarget

/-- A folder that is there is also there when its path is written out. -/
theorem exists_resolve (h : IsTarget w shown p) (hsound : w.tree.Sound)
    (hhere : w.tree.kindAt? w.here = some .folder) :
    ∃ root entries, w.resolve p = .ok root ∧ w.tree.at? root = some (folder entries) := by
  obtain ⟨root, hloc, hk⟩ := Place.exists_of_isFolder h.isFolder
  obtain ⟨entries, hat⟩ := kindAt?_eq_folder_iff.1 hk
  exact ⟨root, entries, Place.resolve_of_locate hsound hhere hloc (by rw [hk]; rfl), hat⟩

theorem holds (h : IsTarget w shown p) : w.holds p = .ok true := by
  obtain ⟨root, hloc, hk⟩ := Place.exists_of_isFolder h.isFolder
  rw [Place.holds_eq, Place.kindOf?_eq_some_iff.2 ⟨root, hloc, hk⟩]
  rfl

theorem plan_eq (h : IsTarget w shown p) : Run.plan w shown = do
    let config ← Config.load w p
    let documents ← Scan.documents w p p.toText config.extensions config.excluded
    return ⟨p, config, documents⟩ := by
  rw [Run.plan, h.expand, Place.ok_bind, h.holds]
  rfl

/-- A plan for a folder that is there does not fail for want of a file. -/
theorem group_of_plan (h : IsTarget w shown p) (hsound : w.tree.Sound)
    (hhere : w.tree.kindAt? w.here = some .folder) (hplan : Run.plan w shown = .error f) :
    f.group ≠ .notFound := by
  obtain ⟨root, entries, hroot, hat⟩ := h.exists_resolve hsound hhere
  rw [h.plan_eq] at hplan
  rcases Place.error_of_bind hplan with hplan | ⟨config, -, hplan⟩
  · exact Config.group_of_load hhere hplan
  rcases Place.error_of_bind hplan with hplan | ⟨documents, -, hplan⟩
  · rw [Scan.documents_eq_bind hsound (Place.expandHome_of_expandHome h.expand) hroot hat] at hplan
    rcases Place.error_of_bind hplan with hplan | ⟨rules, -, hplan⟩
    · exact Scan.group_of_rulesFor hhere hplan
    · cases hplan
  · cases hplan

/-- The documents of a plan for a folder are files and links. -/
theorem kindAt?_of_plan (h : IsTarget w shown p) (hsound : w.tree.Sound)
    (hhere : w.tree.kindAt? w.here = some .folder) {q : Run.Plan}
    (hplan : Run.plan w shown = .ok q) (hl : l ∈ q.documents) :
    w.tree.kindAt? l = some .file ∨ ∃ target, w.tree.kindAt? l = some (.link target) := by
  obtain ⟨root, entries, hroot, hat⟩ := h.exists_resolve hsound hhere
  rw [h.plan_eq] at hplan
  obtain ⟨config, -, hplan⟩ := Place.exists_of_bind hplan
  obtain ⟨documents, hdocuments, hplan⟩ := Place.exists_of_bind hplan
  cases hplan
  rw [Scan.documents_eq_bind hsound (Place.expandHome_of_expandHome h.expand) hroot hat]
    at hdocuments
  obtain ⟨rules, -, hfound⟩ := Place.exists_of_bind hdocuments
  cases hfound
  obtain ⟨l', hl', rfl⟩ := List.mem_map.1 hl
  exact ((Scan.mem_found hsound hat).1 hl').kindAt? hsound

end IsTarget

end

/-! ### Runs that end for want of a file -/

/-- A link whose path leads nowhere. -/
structure Dangling (w : Place) (l : Location) : Prop where
  link : ∃ target, w.tree.kindAt? l = some (.link target)
  nowhere : w.LeadsNowhere (.ofLocation l)

namespace Run

variable {w : Place} {v : World} {dryRun : Bool} {l : Location} {f : Failure} {shown : Text}
  {rules : Rules} {extensions : List Text} {p : Path}

theorem foretell_eq_error_iff : foretell w p rules extensions dryRun = .error f ↔
    extensions.contains (lower p.suffix) = true ∧ w.content p = .error f := by
  rw [foretell]
  split_ifs with hext
  · rw [and_iff_right hext]
    cases w.content p <;> simp [Except.map]
  · exact iff_of_false (fun h => by cases h) fun h => hext h.1

theorem foretell_error_congr {w' : Place} (h : Place.Alike w w') :
    foretell w p rules extensions dryRun = .error f ↔
      foretell w' p rules extensions dryRun = .error f := by
  rw [foretell_eq_error_iff, foretell_eq_error_iff, h.content_eq_error_iff]

/-- By way of entries with `P` the list comes to an entry with `Q`. -/
def ComesTo (P Q : Location → Prop) (ls : List Location) : Prop :=
  ∃ before l after, ls = before ++ l :: after ∧ (∀ d ∈ before, P d) ∧ Q l

section

variable {P Q Q' : Location → Prop} {ls : List Location}

theorem not_comesTo_nil : ¬ComesTo P Q [] := by
  rintro ⟨before, l, after, h, -⟩
  simp at h

theorem comesTo_cons_iff : ComesTo P Q (l :: ls) ↔ Q l ∨ P l ∧ ComesTo P Q ls := by
  constructor
  · rintro ⟨before, d, after, h, hP, hQ⟩
    cases before with
    | nil =>
      obtain ⟨rfl, -⟩ := List.cons.inj h
      exact .inl hQ
    | cons x before =>
      obtain ⟨rfl, hls⟩ := List.cons.inj h
      obtain ⟨hx, hP⟩ := List.forall_mem_cons.1 hP
      exact .inr ⟨hx, before, d, after, hls, hP, hQ⟩
  · rintro (hQ | ⟨hl, before, d, after, rfl, hP, hQ⟩)
    · exact ⟨[], l, ls, rfl, by simp, hQ⟩
    · exact ⟨l :: before, d, after, rfl, List.forall_mem_cons.2 ⟨hl, hP⟩, hQ⟩

theorem ComesTo.imp (h : ComesTo P Q ls) (hQ : ∀ l ∈ ls, Q l → Q' l) : ComesTo P Q' ls := by
  obtain ⟨before, l, after, rfl, hP, hl⟩ := h
  exact ⟨before, l, after, rfl, hP, hQ l (by simp) hl⟩

end

/-- A document that can be read, or is skipped unread. -/
def Readable (w : Place) (c : Config) (dryRun : Bool) (l : Location) : Prop :=
  ∃ o, foretell w (.ofLocation l) c.rules c.extensions dryRun = .ok o

/-- An action fails exactly if it does so before its result is put together. -/
theorem run_bind_pure_eq_error_iff {α β : Type} (x : Action α) (g : α → β) :
    ((x >>= fun a => pure (g a)).run v).1 = .error f ↔ (x.run v).1 = .error f := by
  rw [Action.run_bind]
  rcases x.run v with ⟨r, v'⟩
  cases r with
  | error e => simp
  | ok a => exact iff_of_false (fun h => by cases h) (fun h => by cases h)

/-- Linting the documents of a plan ends early at the first one that cannot be read, as the files
were at the start. -/
theorem lint_eq_error_iff (hready : v.LogReady) (hw : Place.SameOutline w v.place) (q : Plan) :
    ((q.lint dryRun).run v).1 = .error f ↔ ComesTo (Readable w q.config dryRun)
      (fun l => foretell w (.ofLocation l) q.config.rules q.config.extensions dryRun = .error f)
      q.documents := by
  obtain ⟨target, config, documents⟩ := q
  induction documents generalizing v with
  | nil =>
    rw [Plan.lint, List.mapM_nil]
    exact iff_of_false (fun h => by cases h) not_comesTo_nil
  | cons d ds ih =>
    obtain ⟨v', hv'⟩ :=
      settles_lintFile hready (.ofLocation d) config.rules config.extensions dryRun
    have hrest := ih (hv'.follows.logReady hready) (hw.trans hv'.follows.place)
    rw [lint_cons ⟨target, config, ds⟩, comesTo_cons_iff, ← hrest]
    simp only [Readable, foretell_error_congr hw.alike]
    cases hd : foretell v.place (.ofLocation d) config.rules config.extensions dryRun with
    | error e =>
      have hunread : ¬∃ o,
          foretell w (.ofLocation d) config.rules config.extensions dryRun = .ok o := by
        rintro ⟨o, ho⟩
        cases ho.symm.trans ((foretell_error_congr hw.alike).2 hd)
      rw [Action.run_bind_of_error (hv'.run.trans (by rw [hd])), or_iff_left fun h => hunread h.1]
      simp
    | ok o =>
      have hread : ∃ o,
          foretell w (.ofLocation d) config.rules config.extensions dryRun = .ok o := by
        cases ho : foretell w (.ofLocation d) config.rules config.extensions dryRun with
        | error e => cases hd.symm.trans ((foretell_error_congr hw.alike).1 ho)
        | ok o => exact ⟨o, rfl⟩
      rw [Action.run_bind_of_ok (hv'.run.trans (by rw [hd])), run_bind_pure_eq_error_iff,
        or_iff_right (fun h => by cases h), and_iff_right hread]

theorem tidy_singleton_eq_error_iff : ((tidy dryRun [shown]).run v).1 = .error f ↔
    ((tidyPath dryRun shown).run v).1 = .error f := by
  rw [tidy_cons, tidy_nil]
  simp only [pure_bind]
  exact run_bind_pure_eq_error_iff _ _

/-- A document of a folder that is to be read is not found exactly if it is a dangling link. -/
theorem foretell_notFound_iff (hsound : w.tree.Sound)
    (hhere : w.tree.kindAt? w.here = some .folder)
    (hl : w.tree.kindAt? l = some .file ∨ ∃ target, w.tree.kindAt? l = some (.link target)) :
    (∃ f, foretell w (.ofLocation l) rules extensions dryRun = .error f ∧ f.group = .notFound) ↔
      extensions.contains (lower (Path.ofLocation l).suffix) = true ∧ Dangling w l := by
  obtain ⟨s, hs⟩ : ∃ s, w.tree.at? l = some s := by
    rcases hl with hl | ⟨target, hl⟩ <;>
    · obtain ⟨s, hs, -⟩ := kindAt?_eq_some_iff.1 hl
      exact ⟨s, hs⟩
  simp only [foretell_eq_error_iff, and_assoc, exists_and_left]
  rw [Place.content_notFound_iff hhere (Place.isUsable_ofLocation hsound hs)]
  refine and_congr_right fun _ => ⟨fun hno => ⟨hl.resolve_left fun hfile => ?_, hno⟩,
    fun h => h.nowhere⟩
  have hloc : w.tree.locate w.here (.ofLocation l) = .ok l := hsound.locate_of_at? hs (by
    rintro target rfl
    simp [kindAt?, hs, kind] at hfile)
  rcases hno with hno | ⟨l', hno, hnone⟩
  · cases hloc.symm.trans hno
  · obtain rfl := Except.ok.inj (hloc.symm.trans hno)
    cases hfile.symm.trans hnone

/-- What is found below a folder that is there are files and links. A run below it ends for want of
a file exactly if it comes to a dangling link, by way of documents that can be read. -/
theorem tidy_notFound_iff {w : World} {p : Path} (hsound : w.place.tree.Sound)
    (hhere : w.place.tree.kindAt? w.place.here = some .folder) (hready : w.LogReady)
    (h : IsTarget w.place shown p) (dryRun : Bool) :
    (∀ q, plan w.place shown = .ok q → ∀ l ∈ q.documents,
        w.place.tree.kindAt? l = some .file ∨
          ∃ target, w.place.tree.kindAt? l = some (.link target)) ∧
      ((∃ f, ((tidy dryRun [shown]).run w).1 = .error f ∧ f.group = .notFound) ↔
        ∃ q, plan w.place shown = .ok q ∧ ComesTo (Readable w.place q.config dryRun)
          (fun l => q.config.extensions.contains (lower (Path.ofLocation l).suffix) = true ∧
            Dangling w.place l) q.documents) := by
  have hkinds := fun q hq l hl => h.kindAt?_of_plan (l := l) hsound hhere (q := q) hq hl
  refine ⟨hkinds, ?_⟩
  simp only [tidy_singleton_eq_error_iff, run_tidyPath]
  cases hplan : plan w.place shown with
  | error e =>
    refine iff_of_false ?_ (by rintro ⟨q, hq, -⟩; cases hq)
    rintro ⟨f, hf, hgroup⟩
    cases hf
    exact h.group_of_plan hsound hhere hplan hgroup
  | ok q =>
    obtain ⟨v, hlog, hv⟩ := Action.follows_log hready q.record
    have hmem : ∀ l ∈ q.documents, (∃ f, foretell w.place (.ofLocation l) q.config.rules
        q.config.extensions dryRun = .error f ∧ f.group = .notFound) ↔
          q.config.extensions.contains (lower (Path.ofLocation l).suffix) = true ∧
            Dangling w.place l :=
      fun l hl => foretell_notFound_iff hsound hhere (hkinds q hplan l hl)
    dsimp only
    rw [Action.run_bind_of_ok hlog]
    simp only [lint_eq_error_iff (hv.logReady hready) hv.place q]
    constructor
    · rintro ⟨f, hcomes, hgroup⟩
      exact ⟨q, rfl, hcomes.imp fun l hl hf => (hmem l hl).1 ⟨f, hf, hgroup⟩⟩
    · rintro ⟨_, ⟨⟩, before, l, after, hsplit, hbefore, hl⟩
      obtain ⟨f, hf, hgroup⟩ := (hmem l (by simp [hsplit])).2 hl
      exact ⟨f, ⟨before, l, after, hsplit, hbefore, hf⟩, hgroup⟩

/-- Of two documents the second is a link to nothing: the first is rewritten, and then the run
ends. -/
theorem tidy_notFound_iff_sample :
    let w : World := { place := ⟨.folder [("a.md".toList, .file (.text "x  ".toList)),
      ("b.md".toList, .link "nowhere".toList)], [], []⟩ }
    w.place.tree.Sound ∧ w.place.tree.kindAt? w.place.here = some .folder ∧ w.LogReady ∧
      IsTarget w.place ".".toList (Path.ofText ".".toList) ∧
      ∃ f, ((tidy false [".".toList]).run w).1 = .error f ∧ f.group = .notFound := by
  intro w
  have hsound : w.place.tree.Sound := by
    simp only [w, sound_folder_iff, sound_file, sound_link, List.forall_mem_cons,
      List.not_mem_nil, false_imp_iff, implies_true, and_true]
    decide
  have hhere : w.place.tree.kindAt? w.place.here = some .folder := rfl
  have hready : w.LogReady := nofun
  have htarget : IsTarget w.place ".".toList (Path.ofText ".".toList) := ⟨rfl, by cbv⟩
  have hdangling : Dangling w.place ["b.md".toList] :=
    ⟨⟨"nowhere".toList, by cbv⟩, .inr ⟨["nowhere".toList], by cbv, rfl⟩⟩
  have hplan : plan w.place ".".toList =
      .ok ⟨Path.ofText ".".toList, { root := [] }, [["a.md".toList], ["b.md".toList]]⟩ := by
    cbv
  refine ⟨hsound, hhere, hready, htarget,
    (tidy_notFound_iff hsound hhere hready htarget false).2.2 ⟨_, hplan,
      [["a.md".toList]], ["b.md".toList], [], rfl, ?_, by decide, hdangling⟩⟩
  have hcontent : w.place.content (.ofLocation ["a.md".toList]) = .ok (.text "x  ".toList) := by
    cbv
  exact List.forall_mem_singleton.2 ⟨_, foretell_of_content (by cbv) hcontent⟩

/-- A scan lists a link to nothing, and to lint it is a failure. -/
theorem missingFile_of_scan :
    let w : World := { place := ⟨.folder [("a.md".toList, .file (.text "x  ".toList)),
      ("b.md".toList, .link "nowhere".toList)], [], []⟩ }
    let here := Path.ofText ".".toList
    w.place.isFolder here = .ok true ∧
      w.place.holds (here.child Config.fileName) = .ok false ∧
      w.place.holds (here.child ".gitignore".toList) = .ok false ∧
      Scan.documents w.place here ".".toList [] [] = .ok [["a.md".toList], ["b.md".toList]] ∧
      w.place.isFile (.ofLocation ["b.md".toList]) = .ok false ∧
      ((tidy false [".".toList]).run w).1 = .error (.missingFile "/b.md".toList) ∧
      ((tidy false [".".toList]).run w).2.place.tree.contentAt? ["a.md".toList] =
        some (.text "x".toList) := by
  intro w here
  have hplan : plan w.place ".".toList =
      .ok ⟨here, { root := [] }, [["a.md".toList], ["b.md".toList]]⟩ := by
    cbv
  obtain ⟨v, hrun, ha⟩ : ∃ v, (tidyPath false ".".toList).run w =
      (.error (.missingFile "/b.md".toList), v) ∧
        v.place.tree.contentAt? ["a.md".toList] = some (.text "x".toList) := by
    rw [run_tidyPath, hplan]
    exact ⟨_, Prod.ext (by decide +kernel) rfl, by decide +kernel⟩
  have htidy : (tidy false [".".toList]).run w = (.error (.missingFile "/b.md".toList), v) := by
    rw [tidy_cons]
    exact Action.run_bind_of_error hrun
  rw [htidy]
  exact ⟨by decide +kernel, by decide +kernel, by decide +kernel, by cbv, by decide +kernel, rfl,
    ha⟩

end Run

end MarkTidy
