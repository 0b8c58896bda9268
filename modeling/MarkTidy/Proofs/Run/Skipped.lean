import MarkTidy.Proofs.Run.Dangling

/-!
Which documents are skipped. What a scan finds below a folder has one of the extensions that are asked
for, and loaded extensions are written as the suffixes that they are compared with. So a document of a
folder is skipped for what it holds alone.
-/

namespace MarkTidy

open Text MarkTidy.Tree

variable {w : Place} {v v' : World} {p q : Path} {l root : Location} {shown : Text} {c : Config}
  {touched : Location → Prop} {rules : Rules} {extensions excluded : List Text} {dryRun : Bool}
  {o : Outcome} {os : List Outcome} {ls : List Location}

/-! ### The two filters -/

theorem Path.suffix_append (root : Location) (h : l ≠ []) :
    (Path.ofLocation (root ++ l)).suffix = (Path.ofLocation l).suffix := by
  rw [suffix, name, ofLocation, List.getLast?_append_of_ne_nil root h]
  rfl

/-- What is found below a folder has one of the extensions, in lower case. -/
theorem Scan.suffix_of_mem_documents {entries : List (Text × Tree)} (hsound : w.tree.Sound)
    (hq : w.expandHome p = .ok q) (hroot : w.resolve q = .ok root)
    (hfolder : w.tree.at? root = some (.folder entries))
    (h : documents w p shown extensions excluded = .ok ls) (hl : l ∈ ls) :
    lower (Path.ofLocation l).suffix ∈ (effective extensions).map lower := by
  rw [documents_eq_bind hsound hq hroot hfolder] at h
  obtain ⟨rules, -, h⟩ := Place.exists_of_bind h
  obtain rfl := Except.ok.inj h
  obtain ⟨l', hl', rfl⟩ := List.mem_map.1 hl
  have hdocument := (mem_found hsound hfolder).1 hl'
  rw [Path.suffix_append root hdocument.below]
  exact hdocument.extension

/-- Of loaded extensions the scan makes what they are. -/
theorem Config.effective_extensions (h : load w p = .ok c) :
    (Scan.effective c.extensions).map lower = c.extensions := by
  have hne : ¬c.extensions.isEmpty = true := by
    rw [List.isEmpty_iff]
    exact (extensions_of_load h).1
  rw [Scan.effective, if_neg hne, map_lower_extensions h]

/-- The documents of a folder have extensions that are loaded for it. -/
theorem IsTarget.contains_suffix (h : IsTarget w shown p) (hsound : w.tree.Sound)
    (hhere : w.tree.kindAt? w.here = some .folder) (hc : Config.load w p = .ok c)
    (hls : Scan.documents w p p.toText c.extensions c.excluded = .ok ls) (hl : l ∈ ls) :
    c.extensions.contains (lower (Path.ofLocation l).suffix) = true := by
  obtain ⟨root, entries, hroot, hat⟩ := h.exists_resolve hsound hhere
  have hp : w.expandHome p = .ok p := Place.expandHome_of_expandHome h.expand
  have hmem := Scan.suffix_of_mem_documents hsound hp hroot hat hls hl
  rw [Config.effective_extensions hc] at hmem
  exact List.contains_iff_mem.2 hmem

/-! ### Runs -/

namespace Run

/-- A document with one of the extensions is skipped exactly if it holds no text. -/
theorem skipped_of_foretell (hext : extensions.contains (lower p.suffix) = true)
    (h : foretell w p rules extensions dryRun = .ok o) :
    o.status = .skipped ↔ ∃ bytes, w.content p = .ok (.binary bytes) := by
  rw [foretell, if_pos hext] at h
  obtain ⟨c, hc, rfl⟩ := Place.exists_of_map h
  rw [hc]
  cases c with
  | binary bytes => simp [verdict]
  | text old =>
    rw [verdict]
    split_ifs <;> simp

theorem exists_binary_iff : (∃ bytes, w.content p = .ok (.binary bytes)) ↔
    ∃ l, w.locate p = .ok l ∧ (w.tree.contentAt? l).map Content.isText = some false := by
  simp only [Place.content_eq_ok_iff, Option.map_eq_some_iff]
  constructor
  · rintro ⟨bytes, l, hl, hc⟩
    exact ⟨l, hl, _, hc, rfl⟩
  · rintro ⟨l, hl, c, hc, hform⟩
    cases c with
    | text t => cases hform
    | binary bytes => exact ⟨bytes, l, hl, hc⟩

/-- Whether a document holds text does not change while a run goes on. -/
theorem exists_binary_congr (h : World.Follows touched v v') (p : Path) :
    (∃ bytes, v.place.content p = .ok (.binary bytes)) ↔
      ∃ bytes, v'.place.content p = .ok (.binary bytes) := by
  rw [exists_binary_iff, exists_binary_iff]
  simp only [h.alike.locate, h.forms]

/-- Of documents with the right extension those are skipped that held no text at the start. -/
theorem skipped_of_lint (hready : v.LogReady) (h : World.Follows (fun _ => True) v v') (q : Plan)
    (hext : ∀ l ∈ q.documents,
      q.config.extensions.contains (lower (Path.ofLocation l).suffix) = true)
    (hrun : ((q.lint dryRun).run v').1 = .ok os) :
    ∀ o ∈ os, o.status = .skipped ↔ ∃ bytes, v.place.content o.path = .ok (.binary bytes) := by
  obtain ⟨target, config, documents⟩ := q
  induction documents generalizing v' os with
  | nil =>
    obtain rfl : [] = os := Except.ok.inj hrun
    simp
  | cons d ds ih =>
    obtain ⟨hd, hds⟩ := List.forall_mem_cons.1 hext
    obtain ⟨v₁, hv₁⟩ := settles_lintFile (h.logReady hready) (.ofLocation d) config.rules
      config.extensions dryRun
    rw [lint_cons ⟨target, config, ds⟩] at hrun
    obtain ⟨o, v₂, hlint, hrun⟩ := Action.exists_of_run_bind hrun
    obtain ⟨os', v₃, hrest, hrun⟩ := Action.exists_of_run_bind hrun
    obtain rfl : [o] ++ os' = os := Except.ok.inj hrun
    obtain ⟨ho, rfl⟩ := Prod.mk.inj (hv₁.run.symm.trans hlint)
    refine List.forall_mem_cons.2 ⟨?_, ih (h.trans (hv₁.follows.mono fun _ _ => trivial)) hds ?_⟩
    · rw [skipped_of_foretell hd ho, path_of_foretell ho, exists_binary_congr h]
    · exact congrArg Prod.fst hrest

/-- Below a folder that is there, the scan and the run agree on what is a document: loaded extensions
are trimmed, in lower case and start with a full stop, there is one at least, and what is found has
one of them. So exactly those documents are skipped that hold no text. -/
theorem skipped_iff (hsound : v.place.tree.Sound)
    (hhere : v.place.tree.kindAt? v.place.here = some .folder) (hready : v.LogReady)
    (h : IsTarget v.place shown p) (dryRun : Bool) :
    (∀ c, Config.load v.place p = .ok c →
      c.extensions ≠ [] ∧ (∀ e ∈ c.extensions, Config.IsExtension e) ∧
        ∀ ls, Scan.documents v.place p p.toText c.extensions c.excluded = .ok ls →
          ∀ l ∈ ls, c.extensions.contains (lower (Path.ofLocation l).suffix) = true) ∧
      ∀ os, ((tidy dryRun [shown]).run v).1 = .ok os →
        ∀ o ∈ os, o.status = .skipped ↔ ∃ bytes, v.place.content o.path = .ok (.binary bytes) := by
  have hfilter (c : Config) (hc : Config.load v.place p = .ok c) (ls : List Location)
      (hls : Scan.documents v.place p p.toText c.extensions c.excluded = .ok ls) (l : Location)
      (hl : l ∈ ls) := h.contains_suffix hsound hhere hc hls hl
  refine ⟨fun c hc => ⟨(Config.extensions_of_load hc).1, (Config.extensions_of_load hc).2,
    hfilter c hc⟩, fun os hos => ?_⟩
  rw [tidy_cons, tidy_nil] at hos
  obtain ⟨os', v', hpath, hos⟩ := Action.exists_of_run_bind hos
  obtain rfl : os' ++ [] = os := Except.ok.inj hos
  rw [List.append_nil]
  rw [run_tidyPath] at hpath
  cases hplan : plan v.place shown with
  | error e =>
    rw [hplan] at hpath
    cases hpath
  | ok q =>
    rw [hplan] at hpath
    have hlint : ((do Action.log q.record; q.lint dryRun : Action (List Outcome)).run v).1 =
      .ok os' := congrArg Prod.fst hpath
    rw [h.plan_eq] at hplan
    obtain ⟨config, hconfig, hplan⟩ := Place.exists_of_bind hplan
    obtain ⟨documents, hdocuments, hplan⟩ := Place.exists_of_bind hplan
    obtain rfl := Except.ok.inj hplan
    obtain ⟨_, v₁, hlog, hlint⟩ := Action.exists_of_run_bind hlint
    obtain ⟨v₂, hlog', hv₂⟩ := Action.follows_log hready _
    obtain ⟨-, rfl⟩ := Prod.mk.inj (hlog.symm.trans hlog')
    exact skipped_of_lint hready (hv₂.mono fun _ => False.elim) _
      (fun l hl => hfilter config hconfig documents hdocuments l hl) hlint

/-- The extension is written with a blank and in capitals, and the document with it holds no text. -/
theorem skipped_iff_sample :
    let v : World := { place := ⟨.folder [
      (".mylint.yml".toList, .file (.text "extensions: [\" MD\"]".toList)),
      ("a.md".toList, .file (.binary [0xFF]))], [], []⟩ }
    v.place.tree.Sound ∧ v.place.tree.kindAt? v.place.here = some .folder ∧ v.LogReady ∧
      IsTarget v.place ".".toList (Path.ofText ".".toList) ∧
      ∃ o, ((tidy false [".".toList]).run v).1 = .ok [o] ∧ o.status = .skipped ∧
        ∃ bytes, v.place.content o.path = .ok (.binary bytes) := by
  intro v
  have hsound : v.place.tree.Sound := by
    simp only [v, sound_folder_iff, sound_file, List.forall_mem_cons, List.not_mem_nil,
      false_imp_iff, implies_true, and_true]
    decide +kernel
  have hhere : v.place.tree.kindAt? v.place.here = some .folder := rfl
  have hready : v.LogReady := nofun
  have htarget : IsTarget v.place ".".toList (Path.ofText ".".toList) := ⟨rfl, by decide +kernel⟩
  let c : Config := { root := [], extensions := [".md".toList] }
  have hload : Config.load v.place (Path.ofText ".".toList) = .ok c := by decide +kernel
  have hdocuments : Scan.documents v.place (Path.ofText ".".toList) (Path.ofText ".".toList).toText
      c.extensions c.excluded = .ok [["a.md".toList]] := by cbv
  have hplan : plan v.place ".".toList = .ok ⟨Path.ofText ".".toList, c, [["a.md".toList]]⟩ := by
    rw [htarget.plan_eq, hload, Place.ok_bind, hdocuments]
    rfl
  let o : Outcome := { path := .ofLocation ["a.md".toList], status := .skipped, dryRun := false }
  have hpath : ((tidyPath false ".".toList).run v).1 = .ok [o] := by
    rw [run_tidyPath, hplan]
    decide +kernel
  have hrun : ((tidy false [".".toList]).run v).1 = .ok [o] := by
    rw [tidy_cons, tidy_nil, Action.run_bind_of_ok (Prod.ext hpath rfl)]
    rfl
  have hskipped := (skipped_iff hsound hhere hready htarget false).2 _ hrun
  exact ⟨hsound, hhere, hready, htarget, o, hrun, rfl, (hskipped o (List.mem_singleton_self _)).1 rfl⟩

end Run

end MarkTidy
