import MarkTidy.Proofs.Tree.Place
import MarkTidy.Run.Tidy

/-!
What a run does to the files. A record goes to the log file alone. Linting a document comes to what
the document's content says, and rewrites at most the file that its path leads to. No entry comes or
goes.
-/

namespace MarkTidy

open Text

variable {w w' w'' : World} {touched : Location → Prop} {l : Location} {p : Path} {t : Text}
  {rules : Rules} {extensions : List Text} {dryRun : Bool}

/-! ### Running actions -/

namespace Action

variable {α β : Type} {x : Action α} {f : α → Action β} {a : α} {e : Failure}

theorem run_bind (x : Action α) (f : α → Action β) (w : World) :
    (x >>= f).run w =
      match x.run w with
      | (.ok a, v) => (f a).run v
      | (.error e, v) => (.error e, v) := by
  have h : (x >>= f).run w =
      (fun r : Except Failure α × World => ExceptT.bindCont f r.1 r.2) (x.run w) := rfl
  rw [h]
  rcases x.run w with ⟨r, v⟩
  cases r <;> rfl

theorem run_bind_of_ok (h : x.run w = (.ok a, w')) : (x >>= f).run w = (f a).run w' := by
  rw [run_bind, h]

theorem run_bind_of_error (h : x.run w = (.error e, w')) :
    (x >>= f).run w = (.error e, w') := by
  rw [run_bind, h]

/-- An action that comes to its end has come to the end of its parts. -/
theorem exists_of_run_bind {b : β} (h : ((x >>= f).run w).1 = .ok b) :
    ∃ a w', x.run w = (.ok a, w') ∧ ((f a).run w').1 = .ok b := by
  rw [run_bind] at h
  cases hx : x.run w with
  | mk r v =>
    rw [hx] at h
    cases r with
    | error e => cases h
    | ok a => exact ⟨a, v, rfl, h⟩

theorem run_get (w : World) : (get : Action World).run w = (.ok w, w) := rfl

theorem run_set (w v : World) : (set v : Action PUnit).run w = (.ok (), v) := rfl

theorem run_modify (g : World → World) (w : World) :
    (modify g : Action PUnit).run w = (.ok (), g w) := rfl

theorem run_ask (g : Place → Except Failure α) (w : World) :
    (ask g).run w = (g w.place, w) := by
  rw [ask, run_bind_of_ok (run_get w)]
  cases g w.place <;> rfl

theorem run_ask_bind (g : Place → Except Failure α) (f : α → Action β) (w : World) :
    (ask g >>= f).run w =
      match g w.place with
      | .ok a => (f a).run w
      | .error e => (.error e, w) := by
  rw [run_bind, run_ask]
  cases g w.place <;> rfl

end Action

/-! ### What stays -/

def Content.isText : Content → Bool
  | text _ => true
  | binary _ => false

theorem Content.isText_append (c : Content) (t : Text) : (c.append t).isText = c.isText := by
  cases c <;> rfl

namespace World

/-- The file that the log goes to, if it goes to one. -/
def logFile? (w : World) : Option Location := w.target.bind (·.file)

/-- The log file is there. -/
def LogReady (w : World) : Prop := ∀ l, w.logFile? = some l → w.place.tree.kindAt? l = some .file

/-- The second world may come from the first by writing to the log file and to some files that were
there. A file that holds text goes on to, and one that does not goes on not to. -/
structure Follows (touched : Location → Prop) (w w' : World) : Prop where
  place : Place.SameOutline w.place w'.place
  target : w.target = w'.target
  contents : ∀ l, ¬touched l → w.logFile? ≠ some l →
    w.place.tree.contentAt? l = w'.place.tree.contentAt? l
  forms : ∀ l, (w.place.tree.contentAt? l).map Content.isText =
    (w'.place.tree.contentAt? l).map Content.isText

namespace Follows

theorem refl (touched : Location → Prop) (w : World) : Follows touched w w :=
  ⟨.refl _, rfl, fun _ _ _ => rfl, fun _ => rfl⟩

theorem logFile? (h : Follows touched w w') : w.logFile? = w'.logFile? := by
  rw [World.logFile?, World.logFile?, h.target]

theorem alike (h : Follows touched w w') : Place.Alike w.place w'.place := h.place.alike

theorem trans (h : Follows touched w w') (h' : Follows touched w' w'') :
    Follows touched w w'' where
  place := h.place.trans h'.place
  target := h.target.trans h'.target
  contents l hl hlog :=
    (h.contents l hl hlog).trans (h'.contents l hl (h.logFile? ▸ hlog))
  forms l := (h.forms l).trans (h'.forms l)

theorem mono {touched' : Location → Prop} (h : Follows touched w w')
    (hsub : ∀ l, touched l → touched' l) : Follows touched' w w' :=
  { h with contents := fun l hl => h.contents l fun ht => hl (hsub l ht) }

theorem logReady (h : Follows touched w w') (hready : LogReady w) : LogReady w' := fun l hl => by
  rw [← h.alike.tree.kinds]
  exact hready l (h.logFile?.trans hl)

theorem of_place (hplace : w.place = w'.place) (htarget : w.target = w'.target) :
    Follows touched w w' :=
  ⟨hplace ▸ .refl _, htarget, fun _ _ _ => by rw [hplace], fun _ => by rw [hplace]⟩

/-- A file is put where one of the same form was. -/
theorem put {c₀ : Content} (c : Content) (h : w.place.tree.contentAt? l = some c₀)
    (hform : c₀.isText = c.isText) (htouched : touched l ∨ w.logFile? = some l) :
    Follows touched w { w with place.tree := w.place.tree.put l (.file c) } := by
  have hk : w.place.tree.kindAt? l = some .file := Tree.kindAt?_eq_file_iff.2 ⟨c₀, h⟩
  have hother : ∀ l', l' ≠ l → (w.place.tree.put l (.file c)).contentAt? l' =
      w.place.tree.contentAt? l' := fun l' hl' =>
    Tree.contentAt?_put_of_ne hl' (by rw [hk]; nofun) c
  refine ⟨⟨(Tree.outline_put hk c).symm, rfl, rfl⟩, rfl, fun l' hl' hlog => ?_, fun l' => ?_⟩
  · refine (hother l' ?_).symm
    rintro rfl
    exact htouched.elim hl' hlog
  · by_cases hl' : l' = l
    · rw [hl', Tree.contentAt?_put_self hk, h, Option.map_some, Option.map_some, hform]
    · rw [hother l' hl']

end Follows

end World

open World

/-! ### Logging -/

/-- Nothing but the log file is written to. -/
def untouched (_ : Location) : Prop := False

namespace Action

theorem follows_appendAt (h : w.place.tree.kindAt? l = some .file) (hlog : w.logFile? = some l)
    (t : Text) : ∃ w', (appendAt l t).run w = (.ok (), w') ∧ Follows untouched w w' := by
  obtain ⟨c, hc⟩ := Tree.kindAt?_eq_file_iff.1 h
  have hat := Tree.contentAt?_eq_some_iff.1 hc
  refine ⟨_, ?_, Follows.put (c.append t) hc (c.isText_append t).symm (.inr hlog)⟩
  rw [appendAt, run_bind_of_ok (run_get w), hat]
  rfl

/-- A record is logged in any case, and at most the log file is written to. -/
theorem follows_log (hready : LogReady w) (r : Log.Record) :
    ∃ w', (log r).run w = (.ok (), w') ∧ Follows untouched w w' := by
  obtain ⟨place, records, target, stderr, stamp⟩ := w
  simp only [log, run_bind, run_get, run_modify]
  cases target with
  | none => exact ⟨_, rfl, .of_place rfl rfl⟩
  | some target =>
    dsimp only
    split_ifs
    · obtain ⟨threshold, file⟩ := target
      simp only [run_bind, run_set]
      cases file with
      | none => exact ⟨_, rfl, .of_place rfl rfl⟩
      | some l =>
        obtain ⟨w', hrun, hw'⟩ := follows_appendAt
          (w := ⟨place, records ++ [r], some ⟨threshold, l⟩, stderr ++ r.consoleLine, stamp⟩)
          (hready l rfl) rfl (stamp ++ r.fileLine)
        refine ⟨w', hrun, Follows.trans ?_ hw'⟩
        exact .of_place rfl rfl
    · exact ⟨_, rfl, .of_place rfl rfl⟩

theorem follows_logAll (hready : LogReady w) (rs : List Log.Record) :
    ∃ w', (rs.forM log).run w = (.ok (), w') ∧ Follows untouched w w' := by
  induction rs generalizing w with
  | nil => exact ⟨w, rfl, .refl _ w⟩
  | cons r rs ih =>
    obtain ⟨w', hrun, hw'⟩ := follows_log hready r
    obtain ⟨w'', hrun', hw''⟩ := ih (hw'.logReady hready)
    refine ⟨w'', ?_, hw'.trans hw''⟩
    change (log r >>= fun _ => rs.forM log).run w = _
    rw [run_bind_of_ok hrun, hrun']

/-- A file that a path leads to can be written. -/
theorem run_write {c : Content} (hl : w.place.locate p = .ok l)
    (hc : w.place.tree.contentAt? l = some c) (t : Text) :
    (write p t).run w =
      (.ok (), { w with place.tree := w.place.tree.put l (.file (.text t)) }) := by
  have hask : (ask (·.locate p)).run w = (.ok l, w) := by rw [run_ask, hl]
  rw [write, run_bind_of_ok hask, run_bind_of_ok (run_get w), Tree.contentAt?_eq_some_iff.1 hc]
  rfl

end Action

/-! ### One document -/

namespace Run

/-- What becomes of a document with some content. -/
def verdict (p : Path) (rules : Rules) (dryRun : Bool) : Content → Outcome
  | .binary _ => { path := p, status := .skipped, dryRun }
  | .text old =>
    if (rules.lint [] old).changed then
      { path := p, status := .updated, dryRun
        diff := Diff.unified old (rules.lint [] old).text p.name }
    else { path := p, status := .unchanged, dryRun }

/-- What will become of a document, as the files are now. -/
def foretell (w : Place) (p : Path) (rules : Rules) (extensions : List Text) (dryRun : Bool) :
    Except Failure Outcome :=
  if extensions.contains (lower p.suffix) then (w.content p).map (verdict p rules dryRun)
  else .ok { path := p, status := .skipped, dryRun }

/-- What a run that is not dry leaves of a document's content. -/
def rewritten (p : Path) (rules : Rules) (extensions : List Text) (c : Content) : Content :=
  if extensions.contains (lower p.suffix) then
    match c with
    | .text old => .text (rules.lint [] old).text
    | .binary bytes => .binary bytes
  else c

/-- The location that a run writes to when it comes to a document. -/
def Rewrites (w : Place) (p : Path) (rules : Rules) (extensions : List Text) (dryRun : Bool)
    (l : Location) : Prop :=
  dryRun = false ∧ w.locate p = .ok l ∧
    ∃ o, foretell w p rules extensions dryRun = .ok o ∧ o.status = .updated

/-- What linting one document comes to: the outcome that was to be expected, and the document
rewritten unless the run is dry. -/
structure Settles (w : World) (p : Path) (rules : Rules) (extensions : List Text) (dryRun : Bool)
    (w' : World) : Prop where
  run : (lintFile p rules extensions dryRun).run w =
    (foretell w.place p rules extensions dryRun, w')
  follows : Follows (Rewrites w.place p rules extensions dryRun) w w'
  result : dryRun = false → ∀ l, w.place.locate p = .ok l → w.logFile? ≠ some l →
    w'.place.tree.contentAt? l = (w.place.tree.contentAt? l).map (rewritten p rules extensions)

theorem rewritten_of_other (h : ¬extensions.contains (lower p.suffix) = true) (c : Content) :
    rewritten p rules extensions c = c :=
  if_neg h

theorem rewritten_of_unchanged {old : Text} (h : (rules.lint [] old).changed = false) :
    rewritten p rules extensions (.text old) = .text old := by
  have htext : (rules.lint [] old).text = old := by
    have hchanged : (rules.lint [] old).changed = decide ((rules.lint [] old).text ≠ old) := rfl
    rw [hchanged, decide_eq_false_iff_not, not_not] at h
    exact h
  rw [rewritten]
  split_ifs
  · rw [htext]
  · rfl

theorem map_rewritten_of_untouched (h : Follows untouched w w') (hlog : w.logFile? ≠ some l)
    (hsame : ∀ c, w.place.tree.contentAt? l = some c → rewritten p rules extensions c = c) :
    w'.place.tree.contentAt? l =
      (w.place.tree.contentAt? l).map (rewritten p rules extensions) := by
  rw [← h.contents l id hlog]
  cases hc : w.place.tree.contentAt? l with
  | none => rfl
  | some c => rw [Option.map_some, hsame c hc]

/-- A document that is not written to stays as it is. -/
theorem Settles.of_untouched (hrun : (lintFile p rules extensions dryRun).run w =
      (foretell w.place p rules extensions dryRun, w')) (hw : Follows untouched w w')
    (hsame : dryRun = false → ∀ c, w.place.content p = .ok c →
      rewritten p rules extensions c = c) :
    Settles w p rules extensions dryRun w' where
  run := hrun
  follows := hw.mono fun _ => False.elim
  result hdry l hl hlog :=
    map_rewritten_of_untouched hw hlog fun c hc =>
      hsame hdry c (Place.content_eq_ok_iff.2 ⟨l, hl, hc⟩)

theorem foretell_of_content {c : Content} (hext : extensions.contains (lower p.suffix) = true)
    (hc : w.place.content p = .ok c) :
    foretell w.place p rules extensions dryRun = .ok (verdict p rules dryRun c) := by
  rw [foretell, if_pos hext, hc]
  rfl

theorem settles_of_other (hready : LogReady w)
    (hext : ¬extensions.contains (lower p.suffix) = true) :
    ∃ w', Settles w p rules extensions dryRun w' := by
  obtain ⟨w', hlog, hw⟩ := Action.follows_log hready
    (record .info "Skipping ".toList p.toText ": not a Markdown document".toList)
  refine ⟨w', .of_untouched ?_ hw fun _ c _ => rewritten_of_other hext c⟩
  rw [foretell, if_neg hext, lintFile, if_pos (by simpa using hext)]
  exact Action.run_bind_of_ok hlog

theorem settles_of_error {e : Failure} (hext : extensions.contains (lower p.suffix) = true)
    (hc : w.place.content p = .error e) : Settles w p rules extensions dryRun w := by
  have hask : (Action.ask (·.content p)).run w = (.error e, w) := by rw [Action.run_ask, hc]
  refine .of_untouched ?_ (.refl _ w) fun _ c h => by rw [hc] at h; cases h
  rw [foretell, if_pos hext, hc, lintFile, if_neg (by rw [hext]; nofun)]
  exact Action.run_bind_of_error hask

theorem settles_of_binary {bytes : List UInt8} (hready : LogReady w)
    (hext : extensions.contains (lower p.suffix) = true)
    (hc : w.place.content p = .ok (.binary bytes)) :
    ∃ w', Settles w p rules extensions dryRun w' := by
  have hask : (Action.ask (·.content p)).run w = (.ok (.binary bytes), w) := by
    rw [Action.run_ask, hc]
  obtain ⟨w', hlog, hw⟩ := Action.follows_log hready
    (record .warning "Skipping ".toList p.toText ": not valid UTF-8 text".toList)
  refine ⟨w', .of_untouched ?_ hw fun _ c h => ?_⟩
  · rw [foretell_of_content hext hc, lintFile, if_neg (by rw [hext]; nofun),
      Action.run_bind_of_ok hask]
    exact Action.run_bind_of_ok hlog
  · obtain rfl := Except.ok.inj (hc.symm.trans h)
    exact if_pos hext

/-- A document that holds text is read, linted, and its pass logged. -/
theorem run_lintFile_text {old : Text} (hext : extensions.contains (lower p.suffix) = true)
    (hc : w.place.content p = .ok (.text old))
    (hlogs : ((rules.lint [] old).log.forM Action.log).run w = (.ok (), w')) :
    (lintFile p rules extensions dryRun).run w =
      (do
        if !(rules.lint [] old).changed then
          Action.log (record .debug "No changes for ".toList p.toText [])
          return { path := p, status := .unchanged, dryRun }
        let diff := Diff.unified old (rules.lint [] old).text p.name
        if dryRun then
          Action.log (record .debug "Dry-run: ".toList p.toText " would change".toList)
          return { path := p, status := .updated, diff, dryRun }
        Action.write p (rules.lint [] old).text
        Action.log (record .info "Updated ".toList p.toText [])
        return { path := p, status := .updated, diff, dryRun } : Action Outcome).run w' := by
  have hask : (Action.ask (·.content p)).run w = (.ok (.text old), w) := by
    rw [Action.run_ask, hc]
  rw [lintFile, if_neg (by rw [hext]; nofun), Action.run_bind_of_ok hask]
  exact Action.run_bind_of_ok hlogs

theorem settles_of_unchanged {old : Text} (hready : LogReady w)
    (hext : extensions.contains (lower p.suffix) = true)
    (hc : w.place.content p = .ok (.text old)) (hsame : (rules.lint [] old).changed = false) :
    ∃ w', Settles w p rules extensions dryRun w' := by
  obtain ⟨w₁, hlogs, hw₁⟩ := Action.follows_logAll hready (rules.lint [] old).log
  obtain ⟨w₂, hlog, hw₂⟩ := Action.follows_log (hw₁.logReady hready)
    (record .debug "No changes for ".toList p.toText [])
  refine ⟨w₂, .of_untouched ?_ (hw₁.trans hw₂) fun _ c h => ?_⟩
  · rw [foretell_of_content hext hc, run_lintFile_text hext hc hlogs, verdict,
      if_pos (by rw [hsame]; rfl), if_neg (by rw [hsame]; nofun)]
    exact Action.run_bind_of_ok hlog
  · obtain rfl := Except.ok.inj (hc.symm.trans h)
    exact rewritten_of_unchanged hsame

theorem settles_of_dry {old : Text} (hready : LogReady w)
    (hext : extensions.contains (lower p.suffix) = true)
    (hc : w.place.content p = .ok (.text old)) (hnew : (rules.lint [] old).changed = true) :
    ∃ w', Settles w p rules extensions true w' := by
  obtain ⟨w₁, hlogs, hw₁⟩ := Action.follows_logAll hready (rules.lint [] old).log
  obtain ⟨w₂, hlog, hw₂⟩ := Action.follows_log (hw₁.logReady hready)
    (record .debug "Dry-run: ".toList p.toText " would change".toList)
  refine ⟨w₂, .of_untouched ?_ (hw₁.trans hw₂) nofun⟩
  rw [foretell_of_content hext hc, run_lintFile_text hext hc hlogs, verdict, if_pos hnew,
    if_neg (by rw [hnew]; nofun), if_pos rfl]
  exact Action.run_bind_of_ok hlog

theorem settles_of_wet {old : Text} (hready : LogReady w)
    (hext : extensions.contains (lower p.suffix) = true)
    (hc : w.place.content p = .ok (.text old)) (hnew : (rules.lint [] old).changed = true) :
    ∃ w', Settles w p rules extensions false w' := by
  have hfore : foretell w.place p rules extensions false =
      .ok (verdict p rules false (.text old)) := foretell_of_content hext hc
  have hstatus : (verdict p rules false (.text old)).status = .updated := by
    rw [verdict, if_pos hnew]
  obtain ⟨l, hl, hat⟩ := Place.content_eq_ok_iff.1 hc
  -- the pass is logged, the document written, and that is logged
  obtain ⟨w₁, hlogs, hw₁⟩ := Action.follows_logAll hready (rules.lint [] old).log
  have hl₁ : w₁.place.locate p = .ok l := hw₁.alike.locate p ▸ hl
  have hk : w.place.tree.kindAt? l = some .file := Tree.kindAt?_eq_file_iff.2 ⟨_, hat⟩
  have hk₁ : w₁.place.tree.kindAt? l = some .file := hw₁.alike.tree.kinds l ▸ hk
  obtain ⟨c, hc₁⟩ := Tree.kindAt?_eq_file_iff.1 hk₁
  have hform : c.isText = true := by
    have hforms := hw₁.forms l
    rw [hat, hc₁] at hforms
    exact (Option.some.inj hforms).symm
  have hwrite := Action.run_write hl₁ hc₁ (rules.lint [] old).text
  have hput : Follows (· = l) w₁ _ := .put (.text (rules.lint [] old).text) hc₁ hform (.inl rfl)
  obtain ⟨w₃, hlog, hw₃⟩ := Action.follows_log (hput.logReady (hw₁.logReady hready))
    (record .info "Updated ".toList p.toText [])
  have hall : Follows (· = l) w w₃ :=
    ((hw₁.mono fun _ => False.elim).trans hput).trans (hw₃.mono fun _ => False.elim)
  refine ⟨w₃, ?_, hall.mono ?_, fun _ l' hl' hnolog => ?_⟩
  · rw [hfore, run_lintFile_text hext hc hlogs, verdict, if_pos hnew,
      if_neg (by rw [hnew]; nofun), if_neg Bool.false_ne_true, Action.run_bind_of_ok hwrite]
    exact Action.run_bind_of_ok hlog
  · rintro _ rfl
    exact ⟨rfl, hl, _, hfore, hstatus⟩
  · obtain rfl := Except.ok.inj (hl.symm.trans hl')
    rw [← hw₃.contents l id (by rw [← hput.logFile?, ← hw₁.logFile?]; exact hnolog),
      Tree.contentAt?_put_self hk₁, hat, Option.map_some, rewritten, if_pos hext]

/-- Linting a document always comes to an end that was to be foretold. -/
theorem settles_lintFile (hready : LogReady w) (p : Path) (rules : Rules) (extensions : List Text)
    (dryRun : Bool) : ∃ w', Settles w p rules extensions dryRun w' := by
  by_cases hext : extensions.contains (lower p.suffix) = true
  · cases hc : w.place.content p with
    | error e => exact ⟨w, settles_of_error hext hc⟩
    | ok c =>
      cases c with
      | binary bytes => exact settles_of_binary hready hext hc
      | text old =>
        cases hnew : (rules.lint [] old).changed with
        | false => exact settles_of_unchanged hready hext hc hnew
        | true =>
          cases dryRun with
          | true => exact settles_of_dry hready hext hc hnew
          | false => exact settles_of_wet hready hext hc hnew
  · exact settles_of_other hready hext

end Run

end MarkTidy
