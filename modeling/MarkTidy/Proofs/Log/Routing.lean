import Mathlib.Data.List.Basic
import MarkTidy.Log.Journal
import MarkTidy.Proofs.Text.Search

/-!
Where records go. Once the log has been set up, a record through any logger of the package meets the
handlers of the latest set-up and no others, whatever the loggers on top of the package's hold. So
standard error gets each record that reaches the level of the latest set-up, a log file gets those
that come while it is the file of the latest set-up, and nothing else is written.
-/

namespace MarkTidy.Log

open Journal

variable {j : Journal} {s : Setup} {names : List Text} {r : Record}

def Setup.handlers (s : Setup) : List Handler :=
  ⟨s.level, .console⟩ :: (s.file.map fun name => ⟨s.level, .file name⟩).toList

/-- No logger below the package's own has been set up. -/
def Bare (j : Journal) : Prop := ∀ n, j.loggers (rootLogger ++ '.' :: n) = {}

/-- The loggers are as a set-up leaves them. -/
structure Configured (s : Setup) (j : Journal) : Prop where
  own : j.loggers rootLogger =
    { threshold := some s.level, propagates := false, handlers := s.handlers }
  bare : Bare j

/-! ### From a logger upwards -/

theorem exists_of_mem_namesAbove {before r m : Text}
    (hm : m ∈ namesAbove (rootLogger ++ '.' :: before) r) : ∃ n, m = rootLogger ++ '.' :: n := by
  induction r generalizing before with
  | nil => exact absurd hm List.not_mem_nil
  | cons c r ih =>
    have hbefore : rootLogger ++ '.' :: before ++ [c] = rootLogger ++ '.' :: (before ++ [c]) := by
      simp
    rw [namesAbove, hbefore] at hm
    split at hm
    · rcases List.mem_cons.1 hm with rfl | hm
      · exact ⟨before, rfl⟩
      · exact ih hm
    · exact ih hm

/-- Above a logger of the package there are loggers below the package's own, then that one, then the
nameless one. -/
theorem exists_lineage_eq (logger : Option Text) :
    ∃ below, lineage (loggerName logger) = below ++ [rootLogger, []] ∧
      ∀ m ∈ below, ∃ n, m = rootLogger ++ '.' :: n := by
  have hown : lineage rootLogger = [rootLogger, []] := by decide
  rcases logger with _ | _ | ⟨c, n⟩
  · exact ⟨[], hown, by simp⟩
  · exact ⟨[], hown, by simp⟩
  · have habove : namesAbove [] (rootLogger ++ '.' :: c :: n) =
        rootLogger :: namesAbove (rootLogger ++ ['.']) (c :: n) := rfl
    have hname : loggerName (some (c :: n)) = rootLogger ++ '.' :: c :: n := rfl
    refine ⟨(rootLogger ++ '.' :: c :: n) ::
      (namesAbove (rootLogger ++ ['.']) (c :: n)).reverse, ?_, ?_⟩
    · rw [hname, lineage, habove]
      simp
    · refine List.forall_mem_cons.2 ⟨⟨c :: n, rfl⟩, fun m hm => ?_⟩
      exact exists_of_mem_namesAbove (List.mem_reverse.1 hm)

theorem handlersAlong_append (hnames : ∀ n ∈ names, j.loggers n = {}) (up : List Text) :
    j.handlersAlong (names ++ up) = j.handlersAlong up := by
  induction names with
  | nil => rfl
  | cons n names ih =>
    obtain ⟨hn, hrest⟩ := List.forall_mem_cons.1 hnames
    rw [List.cons_append, handlersAlong, hn, ih hrest]
    rfl

theorem thresholdAlong_append (hnames : ∀ n ∈ names, j.loggers n = {}) (up : List Text) :
    j.thresholdAlong (names ++ up) = j.thresholdAlong up := by
  have hnone : names.findSome? (fun n => (j.loggers n).threshold) = none := by
    rw [List.findSome?_eq_none_iff]
    intro n hn
    rw [hnames n hn]
  rw [thresholdAlong, List.findSome?_append, hnone, Option.none_or, thresholdAlong]

namespace Configured

/-- The loggers between an emission and the package's own pass it on, and that one passes on none. -/
theorem exists_lineage (hj : Configured s j) (logger : Option Text) :
    ∃ below, lineage (loggerName logger) = below ++ [rootLogger, []] ∧
      ∀ n ∈ below, j.loggers n = {} := by
  obtain ⟨below, hlineage, hbelow⟩ := exists_lineage_eq logger
  refine ⟨below, hlineage, fun m hm => ?_⟩
  obtain ⟨n, rfl⟩ := hbelow m hm
  exact hj.bare n

theorem handlersAlong_eq (hj : Configured s j) (logger : Option Text) :
    j.handlersAlong (lineage (loggerName logger)) = s.handlers := by
  obtain ⟨below, hlineage, hbelow⟩ := hj.exists_lineage logger
  rw [hlineage, handlersAlong_append hbelow, handlersAlong, hj.own]
  exact List.append_nil _

theorem thresholdAlong_eq (hj : Configured s j) (logger : Option Text) :
    j.thresholdAlong (lineage (loggerName logger)) = s.level := by
  obtain ⟨below, hlineage, hbelow⟩ := hj.exists_lineage logger
  rw [hlineage, thresholdAlong_append hbelow, thresholdAlong, List.findSome?_cons, hj.own]
  rfl

end Configured

/-! ### What is written -/

/-- A record that is written, with the time and the set-up that admit it. -/
structure Entry where
  setup : Setup
  stamp : Text
  record : Record

/-- What a step makes of the latest set-up. -/
def Step.next (s : Setup) : Step → Setup
  | .configure s' => s'
  | .emit .. => s

/-- What a step has written if `s` is the latest set-up: a record that reaches its level. -/
def Step.entries (s : Setup) : Step → List Entry
  | .configure _ => []
  | .emit logger stamp level message =>
    if level.reaches s.level then [⟨s, stamp, ⟨level, loggerName logger, message⟩⟩] else []

/-- The latest set-up after some steps. -/
def latest (s : Setup) (steps : List Step) : Setup := steps.foldl Step.next s

def entries (s : Setup) : List Step → List Entry
  | [] => []
  | x :: steps => x.entries s ++ entries (x.next s) steps

/-- The second journal comes from the first by writing some entries in order: each once to standard
error, and each once at the end of the file that its set-up names. -/
structure Writes (es : List Entry) (j j' : Journal) : Prop where
  stderr : j'.stderr = j.stderr ++ es.flatMap (·.record.consoleLine)
  content : ∀ f, j'.content f = j.content f ++
    (es.filter (·.setup.file = some f)).flatMap fun e => e.stamp ++ e.record.fileLine

namespace Writes

variable {es es' : List Entry} {j' j'' : Journal}

theorem refl (j : Journal) : Writes [] j j := ⟨by simp, by simp⟩

theorem trans (h : Writes es j j') (h' : Writes es' j' j'') : Writes (es ++ es') j j'' where
  stderr := by rw [h'.stderr, h.stderr, List.append_assoc, List.flatMap_append]
  content f := by
    rw [h'.content, h.content, List.append_assoc, List.filter_append, List.flatMap_append]

end Writes

theorem lookup_append (name text f : Text) (files : List (Text × Text)) :
    ((append name text files).lookup f).getD [] =
      (files.lookup f).getD [] ++ if f = name then text else [] := by
  induction files with
  | nil =>
    rw [append, Text.lookup_cons]
    split_ifs <;> rfl
  | cons e files ih =>
    obtain ⟨n, old⟩ := e
    by_cases hn : n = name
    · rw [append, if_pos hn, Text.lookup_cons, Text.lookup_cons, hn]
      split_ifs <;> simp
    · rw [append, if_neg hn, Text.lookup_cons, Text.lookup_cons]
      by_cases hf : f = n
      · have hname : ¬f = name := fun h => hn (hf.symm.trans h)
        simp [hf, hn]
      · rw [if_neg hf, if_neg hf, ih]

theorem Setup.level_pos (s : Setup) : 0 < s.level.rank := by
  rw [Setup.level]
  cases s.verbose <;> cases s.quiet <;> decide

/-- The log file of a set-up gets some text, if there is one. -/
def Setup.appendTo (s : Setup) (text : Text) (files : List (Text × Text)) : List (Text × Text) :=
  s.file.elim files fun name => append name text files

theorem Setup.lookup_appendTo (s : Setup) (text f : Text) (files : List (Text × Text)) :
    ((s.appendTo text files).lookup f).getD [] =
      (files.lookup f).getD [] ++ if s.file = some f then text else [] := by
  cases hs : s.file with
  | none => simp [Setup.appendTo, hs]
  | some name =>
    rw [Setup.appendTo, hs, Option.elim_some, lookup_append]
    simp [eq_comm]

theorem loggers_configure (j : Journal) (s : Setup) (n : Text) : (j.configure s).loggers n =
    if n = rootLogger then { threshold := some s.level, propagates := false, handlers := s.handlers }
    else j.loggers n := by
  cases hs : s.file <;> by_cases hn : n = rootLogger <;>
    simp [configure, attach, setLogger, Setup.handlers, hs, hn]

/-- A set-up leaves no handler but its own. -/
theorem configured_configure (hj : Bare j) (s : Setup) : Configured s (j.configure s) where
  own := by rw [loggers_configure, if_pos rfl]
  bare n := by
    have hne : rootLogger ++ '.' :: n ≠ rootLogger := by simp
    rw [loggers_configure, if_neg hne, hj n]

/-- A set-up writes nothing. -/
theorem writes_configure (j : Journal) (s : Setup) : Writes [] j (j.configure s) := by
  have hstderr : (j.configure s).stderr = j.stderr := by
    cases hs : s.file <;> simp [configure, attach, setLogger, hs]
  have hfiles : (j.configure s).files = s.appendTo [] j.files := by
    cases hs : s.file <;> simp [configure, attach, setLogger, Setup.appendTo, hs]
  refine ⟨by simp [hstderr], fun f => ?_⟩
  rw [content, hfiles, Setup.lookup_appendTo, ite_self]
  rfl

/-- All handlers of a set-up write a record that reaches its level, each to a place of its own. -/
theorem foldl_handlers (hr : r.level.reaches s.level = true) (stamp : Text) (j : Journal) :
    s.handlers.foldl (handle stamp r) j =
      { j with
        stderr := j.stderr ++ r.consoleLine
        files := s.appendTo (stamp ++ r.fileLine) j.files } := by
  rw [Setup.handlers, List.foldl_cons, handle, if_pos hr, Setup.appendTo]
  cases s.file with
  | none => rfl
  | some name => exact if_pos hr

namespace Configured

/-- A record that does not reach the level is dropped; the others go to every handler. -/
theorem step_emit (hj : Configured s j) (logger : Option Text) (stamp : Text) (level : Level)
    (message : Text) :
    j.step (.emit logger stamp level message) =
      if level.reaches s.level then
        s.handlers.foldl (handle stamp ⟨level, loggerName logger, message⟩) j
      else j := by
  have hpos : level.reaches s.level = true → 0 < level.rank := fun h =>
    Int.lt_of_lt_of_le s.level_pos (of_decide_eq_true h)
  rw [step, log]
  dsimp only
  rw [hj.thresholdAlong_eq, hj.handlersAlong_eq]
  by_cases h : level.reaches s.level = true
  · rw [if_pos ⟨hpos h, h⟩, if_pos h]
    rfl
  · rw [if_neg (fun hand => h hand.2), if_neg h]

/-- One step writes its entries, and leaves the loggers as the latest set-up does. -/
theorem step (hj : Configured s j) (x : Step) :
    Configured (x.next s) (j.step x) ∧ Writes (x.entries s) j (j.step x) := by
  cases x with
  | configure s' => exact ⟨configured_configure hj.bare s', writes_configure j s'⟩
  | emit logger stamp level message =>
    rw [hj.step_emit, Step.entries, Step.next]
    split_ifs with hr
    · rw [foldl_handlers hr]
      refine ⟨⟨hj.own, hj.bare⟩, by simp, fun f => ?_⟩
      rw [content, Setup.lookup_appendTo, content]
      by_cases hf : s.file = some f <;> simp [hf]
    · exact ⟨hj, .refl j⟩

/-- A run writes the entries of its steps in order. -/
theorem run (hj : Configured s j) (steps : List Step) :
    Configured (latest s steps) (j.run steps) ∧ Writes (entries s steps) j (j.run steps) := by
  induction steps generalizing s j with
  | nil => exact ⟨hj, .refl j⟩
  | cons x steps ih =>
    obtain ⟨hnext, hx⟩ := hj.step x
    obtain ⟨hlatest, hsteps⟩ := ih hnext
    exact ⟨hlatest, hx.trans hsteps⟩

end Configured

end MarkTidy.Log
