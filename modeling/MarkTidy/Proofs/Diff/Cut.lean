import Mathlib.Data.List.SplitBy
import MarkTidy.Diff.Unified
import MarkTidy.Proofs.Diff.Script

/-!
Hunks as parts of a script. Hunks follow each other in a script, and all that is left out before,
between and after them is kept. Each says how many lines of either text come before it.
-/

namespace MarkTidy

variable {h : Hunk} {hs : List Hunk} {gap rest es : List Edit} {e : Edit} {o n : Nat}

namespace Edit

theorem exists_keep (h : e.isKeep = true) : ∃ l, e = keep l := by
  cases e with
  | keep l => exact ⟨l, rfl⟩
  | remove l => cases h
  | add l => cases h

theorem length_old_of_keep (hkeep : ∀ e ∈ es, e.isKeep = true) :
    (es.filterMap old?).length = es.length := by
  rw [List.length_filterMap_eq_countP, List.countP_eq_length]
  intro e he
  obtain ⟨l, rfl⟩ := exists_keep (hkeep e he)
  rfl

theorem filterMap_old_of_keep (hkeep : ∀ e ∈ es, e.isKeep = true) :
    es.filterMap old? = es.filterMap new? := by
  refine List.filterMap_congr fun e he => ?_
  obtain ⟨l, rfl⟩ := exists_keep (hkeep e he)
  rfl

theorem length_new_of_keep (hkeep : ∀ e ∈ es, e.isKeep = true) :
    (es.filterMap new?).length = es.length := by
  rw [← filterMap_old_of_keep hkeep, length_old_of_keep hkeep]

/-- The edit with another line. -/
def mapLine (f : Text → Text) : Edit → Edit
  | keep l => keep (f l)
  | remove l => remove (f l)
  | add l => add (f l)

@[simp] theorem isKeep_mapLine (f : Text → Text) (e : Edit) : (e.mapLine f).isKeep = e.isKeep := by
  cases e <;> rfl

@[simp] theorem old?_mapLine (f : Text → Text) (e : Edit) : (e.mapLine f).old? = e.old?.map f := by
  cases e <;> rfl

@[simp] theorem new?_mapLine (f : Text → Text) (e : Edit) : (e.mapLine f).new? = e.new?.map f := by
  cases e <;> rfl

theorem filterMap_old_mapLine (f : Text → Text) (es : List Edit) :
    (es.map (mapLine f)).filterMap old? = (es.filterMap old?).map f := by
  simp [List.filterMap_map, List.map_filterMap]

theorem filterMap_new_mapLine (f : Text → Text) (es : List Edit) :
    (es.map (mapLine f)).filterMap new? = (es.filterMap new?).map f := by
  simp [List.filterMap_map, List.map_filterMap]

end Edit

namespace Hunk

/-- The hunk with other lines. -/
def mapLines (f : Text → Text) (h : Hunk) : Hunk := { h with edits := h.edits.map (Edit.mapLine f) }

@[simp] theorem old_mapLines (f : Text → Text) (h : Hunk) : (h.mapLines f).old = h.old := rfl

@[simp] theorem new_mapLines (f : Text → Text) (h : Hunk) : (h.mapLines f).new = h.new := rfl

@[simp] theorem oldSize_mapLines (f : Text → Text) (h : Hunk) : (h.mapLines f).oldSize = h.oldSize := by
  rw [oldSize, mapLines, Edit.filterMap_old_mapLine, List.length_map, oldSize]

@[simp] theorem newSize_mapLines (f : Text → Text) (h : Hunk) : (h.mapLines f).newSize = h.newSize := by
  rw [newSize, mapLines, Edit.filterMap_new_mapLine, List.length_map, newSize]

end Hunk

theorem Hunk.oldSize_extend (h : Hunk) (es : List Edit) :
    (h.extend es).oldSize = h.oldSize + (es.filterMap Edit.old?).length := by
  simp [Hunk.oldSize, Hunk.extend]

theorem Hunk.newSize_extend (h : Hunk) (es : List Edit) :
    (h.extend es).newSize = h.newSize + (es.filterMap Edit.new?).length := by
  simp [Hunk.newSize, Hunk.extend]

namespace Diff

/-- Hunks that are cut out of a script. Before the script there are `o` lines of the old text and `n`
lines of the new one. After a hunk at least one line is left out, unless the script ends there. -/
inductive Cuts : Nat → Nat → List Edit → List Hunk → Prop where
  | done {o n : Nat} {gap : List Edit} (hgap : ∀ e ∈ gap, e.isKeep = true) : Cuts o n gap []
  | hunk {o n : Nat} {gap rest : List Edit} {h : Hunk} {hs : List Hunk}
      (hgap : ∀ e ∈ gap, e.isKeep = true) (hold : h.old = o + gap.length)
      (hnew : h.new = n + gap.length) (hne : h.edits ≠ [])
      (hnext : ∀ e ∈ rest.head?, e.isKeep = true)
      (hrest : Cuts (h.old + h.oldSize) (h.new + h.newSize) rest hs) :
      Cuts o n (gap ++ h.edits ++ rest) (h :: hs)

namespace Cuts

theorem eq_nil (h : Cuts o n [] hs) : hs = [] := by
  generalize hes : ([] : List Edit) = es at h
  cases h with
  | done _ => rfl
  | hunk _ _ _ hne _ _ =>
    have hnil := (List.append_eq_nil_iff.1 hes.symm).1
    exact absurd (List.append_eq_nil_iff.1 hnil).2 hne

theorem mapLines (f : Text → Text) (h : Cuts o n es hs) :
    Cuts o n (es.map (Edit.mapLine f)) (hs.map (Hunk.mapLines f)) := by
  induction h with
  | done hgap => exact .done (List.forall_mem_map.2 (by simpa using hgap))
  | @hunk o n gap rest h hs hgap hold hnew hne hnext _ ih =>
    rw [List.map_append, List.map_append, List.map_cons]
    have hgap' : ∀ e ∈ gap.map (Edit.mapLine f), e.isKeep = true :=
      List.forall_mem_map.2 (by simpa using hgap)
    refine .hunk (h := h.mapLines f) hgap' (by simpa using hold) (by simpa using hnew)
      (by simpa [Hunk.mapLines] using hne) ?_ (by simpa using ih)
    cases rest with
    | nil => simp
    | cons e rest => simpa using hnext

end Cuts

/-- Whatever hunk is open, it and the hunks still to come from some runs are cut out of the script. -/
def Resumes (runs : List (List Edit)) : Prop :=
  ∀ (h : Hunk) (gap : List Edit) (o n : Nat), (∀ e ∈ gap, e.isKeep = true) →
    h.old = o + gap.length → h.new = n + gap.length → h.edits ≠ [] →
    Cuts o n (gap ++ h.edits ++ runs.flatten)
      (hunksFrom (h.old + h.oldSize) (h.new + h.newSize) (some h) runs)

/-- A hunk may be opened again with the last lines of a kept run of which `k` lines have gone to the
hunk before. -/
theorem Resumes.reopen {run : List Edit} {runs : List (List Edit)} (hruns : Resumes runs)
    (hrun : run ≠ []) (hkeep : ∀ e ∈ run, e.isKeep = true) {k : Nat}
    (hk : k ≤ run.length - context) (o n : Nat) :
    Cuts o n (run.drop k ++ runs.flatten)
      (hunksFrom (o + (run.length - k)) (n + (run.length - k))
        (some ⟨o + (run.length - k) - min run.length context,
          n + (run.length - k) - min run.length context, run.drop (run.length - context)⟩) runs) := by
  have hcontext : context = 3 := rfl
  have hpos : 0 < run.length := List.length_pos_of_ne_nil hrun
  generalize hlast : run.drop (run.length - context) = last
  obtain ⟨gap, hgap⟩ : ∃ gap, run.drop k = gap ++ last := by
    have hsum : k + (run.length - context - k) = run.length - context := by omega
    have hdrop : last = (run.drop k).drop (run.length - context - k) := by
      rw [← hlast, List.drop_drop, hsum]
    exact ⟨_, by rw [hdrop, List.take_append_drop]⟩
  have hlastkeep : ∀ e ∈ last, e.isKeep = true := fun e he =>
    hkeep e (List.mem_of_mem_drop (hlast ▸ he))
  have hgapkeep : ∀ e ∈ gap, e.isKeep = true := fun e he =>
    hkeep e (List.mem_of_mem_drop (hgap ▸ List.mem_append_left last he))
  have hlen : last.length = min run.length context := by
    rw [← hlast, List.length_drop]
    omega
  have hlen' : run.length - k = gap.length + last.length := by
    rw [← List.length_drop, hgap, List.length_append]
  have hstart (m : Nat) : m + (run.length - k) - min run.length context = m + gap.length := by omega
  have hend (m : Nat) : m + (run.length - k) = m + gap.length + last.length := by omega
  have hne : last ≠ [] := List.ne_nil_of_length_pos (by omega)
  have hopen := hruns ⟨o + gap.length, n + gap.length, last⟩ gap o n hgapkeep rfl rfl hne
  rw [hgap, hstart, hstart, hend, hend]
  simpa only [Hunk.oldSize, Hunk.newSize, Edit.length_old_of_keep hlastkeep,
    Edit.length_new_of_keep hlastkeep] using hopen

theorem resumes {runs : List (List Edit)} (hruns : ∀ run ∈ runs, run ≠ []) : Resumes runs := by
  induction runs with
  | nil =>
    intro h gap o n hgap hold hnew hne
    exact .hunk hgap hold hnew hne (by simp) (.done (by simp))
  | cons run runs ih =>
    intro h gap o n hgap hold hnew hne
    obtain ⟨hrun, hruns⟩ := List.forall_mem_cons.1 hruns
    have hmore : Cuts o n (gap ++ h.edits ++ (run :: runs).flatten)
        (hunksFrom (h.old + h.oldSize + (run.filterMap Edit.old?).length)
          (h.new + h.newSize + (run.filterMap Edit.new?).length) (some (h.extend run)) runs) := by
      have hopen := ih hruns (h.extend run) gap o n hgap hold hnew (by simp [Hunk.extend, hne])
      rw [Hunk.oldSize_extend, Hunk.newSize_extend, ← Nat.add_assoc, ← Nat.add_assoc] at hopen
      simpa [Hunk.extend] using hopen
    rw [hunksFrom]
    dsimp only
    split_ifs with hall hlast hlong
    · have hkeep : ∀ e ∈ run, e.isKeep = true := List.all_eq_true.1 hall
      obtain rfl := List.isEmpty_iff.1 hlast
      have hsplit : gap ++ h.edits ++ [run].flatten =
          gap ++ (h.extend (run.take context)).edits ++ run.drop context := by
        simp [Hunk.extend]
      have hrest : ∀ e ∈ run.drop context, e.isKeep = true := fun e he =>
        hkeep e (List.mem_of_mem_drop he)
      rw [hsplit]
      exact .hunk hgap hold hnew (by simp [Hunk.extend, hne])
        (fun e he => hrest e (List.mem_of_mem_head? he)) (.done hrest)
    · have hkeep : ∀ e ∈ run, e.isKeep = true := List.all_eq_true.1 hall
      have hsplit : gap ++ h.edits ++ (run :: runs).flatten =
          gap ++ (h.extend (run.take context)).edits ++ (run.drop context ++ runs.flatten) := by
        simp [Hunk.extend, ← List.append_assoc (run.take context)]
      have hcontext : context = 3 := rfl
      have hfirst : ∀ e ∈ run.take context, e.isKeep = true := fun e he =>
        hkeep e (List.mem_of_mem_take he)
      have hlen : (run.take context).length = context := by
        rw [List.length_take]
        omega
      have hold' : (h.extend (run.take context)).oldSize = h.oldSize + context := by
        rw [Hunk.oldSize_extend, Edit.length_old_of_keep hfirst, hlen]
      have hnew' : (h.extend (run.take context)).newSize = h.newSize + context := by
        rw [Hunk.newSize_extend, Edit.length_new_of_keep hfirst, hlen]
      have hend (m : Nat) : m + context + (run.length - context) = m + run.length := by omega
      have hreopen := (ih hruns).reopen hrun hkeep (k := context) (by omega)
        (h.old + h.oldSize + context) (h.new + h.newSize + context)
      rw [hend, hend] at hreopen
      rw [hsplit, Edit.length_old_of_keep hkeep, Edit.length_new_of_keep hkeep]
      refine .hunk hgap hold hnew (by simp [Hunk.extend, hne]) ?_ ?_
      · intro e he
        have hrest : run.drop context ≠ [] := by
          rw [ne_eq, List.drop_eq_nil_iff]
          omega
        rw [List.head?_append_of_ne_nil _ hrest] at he
        exact hkeep e (List.mem_of_mem_drop (List.mem_of_mem_head? he))
      · rw [hold', hnew', ← Nat.add_assoc, ← Nat.add_assoc]
        exact hreopen
    · exact hmore
    · exact hmore

theorem cuts_hunksFrom_none {runs : List (List Edit)} (hruns : ∀ run ∈ runs, run ≠ []) (o n : Nat) :
    Cuts o n runs.flatten (hunksFrom o n none runs) := by
  cases runs with
  | nil => exact .done (by simp)
  | cons run runs =>
    obtain ⟨hrun, hruns⟩ := List.forall_mem_cons.1 hruns
    rw [hunksFrom]
    dsimp only
    split_ifs with hall hlast
    · have hkeep : ∀ e ∈ run, e.isKeep = true := List.all_eq_true.1 hall
      obtain rfl := List.isEmpty_iff.1 hlast
      exact .done (by simpa using hkeep)
    · have hkeep : ∀ e ∈ run, e.isKeep = true := List.all_eq_true.1 hall
      have hreopen := (resumes hruns).reopen hrun hkeep (Nat.zero_le _) o n
      rw [Edit.length_old_of_keep hkeep, Edit.length_new_of_keep hkeep]
      exact hreopen
    · exact resumes hruns ⟨o, n, run⟩ [] o n (by simp) rfl rfl hrun

/-- The hunks of a script are cut out of it. -/
theorem cuts_hunks (es : List Edit) : Cuts 0 0 es (hunks es) := by
  have hruns : ∀ run ∈ es.splitBy (fun a b => a.isKeep == b.isKeep), run ≠ [] := fun run hrun =>
    List.ne_nil_of_mem_splitBy hrun
  have hcuts := cuts_hunksFrom_none hruns 0 0
  rwa [List.flatten_splitBy] at hcuts

end Diff

end MarkTidy
