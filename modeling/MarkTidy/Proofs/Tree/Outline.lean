import Mathlib.Algebra.GroupWithZero.Nat
import Mathlib.Data.List.Basic
import MarkTidy.Proofs.Text.Search
import MarkTidy.Tree.Basic

/-!
What a tree holds, and what stays when files are written. The outline of a tree has its names,
folders and links, but nothing in its files. Putting a file where one is keeps the outline and
changes the content at that location alone.
-/

namespace MarkTidy.Tree

variable {t t' s u : Tree} {l l' : Location} {name name' : Text} {c c' : Content}
  {entries : List (Text × Tree)}

/-- A property of all trees, if it passes from the entries of a folder to the folder. -/
theorem folder_induction {motive : Tree → Prop} (file : ∀ c, motive (.file c))
    (link : ∀ target, motive (.link target))
    (folder : ∀ entries, (∀ e ∈ entries, motive e.2) → motive (.folder entries)) (t : Tree) :
    motive t := by
  refine Tree.rec (motive_1 := motive) (motive_2 := fun entries => ∀ e ∈ entries, motive e.2)
    (motive_3 := fun e => motive e.2) file link folder ?_ ?_ ?_ t
  · exact fun e he => absurd he List.not_mem_nil
  · exact fun e entries he hes => List.forall_mem_cons.2 ⟨he, hes⟩
  · exact fun name t ht => ht

/-! ### Entries -/

@[simp] theorem at?_nil (t : Tree) : t.at? [] = some t := by cases t <;> rfl

theorem at?_cons (t : Tree) (name : Text) (l : Location) :
    t.at? (name :: l) = (t.child? name).bind (at? · l) := by cases t <;> rfl

@[simp] theorem child?_folder (entries : List (Text × Tree)) (name : Text) :
    (folder entries).child? name = entries.lookup name := rfl

theorem at?_append (t : Tree) (l l' : Location) : t.at? (l ++ l') = (t.at? l).bind (at? · l') := by
  induction l generalizing t with
  | nil => simp
  | cons name l ih =>
    rw [List.cons_append, at?_cons, at?_cons]
    cases t.child? name with
    | none => rfl
    | some s => exact ih s

/-- What an entry is, apart from what it holds. -/
inductive Kind where
  | file
  | link (target : Text)
  | folder
deriving DecidableEq, Repr

def kind : Tree → Kind
  | .file _ => .file
  | .link target => .link target
  | .folder _ => .folder

def kindAt? (t : Tree) (l : Location) : Option Kind := (t.at? l).map kind

variable {k : Kind}

/-- The content of the file at a location. -/
def contentAt? (t : Tree) (l : Location) : Option Content :=
  match t.at? l with
  | some (.file c) => some c
  | _ => none

theorem contentAt?_eq_some_iff : t.contentAt? l = some c ↔ t.at? l = some (.file c) := by
  unfold contentAt?
  split
  · next c' h => simp [h]
  · next h => exact ⟨nofun, fun hc => absurd hc (h c)⟩

theorem kindAt?_eq_some_iff : t.kindAt? l = some k ↔ ∃ s, t.at? l = some s ∧ s.kind = k :=
  Option.map_eq_some_iff

theorem kindAt?_eq_folder_iff :
    t.kindAt? l = some .folder ↔ ∃ entries, t.at? l = some (folder entries) := by
  rw [kindAt?_eq_some_iff]
  constructor
  · rintro ⟨s, hs, hk⟩
    cases s with
    | file c => cases hk
    | link target => cases hk
    | folder entries => exact ⟨entries, hs⟩
  · rintro ⟨entries, hs⟩
    exact ⟨_, hs, rfl⟩

theorem kindAt?_eq_file_iff : t.kindAt? l = some .file ↔ ∃ c, t.contentAt? l = some c := by
  simp only [contentAt?_eq_some_iff, kindAt?, Option.map_eq_some_iff]
  constructor
  · rintro ⟨s, hs, hk⟩
    cases s with
    | file c => exact ⟨c, hs⟩
    | link target => cases hk
    | folder entries => cases hk
  · rintro ⟨c, hc⟩
    exact ⟨_, hc, rfl⟩

theorem kindAt?_cons (entries : List (Text × Tree)) (name : Text) (l : Location) :
    (folder entries).kindAt? (name :: l) = (entries.lookup name).bind (kindAt? · l) := by
  rw [kindAt?, at?_cons, child?_folder]
  cases entries.lookup name <;> rfl

theorem kindAt?_nil (t : Tree) : t.kindAt? [] = some t.kind := by rw [kindAt?, at?_nil]; rfl

theorem contentAt?_cons (entries : List (Text × Tree)) (name : Text) (l : Location) :
    (folder entries).contentAt? (name :: l) = (entries.lookup name).bind (contentAt? · l) := by
  rw [contentAt?, at?_cons, child?_folder]
  cases entries.lookup name <;> rfl

/-! ### Putting a file -/

theorem lookup_putEntry (name name' : Text) (s : Tree) (entries : List (Text × Tree)) :
    (putEntry name s entries).lookup name' =
      if name' = name then some s else entries.lookup name' := by
  induction entries with
  | nil => simp [putEntry, Text.lookup_cons]
  | cons e entries ih =>
    by_cases he : e.1 = name
    · rw [putEntry, if_pos he, Text.lookup_cons, Text.lookup_cons, he]
      split_ifs <;> rfl
    · rw [putEntry, if_neg he, Text.lookup_cons, Text.lookup_cons, ih]
      by_cases h : name' = e.1
      · rw [if_pos h, if_pos h, if_neg (fun hn => he (h.symm.trans hn))]
      · rw [if_neg h, if_neg h]

theorem contentAt?_empty (l : Location) : (folder []).contentAt? l = none := by
  cases l with
  | nil => rfl
  | cons name l => rw [contentAt?_cons]; rfl

/-- Putting a file changes no other file, unless it takes the place of a folder. -/
theorem contentAt?_put_of_ne (hne : l' ≠ l) (h : t.kindAt? l ≠ some .folder) (c : Content) :
    (t.put l (.file c)).contentAt? l' = t.contentAt? l' := by
  induction l generalizing t l' with
  | nil =>
    obtain ⟨name', rest', rfl⟩ := List.exists_cons_of_ne_nil hne
    cases t with
    | file c' => rfl
    | link target => rfl
    | folder entries => exact absurd rfl h
  | cons name rest ih =>
    cases t with
    | file c' => rfl
    | link target => rfl
    | folder entries =>
      cases l' with
      | nil => rfl
      | cons name' rest' =>
        rw [put, contentAt?_cons, contentAt?_cons, lookup_putEntry]
        by_cases hname : name' = name
        · have hrest : rest' ≠ rest := fun hr => hne (by rw [hname, hr])
          rw [if_pos hname, hname, Option.bind_some]
          cases hs : entries.lookup name with
          | some s =>
            rw [kindAt?, at?_cons, child?_folder, hs] at h
            exact ih hrest h
          | none =>
            cases rest with
            | nil =>
              obtain ⟨x, xs, rfl⟩ := List.exists_cons_of_ne_nil hrest
              rfl
            | cons x xs =>
              rw [Option.getD_none, ih hrest (by simp [kindAt?, at?_cons]), contentAt?_empty]
              rfl
        · rw [if_neg hname]

theorem exists_of_kindAt?_cons (h : t.kindAt? (name :: l) = some k) :
    ∃ entries s, t = folder entries ∧ entries.lookup name = some s ∧ s.kindAt? l = some k := by
  rw [kindAt?, at?_cons] at h
  cases t with
  | file c => cases h
  | link target => cases h
  | folder entries =>
    rw [child?_folder] at h
    cases hs : entries.lookup name with
    | none => rw [hs] at h; cases h
    | some s => exact ⟨entries, s, rfl, hs, by rwa [hs] at h⟩

theorem kindAt?_append (h : t.at? l = some s) (l' : Location) :
    t.kindAt? (l ++ l') = s.kindAt? l' := by
  rw [kindAt?, kindAt?, at?_append, h, Option.bind_some]

theorem kindAt?_of_append (h : t.kindAt? (l ++ name :: l') = some k) :
    t.kindAt? l = some .folder := by
  rw [kindAt?_eq_folder_iff]
  rw [kindAt?, at?_append] at h
  cases hs : t.at? l with
  | none =>
    rw [hs] at h
    cases h
  | some s =>
    rw [hs, Option.bind_some] at h
    obtain ⟨entries, u, rfl, -, -⟩ := exists_of_kindAt?_cons h
    exact ⟨entries, rfl⟩

/-- A file that is put where one was holds what was put. -/
theorem contentAt?_put_self (h : t.kindAt? l = some .file) (c : Content) :
    (t.put l (.file c)).contentAt? l = some c := by
  induction l generalizing t with
  | nil => cases t <;> rfl
  | cons name rest ih =>
    obtain ⟨entries, s, rfl, hs, hk⟩ := exists_of_kindAt?_cons h
    rw [put, contentAt?_cons, lookup_putEntry, if_pos rfl, hs]
    exact ih hk

/-- A file that is put into a folder is there. -/
theorem contentAt?_put_new (h : t.kindAt? l = some .folder) (name : Text) (c : Content) :
    (t.put (l ++ [name]) (.file c)).contentAt? (l ++ [name]) = some c := by
  induction l generalizing t with
  | nil =>
    obtain ⟨entries, hs⟩ := kindAt?_eq_folder_iff.1 h
    obtain rfl := Option.some.inj ((at?_nil t).symm.trans hs)
    rw [List.nil_append, put, contentAt?_cons, lookup_putEntry, if_pos rfl]
    cases (entries.lookup name).getD (folder []) <;> rfl
  | cons x rest ih =>
    obtain ⟨entries, s, rfl, hs, hk⟩ := exists_of_kindAt?_cons h
    rw [List.cons_append, put, contentAt?_cons, lookup_putEntry, if_pos rfl, hs]
    exact ih hk

/-! ### Outlines -/

mutual

/-- The tree with empty files. -/
def outline : Tree → Tree
  | file _ => file (.text [])
  | link target => link target
  | folder entries => folder (outlineOf entries)

def outlineOf : List (Text × Tree) → List (Text × Tree)
  | [] => []
  | e :: rest => outlineIn e :: outlineOf rest

def outlineIn : Text × Tree → Text × Tree
  | (name, t) => (name, outline t)

end

theorem outline_folder (entries : List (Text × Tree)) :
    (folder entries).outline = folder (entries.map fun e => (e.1, e.2.outline)) := by
  have hof : ∀ entries, outlineOf entries = entries.map fun e => (e.1, e.2.outline) := by
    intro entries
    induction entries with
    | nil => rfl
    | cons e entries ih => rw [outlineOf, ih, List.map_cons, outlineIn]
  rw [outline, hof]

@[simp] theorem kind_outline (t : Tree) : t.outline.kind = t.kind := by cases t <;> rfl

theorem lookup_map_outline (name : Text) (entries : List (Text × Tree)) :
    (entries.map fun e => (e.1, e.2.outline)).lookup name = (entries.lookup name).map outline := by
  induction entries with
  | nil => rfl
  | cons e entries ih =>
    rw [List.map_cons, Text.lookup_cons, Text.lookup_cons, ih]
    split_ifs <;> rfl

theorem at?_outline (t : Tree) (l : Location) : t.outline.at? l = (t.at? l).map outline := by
  induction l generalizing t with
  | nil => simp
  | cons name l ih =>
    cases t with
    | file c => rfl
    | link target => rfl
    | folder entries =>
      rw [outline_folder, at?_cons, at?_cons, child?_folder, child?_folder, lookup_map_outline]
      cases entries.lookup name with
      | none => rfl
      | some s => exact ih s

theorem kindAt?_outline (t : Tree) (l : Location) : t.outline.kindAt? l = t.kindAt? l := by
  rw [kindAt?, at?_outline, kindAt?]
  cases t.at? l <;> simp

theorem linksOf_eq_sum (entries : List (Text × Tree)) :
    linksOf entries = (entries.map fun e => e.2.links).sum := by
  induction entries with
  | nil => rfl
  | cons e entries ih => rw [linksOf, ih, List.map_cons, List.sum_cons, linksIn]

theorem links_outline (t : Tree) : t.outline.links = t.links := by
  induction t using folder_induction with
  | file c => rfl
  | link target => rfl
  | folder entries ih =>
    rw [outline_folder, links, links, linksOf_eq_sum, linksOf_eq_sum, List.map_map]
    exact congrArg List.sum (List.map_congr_left ih)

theorem map_outline_putEntry (s : Tree) (h : entries.lookup name = some t)
    (hs : s.outline = t.outline) :
    (putEntry name s entries).map (fun e => (e.1, e.2.outline)) =
      entries.map fun e => (e.1, e.2.outline) := by
  induction entries with
  | nil => cases h
  | cons e entries ih =>
    rw [Text.lookup_cons] at h
    by_cases he : e.1 = name
    · rw [if_pos he.symm] at h
      obtain rfl := Option.some.inj h
      rw [putEntry, if_pos he, List.map_cons, List.map_cons, he, hs]
    · rw [if_neg (Ne.symm he)] at h
      rw [putEntry, if_neg he, List.map_cons, List.map_cons, ih h]

/-- A file that is put where one was leaves the outline as it is. -/
theorem outline_put (h : t.kindAt? l = some .file) (c : Content) :
    (t.put l (.file c)).outline = t.outline := by
  induction l generalizing t with
  | nil =>
    cases t with
    | file c' => rfl
    | link target => cases h
    | folder entries => cases h
  | cons name rest ih =>
    obtain ⟨entries, s, rfl, hs, hk⟩ := exists_of_kindAt?_cons h
    rw [put, hs, outline_folder, outline_folder, Option.getD_some,
      map_outline_putEntry _ hs (ih hk)]

end MarkTidy.Tree
