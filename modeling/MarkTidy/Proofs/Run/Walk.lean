import MarkTidy.Proofs.Tree.Sound
import MarkTidy.Run.Scan
import Mathlib.Data.Char
import Mathlib.Data.List.Lex

/-!
The files below a folder. The walk finds a file if none of the folders on the way to it is left out,
and finds the files of a folder before those of its subfolders, each in the order of their names.
-/

namespace MarkTidy.Scan

open Text MarkTidy.Tree

/-- The order of the scan: of each folder the files come first, and then its folders. -/
inductive Before : Location → Location → Prop
  | files {a b : Text} : a < b → Before [a] [b]
  | fileFirst (a b c : Text) (l : Location) : Before [a] (b :: c :: l)
  | folders {a b : Text} (c d : Text) (l l' : Location) :
    a < b → Before (a :: c :: l) (b :: d :: l')
  | within {l l' : Location} (a : Text) : Before l l' → Before (a :: l) (a :: l')

variable {leads : Location → Bool} {ignored : Location → Bool → Bool} {here l l' p : Location}
  {name : Text} {s t : Tree} {entries : List (Text × Tree)} {a b : Text}

/-! ### Order -/

theorem precedes_iff : precedes a b = true ↔ a ≤ b := by
  rw [le_iff_lt_or_eq]
  induction a generalizing b with
  | nil => cases b <;> simp [precedes]
  | cons c a ih =>
    cases b with
    | nil => simp [precedes]
    | cons d b =>
      have hlt : c.toNat < d.toNat ↔ c < d := Iff.rfl
      rw [precedes, Bool.or_eq_true, Bool.and_eq_true, decide_eq_true_eq, beq_iff_eq, ih, hlt,
        List.cons_lt_cons_iff, List.cons.injEq, and_or_left, or_assoc]

theorem Before.append_left (h : Before l l') (here : Location) :
    Before (here ++ l) (here ++ l') := by
  induction here with
  | nil => exact h
  | cons a here ih => exact .within a ih

theorem Before.asymm (h : Before l l') : ¬Before l' l := by
  induction h with
  | files hab =>
    intro h'
    cases h' with
    | files hba => exact lt_asymm hab hba
    | within _ h' => cases h'
  | fileFirst a b c l =>
    intro h'
    cases h' with
    | within _ h' => cases h'
  | folders c d l l' hab =>
    intro h'
    cases h' with
    | folders _ _ _ _ hba => exact lt_asymm hab hba
    | within _ h' => exact lt_irrefl _ hab
  | within a h ih =>
    intro h'
    cases h' with
    | files hab => exact lt_irrefl _ hab
    | fileFirst => cases h
    | folders _ _ _ _ hab => exact lt_irrefl _ hab
    | within _ h' => exact ih h'

theorem Before.ne (h : Before l l') : l ≠ l' := by
  rintro rfl
  exact h.asymm h

/-! ### Entries -/

theorem entriesOf_eq_map (entries : List (Text × Tree)) :
    entriesOf leads ignored here entries = entries.map (entryOf leads ignored here) := by
  induction entries with
  | nil => rfl
  | cons e entries ih => rw [entriesOf, ih, List.map_cons]

@[simp] theorem name_entryOf (e : Text × Tree) : (entryOf leads ignored here e).name = e.1 := by
  obtain ⟨name, t⟩ := e
  cases t <;> rfl

theorem isFolder_entryOf (e : Text × Tree) :
    (entryOf leads ignored here e).isFolder = true ↔ e.2.kind = .folder := by
  obtain ⟨name, t⟩ := e
  cases t <;> simp [entryOf, kind]

theorem mem_ordered {found : List Entry} : l ∈ ordered found ↔ ∃ e ∈ found, l ∈ e.files := by
  simp [ordered]

theorem mem_files_folder :
    l ∈ files leads ignored here (folder entries) ↔
      ∃ e ∈ entries, l ∈ (entryOf leads ignored here e).files := by
  rw [files, List.mem_append, mem_ordered, mem_ordered, entriesOf_eq_map]
  constructor
  · rintro (⟨f, hf, hl⟩ | ⟨f, hf, hl⟩) <;>
    · obtain ⟨e, he, rfl⟩ := List.mem_map.1 (List.mem_of_mem_filter hf)
      exact ⟨e, he, hl⟩
  · rintro ⟨e, he, hl⟩
    have hmem := List.mem_map_of_mem (f := entryOf leads ignored here) he
    cases hf : (entryOf leads ignored here e).isFolder with
    | false => exact .inl ⟨_, List.mem_filter.2 ⟨hmem, by rw [hf]; rfl⟩, hl⟩
    | true => exact .inr ⟨_, List.mem_filter.2 ⟨hmem, hf⟩, hl⟩

/-! ### Membership -/

/-- What the walk finds below a folder: files, and links that do not lead to a folder, if they are
not ignored and no folder on the way to them is left out. -/
structure Listed (leads : Location → Bool) (ignored : Location → Bool → Bool) (here : Location)
    (t : Tree) (p : Location) : Prop where
  below : p ≠ []
  stop : t.kindAt? p = some .file ∨
    ∃ target, t.kindAt? p = some (.link target) ∧ leads (here ++ p) = false
  kept : ignored (here ++ p) false = false
  way : ∀ q name rest, p = q ++ name :: rest → rest ≠ [] →
    excludedFolders.contains (String.ofList name) = false ∧
      ignored (here ++ (q ++ [name])) true = false

theorem mem_entryOf_folder {es : List (Text × Tree)} :
    l ∈ (entryOf leads ignored here (name, folder es)).files ↔
      excludedFolders.contains (String.ofList name) = false ∧ ignored (here ++ [name]) true = false ∧
        l ∈ files leads ignored (here ++ [name]) (folder es) := by
  rw [entryOf]
  dsimp only
  split_ifs with h
  · simp only [List.not_mem_nil, false_iff]
    rintro ⟨h₁, h₂, -⟩
    rw [h₁, h₂] at h
    cases h
  · rw [Bool.or_eq_true, not_or, Bool.not_eq_true, Bool.not_eq_true] at h
    exact ⟨fun hl => ⟨h.1, h.2, hl⟩, fun hl => hl.2.2⟩

theorem listed_cons_folder {es : List (Text × Tree)} (h : entries.lookup name = some (folder es)) :
    Listed leads ignored here (folder entries) (name :: p) ↔
      excludedFolders.contains (String.ofList name) = false ∧ ignored (here ++ [name]) true = false ∧
        Listed leads ignored (here ++ [name]) (folder es) p := by
  have hk : ∀ q, (folder entries).kindAt? (name :: q) = (folder es).kindAt? q := fun q => by
    rw [kindAt?_cons, h, Option.bind_some]
  have happ : ∀ q : Location, here ++ name :: q = here ++ [name] ++ q := fun q => by simp
  constructor
  · intro hp
    have hne : p ≠ [] := by
      rintro rfl
      have hstop := hp.stop
      rw [hk, kindAt?_nil] at hstop
      rcases hstop with hstop | ⟨target, hstop, -⟩ <;> cases hstop
    obtain ⟨hname, hopen⟩ := hp.way [] name p rfl hne
    refine ⟨hname, hopen, hne, ?_, ?_, fun q x rest heq hrest => ?_⟩
    · rw [← hk, ← happ]
      exact hp.stop
    · rw [← happ]
      exact hp.kept
    · have := hp.way (name :: q) x rest (by rw [heq, List.cons_append]) hrest
      rwa [List.cons_append, happ] at this
  · rintro ⟨hname, hopen, hne, hstop, hkept, hway⟩
    refine ⟨List.cons_ne_nil _ _, ?_, ?_, fun q x rest heq hrest => ?_⟩
    · rw [hk, happ]
      exact hstop
    · rw [happ]
      exact hkept
    · cases q with
      | nil =>
        obtain ⟨rfl, -⟩ := List.cons.inj heq
        exact ⟨hname, hopen⟩
      | cons y q =>
        obtain ⟨rfl, heq'⟩ := List.cons.inj heq
        rw [List.cons_append, happ]
        exact hway q x rest heq' hrest

theorem mem_entryOf_leaf (hs : s.kind ≠ .folder) :
    l ∈ (entryOf leads ignored here (name, s)).files ↔
      l = here ++ [name] ∧ (s.kind = .file ∨ leads (here ++ [name]) = false) ∧
        ignored (here ++ [name]) false = false := by
  cases s with
  | file c => cases hi : ignored (here ++ [name]) false <;> simp [entryOf, kind, hi]
  | link target =>
    cases hi : ignored (here ++ [name]) false <;>
      cases hd : leads (here ++ [name]) <;> simp [entryOf, kind, hi, hd]
  | folder es => exact absurd rfl hs

theorem kindAt?_cons_leaf (h : entries.lookup name = some s) (hs : s.kind ≠ .folder)
    (hp : p ≠ []) : (folder entries).kindAt? (name :: p) = none := by
  obtain ⟨x, xs, rfl⟩ := List.exists_cons_of_ne_nil hp
  rw [kindAt?_cons, h, Option.bind_some]
  cases s with
  | file c => rfl
  | link target => rfl
  | folder es => exact absurd rfl hs

theorem listed_cons_leaf (h : entries.lookup name = some s) (hs : s.kind ≠ .folder) :
    Listed leads ignored here (folder entries) (name :: p) ↔
      p = [] ∧ (s.kind = .file ∨ leads (here ++ [name]) = false) ∧
        ignored (here ++ [name]) false = false := by
  have hk : (folder entries).kindAt? [name] = some s.kind := by
    rw [kindAt?_cons, h, Option.bind_some, kindAt?_nil]
  constructor
  · intro hl
    by_cases hp : p = []
    · subst hp
      refine ⟨rfl, ?_, hl.kept⟩
      rcases hl.stop with hstop | ⟨target, -, hleads⟩
      · exact .inl (Option.some.inj (hk.symm.trans hstop))
      · exact .inr hleads
    · have hstop := hl.stop
      rw [kindAt?_cons_leaf h hs hp] at hstop
      rcases hstop with hstop | ⟨target, hstop, -⟩ <;> cases hstop
  · rintro ⟨rfl, hstop, hkept⟩
    refine ⟨List.cons_ne_nil _ _, ?_, hkept, fun q x rest heq hrest => ?_⟩
    · rw [hk]
      cases s with
      | file c => exact .inl rfl
      | link target =>
        rcases hstop with hstop | hleads
        · cases hstop
        · exact .inr ⟨target, rfl, hleads⟩
      | folder es => exact absurd rfl hs
    · cases q with
      | nil => exact absurd (List.cons.inj heq).2.symm hrest
      | cons y q => cases q <;> cases heq

/-- The walk finds exactly what is listed. -/
theorem mem_files (h : t.Sound) :
    l ∈ files leads ignored here t ↔ ∃ p, l = here ++ p ∧ Listed leads ignored here t p := by
  induction t using folder_induction generalizing here l with
  | file c =>
    refine ⟨nofun, ?_⟩
    rintro ⟨p, -, hp⟩
    obtain ⟨x, xs, rfl⟩ := List.exists_cons_of_ne_nil hp.below
    rcases hp.stop with hstop | ⟨target, hstop, -⟩ <;> cases hstop
  | link target =>
    refine ⟨nofun, ?_⟩
    rintro ⟨p, -, hp⟩
    obtain ⟨x, xs, rfl⟩ := List.exists_cons_of_ne_nil hp.below
    rcases hp.stop with hstop | ⟨target, hstop, -⟩ <;> cases hstop
  | folder entries ih =>
    -- below one entry the two sides agree, by what kind of entry it is
    have hentry : ∀ name s, entries.lookup name = some s →
        (l ∈ (entryOf leads ignored here (name, s)).files ↔
          ∃ p, l = here ++ name :: p ∧ Listed leads ignored here (folder entries) (name :: p)) := by
      intro name s hs
      by_cases hk : s.kind = .folder
      · cases s with
        | file c => cases hk
        | link target => cases hk
        | folder es =>
          rw [mem_entryOf_folder, ih _ (mem_of_lookup hs) (h.of_lookup hs)]
          simp only [listed_cons_folder hs, List.append_assoc, List.singleton_append]
          constructor
          · rintro ⟨hname, hopen, p, rfl, hp⟩
            exact ⟨p, rfl, hname, hopen, hp⟩
          · rintro ⟨p, rfl, hname, hopen, hp⟩
            exact ⟨hname, hopen, p, rfl, hp⟩
      · simp only [mem_entryOf_leaf hk, listed_cons_leaf hs hk]
        constructor
        · rintro ⟨rfl, hstop⟩
          exact ⟨[], rfl, rfl, hstop⟩
        · rintro ⟨p, rfl, rfl, hstop⟩
          exact ⟨rfl, hstop⟩
    rw [mem_files_folder]
    constructor
    · rintro ⟨⟨name, s⟩, he, hl⟩
      obtain ⟨p, rfl, hp⟩ := (hentry name s (lookup_of_mem (h.distinct [] _ rfl) he)).1 hl
      exact ⟨name :: p, rfl, hp⟩
    · rintro ⟨p, rfl, hp⟩
      obtain ⟨name, p, rfl⟩ := List.exists_cons_of_ne_nil hp.below
      cases hs : entries.lookup name with
      | none =>
        have hstop := hp.stop
        rw [kindAt?_cons, hs] at hstop
        rcases hstop with hstop | ⟨target, hstop, -⟩ <;> cases hstop
      | some s => exact ⟨(name, s), mem_of_lookup hs, (hentry name s hs).2 ⟨p, rfl, hp⟩⟩

/-! ### The order of what is found -/

theorem pairwise_mergeSort_name {found : List Entry} (h : (found.map (·.name)).Nodup) :
    (found.mergeSort fun a b => precedes a.name b.name).Pairwise fun a b => a.name < b.name := by
  have hle : (found.mergeSort fun a b => precedes a.name b.name).Pairwise
      fun a b => precedes a.name b.name = true := by
    refine List.pairwise_mergeSort (fun a b c hab hbc => ?_) (fun a b => ?_) found
    · exact precedes_iff.2 ((precedes_iff.1 hab).trans (precedes_iff.1 hbc))
    · rw [Bool.or_eq_true, precedes_iff, precedes_iff]
      exact le_total _ _
  have hne : (found.mergeSort fun a b => precedes a.name b.name).Pairwise
      fun a b => a.name ≠ b.name :=
    List.pairwise_map.1 (((List.mergeSort_perm found _).map _).nodup_iff.2 h)
  refine (hle.and hne).imp fun {a b} hab => ?_
  exact lt_of_le_of_ne (precedes_iff.1 hab.1) hab.2

theorem pairwise_ordered {found : List Entry} (h : (found.map (·.name)).Nodup)
    (hin : ∀ e ∈ found, e.files.Pairwise Before)
    (hout : ∀ e ∈ found, ∀ f ∈ found, e.name < f.name →
      ∀ x ∈ e.files, ∀ y ∈ f.files, Before x y) :
    (ordered found).Pairwise Before := by
  rw [ordered, List.pairwise_flatMap]
  refine ⟨fun e he => hin e (List.mem_mergeSort.1 he), ?_⟩
  refine (pairwise_mergeSort_name h).imp_of_mem fun {e f} he hf hlt => ?_
  exact hout e (List.mem_mergeSort.1 he) f (List.mem_mergeSort.1 hf) hlt

/-- What one entry may stand for: itself, or files further down if it is a folder. -/
def Entry.Covers (here : Location) (e : Entry) (l : Location) : Prop :=
  if e.isFolder then ∃ c q, l = here ++ e.name :: c :: q else l = here ++ [e.name]

theorem Entry.Covers.before {e f : Entry} (hl : e.Covers here l) (hl' : f.Covers here l')
    (hkind : e.isFolder = f.isFolder) (hlt : e.name < f.name) : Before l l' := by
  rw [Entry.Covers] at hl hl'
  cases he : e.isFolder with
  | true =>
    rw [if_pos he] at hl
    rw [if_pos (hkind ▸ he)] at hl'
    obtain ⟨c, q, rfl⟩ := hl
    obtain ⟨d, r, rfl⟩ := hl'
    exact (Before.folders c d q r hlt).append_left here
  | false =>
    rw [if_neg (by rw [he]; nofun)] at hl
    rw [if_neg (by rw [← hkind, he]; nofun)] at hl'
    rw [hl, hl']
    exact (Before.files hlt).append_left here

theorem Entry.Covers.before_folder {e f : Entry} (hl : e.Covers here l) (hl' : f.Covers here l')
    (he : ¬e.isFolder = true) (hf : f.isFolder = true) : Before l l' := by
  rw [Entry.Covers, if_neg he] at hl
  rw [Entry.Covers, if_pos hf] at hl'
  obtain ⟨c, q, rfl⟩ := hl'
  rw [hl]
  exact (Before.fileFirst _ _ c q).append_left here

theorem covers_entryOf {e : Text × Tree} (h : (folder entries).Sound) (he : e ∈ entries)
    (hl : l ∈ (entryOf leads ignored here e).files) :
    (entryOf leads ignored here e).Covers here l := by
  obtain ⟨name, s⟩ := e
  rw [Entry.Covers, name_entryOf]
  by_cases hk : s.kind = .folder
  · rw [if_pos ((isFolder_entryOf _).2 hk)]
    cases s with
    | file c => cases hk
    | link target => cases hk
    | folder es =>
      obtain ⟨-, -, hl⟩ := mem_entryOf_folder.1 hl
      obtain ⟨p, rfl, hp⟩ := (mem_files (h.of_mem he)).1 hl
      obtain ⟨c, q, rfl⟩ := List.exists_cons_of_ne_nil hp.below
      exact ⟨c, q, by simp⟩
  · rw [if_neg (fun hf => hk ((isFolder_entryOf _).1 hf))]
    exact ((mem_entryOf_leaf hk).1 hl).1

theorem pairwise_files_entryOf {e : Text × Tree}
    (h : (files leads ignored (here ++ [e.1]) e.2).Pairwise Before) :
    (entryOf leads ignored here e).files.Pairwise Before := by
  obtain ⟨name, s⟩ := e
  cases s with
  | file c => rw [entryOf]; split_ifs <;> simp
  | link target => rw [entryOf]; split_ifs <;> simp
  | folder es => rw [entryOf]; split_ifs; exacts [List.Pairwise.nil, h]

/-- The walk goes in the order of the scan. -/
theorem pairwise_files (h : t.Sound) : (files leads ignored here t).Pairwise Before := by
  induction t using folder_induction generalizing here with
  | file c => exact List.Pairwise.nil
  | link target => exact List.Pairwise.nil
  | folder entries ih =>
    rw [files, entriesOf_eq_map]
    have hnames : ((entries.map (entryOf leads ignored here)).map (·.name)).Nodup := by
      rw [List.map_map]
      simpa [Function.comp_def] using h.distinct [] entries rfl
    have hcovers : ∀ e ∈ entries.map (entryOf leads ignored here), ∀ x ∈ e.files,
        e.Covers here x := by
      intro f hf x hx
      obtain ⟨e, he, rfl⟩ := List.mem_map.1 hf
      exact covers_entryOf h he hx
    have hin : ∀ e ∈ entries.map (entryOf leads ignored here), e.files.Pairwise Before := by
      intro f hf
      obtain ⟨e, he, rfl⟩ := List.mem_map.1 hf
      exact pairwise_files_entryOf (ih e he (h.of_mem he))
    -- the files and the folders are in order, each among themselves
    have hordered : ∀ select : Entry → Bool,
        (∀ e f, select e = true → select f = true → e.isFolder = f.isFolder) →
        (ordered ((entries.map (entryOf leads ignored here)).filter select)).Pairwise Before := by
      intro select hselect
      refine pairwise_ordered (hnames.sublist (List.filter_sublist.map _))
        (fun e he => hin e (List.mem_of_mem_filter he)) ?_
      intro e he f hf hlt x hx y hy
      exact (hcovers e (List.mem_of_mem_filter he) x hx).before
        (hcovers f (List.mem_of_mem_filter hf) y hy)
        (hselect e f (List.of_mem_filter he) (List.of_mem_filter hf)) hlt
    refine List.pairwise_append.2 ⟨hordered _ fun e f he hf => ?_, hordered _ fun e f he hf => ?_, ?_⟩
    · rw [Bool.not_eq_true'] at he hf
      rw [he, hf]
    · rw [he, hf]
    · intro x hx y hy
      obtain ⟨e, he, hx⟩ := mem_ordered.1 hx
      obtain ⟨f, hf, hy⟩ := mem_ordered.1 hy
      exact (hcovers e (List.mem_of_mem_filter he) x hx).before_folder
        (hcovers f (List.mem_of_mem_filter hf) y hy)
        (by simpa using List.of_mem_filter he) (by simpa using List.of_mem_filter hf)

/-- Two scans that list the same locations are the same. -/
theorem eq_of_pairwise_before {ls ls' : List Location} (h : ls.Pairwise Before)
    (h' : ls'.Pairwise Before) (hmem : ∀ l, l ∈ ls ↔ l ∈ ls') : ls = ls' := by
  have hperm : ls.Perm ls' :=
    (List.perm_ext_iff_of_nodup (h.imp Before.ne) (h'.imp Before.ne)).2 hmem
  exact hperm.eq_of_pairwise (fun _ _ _ _ hab hba => absurd hba hab.asymm) h h'

end MarkTidy.Scan
