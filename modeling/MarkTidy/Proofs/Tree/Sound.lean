import Mathlib.Algebra.Order.BigOperators.Group.List
import Mathlib.Algebra.Order.Group.Nat
import MarkTidy.Proofs.Tree.Lookup

/-!
Trees as they are stored: each name leads one folder down and is short enough to be looked up, and
no folder has two entries of one name. In such a tree a location that leads through folders alone
is where its path leads.
-/

namespace MarkTidy.Tree

open Text

variable {t t' s : Tree} {here l l' : Location} {name : Text} {entries : List (Text × Tree)}

/-- A name that an entry can have. -/
structure IsName (name : Text) : Prop extends IsStep name where
  no_null : Char.ofNat 0 ∉ name
  short : nameSize name ≤ longestName

theorem isName_iff :
    IsName name ↔ (name ≠ [] ∧ name ≠ ['.'] ∧ name ≠ ['.', '.']) ∧
      Char.ofNat 0 ∉ name ∧ nameSize name ≤ longestName :=
  ⟨fun h => ⟨⟨h.ne_nil, h.ne_dot, h.ne_dots⟩, h.no_null, h.short⟩,
    fun ⟨⟨h₁, h₂, h₃⟩, h₄, h₅⟩ => ⟨⟨h₁, h₂, h₃⟩, h₄, h₅⟩⟩

instance : DecidablePred IsName := fun _ => decidable_of_iff _ isName_iff.symm

/-- A tree with proper names that are distinct in each folder. -/
structure Sound (t : Tree) : Prop where
  names : ∀ l entries, t.at? l = some (folder entries) → ∀ e ∈ entries, IsName e.1
  distinct : ∀ l entries, t.at? l = some (folder entries) → (entries.map (·.1)).Nodup

/-! ### Entries of distinct names -/

theorem mem_of_lookup (h : entries.lookup name = some s) : (name, s) ∈ entries := by
  obtain ⟨before, after, rfl, -⟩ := List.lookup_eq_some_iff.1 h
  exact List.mem_append_right _ List.mem_cons_self

theorem lookup_of_mem (hd : (entries.map (·.1)).Nodup) (h : (name, s) ∈ entries) :
    entries.lookup name = some s := by
  induction entries with
  | nil => cases h
  | cons e entries ih =>
    rw [List.map_cons, List.nodup_cons] at hd
    rw [Text.lookup_cons]
    rcases List.mem_cons.1 h with rfl | h
    · rw [if_pos rfl]
    · have hne : name ≠ e.1 := fun hn => hd.1 (List.mem_map.2 ⟨_, h, hn⟩)
      rw [if_neg hne, ih hd.2 h]

theorem lookup_isSome_iff : (entries.lookup name).isSome ↔ name ∈ entries.map (·.1) := by
  induction entries with
  | nil => simp
  | cons e entries ih =>
    rw [Text.lookup_cons, List.map_cons, List.mem_cons, ← ih]
    split_ifs with h <;> simp [h]

/-! ### Sound trees -/

theorem Sound.of_at? (h : t.Sound) (hs : t.at? l = some s) : s.Sound where
  names l' entries h' := h.names (l ++ l') entries (by rw [at?_append, hs, Option.bind_some, h'])
  distinct l' entries h' :=
    h.distinct (l ++ l') entries (by rw [at?_append, hs, Option.bind_some, h'])

theorem Sound.of_lookup (h : (folder entries).Sound) (hs : entries.lookup name = some s) :
    s.Sound := by
  refine h.of_at? (l := [name]) ?_
  rw [at?_cons, child?_folder, hs]
  exact at?_nil s

theorem Sound.of_mem {e : Text × Tree} (h : (folder entries).Sound) (he : e ∈ entries) :
    e.2.Sound :=
  h.of_lookup (lookup_of_mem (h.distinct [] entries rfl) he)

theorem Sound.isName_of_at? (h : t.Sound) (hs : t.at? l = some s) : ∀ n ∈ l, IsName n := by
  induction l generalizing t with
  | nil => exact fun n hn => absurd hn List.not_mem_nil
  | cons name l ih =>
    cases t with
    | file c => cases hs
    | link target => cases hs
    | folder entries =>
      rw [at?_cons, child?_folder] at hs
      cases hc : entries.lookup name with
      | none => rw [hc] at hs; cases hs
      | some u =>
        rw [hc, Option.bind_some] at hs
        exact List.forall_mem_cons.2
          ⟨h.names [] entries rfl _ (mem_of_lookup hc), ih (h.of_lookup hc) hs⟩

/-- A location that leads through folders to no link is where its names lead. -/
theorem Sound.walk_of_at? (h : t.Sound) (hs : t.at? (here ++ l) = some s)
    (hlink : ∀ target, s ≠ link target) : walk t here l = .ok (.arrived (here ++ l)) := by
  induction l generalizing here with
  | nil => rw [walk, List.append_nil]
  | cons name rest ih =>
    have hname : IsName name := h.isName_of_at? hs name (by simp)
    have hk : t.kindAt? (here ++ name :: rest) = some s.kind := by rw [kindAt?, hs]; rfl
    have hsplit : here ++ name :: rest = (here ++ [name]) ++ rest := by simp
    have hdown : walk t (here ++ [name]) rest = .ok (.arrived (here ++ [name] ++ rest)) :=
      ih (hsplit ▸ hs)
    rw [walk_step hname.toIsStep, if_pos (kindAt?_of_append hk),
      if_neg (Nat.not_lt.2 hname.short), hsplit]
    cases rest with
    | nil =>
      rw [hk]
      cases s with
      | file c => exact hdown
      | link target => exact absurd rfl (hlink target)
      | folder entries => exact hdown
    | cons x xs =>
      rw [kindAt?_of_append (hsplit ▸ hk)]
      exact hdown

theorem Sound.locate_of_at? (h : t.Sound) (hs : t.at? l = some s)
    (hlink : ∀ target, s ≠ link target) : t.locate here (.ofLocation l) = .ok l := by
  have hw : walk t [] l = .ok (.arrived ([] ++ l)) := h.walk_of_at? hs hlink
  have hl : t.locate here (.ofLocation l) = follow t mostLinks [] l := rfl
  rw [hl, mostLinks, follow_succ, hw]
  rfl

theorem sound_file (c : Content) : (file c).Sound where
  names l entries h := by cases l <;> cases h
  distinct l entries h := by cases l <;> cases h

theorem sound_link (target : Text) : (link target).Sound where
  names l entries h := by cases l <;> cases h
  distinct l entries h := by cases l <;> cases h

theorem sound_folder_iff :
    (folder entries).Sound ↔
      (entries.map (·.1)).Nodup ∧ ∀ e ∈ entries, IsName e.1 ∧ e.2.Sound := by
  refine ⟨fun h => ⟨h.distinct [] _ rfl, fun e he => ⟨h.names [] _ rfl e he, h.of_mem he⟩⟩, ?_⟩
  rintro ⟨hd, he⟩
  constructor
  · intro l es hl
    cases l with
    | nil => cases hl; exact fun e h => (he e h).1
    | cons name l =>
      rw [at?_cons, child?_folder] at hl
      obtain ⟨s, hs, hl⟩ := Option.bind_eq_some_iff.1 hl
      exact (he _ (mem_of_lookup hs)).2.names l es hl
  · intro l es hl
    cases l with
    | nil => cases hl; exact hd
    | cons name l =>
      rw [at?_cons, child?_folder] at hl
      obtain ⟨s, hs, hl⟩ := Option.bind_eq_some_iff.1 hl
      exact (he _ (mem_of_lookup hs)).2.distinct l es hl

/-! ### Trees without links -/

theorem links_eq_zero_of_lookup (h : (folder entries).links = 0)
    (hs : entries.lookup name = some s) : s.links = 0 := by
  rw [links, linksOf_eq_sum] at h
  have hmem : s.links ∈ entries.map fun e => e.2.links := List.mem_map_of_mem (mem_of_lookup hs)
  exact Nat.eq_zero_of_le_zero (h ▸ List.le_sum_of_mem hmem)

theorem kindAt?_ne_link (h : t.links = 0) (l : Location) (target : Text) :
    t.kindAt? l ≠ some (.link target) := by
  induction l generalizing t with
  | nil =>
    cases t with
    | file c => simp [kindAt?_nil, kind]
    | link target' => cases h
    | folder entries => simp [kindAt?_nil, kind]
  | cons name l ih =>
    intro hk
    obtain ⟨entries, s, rfl, hs, hk⟩ := exists_of_kindAt?_cons hk
    exact ih (links_eq_zero_of_lookup h hs) hk

/-! ### Trees that differ in the order of their entries -/

theorem mem_names_iff :
    name ∈ entries.map (·.1) ↔ ((folder entries).kindAt? [name]).isSome := by
  rw [← lookup_isSome_iff, kindAt?_cons]
  cases entries.lookup name with
  | none => rfl
  | some s => simp [kindAt?_nil]

/-- The number of links below one name. -/
def linksAt (entries : List (Text × Tree)) (name : Text) : Nat :=
  ((entries.lookup name).map links).getD 0

theorem Sound.links_folder (h : (folder entries).Sound) :
    (folder entries).links = ((entries.map (·.1)).map (linksAt entries)).sum := by
  rw [links, linksOf_eq_sum, List.map_map]
  congr 1
  refine List.map_congr_left fun e he => ?_
  rw [Function.comp_apply, linksAt, lookup_of_mem (h.distinct [] entries rfl) he]
  rfl

/-- Trees with the same kinds at all locations have as many links. -/
theorem Sound.links_eq (h : t.Sound) (h' : t'.Sound) (hk : ∀ l, t.kindAt? l = t'.kindAt? l) :
    t.links = t'.links := by
  induction t using folder_induction generalizing t' with
  | file c =>
    have hroot := hk []
    rw [kindAt?_nil, kindAt?_nil] at hroot
    cases t' with
    | file c' => rfl
    | link target => cases hroot
    | folder entries => cases hroot
  | link target =>
    have hroot := hk []
    rw [kindAt?_nil, kindAt?_nil] at hroot
    cases t' with
    | file c' => cases hroot
    | link target => rfl
    | folder entries => cases hroot
  | folder entries ih =>
    have hroot := hk []
    rw [kindAt?_nil, kindAt?_nil] at hroot
    cases t' with
    | file c' => cases hroot
    | link target => cases hroot
    | folder entries' =>
      have hnames : (entries.map (·.1)).Perm (entries'.map (·.1)) :=
        (List.perm_ext_iff_of_nodup (h.distinct [] _ rfl) (h'.distinct [] _ rfl)).2 fun name => by
          rw [mem_names_iff, mem_names_iff, hk]
      rw [h.links_folder, h'.links_folder, (hnames.map _).sum_eq]
      congr 1
      refine List.map_congr_left fun name hname => ?_
      obtain ⟨s', hs'⟩ := Option.isSome_iff_exists.1 (lookup_isSome_iff.2 hname)
      obtain ⟨s, hs⟩ := Option.isSome_iff_exists.1 (lookup_isSome_iff.2 (hnames.mem_iff.2 hname))
      have hkinds : ∀ l, s.kindAt? l = s'.kindAt? l := fun l => by
        have hl := hk (name :: l)
        rwa [kindAt?_cons, kindAt?_cons, hs, hs'] at hl
      have hlinks := ih (name, s) (mem_of_lookup hs) (h.of_lookup hs) (h'.of_lookup hs') hkinds
      rw [linksAt, linksAt, hs, hs']
      exact hlinks

theorem Alike.of_kinds (h : t.Sound) (h' : t'.Sound) (hk : ∀ l, t.kindAt? l = t'.kindAt? l) :
    Alike t t' :=
  ⟨hk, h.links_eq h' hk⟩

end MarkTidy.Tree
