import MarkTidy.Proofs.Tree.Outline
import MarkTidy.Tree.Lookup

/-!
What look-up depends on. Where a path leads and how it is written without links follows from the
kinds of the entries alone, not from what files hold. In a tree of proper names, the path that
writes a location out leads to that location.
-/

namespace MarkTidy.Tree

open Text

variable {t t' s : Tree} {here l l' : Location} {name : Text} {names : List Text} {k : Kind}
  {entries : List (Text × Tree)}

/-- Trees with the same names, folders and links at the same places. -/
structure Alike (t t' : Tree) : Prop where
  kinds : ∀ l, t.kindAt? l = t'.kindAt? l
  links : t.links = t'.links

theorem Alike.of_outline (h : t.outline = t'.outline) : Alike t t' where
  kinds l := by rw [← kindAt?_outline, h, kindAt?_outline]
  links := by rw [← links_outline, h, links_outline]

theorem at?_concat (h : t.at? here = some (folder entries)) (name : Text) :
    t.at? (here ++ [name]) = entries.lookup name := by
  rw [at?_append, h, Option.bind_some, at?_cons, child?_folder]
  cases entries.lookup name <;> simp

/-! ### Going along names -/

/-- A name that leads one folder down. -/
structure IsStep (name : Text) : Prop where
  ne_nil : name ≠ []
  ne_dot : name ≠ ['.']
  ne_dots : name ≠ ['.', '.']

/-- One step of going along names, told by the kinds of the entries. -/
theorem walk_cons (t : Tree) (here : Location) (name : Text) (rest : List Text) :
    walk t here (name :: rest) =
      if t.kindAt? here = some .folder then
        if name.isEmpty || name = ['.'] then walk t here rest
        else if name = ['.', '.'] then walk t here.dropLast rest
        else if longestName < nameSize name then .error .nameTooLong
        else
          match t.kindAt? (here ++ [name]) with
          | some (.link target) => .ok (.atLink here target rest)
          | some _ => walk t (here ++ [name]) rest
          | none => if rest.isEmpty then .ok (.arrived (here ++ [name])) else .error .missing
      else .error .notFolder := by
  rw [walk]
  cases hs : t.at? here with
  | none => simp [kindAt?, hs]
  | some s =>
    cases s with
    | file c => simp [kindAt?, hs, kind]
    | link target => simp [kindAt?, hs, kind]
    | folder entries =>
      have hk : t.kindAt? here = some .folder := kindAt?_eq_folder_iff.2 ⟨entries, hs⟩
      rw [if_pos hk, kindAt?, at?_concat hs]
      dsimp only
      cases entries.lookup name with
      | none => rfl
      | some u => cases u <;> rfl

theorem walk_congr (h : ∀ l, t.kindAt? l = t'.kindAt? l) (here : Location) (names : List Text) :
    walk t here names = walk t' here names := by
  induction names generalizing here with
  | nil => rfl
  | cons name rest ih => simp only [walk_cons, h, ih]

theorem follow_zero (t : Tree) (here : Location) (names : List Text) :
    follow t 0 here names = (walk t here names).bind fun
      | .arrived l => .ok l
      | .atLink _ _ _ => .error .tooManyLinks := by
  rw [follow]
  rfl

theorem follow_succ (t : Tree) (hops : Nat) (here : Location) (names : List Text) :
    follow t (hops + 1) here names = (walk t here names).bind fun
      | .arrived l => .ok l
      | .atLink base target rest =>
        follow t hops (linkBase base target) (splitAtChar '/' target ++ rest) := by
  rw [follow]
  rfl

theorem follow_congr (h : ∀ l, t.kindAt? l = t'.kindAt? l) (hops : Nat) (here : Location)
    (names : List Text) : follow t hops here names = follow t' hops here names := by
  induction hops generalizing here names with
  | zero => rw [follow_zero, follow_zero, walk_congr h]
  | succ hops ih =>
    rw [follow_succ, follow_succ, walk_congr h]
    simp only [ih]

theorem walk_step (h : IsStep name) (t : Tree) (here : Location) (rest : List Text) :
    walk t here (name :: rest) =
      if t.kindAt? here = some .folder then
        if longestName < nameSize name then .error .nameTooLong
        else
          match t.kindAt? (here ++ [name]) with
          | some (.link target) => .ok (.atLink here target rest)
          | some _ => walk t (here ++ [name]) rest
          | none => if rest.isEmpty then .ok (.arrived (here ++ [name])) else .error .missing
      else .error .notFolder := by
  rw [walk_cons, if_neg (by simp [h.ne_nil, h.ne_dot] : ¬(name.isEmpty || name = ['.']) = true),
    if_neg h.ne_dots]

/-- All that one step of going along names can be. -/
theorem walk_cons_cases {stop : Stop} {rest : List Text}
    (h : walk t here (name :: rest) = .ok stop) :
    t.kindAt? here = some .folder ∧
      ((name = [] ∨ name = ['.']) ∧ walk t here rest = .ok stop ∨
        name = ['.', '.'] ∧ walk t here.dropLast rest = .ok stop ∨
        (∃ k, t.kindAt? (here ++ [name]) = some k ∧ (∀ target, k ≠ .link target) ∧
          walk t (here ++ [name]) rest = .ok stop) ∨
        (∃ target, t.kindAt? (here ++ [name]) = some (.link target) ∧
          stop = .atLink here target rest) ∨
        t.kindAt? (here ++ [name]) = none ∧ rest = [] ∧ stop = .arrived (here ++ [name])) := by
  rw [walk_cons] at h
  by_cases hf : t.kindAt? here = some .folder
  · refine ⟨hf, ?_⟩
    rw [if_pos hf] at h
    by_cases hdot : (name.isEmpty || name = ['.']) = true
    · rw [if_pos hdot] at h
      exact .inl ⟨by simpa using hdot, h⟩
    · rw [if_neg hdot] at h
      by_cases hdots : name = ['.', '.']
      · rw [if_pos hdots] at h
        exact .inr (.inl ⟨hdots, h⟩)
      · rw [if_neg hdots] at h
        by_cases hlong : longestName < nameSize name
        · rw [if_pos hlong] at h
          cases h
        · rw [if_neg hlong] at h
          refine .inr (.inr ?_)
          cases hk : t.kindAt? (here ++ [name]) with
          | some k =>
            rw [hk] at h
            cases k with
            | file => exact .inl ⟨_, rfl, nofun, h⟩
            | link target => exact .inr (.inl ⟨target, rfl, (Except.ok.inj h).symm⟩)
            | folder => exact .inl ⟨_, rfl, nofun, h⟩
          | none =>
            rw [hk] at h
            cases rest with
            | nil => exact .inr (.inr ⟨rfl, rfl, (Except.ok.inj h).symm⟩)
            | cons x xs => cases h
  · rw [if_neg hf] at h
    cases h

/-- Names that are steps lead down, unless there is a link on the way. -/
theorem eq_of_walk_arrived (hnames : ∀ n ∈ names, IsStep n)
    (h : walk t here names = .ok (.arrived l)) : l = here ++ names := by
  induction names generalizing here with
  | nil =>
    rw [walk] at h
    cases h
    rw [List.append_nil]
  | cons name rest ih =>
    obtain ⟨hname, hrest⟩ := List.forall_mem_cons.1 hnames
    obtain ⟨-, ⟨hdot | hdot, -⟩ | ⟨hdots, -⟩ | ⟨k, -, -, h⟩ | ⟨target, -, hstop⟩ | ⟨-, rfl, hstop⟩⟩ :=
      walk_cons_cases h
    · exact absurd hdot hname.ne_nil
    · exact absurd hdot hname.ne_dot
    · exact absurd hdots hname.ne_dots
    · rw [ih hrest h, List.append_assoc, List.singleton_append]
    · cases hstop
    · cases hstop
      rfl

/-- One comes to a link only where there is one. -/
theorem exists_link_of_walk {base : Location} {target : Text} {rest : List Text}
    (h : walk t here names = .ok (.atLink base target rest)) :
    t.kindAt? base = some .folder ∧ ∃ name, t.kindAt? (base ++ [name]) = some (.link target) := by
  induction names generalizing here with
  | nil =>
    rw [walk] at h
    cases h
  | cons name names ih =>
    obtain ⟨hf, ⟨-, h⟩ | ⟨-, h⟩ | ⟨k, -, -, h⟩ | ⟨target, hk, hstop⟩ | ⟨-, -, hstop⟩⟩ :=
      walk_cons_cases h
    · exact ih h
    · exact ih h
    · exact ih h
    · cases hstop
      exact ⟨hf, name, hk⟩
    · cases hstop

/-- To come to an end one goes there without a link, or first to a link. -/
theorem follow_cases {hops : Nat} (h : follow t hops here names = .ok l) :
    walk t here names = .ok (.arrived l) ∨
      ∃ base target rest n, hops = n + 1 ∧ walk t here names = .ok (.atLink base target rest) ∧
        follow t n (linkBase base target) (splitAtChar '/' target ++ rest) = .ok l := by
  cases hops with
  | zero =>
    rw [follow_zero] at h
    cases hw : walk t here names with
    | error e =>
      rw [hw] at h
      cases h
    | ok stop =>
      rw [hw] at h
      cases stop with
      | arrived x =>
        cases h
        exact .inl rfl
      | atLink base target rest => cases h
  | succ n =>
    rw [follow_succ] at h
    cases hw : walk t here names with
    | error e =>
      rw [hw] at h
      cases h
    | ok stop =>
      rw [hw] at h
      cases stop with
      | arrived x =>
        cases h
        exact .inl rfl
      | atLink base target rest => exact .inr ⟨base, target, rest, n, rfl, rfl, h⟩

/-- Without links, the path that writes a location out leads nowhere else. -/
theorem eq_of_locate (hlinks : ∀ l target, t.kindAt? l ≠ some (.link target))
    (hl : ∀ n ∈ l, IsStep n) (h : t.locate here (.ofLocation l) = .ok l') : l' = l := by
  have hfollow : follow t mostLinks [] l = .ok l' := h
  rcases follow_cases hfollow with hw | ⟨base, target, rest, n, -, hw, -⟩
  · exact eq_of_walk_arrived hl hw
  · obtain ⟨-, name, hk⟩ := exists_link_of_walk hw
    exact absurd hk (hlinks _ _)

/-! ### Where a path can end -/

/-- A location where a path can end: it is no link, and if nothing is there, its folder is. -/
def IsEnd (t : Tree) (l : Location) : Prop :=
  match t.kindAt? l with
  | some (.link _) => False
  | some _ => True
  | none => ∃ base name, l = base ++ [name] ∧ t.kindAt? base = some .folder

theorem isEnd_of_folder (h : t.kindAt? l = some .folder) : IsEnd t l := by
  rw [IsEnd, h]
  trivial

theorem kindAt?_dropLast (h : t.kindAt? l = some .folder) :
    t.kindAt? l.dropLast = some .folder := by
  rcases List.eq_nil_or_concat l with rfl | ⟨init, last, rfl⟩
  · exact h
  · rw [List.concat_eq_append] at h ⊢
    rw [List.dropLast_concat]
    exact kindAt?_of_append h

theorem kindAt?_root (h : t.kindAt? l = some .folder) : t.kindAt? [] = some .folder := by
  cases l with
  | nil => exact h
  | cons name rest => exact kindAt?_of_append (l := []) h

theorem isEnd_of_walk (hhere : IsEnd t here) (h : walk t here names = .ok (.arrived l)) :
    IsEnd t l := by
  induction names generalizing here with
  | nil =>
    rw [walk] at h
    cases h
    exact hhere
  | cons name names ih =>
    obtain ⟨hf, ⟨-, h⟩ | ⟨-, h⟩ | ⟨k, hk, hlink, h⟩ | ⟨target, -, hstop⟩ | ⟨hk, -, hstop⟩⟩ :=
      walk_cons_cases h
    · exact ih hhere h
    · exact ih (isEnd_of_folder (kindAt?_dropLast hf)) h
    · refine ih ?_ h
      rw [IsEnd, hk]
      cases k with
      | file => trivial
      | link target => exact absurd rfl (hlink target)
      | folder => trivial
    · cases hstop
    · cases hstop
      rw [IsEnd, hk]
      exact ⟨here, name, rfl, hf⟩

theorem isEnd_of_follow (hhere : t.kindAt? here = some .folder) {hops : Nat}
    (h : follow t hops here names = .ok l) : IsEnd t l := by
  induction hops generalizing here names with
  | zero =>
    rcases follow_cases h with hw | ⟨base, target, rest, n, hn, -, -⟩
    · exact isEnd_of_walk (isEnd_of_folder hhere) hw
    · cases hn
  | succ hops ih =>
    rcases follow_cases h with hw | ⟨base, target, rest, n, hn, hw, h⟩
    · exact isEnd_of_walk (isEnd_of_folder hhere) hw
    · obtain rfl := Nat.succ.inj hn
      obtain ⟨hbase, -⟩ := exists_link_of_walk hw
      refine ih ?_ h
      rw [linkBase]
      split_ifs
      · exact kindAt?_root hbase
      · exact hbase

theorem isEnd_of_locate (hhere : t.kindAt? here = some .folder) {p : Path}
    (h : t.locate here p = .ok l) : IsEnd t l := by
  refine isEnd_of_follow ?_ h
  split_ifs
  · exact kindAt?_root hhere
  · exact hhere

/-! ### Writing paths without links -/

theorem canonicalFrom_zero (t : Tree) (underway : List Location) (start : Location × Bool)
    (names : List Text) : canonicalFrom t 0 underway start names = start := rfl

theorem canonicalFrom_nil (t : Tree) (depth : Nat) (underway : List Location)
    (start : Location × Bool) : canonicalFrom t depth underway start [] = start := by
  cases depth <;> rfl

theorem canonicalFrom_succ (t : Tree) (depth : Nat) (underway : List Location)
    (here : Location) (sound : Bool) (name : Text) (names : List Text) :
    canonicalFrom t (depth + 1) underway (here, sound) (name :: names) =
      canonicalFrom t (depth + 1) underway
        (if name.isEmpty || name = ['.'] then (here, sound)
        else if name = ['.', '.'] then (here.dropLast, sound)
        else
          match sound, t.kindAt? (here ++ [name]) with
          | true, some (.link target) =>
            if underway.contains (here ++ [name]) then (here ++ [name], false)
            else
              canonicalFrom t depth ((here ++ [name]) :: underway) (linkBase here target, true)
                (splitAtChar '/' target)
          | _, _ => (here ++ [name], sound)) names := by
  rw [canonicalFrom, List.foldl_cons, ← canonicalFrom]
  congr 1
  dsimp only
  by_cases hdot : (name.isEmpty || name = ['.']) = true
  · rw [if_pos hdot, if_pos hdot]
  · by_cases hdots : name = ['.', '.']
    · rw [if_neg hdot, if_neg hdot, if_pos hdots, if_pos hdots]
    · rw [if_neg hdot, if_neg hdot, if_neg hdots, if_neg hdots, kindAt?]
      cases sound with
      | false => rfl
      | true =>
        cases t.at? (here ++ [name]) with
        | none => rfl
        | some s => cases s <;> rfl

theorem canonicalFrom_congr (h : ∀ l, t.kindAt? l = t'.kindAt? l) (depth : Nat)
    (underway : List Location) (start : Location × Bool) (names : List Text) :
    canonicalFrom t depth underway start names = canonicalFrom t' depth underway start names := by
  induction depth generalizing underway start names with
  | zero => rw [canonicalFrom_zero, canonicalFrom_zero]
  | succ depth ihd =>
    induction names generalizing start with
    | nil => rw [canonicalFrom_nil, canonicalFrom_nil]
    | cons name names ih =>
      rw [canonicalFrom_succ, canonicalFrom_succ, ih, h]
      simp only [ihd]

theorem isStep_of_mem_concat (hl : ∀ n ∈ l, IsStep n)
    (hdot : ¬(name.isEmpty || name = ['.']) = true) (hdots : name ≠ ['.', '.']) :
    ∀ n ∈ l ++ [name], IsStep n := by
  have hname : IsStep name := by
    refine ⟨fun h => hdot ?_, fun h => hdot ?_, hdots⟩ <;> simp [h]
  intro n hn
  rcases List.mem_append.1 hn with hn | hn
  · exact hl n hn
  · rwa [List.mem_singleton.1 hn]

theorem linkBase_subset (base : Location) (target : Text) : linkBase base target ⊆ base := by
  rw [linkBase]
  split_ifs
  · exact List.nil_subset _
  · exact List.Subset.refl _

/-- What is written without links leads one folder down at each name. -/
theorem isStep_of_mem_canonicalFrom (depth : Nat) (underway : List Location)
    (hl : ∀ n ∈ l, IsStep n) (sound : Bool) (names : List Text) :
    ∀ n ∈ (canonicalFrom t depth underway (l, sound) names).1, IsStep n := by
  induction depth generalizing underway l sound names with
  | zero => rwa [canonicalFrom_zero]
  | succ depth ihd =>
    induction names generalizing l sound with
    | nil => exact hl
    | cons name names ih =>
      rw [canonicalFrom_succ]
      by_cases hdot : (name.isEmpty || name = ['.']) = true
      · rw [if_pos hdot]
        exact ih hl sound
      · rw [if_neg hdot]
        by_cases hdots : name = ['.', '.']
        · rw [if_pos hdots]
          exact ih (fun n hn => hl n (List.dropLast_subset _ hn)) sound
        · rw [if_neg hdots]
          have hnext := isStep_of_mem_concat hl hdot hdots
          split
          · next target _ =>
            split_ifs
            · exact ih hnext false
            · exact ih (ihd _ (fun n hn => hl n (linkBase_subset _ _ hn)) _ _) _
          · exact ih hnext _

theorem isStep_of_mem_canonical (hhere : ∀ n ∈ here, IsStep n) (p : Path) :
    ∀ n ∈ t.canonical here p, IsStep n := by
  refine isStep_of_mem_canonicalFrom _ _ ?_ _ _
  split_ifs
  · exact fun n hn => absurd hn List.not_mem_nil
  · exact hhere

theorem canonicalFrom_append (t : Tree) (depth : Nat) (underway : List Location)
    (start : Location × Bool) (names names' : List Text) :
    canonicalFrom t depth underway start (names ++ names') =
      canonicalFrom t depth underway (canonicalFrom t depth underway start names) names' := by
  cases depth with
  | zero => rw [canonicalFrom_zero, canonicalFrom_zero, canonicalFrom_zero]
  | succ depth => exact List.foldl_append

/-- Without links, a path keeps its last name. -/
theorem getLast?_canonical (hlinks : ∀ l target, t.kindAt? l ≠ some (.link target))
    (hname : IsStep name) (here : Location) (p : Path) :
    (t.canonical here (p.child name)).getLast? = some name := by
  rw [canonical, Path.child, canonicalFrom_append]
  generalize canonicalFrom t (t.links + 1) [] _ p.parts = start
  obtain ⟨l, sound⟩ := start
  rw [canonicalFrom_succ,
    if_neg (by simp [hname.ne_nil, hname.ne_dot] : ¬(name.isEmpty || name = ['.']) = true),
    if_neg hname.ne_dots]
  have hlink := hlinks (l ++ [name])
  split
  · next target hk => exact absurd hk (hlink target)
  · rw [canonicalFrom_nil, List.getLast?_concat]

theorem canonical_congr (h : Alike t t') (here : Location) (p : Path) :
    canonical t here p = canonical t' here p := by
  rw [canonical, canonical, h.links, canonicalFrom_congr h.kinds]

end MarkTidy.Tree
