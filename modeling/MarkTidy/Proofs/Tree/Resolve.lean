import Mathlib.Data.List.Nodup
import Mathlib.Data.List.Perm.Subperm
import MarkTidy.Proofs.Tree.Place

/-!
Writing out a path that leads somewhere. To follow a path and to write it without links are two
ways through the same links. The first counts links, the second minds which of them are underway.
Where the first comes to an end, no link comes up while it is followed, so the second comes to that
end too.
-/

namespace MarkTidy.Tree

open Text

variable {t s : Tree} {here mid l l' : Location} {name : Text} {names names' rest : List Text}
  {n n' m : Nat} {target : Text} {entries : List (Text × Tree)}

/-! ### The way to an end -/

/-- From a location the names lead to another one, with `n` links followed in all. -/
inductive Leads (t : Tree) : Location → List Text → Location → Nat → Prop
  | arrived {here : Location} : Leads t here [] here 0
  | stay {here l : Location} {name : Text} {rest : List Text} {n : Nat} :
    name = [] ∨ name = ['.'] → Leads t here rest l n → Leads t here (name :: rest) l n
  | up {here l : Location} {rest : List Text} {n : Nat} :
    Leads t here.dropLast rest l n → Leads t here (['.', '.'] :: rest) l n
  | down {here l : Location} {name : Text} {rest : List Text} {n : Nat} {k : Kind} :
    IsStep name → t.kindAt? (here ++ [name]) = some k → (∀ target, k ≠ .link target) →
    Leads t (here ++ [name]) rest l n → Leads t here (name :: rest) l n
  | link {here mid l : Location} {name target : Text} {rest : List Text} {m n : Nat} :
    IsStep name → t.kindAt? (here ++ [name]) = some (.link target) →
    Leads t (linkBase here target) (splitAtChar '/' target) mid m → Leads t mid rest l n →
    Leads t here (name :: rest) l (m + n + 1)

namespace Leads

theorem append (h : Leads t here names mid m) (h' : Leads t mid names' l n) :
    Leads t here (names ++ names') l (m + n) := by
  induction h with
  | arrived => rwa [Nat.zero_add]
  | stay hdot _ ih => exact .stay hdot (ih h')
  | up _ ih => exact .up (ih h')
  | down hname hk hlink _ ih => exact .down hname hk hlink (ih h')
  | @link here mid' l' name target rest m' n' hname hk htarget _ _ ih =>
    have hcount : m' + n' + 1 + n = m' + (n' + n) + 1 := by omega
    exact hcount ▸ .link hname hk htarget (ih h')

theorem of_append (h : Leads t here (names ++ names') l n) :
    ∃ mid m m', Leads t here names mid m ∧ Leads t mid names' l m' ∧ n = m + m' := by
  induction names generalizing here n with
  | nil => exact ⟨here, 0, n, .arrived, h, (Nat.zero_add n).symm⟩
  | cons name names ih =>
    cases h with
    | stay hdot h =>
      obtain ⟨mid, m, m', hm, hm', hn⟩ := ih h
      exact ⟨mid, m, m', .stay hdot hm, hm', hn⟩
    | up h =>
      obtain ⟨mid, m, m', hm, hm', hn⟩ := ih h
      exact ⟨mid, m, m', .up hm, hm', hn⟩
    | down hname hk hlink h =>
      obtain ⟨mid, m, m', hm, hm', hn⟩ := ih h
      exact ⟨mid, m, m', .down hname hk hlink hm, hm', hn⟩
    | @link _ end' _ _ target _ j _ hname hk htarget h =>
      obtain ⟨mid, m, m', hm, hm', rfl⟩ := ih h
      exact ⟨mid, j + m + 1, m', .link hname hk htarget hm, hm', by omega⟩

/-! The kind of the first name tells the step. -/

theorem of_stay (hdot : name = [] ∨ name = ['.']) (h : Leads t here (name :: rest) l n) :
    Leads t here rest l n := by
  cases h with
  | stay _ h => exact h
  | up _ => rcases hdot with hdot | hdot <;> cases hdot
  | down hname | link hname => exact absurd hdot (not_or.2 ⟨hname.ne_nil, hname.ne_dot⟩)

theorem of_up (h : Leads t here (['.', '.'] :: rest) l n) : Leads t here.dropLast rest l n := by
  cases h with
  | stay hdot _ => rcases hdot with hdot | hdot <;> cases hdot
  | up h => exact h
  | down hname | link hname => exact absurd rfl hname.ne_dots

theorem of_down {k : Kind} (hname : IsStep name) (hk : t.kindAt? (here ++ [name]) = some k)
    (hlink : ∀ target, k ≠ .link target) (h : Leads t here (name :: rest) l n) :
    Leads t (here ++ [name]) rest l n := by
  cases h with
  | stay hdot _ => exact absurd hdot (not_or.2 ⟨hname.ne_nil, hname.ne_dot⟩)
  | up _ => exact absurd rfl hname.ne_dots
  | down _ _ _ h => exact h
  | link _ hk' => exact absurd (Option.some.inj (hk.symm.trans hk')) (hlink _)

theorem of_link (hname : IsStep name) (hk : t.kindAt? (here ++ [name]) = some (.link target))
    (h : Leads t here (name :: rest) l n) :
    ∃ mid m m', Leads t (linkBase here target) (splitAtChar '/' target) mid m ∧
      Leads t mid rest l m' ∧ n = m + m' + 1 := by
  cases h with
  | stay hdot _ => exact absurd hdot (not_or.2 ⟨hname.ne_nil, hname.ne_dot⟩)
  | up _ => exact absurd rfl hname.ne_dots
  | down _ hk' hlink _ => exact absurd (Option.some.inj (hk'.symm.trans hk)) (hlink _)
  | link _ hk' htarget h =>
    obtain rfl : _ = target := Kind.link.inj (Option.some.inj (hk'.symm.trans hk))
    exact ⟨_, _, _, htarget, h, rfl⟩

/-- Names lead to one end, through one number of links. -/
theorem unique (h : Leads t here names l n) (h' : Leads t here names l' n') : l = l' ∧ n = n' := by
  induction h generalizing l' n' with
  | arrived =>
    cases h'
    exact ⟨rfl, rfl⟩
  | stay hdot _ ih => exact ih (h'.of_stay hdot)
  | up _ ih => exact ih h'.of_up
  | down hname hk hlink _ ih => exact ih (h'.of_down hname hk hlink)
  | link hname hk _ _ iht ih =>
    obtain ⟨mid', m', k', htarget', hrest', rfl⟩ := h'.of_link hname hk
    obtain ⟨rfl, rfl⟩ := iht htarget'
    obtain ⟨rfl, rfl⟩ := ih hrest'
    exact ⟨rfl, rfl⟩

end Leads

/-! ### Following -/

theorem Sound.isStep_of_kindAt? {k : Kind} (ht : t.Sound)
    (hk : t.kindAt? (here ++ [name]) = some k) : IsStep name := by
  obtain ⟨s, hs, -⟩ := kindAt?_eq_some_iff.1 hk
  exact (ht.isName_of_at? hs name (by simp)).toIsStep

theorem Sound.leads_of_walk (ht : t.Sound) (h : walk t here names = .ok (.arrived l))
    (hl : (t.kindAt? l).isSome) : Leads t here names l 0 := by
  induction names generalizing here with
  | nil =>
    rw [walk] at h
    cases h
    exact .arrived
  | cons name names ih =>
    obtain ⟨-, ⟨hdot, h⟩ | ⟨hdots, h⟩ | ⟨k, hk, hlink, h⟩ | ⟨target, -, hstop⟩ | ⟨hk, -, hstop⟩⟩ :=
      walk_cons_cases h
    · exact .stay hdot (ih h)
    · exact hdots ▸ .up (ih h)
    · exact .down (ht.isStep_of_kindAt? hk) hk hlink (ih h)
    · cases hstop
    · cases hstop
      simp [hk] at hl

/-- The names before a link lead to its folder. -/
theorem Sound.exists_leads_of_walk (ht : t.Sound) {base : Location}
    (h : walk t here names = .ok (.atLink base target rest)) :
    ∃ before name, names = before ++ name :: rest ∧ Leads t here before base 0 ∧ IsStep name ∧
      t.kindAt? (base ++ [name]) = some (.link target) := by
  induction names generalizing here with
  | nil =>
    rw [walk] at h
    cases h
  | cons name names ih =>
    obtain ⟨-, ⟨hdot, h⟩ | ⟨hdots, h⟩ | ⟨k, hk, hlink, h⟩ | ⟨target', hk, hstop⟩ |
      ⟨-, -, hstop⟩⟩ := walk_cons_cases h
    · obtain ⟨before, name', rfl, hbefore, hlink⟩ := ih h
      exact ⟨name :: before, name', rfl, .stay hdot hbefore, hlink⟩
    · obtain ⟨before, name', rfl, hbefore, hlink⟩ := ih h
      exact ⟨name :: before, name', rfl, hdots ▸ .up hbefore, hlink⟩
    · obtain ⟨before, name', rfl, hbefore, hlink'⟩ := ih h
      exact ⟨name :: before, name', rfl, .down (ht.isStep_of_kindAt? hk) hk hlink hbefore, hlink'⟩
    · cases hstop
      exact ⟨[], name, rfl, .arrived, ht.isStep_of_kindAt? hk, hk⟩
    · cases hstop

/-- What can be followed to something that is there leads to it. -/
theorem Sound.leads_of_follow (ht : t.Sound) {hops : Nat} (h : follow t hops here names = .ok l)
    (hl : (t.kindAt? l).isSome) : ∃ n, Leads t here names l n := by
  induction hops generalizing here names with
  | zero =>
    rcases follow_cases h with hw | ⟨base, target, rest, n, hn, -, -⟩
    · exact ⟨0, ht.leads_of_walk hw hl⟩
    · cases hn
  | succ hops ih =>
    rcases follow_cases h with hw | ⟨base, target, rest, n, hn, hw, h⟩
    · exact ⟨0, ht.leads_of_walk hw hl⟩
    · obtain rfl := Nat.succ.inj hn
      obtain ⟨n, hn⟩ := ih h
      obtain ⟨mid, m, m', htarget, hrest, -⟩ := hn.of_append
      obtain ⟨before, name, rfl, hbefore, hname, hk⟩ := ht.exists_leads_of_walk hw
      exact ⟨_, hbefore.append (.link hname hk htarget hrest)⟩

/-! ### The number of links -/

/-- A tree has no more locations of links than links. -/
theorem exists_links (t : Tree) : ∃ ls : List Location, ls.length = t.links ∧
    ∀ l target, t.kindAt? l = some (.link target) → l ∈ ls := by
  induction t using folder_induction with
  | file c => exact ⟨[], rfl, fun l target hk => absurd hk (kindAt?_ne_link rfl l target)⟩
  | link target =>
    refine ⟨[[]], rfl, fun l target' hk => ?_⟩
    cases l with
    | nil => exact List.mem_singleton_self _
    | cons name l => cases hk
  | folder entries ih =>
    -- Each entry has its own links, with its name before them.
    obtain ⟨ls, hlen, hls⟩ : ∃ ls : List Location, ls.length = linksOf entries ∧
        ∀ e ∈ entries, ∀ l target, e.2.kindAt? l = some (.link target) → e.1 :: l ∈ ls := by
      rw [linksOf_eq_sum]
      induction entries with
      | nil => exact ⟨[], rfl, by simp⟩
      | cons e entries ihe =>
        obtain ⟨⟨ls, hlen, hls⟩, hrest⟩ := List.forall_mem_cons.1 ih
        obtain ⟨ls', hlen', hls'⟩ := ihe hrest
        refine ⟨ls.map (e.1 :: ·) ++ ls', by simp [hlen, hlen'], List.forall_mem_cons.2 ⟨?_, ?_⟩⟩
        · intro l target hk
          exact List.mem_append_left _ (List.mem_map_of_mem (hls l target hk))
        · intro e' he' l target hk
          exact List.mem_append_right _ (hls' e' he' l target hk)
    refine ⟨ls, hlen, fun l target hk => ?_⟩
    cases l with
    | nil => cases hk
    | cons name l =>
      obtain ⟨_, s, ⟨⟩, hs, hk⟩ := exists_of_kindAt?_cons hk
      exact hls (name, s) (mem_of_lookup hs) l target hk

theorem length_le_links {ls : List Location} (hnodup : ls.Nodup)
    (h : ∀ l ∈ ls, ∃ target, t.kindAt? l = some (.link target)) : ls.length ≤ t.links := by
  obtain ⟨all, hlen, hall⟩ := exists_links t
  have hsub : ls ⊆ all := fun l hl => by
    obtain ⟨target, hk⟩ := h l hl
    exact hall l target hk
  exact hlen ▸ (hnodup.subperm hsub).length_le

/-! ### Writing without links -/

/-- A link that leads somewhere, through at least `n` links. -/
def Costs (t : Tree) (n : Nat) (l : Location) : Prop :=
  ∃ base name target mid m, l = base ++ [name] ∧ t.kindAt? l = some (.link target) ∧
    Leads t (linkBase base target) (splitAtChar '/' target) mid m ∧ n ≤ m

theorem Costs.mono (h : Costs t n l) (hn : n' ≤ n) : Costs t n' l := by
  obtain ⟨base, name, target, mid, m, hl, hk, hlead, hm⟩ := h
  exact ⟨base, name, target, mid, m, hl, hk, hlead, Nat.le_trans hn hm⟩

/-- A link that leads through fewer links is another one. -/
theorem not_costs_of_leads (hk : t.kindAt? (here ++ [name]) = some (.link target))
    (h : Leads t (linkBase here target) (splitAtChar '/' target) mid m) (hm : m < n) :
    ¬Costs t n (here ++ [name]) := by
  rintro ⟨base, name', target', mid', m', hl, hk', h', hn⟩
  obtain ⟨rfl, -⟩ := List.append_inj' hl rfl
  obtain rfl := Kind.link.inj (Option.some.inj (hk.symm.trans hk'))
  have hcount := (h.unique h').2
  omega

/-- While links are underway there is depth left. -/
theorem exists_depth {depth : Nat} {underway : List Location} (hnodup : underway.Nodup)
    (hcosts : ∀ u ∈ underway, Costs t n u) (hdepth : t.links < depth + underway.length) :
    ∃ d, depth = d + 1 := by
  have hlinks : underway.length ≤ t.links := length_le_links hnodup fun u hu => by
    obtain ⟨base, name, target, mid, m, -, hk, -⟩ := hcosts u hu
    exact ⟨target, hk⟩
  exact ⟨depth - 1, by omega⟩

/-- What leads to an end is written out as that end. The links that are underway lead through more
links than are still to come, so that none of them comes again. -/
theorem canonicalFrom_of_leads (h : Leads t here names l n) {depth : Nat}
    {underway : List Location} (hnodup : underway.Nodup) (hcosts : ∀ u ∈ underway, Costs t n u)
    (hdepth : t.links < depth + underway.length) :
    canonicalFrom t depth underway (here, true) names = (l, true) := by
  induction h generalizing depth underway with
  | arrived => exact canonicalFrom_nil t _ _ _
  | stay hdot _ ih =>
    obtain ⟨d, rfl⟩ := exists_depth hnodup hcosts hdepth
    rw [canonicalFrom_succ, if_pos (by simpa using hdot)]
    exact ih hnodup hcosts hdepth
  | up _ ih =>
    obtain ⟨d, rfl⟩ := exists_depth hnodup hcosts hdepth
    rw [canonicalFrom_succ, if_neg (by decide), if_pos rfl]
    exact ih hnodup hcosts hdepth
  | @down here _ name rest _ k hname hk hlink _ ih =>
    obtain ⟨d, rfl⟩ := exists_depth hnodup hcosts hdepth
    rw [canonicalFrom_succ, if_neg (by simp [hname.ne_nil, hname.ne_dot]), if_neg hname.ne_dots, hk]
    cases k with
    | link target => exact absurd rfl (hlink target)
    | file | folder => exact ih hnodup hcosts hdepth
  | @link here mid _ name target rest m n hname hk htarget _ iht ih =>
    obtain ⟨d, rfl⟩ := exists_depth hnodup hcosts hdepth
    have hnew : here ++ [name] ∉ underway := fun hmem =>
      not_costs_of_leads hk htarget (by omega) (hcosts _ hmem)
    have hinner : ∀ u ∈ (here ++ [name]) :: underway, Costs t m u :=
      List.forall_mem_cons.2 ⟨⟨here, name, target, mid, m, rfl, hk, htarget, Nat.le_refl m⟩,
        fun u hu => (hcosts u hu).mono (by omega)⟩
    have htargeted : canonicalFrom t d ((here ++ [name]) :: underway) (linkBase here target, true)
        (splitAtChar '/' target) = (mid, true) :=
      iht (List.nodup_cons.2 ⟨hnew, hnodup⟩) hinner (by rw [List.length_cons]; omega)
    rw [canonicalFrom_succ, if_neg (by simp [hname.ne_nil, hname.ne_dot]), if_neg hname.ne_dots, hk]
    dsimp only
    rw [if_neg (by simpa using hnew), htargeted]
    exact ih hnodup (fun u hu => (hcosts u hu).mono (by omega)) hdepth

/-- Where a path is followed to something that is there, it is written out as that. -/
theorem Sound.canonical_eq (ht : t.Sound) {p : Path} (h : t.locate here p = .ok l)
    (hl : (t.kindAt? l).isSome) : t.canonical here p = l := by
  obtain ⟨n, hn⟩ := ht.leads_of_follow h hl
  rw [canonical, canonicalFrom_of_leads hn List.nodup_nil (by simp) (by simp)]

end MarkTidy.Tree

namespace MarkTidy.Place

open MarkTidy.Tree

variable {w : Place} {p : Path} {l : Location}

theorem resolve_of_at? {s : Tree} (hsound : w.tree.Sound) (h : w.locate p = .ok l)
    (hs : w.tree.at? l = some s) (hlink : ∀ target, s ≠ .link target) : w.resolve p = .ok l := by
  obtain ⟨husable, hloc⟩ := locate_eq_ok_iff.1 h
  have hl : (w.tree.kindAt? l).isSome := by
    rw [kindAt?, hs]
    rfl
  have hback : w.tree.locate [] (.ofLocation l) = .ok l := hsound.locate_of_at? hs hlink
  simp only [resolve, husable, hsound.canonical_eq hloc hl, hback]
  rfl

/-- A path to something that is there is written out as the location of that. -/
theorem resolve_of_locate (hsound : w.tree.Sound) (hhere : w.tree.kindAt? w.here = some .folder)
    (h : w.locate p = .ok l) (hl : (w.tree.kindAt? l).isSome) : w.resolve p = .ok l := by
  obtain ⟨k, hk⟩ := Option.isSome_iff_exists.1 hl
  obtain ⟨s, hs, -⟩ := kindAt?_eq_some_iff.1 hk
  have hend := isEnd_of_locate hhere (locate_eq_ok_iff.1 h).2
  refine resolve_of_at? hsound h hs ?_
  rintro target rfl
  rw [IsEnd, kindAt?, hs] at hend
  exact hend

/-- The folder of a file that is there. -/
theorem resolve_parent {c : Content} (hsound : w.tree.Sound) (h : w.tree.at? l = some (.file c)) :
    w.resolve (Path.ofLocation l).parent = .ok l.dropLast := by
  have hfolder : ∃ s, w.tree.at? l.dropLast = some s ∧ ∀ target, s ≠ .link target := by
    rcases List.eq_nil_or_concat l with rfl | ⟨init, last, rfl⟩
    · exact ⟨_, h, by simp⟩
    · rw [List.concat_eq_append] at h ⊢
      rw [List.dropLast_concat]
      have hk : w.tree.kindAt? (init ++ [last]) = some .file := by
        rw [kindAt?, h]
        rfl
      obtain ⟨entries, hentries⟩ := kindAt?_eq_folder_iff.1 (kindAt?_of_append hk)
      exact ⟨_, hentries, by simp⟩
  obtain ⟨s, hs, hlink⟩ := hfolder
  exact resolve_of_at? hsound (locate_ofLocation hsound hs hlink) hs hlink

end MarkTidy.Place
