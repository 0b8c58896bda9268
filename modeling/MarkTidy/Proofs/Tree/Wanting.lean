import MarkTidy.Proofs.Tree.Place

/-!
Failures for want of a file. To ask about a path, to expand its tilde and to write it out may fail,
but for other reasons. To open a file fails for want of it exactly if its path leads nowhere, which
no path does that has been found to hold something.
-/

namespace MarkTidy.Place

open Text MarkTidy.Tree

variable {w w' : Place} {p q : Path} {l : Location} {f : Failure} {k : Kind}

/-- The path comes to a place where nothing is. -/
def LeadsNowhere (w : Place) (p : Path) : Prop :=
  w.tree.locate w.here p = .error .missing ∨
    ∃ l, w.tree.locate w.here p = .ok l ∧ w.tree.kindAt? l = none

theorem error_of_bind {α β : Type} {x : Except Failure α} {g : α → Except Failure β}
    (h : x >>= g = .error f) : x = .error f ∨ ∃ a, x = .ok a ∧ g a = .error f := by
  cases x with
  | error e => exact .inl (by cases h; rfl)
  | ok a => exact .inr ⟨a, rfl, h⟩

theorem error_of_map {α β : Type} {x : Except Failure α} {g : α → β}
    (h : x.map g = .error f) : x = .error f := by
  cases x with
  | error e => cases h; rfl
  | ok a => cases h

theorem exists_of_map {α β : Type} {x : Except Failure α} {g : α → β} {b : β}
    (h : x.map g = .ok b) : ∃ a, x = .ok a ∧ g a = b := by
  cases x with
  | error e => cases h
  | ok a => exact ⟨a, rfl, Except.ok.inj h⟩

/-! ### Asking -/

theorem kindOf?_eq_some_iff :
    w.kindOf? p = .ok (some k) ↔ ∃ l, w.locate p = .ok l ∧ w.tree.kindAt? l = some k := by
  simp only [locate_eq_ok_iff]
  rw [kindOf?, find?]
  cases isUsable p with
  | false => simp [Except.map]
  | true =>
    cases w.tree.locate w.here p with
    | ok l => simp [Except.map, kindAt?]
    | error e => cases e <;> simp [Except.map]

theorem exists_of_holds (h : w.holds p = .ok true) :
    ∃ l, w.locate p = .ok l ∧ (w.tree.kindAt? l).isSome := by
  rw [holds_eq] at h
  obtain ⟨k, hkind, hsome⟩ := exists_of_map h
  obtain ⟨k, rfl⟩ := Option.isSome_iff_exists.1 hsome
  obtain ⟨l, hl, hk⟩ := kindOf?_eq_some_iff.1 hkind
  exact ⟨l, hl, by rw [hk]; rfl⟩

theorem exists_of_isFolder (h : w.isFolder p = .ok true) :
    ∃ l, w.locate p = .ok l ∧ w.tree.kindAt? l = some .folder := by
  rw [isFolder_eq] at h
  obtain ⟨k, hkind, hfolder⟩ := exists_of_map h
  rw [of_decide_eq_true hfolder] at hkind
  exact kindOf?_eq_some_iff.1 hkind

theorem group_of_kindOf? (h : w.kindOf? p = .error f) : f.group ≠ .notFound := by
  have hfind := error_of_map h
  rw [find?] at hfind
  split_ifs at hfind
  cases hloc : w.tree.locate w.here p with
  | ok l =>
    rw [hloc] at hfind
    cases hfind
  | error e =>
    rw [hloc] at hfind
    cases e <;> cases hfind
    simp [Failure.group]

theorem group_of_holds (h : w.holds p = .error f) : f.group ≠ .notFound :=
  group_of_kindOf? (error_of_map (holds_eq w p ▸ h))

theorem group_of_isFolder (h : w.isFolder p = .error f) : f.group ≠ .notFound :=
  group_of_kindOf? (error_of_map (isFolder_eq w p ▸ h))

/-! ### Writing out -/

theorem group_of_resolve (h : w.resolve p = .error f) : f.group ≠ .notFound := by
  rw [resolve] at h
  split_ifs at h
  · cases h
    simp [Failure.group]
  · dsimp only [pure, bind, Except.pure, Except.bind] at h
    split at h
    · cases h
      simp [Failure.group]
    · cases h

theorem group_of_expandHome (h : w.expandHome p = .error f) : f.group ≠ .notFound := by
  rw [expandHome] at h
  split at h
  · cases h
  · cases h
    simp [Failure.group]

theorem expandHome_eq_ok_iff : w.expandHome p = .ok q ↔ p.expandHome? w.home = some q := by
  rw [expandHome]
  cases p.expandHome? w.home <;> simp

/-- A path that has been expanded has no tilde to expand. -/
theorem expandHome_of_expandHome (h : w.expandHome p = .ok q) : w.expandHome q = .ok q := by
  rw [expandHome_eq_ok_iff] at h ⊢
  rw [Path.expandHome?] at h
  split at h
  · next first rest hanchor hparts =>
    split_ifs at h with htilde hother
    · obtain rfl := Option.some.inj h
      rfl
    · obtain rfl := Option.some.inj h
      simp only [Path.expandHome?, hanchor, hparts, if_neg htilde, if_neg hother]
  · next hplain =>
    obtain rfl := Option.some.inj h
    rw [Path.expandHome?]
    split
    · next first rest hanchor hparts => exact absurd hparts (hplain first rest hanchor)
    · rfl

/-! ### Opening -/

/-- What has been come to cannot be read if it is no file. -/
theorem contentFrom_eq_error_iff : w.contentFrom p l = .error f ↔ w.tree.kindAt? l ≠ some .file ∧
    f = if w.tree.kindAt? l = some .folder then .isFolder else .missingFile p.toText := by
  rw [contentFrom]
  cases hc : w.tree.contentAt? l with
  | some c => simp [kindAt?_eq_file_iff.2 ⟨c, hc⟩]
  | none =>
    have hk : w.tree.kindAt? l ≠ some .file := fun hk => by
      obtain ⟨c, hc'⟩ := kindAt?_eq_file_iff.1 hk
      cases hc.symm.trans hc'
    cases h : w.tree.kindAt? l with
    | none => simp [eq_comm]
    | some k =>
      cases k with
      | file => exact absurd h hk
      | link target => simp [eq_comm]
      | folder => simp [eq_comm]

/-- Whether a file can be read, and why not, does not depend on what files hold. -/
theorem Alike.content_eq_error_iff (h : Alike w w') :
    w.content p = .error f ↔ w'.content p = .error f := by
  rw [content_eq, content_eq, ← h.locate]
  cases w.locate p with
  | error e => rfl
  | ok l =>
    rw [Except.bind, Except.bind, contentFrom_eq_error_iff, contentFrom_eq_error_iff, h.tree.kinds]

/-- To open a file fails for want of it exactly if its path leads nowhere. -/
theorem content_notFound_iff (hhere : w.tree.kindAt? w.here = some .folder)
    (husable : isUsable p = true) :
    (∃ f, w.content p = .error f ∧ f.group = .notFound) ↔ w.LeadsNowhere p := by
  rw [content_eq, LeadsNowhere, locate, husable]
  cases hloc : w.tree.locate w.here p with
  | error e =>
    cases e <;> simp [Except.bind, throw, throwThe, MonadExceptOf.throw, Failure.group]
  | ok l =>
    have hend := isEnd_of_locate hhere hloc
    have hfrom : (∃ f, w.contentFrom p l = .error f ∧ f.group = .notFound) ↔
        w.tree.kindAt? l = none := by
      simp only [contentFrom_eq_error_iff]
      cases hk : w.tree.kindAt? l with
      | none => simp [Failure.group]
      | some k =>
        cases k with
        | file => simp
        | link target =>
          rw [IsEnd, hk] at hend
          exact hend.elim
        | folder => simp [Failure.group]
    simpa [pure, Except.pure, Except.bind] using hfrom

theorem group_of_text (hhere : w.tree.kindAt? w.here = some .folder) (hp : w.holds p = .ok true)
    (h : w.text p = .error f) : f.group ≠ .notFound := by
  obtain ⟨l, hl, hk⟩ := exists_of_holds hp
  obtain ⟨husable, hloc⟩ := locate_eq_ok_iff.1 hl
  rcases error_of_bind h with h | ⟨c, -, h⟩
  · intro hf
    rcases (content_notFound_iff hhere husable).1 ⟨f, h, hf⟩ with h | ⟨l', h, hnone⟩
    · cases hloc.symm.trans h
    · obtain rfl := Except.ok.inj (hloc.symm.trans h)
      simp [hnone] at hk
  · cases c with
    | text t => cases h
    | binary bytes =>
      cases h
      nofun

end MarkTidy.Place
