import MarkTidy.Proofs.Tree.Sound
import MarkTidy.Tree.Place

/-!
What the questions about a place depend on. Whether something is there, and of which kind, does not
depend on what files hold; the text of a file depends on that file alone.
-/

namespace MarkTidy.Place

open Text

variable {w w' w'' : Place} {p : Path} {l : Location} {c : Content}

/-- Places that differ at most in what their files hold. -/
structure Alike (w w' : Place) : Prop where
  tree : Tree.Alike w.tree w'.tree
  here : w.here = w'.here
  home : w.home = w'.home

/-- Places that are alike entry by entry, in the order that folders list them. -/
structure SameOutline (w w' : Place) : Prop where
  outline : w.tree.outline = w'.tree.outline
  here : w.here = w'.here
  home : w.home = w'.home

theorem SameOutline.refl (w : Place) : SameOutline w w := ⟨rfl, rfl, rfl⟩

theorem SameOutline.trans (h : SameOutline w w') (h' : SameOutline w' w'') : SameOutline w w'' :=
  ⟨h.outline.trans h'.outline, h.here.trans h'.here, h.home.trans h'.home⟩

theorem SameOutline.alike (h : SameOutline w w') : Alike w w' :=
  ⟨.of_outline h.outline, h.here, h.home⟩

namespace Alike

theorem locateIn (h : Alike w w') (here : Location) (p : Path) :
    w.tree.locate here p = w'.tree.locate here p :=
  Tree.follow_congr h.tree.kinds _ _ _

theorem locate (h : Alike w w') (p : Path) : w.locate p = w'.locate p := by
  rw [Place.locate, Place.locate, h.here, h.locateIn]

theorem resolve (h : Alike w w') (p : Path) : w.resolve p = w'.resolve p := by
  simp only [Place.resolve, h.here, Tree.canonical_congr h.tree, h.locateIn]

theorem expandHome (h : Alike w w') (p : Path) : w.expandHome p = w'.expandHome p := by
  rw [Place.expandHome, Place.expandHome, h.home]

end Alike

/-! ### Locations that paths write out -/

theorem ok_bind {α β : Type} (a : α) (f : α → Except Failure β) : Except.ok a >>= f = f a := rfl

theorem exists_of_bind {α β : Type} {x : Except Failure α} {f : α → Except Failure β} {b : β}
    (h : x >>= f = .ok b) : ∃ a, x = .ok a ∧ f a = .ok b := by
  cases x with
  | error e => cases h
  | ok a => exact ⟨a, rfl, h⟩

theorem eq_canonical_of_resolve (h : w.resolve p = .ok l) : l = w.tree.canonical w.here p := by
  rw [resolve] at h
  split_ifs at h
  · cases h
  · dsimp only [pure, bind, Except.pure, Except.bind] at h
    split at h
    · cases h
    · exact (Except.ok.inj h).symm

theorem isStep_of_resolve (hhere : ∀ n ∈ w.here, Tree.IsStep n) (h : w.resolve p = .ok l) :
    ∀ n ∈ l, Tree.IsStep n := by
  rw [eq_canonical_of_resolve h]
  exact Tree.isStep_of_mem_canonical hhere p

theorem getLast?_resolve {name : Text} (hlinks : ∀ l target, w.tree.kindAt? l ≠ some (.link target))
    (hname : Tree.IsStep name) (h : w.resolve (p.child name) = .ok l) : l.getLast? = some name := by
  rw [eq_canonical_of_resolve h]
  exact Tree.getLast?_canonical hlinks hname w.here p

/-! ### Questions about what is there -/

/-- Of which kind the entry at the end of a path is, if there is any. -/
def kindOf? (w : Place) (p : Path) : Except Failure (Option Tree.Kind) :=
  (w.find? p).map (Option.map Tree.kind)

theorem holds_eq (w : Place) (p : Path) : w.holds p = (w.kindOf? p).map Option.isSome := by
  rw [holds, kindOf?]
  cases w.find? p with
  | error e => rfl
  | ok s => cases s <;> rfl

theorem isFolder_eq (w : Place) (p : Path) :
    w.isFolder p = (w.kindOf? p).map fun k => decide (k = some .folder) := by
  rw [isFolder, kindOf?]
  cases w.find? p with
  | error e => rfl
  | ok s =>
    cases s with
    | none => rfl
    | some s => cases s <;> rfl

theorem isFile_eq (w : Place) (p : Path) :
    w.isFile p = (w.kindOf? p).map fun k => decide (k = some .file) := by
  rw [isFile, kindOf?]
  cases w.find? p with
  | error e => rfl
  | ok s =>
    cases s with
    | none => rfl
    | some s => cases s <;> rfl

namespace Alike

theorem kindOf? (h : Alike w w') (p : Path) : w.kindOf? p = w'.kindOf? p := by
  rw [Place.kindOf?, Place.kindOf?, Place.find?, Place.find?, h.here, h.locateIn]
  split_ifs
  · rfl
  · cases w'.tree.locate w'.here p with
    | ok l => exact congrArg Except.ok (h.tree.kinds l)
    | error e => cases e <;> rfl

theorem holds (h : Alike w w') (p : Path) : w.holds p = w'.holds p := by
  rw [holds_eq, holds_eq, h.kindOf?]

theorem isFolder (h : Alike w w') (p : Path) : w.isFolder p = w'.isFolder p := by
  rw [isFolder_eq, isFolder_eq, h.kindOf?]

theorem isFile (h : Alike w w') (p : Path) : w.isFile p = w'.isFile p := by
  rw [isFile_eq, isFile_eq, h.kindOf?]

end Alike

theorem isUsable_ofLocation {s : Tree} (h : w.tree.Sound) (hs : w.tree.at? l = some s) :
    isUsable (.ofLocation l) = true := by
  refine List.all_eq_true.2 fun name hname => ?_
  simpa using (h.isName_of_at? hs name hname).no_null

/-- What is at a location that leads through folders alone is at the end of its path. -/
theorem kindOf?_ofLocation {s : Tree} (h : w.tree.Sound) (hs : w.tree.at? l = some s)
    (hlink : ∀ target, s ≠ .link target) : w.kindOf? (.ofLocation l) = .ok (some s.kind) := by
  rw [kindOf?, find?, isUsable_ofLocation h hs, h.locate_of_at? hs hlink]
  dsimp only [Bool.not_true, Bool.false_eq_true, if_false]
  rw [hs]
  rfl

/-- Without links, what is at the end of a location's path is at the location. -/
theorem kindAt?_of_kindOf? {k : Tree.Kind}
    (hlinks : ∀ l target, w.tree.kindAt? l ≠ some (.link target)) (hl : ∀ n ∈ l, Tree.IsStep n)
    (h : w.kindOf? (.ofLocation l) = .ok (some k)) : w.tree.kindAt? l = some k := by
  rw [kindOf?, find?] at h
  cases hu : isUsable (.ofLocation l) with
  | false =>
    rw [hu] at h
    cases h
  | true =>
    rw [hu] at h
    cases hloc : w.tree.locate w.here (.ofLocation l) with
    | error e =>
      rw [hloc] at h
      cases e <;> cases h
    | ok l' =>
      rw [hloc] at h
      rw [← Tree.eq_of_locate hlinks hl hloc]
      exact Except.ok.inj h

theorem locate_ofLocation {s : Tree} (h : w.tree.Sound) (hs : w.tree.at? l = some s)
    (hlink : ∀ target, s ≠ .link target) : w.locate (.ofLocation l) = .ok l := by
  rw [locate, isUsable_ofLocation h hs, h.locate_of_at? hs hlink]
  rfl

theorem locate_eq_ok_iff :
    w.locate p = .ok l ↔ isUsable p = true ∧ w.tree.locate w.here p = .ok l := by
  rw [locate]
  cases isUsable p with
  | false => exact ⟨nofun, nofun⟩
  | true =>
    cases w.tree.locate w.here p with
    | ok l' => simp [pure, Except.pure]
    | error e => cases e <;> exact ⟨nofun, nofun⟩

/-! ### Contents -/

/-- The content of the file that has been come to. -/
def contentFrom (w : Place) (p : Path) (l : Location) : Except Failure Content :=
  match w.tree.contentAt? l, w.tree.kindAt? l with
  | some c, _ => .ok c
  | none, some .folder => .error .isFolder
  | none, _ => .error (.missingFile p.toText)

theorem content_eq (w : Place) (p : Path) : w.content p = (w.locate p).bind (w.contentFrom p) := by
  rw [content]
  cases w.locate p with
  | error e => rfl
  | ok l =>
    simp only [bind, Except.bind, contentFrom, Tree.contentAt?, Tree.kindAt?]
    cases w.tree.at? l with
    | none => rfl
    | some s => cases s <;> rfl

theorem contentFrom_eq_ok_iff : w.contentFrom p l = .ok c ↔ w.tree.contentAt? l = some c := by
  rw [contentFrom]
  cases w.tree.contentAt? l with
  | some c' => simp
  | none =>
    cases w.tree.kindAt? l with
    | none => simp
    | some k => cases k <;> simp

theorem content_eq_ok_iff :
    w.content p = .ok c ↔ ∃ l, w.locate p = .ok l ∧ w.tree.contentAt? l = some c := by
  rw [content_eq]
  cases hl : w.locate p with
  | error e => simp [Except.bind]
  | ok l => simp [Except.bind, contentFrom_eq_ok_iff]

/-- What a path leads to holds the same in both places, if the file there does. -/
theorem Alike.content (h : Alike w w')
    (hc : ∀ l, w.locate p = .ok l → w.tree.contentAt? l = w'.tree.contentAt? l) :
    w.content p = w'.content p := by
  rw [content_eq, content_eq, ← h.locate]
  cases hl : w.locate p with
  | error e => rfl
  | ok l => rw [Except.bind, Except.bind, contentFrom, contentFrom, hc l hl, h.tree.kinds]

theorem Alike.text (h : Alike w w')
    (hc : ∀ l, w.locate p = .ok l → w.tree.contentAt? l = w'.tree.contentAt? l) :
    w.text p = w'.text p := by
  rw [Place.text, Place.text, h.content hc]

end MarkTidy.Place
