import Mathlib
import MarkTidy.Config.Load
import MarkTidy.Proofs.Tree.Resolve
import MarkTidy.Proofs.Tree.Wanting
import MarkTidy.Proofs.Yaml.Fault

/-!
Which configuration files are refused. A file whose text breaks the rules, or whose document is no table
of settings, is told to be at fault. Other faults come through as they are.
-/

namespace MarkTidy.Config

open Text MarkTidy.Tree

variable {w : Place} {p : Path} {root file : Location} {name t : Text} {c : Content} {f : Failure}
  {d : Yaml.Document}

/-! ### The file -/

/-- The configuration file of a path is there. -/
structure FileHolds (w : Place) (p : Path) (file : Location) (c : Content) : Prop where
  there : fileOf w p = .ok file
  content : w.tree.contentAt? file = some c

/-- What is loaded from the content of a file. -/
def ofContent (root : Location) (name : Text) : Content → Except Failure Config
  | .text t => ofText root name (unifyBreaks t)
  | .binary _ => .error .notText

theorem FileHolds.load_eq (h : FileHolds w p file c) (hsound : w.tree.Sound) :
    load w p = ofContent file.dropLast (Path.ofLocation file).name c := by
  have hat : w.tree.at? file = some (.file c) := contentAt?_eq_some_iff.1 h.content
  have hlocate : w.locate (.ofLocation file) = .ok file :=
    Place.locate_ofLocation hsound hat (by simp)
  have hholds : w.holds (.ofLocation file) = .ok true := by
    rw [Place.holds_eq, Place.kindOf?_ofLocation hsound hat (by simp)]
    rfl
  have hroot : w.resolve (Path.ofLocation file).parent = .ok file.dropLast :=
    Place.resolve_parent hsound hat
  have hcontent : w.content (.ofLocation file) = .ok c :=
    Place.content_eq_ok_iff.2 ⟨file, hlocate, h.content⟩
  rw [load, h.there, Place.ok_bind]
  dsimp only
  rw [hroot, Place.ok_bind, hholds, Place.ok_bind, if_pos rfl, Place.text, hcontent, Place.ok_bind]
  cases c <;> rfl

theorem sound_alone (c : Content) : (Tree.folder [(fileName, .file c)]).Sound := by
  simp only [sound_folder_iff, sound_file, List.forall_mem_cons, List.not_mem_nil, false_imp_iff,
    implies_true, and_true]
  exact ⟨List.nodup_singleton _, by decide⟩

/-- A configuration file with nothing beside it is the one of the folder it is in. -/
theorem fileHolds_alone (c : Content) :
    FileHolds ⟨.folder [(fileName, .file c)], [], []⟩ (Path.ofText ".".toList) [fileName] c :=
  ⟨by cbv, rfl⟩

/-! ### Faults that come through -/

/-- A list of the settings holds a number that is too long to be written out. -/
def IsOverlong (d : Yaml.Document) : Prop :=
  ∃ key ∈ listed, ((Setting.ofValue d depth d.root).get key).isOverlong = true

instance (d : Yaml.Document) : Decidable (IsOverlong d) := inferInstanceAs (Decidable (∃ _ ∈ _, _))

/-- What is wrong with the content of a file and yet is not told to be the fault of the
configuration. -/
inductive Unforeseen : Content → Failure → Prop
  /-- The bytes are no text. -/
  | bytes (b : List UInt8) : Unforeseen (.binary b) .notText
  /-- The code of a character is out of range. -/
  | token {t : Text} {fault : Yaml.Fault} (hblank : ¬(unifyBreaks t).all isBlank)
      (hdocument : Yaml.Document.ofText (unifyBreaks t) = .error fault) (hfault : fault ≠ .malformed)
      (htokens : (Yaml.tokens (unifyBreaks t)).2 = some fault) :
      Unforeseen (.text t) (.unreadableScalar fault)
  /-- A scalar cannot be read as its tag asks. -/
  | scalar {t : Text} {fault : Yaml.Fault} {g : Yaml.Graph} (hblank : ¬(unifyBreaks t).all isBlank)
      (hdocument : Yaml.Document.ofText (unifyBreaks t) = .error fault) (hfault : fault ≠ .malformed)
      (hgraph : Yaml.Graph.ofText (unifyBreaks t) = .ok g) (hscalar : g.HasFault fault) :
      Unforeseen (.text t) (.unreadableScalar fault)
  /-- A number is too long to be written out. -/
  | number {t : Text} {d : Yaml.Document} (hblank : ¬(unifyBreaks t).all isBlank)
      (hdocument : Yaml.Document.ofText (unifyBreaks t) = .ok d) (hlong : IsOverlong d) :
      Unforeseen (.text t) (.unreadableScalar .unreadable)

/-- What is no table, or is void, lists nothing. -/
theorem exists_table_of_isOverlong (h : IsOverlong d) :
    (∃ entries, d.root = .table entries) ∧ d.root.isVoid = false := by
  obtain ⟨key, -, hlong⟩ := h
  cases hroot : d.root with
  | table entries =>
    cases entries with
    | nil =>
      rw [hroot] at hlong
      cases hlong
    | cons e entries => exact ⟨⟨_, rfl⟩, rfl⟩
  | _ =>
    rw [hroot] at hlong
    cases hlong

theorem ofDocument_of_isVoid (h : d.root.isVoid = true) : ofDocument root d = .ok { root } := by
  rw [ofDocument, if_pos h]

theorem isOverlong_iff : IsOverlong d ↔
    (listed.any fun key => ((Setting.ofValue d depth d.root).get key).isOverlong) = true :=
  List.any_eq_true.symm

theorem ofDocument_of_table {entries : List (Nat × Nat)} (h : d.root = .table entries)
    (hvoid : d.root.isVoid = false) : ofDocument root d =
      if IsOverlong d then .error (.unreadableScalar .unreadable)
      else .ok (ofSetting root (Setting.ofValue d depth d.root)) := by
  rw [ofDocument, hvoid, if_neg Bool.false_ne_true]
  simp only [isOverlong_iff, h]

theorem ofDocument_of_ne_table (h : ∀ entries, d.root ≠ .table entries)
    (hvoid : d.root.isVoid = false) : ofDocument root d = .error .configNotTable := by
  rw [ofDocument, hvoid, if_neg Bool.false_ne_true]
  cases hroot : d.root with
  | table entries => exact absurd hroot (h entries)
  | _ => rfl

theorem ofDocument_unforeseen_iff :
    ofDocument root d = .error f ∧ f.isConfig = false ↔
      IsOverlong d ∧ f = .unreadableScalar .unreadable := by
  by_cases hlong : IsOverlong d
  · obtain ⟨⟨entries, hroot⟩, hvoid⟩ := exists_table_of_isOverlong hlong
    rw [ofDocument_of_table hroot hvoid, if_pos hlong]
    constructor
    · rintro ⟨⟨⟩, -⟩
      exact ⟨hlong, rfl⟩
    · rintro ⟨-, rfl⟩
      exact ⟨rfl, rfl⟩
  · refine ⟨fun ⟨h, hf⟩ => ?_, fun h => absurd h.1 hlong⟩
    cases hvoid : d.root.isVoid with
    | true =>
      rw [ofDocument_of_isVoid hvoid] at h
      cases h
    | false =>
      by_cases htable : ∃ entries, d.root = .table entries
      · obtain ⟨entries, hroot⟩ := htable
        rw [ofDocument_of_table hroot hvoid, if_neg hlong] at h
        cases h
      · rw [ofDocument_of_ne_table (fun entries hroot => htable ⟨entries, hroot⟩) hvoid] at h
        cases h
        cases hf

theorem ofText_of_blank (h : t.all isBlank = true) : ofText root name t = .ok { root } := by
  rw [ofText, if_pos h]

theorem ofText_of_document (hblank : ¬t.all isBlank = true) (hd : Yaml.Document.ofText t = .ok d) :
    ofText root name t = ofDocument root d := by
  rw [ofText, if_neg hblank, hd]

theorem ofText_of_fault {fault : Yaml.Fault} (hblank : ¬t.all isBlank = true)
    (hd : Yaml.Document.ofText t = .error fault) (hfault : fault ≠ .malformed) :
    ofText root name t = .error (.unreadableScalar fault) := by
  rw [ofText, if_neg hblank, hd]
  cases fault with
  | malformed => exact absurd rfl hfault
  | _ => rfl

theorem ofText_of_malformed (hblank : ¬t.all isBlank = true)
    (hd : Yaml.Document.ofText t = .error .malformed) :
    ofText root name t = .error (.malformedConfig name) := by
  rw [ofText, if_neg hblank, hd]

theorem unforeseen_of_ofContent (h : ofContent root name c = .error f) (hf : f.isConfig = false) :
    Unforeseen c f := by
  cases c with
  | binary b =>
    obtain rfl : .notText = f := Except.error.inj h
    exact .bytes b
  | text t =>
    rw [ofContent] at h
    by_cases hblank : (unifyBreaks t).all isBlank = true
    · rw [ofText_of_blank hblank] at h
      cases h
    cases hd : Yaml.Document.ofText (unifyBreaks t) with
    | ok d =>
      rw [ofText_of_document hblank hd] at h
      obtain ⟨hlong, rfl⟩ := ofDocument_unforeseen_iff.1 ⟨h, hf⟩
      exact .number hblank hd hlong
    | error fault =>
      by_cases hfault : fault = .malformed
      · subst hfault
        rw [ofText_of_malformed hblank hd] at h
        cases h
        cases hf
      · rw [ofText_of_fault hblank hd hfault] at h
        obtain rfl := Except.error.inj h
        obtain hm | htokens | ⟨g, hg, hscalar⟩ := Yaml.Document.fault_of_ofText hd
        · exact absurd hm hfault
        · exact .token hblank hd hfault htokens
        · exact .scalar hblank hd hfault hg hscalar

theorem ofContent_of_unforeseen (h : Unforeseen c f) (root : Location) (name : Text) :
    ofContent root name c = .error f ∧ f.isConfig = false := by
  cases h with
  | bytes b => exact ⟨rfl, rfl⟩
  | token hblank hd hfault => exact ⟨ofText_of_fault hblank hd hfault, rfl⟩
  | scalar hblank hd hfault => exact ⟨ofText_of_fault hblank hd hfault, rfl⟩
  | number hblank hd hlong =>
    rw [ofContent, ofText_of_document hblank hd]
    exact ofDocument_unforeseen_iff.2 ⟨hlong, rfl⟩

/-- What counts as nothing, although it is neither that nor a table. -/
inductive IsHollow : Yaml.Value → Prop
  | flag : IsHollow (.flag false)
  | integer : IsHollow (.integer 0)
  | decimal {x : Float} (h : (x == 0.0) = true) : IsHollow (.decimal x)
  | text : IsHollow (.text [])
  | bytes : IsHollow (.bytes [])
  | list : IsHollow (.list [])
  | pairs : IsHollow (.pairs [])
  | set : IsHollow (.set [])

theorem isVoid_of_isHollow {v : Yaml.Value} (h : IsHollow v) : v.isVoid = true := by
  cases h with
  | decimal h => exact h
  | _ => rfl

theorem isVoid_iff {v : Yaml.Value} :
    v.isVoid = true ↔ v = .null ∨ v = .table [] ∨ IsHollow v := by
  constructor
  · intro h
    cases v with
    | null => exact .inl rfl
    | flag b =>
      obtain rfl : b = false := by simpa [Yaml.Value.isVoid] using h
      exact .inr (.inr .flag)
    | integer n =>
      obtain rfl : n = 0 := eq_of_beq h
      exact .inr (.inr .integer)
    | decimal x => exact .inr (.inr (.decimal h))
    | text t =>
      obtain rfl : t = [] := List.isEmpty_iff.1 h
      exact .inr (.inr .text)
    | bytes b =>
      obtain rfl : b = [] := List.isEmpty_iff.1 h
      exact .inr (.inr .bytes)
    | moment => cases h
    | list l =>
      obtain rfl : l = [] := List.isEmpty_iff.1 h
      exact .inr (.inr .list)
    | pairs l =>
      obtain rfl : l = [] := List.isEmpty_iff.1 h
      exact .inr (.inr .pairs)
    | set l =>
      obtain rfl : l = [] := List.isEmpty_iff.1 h
      exact .inr (.inr .set)
    | table l =>
      obtain rfl : l = [] := List.isEmpty_iff.1 h
      exact .inr (.inl rfl)
  · rintro (rfl | rfl | h)
    · rfl
    · rfl
    · exact isVoid_of_isHollow h

end MarkTidy.Config
