import Mathlib
import MarkTidy.Proofs.Ignore.Verdict
import MarkTidy.Proofs.Run.Walk
import MarkTidy.Proofs.Tree.Place

/-!
The documents below a folder, said without the walk: which entries they are, and in which order they
come. Neither depends on the order in which folders list their entries.
-/

namespace MarkTidy.Scan

open Text MarkTidy.Tree

variable {w w' : Place} {p q : Path} {root l : Location} {shown : Text}
  {extensions excluded lines : List Text} {rules : List IgnoreRule}

/-! ### The rules of a folder -/

/-- The lines of the ignore file of a folder, of which there are none if it has no such file. -/
inductive IgnoreLines (w : Place) (root : Location) : List Text → Prop
  | absent : w.holds ((Path.ofLocation root).child ".gitignore".toList) = .ok false →
    IgnoreLines w root []
  | text (t : Text) : w.holds ((Path.ofLocation root).child ".gitignore".toList) = .ok true →
    w.text ((Path.ofLocation root).child ".gitignore".toList) = .ok t →
    IgnoreLines w root (pieces t)

theorem IgnoreLines.rulesFor (h : IgnoreLines w root lines) (more : List Text) :
    rulesFor w root more = .ok (IgnoreRule.ofLines (lines ++ more)) := by
  rw [IgnoreRule.ofLines, List.filterMap_append, Scan.rulesFor]
  cases h with
  | absent hno =>
    rw [hno]
    rfl
  | text t hyes ht =>
    rw [hyes, ht]
    rfl

theorem IgnoreLines.congr (h : IgnoreLines w root lines) (hw : Place.Alike w w')
    (hc : ∀ l, w.tree.contentAt? l = w'.tree.contentAt? l) : IgnoreLines w' root lines := by
  cases h with
  | absent hno => exact .absent (hw.holds _ ▸ hno)
  | text t hyes ht =>
    exact .text t (hw.holds _ ▸ hyes) (by rw [← hw.text fun l _ => hc l]; exact ht)

/-! ### What is a document -/

/-- The extensions that count: the usual ones if none are asked for. -/
def effective (extensions : List Text) : List Text :=
  if extensions.isEmpty then Config.defaultExtensions else extensions

/-- An entry below a folder is a document if it is no folder, has one of some extensions, is not
ignored, and no folder on the way to it is excluded, ignored or a link. -/
structure IsDocument (w : Place) (root : Location) (rules : List IgnoreRule)
    (extensions : List Text) (p : Location) : Prop where
  below : p ≠ []
  entry : (w.tree.kindAt? (root ++ p)).isSome
  no_folder : w.isFolder (.ofLocation (root ++ p)) ≠ .ok true
  extension : lower (Path.ofLocation p).suffix ∈ extensions.map lower
  kept : ¬IgnoreRule.Ignored rules (relative p) false
  way : ∀ q name rest, p = q ++ name :: rest → rest ≠ [] →
    w.tree.kindAt? (root ++ (q ++ [name])) = some .folder ∧
      String.ofList name ∉ excludedFolders ∧ ¬IgnoreRule.Ignored rules (relative (q ++ [name])) true

theorem IsDocument.congr (h : IsDocument w root rules extensions l) (hw : Place.Alike w w') :
    IsDocument w' root rules extensions l where
  below := h.below
  entry := hw.tree.kinds _ ▸ h.entry
  no_folder := hw.isFolder _ ▸ h.no_folder
  extension := h.extension
  kept := h.kept
  way q name rest heq hrest := hw.tree.kinds _ ▸ h.way q name rest heq hrest

/-- A document is a file or a link. -/
theorem IsDocument.kindAt? (hsound : w.tree.Sound) (h : IsDocument w root rules extensions l) :
    w.tree.kindAt? (root ++ l) = some .file ∨
      ∃ target, w.tree.kindAt? (root ++ l) = some (.link target) := by
  obtain ⟨k, hk⟩ := Option.isSome_iff_exists.1 h.entry
  cases k with
  | file => exact .inl hk
  | link target => exact .inr ⟨target, hk⟩
  | folder =>
    obtain ⟨entries, hat⟩ := kindAt?_eq_folder_iff.1 hk
    have hfolder : w.isFolder (.ofLocation (root ++ l)) = .ok true := by
      rw [Place.isFolder_eq, Place.kindOf?_ofLocation hsound hat nofun]
      rfl
    exact absurd hfolder h.no_folder

/-- Whether the path of an entry below a folder leads to a folder. -/
def leadsToFolder (w : Place) (root l : Location) : Bool :=
  match w.isFolder (.ofLocation (root ++ l)) with
  | .ok b => b
  | .error _ => false

theorem leadsToFolder_eq_false_iff :
    leadsToFolder w root l = false ↔ w.isFolder (.ofLocation (root ++ l)) ≠ .ok true := by
  rw [leadsToFolder]
  cases w.isFolder (.ofLocation (root ++ l)) with
  | error e => simp
  | ok b => simp

/-- What the walk lists is what is no folder. -/
theorem stop_iff {s : Tree} (hsound : w.tree.Sound) (hs : w.tree.at? root = some s) :
    (s.kindAt? l = some .file ∨
        ∃ target, s.kindAt? l = some (.link target) ∧ leadsToFolder w root l = false) ↔
      (w.tree.kindAt? (root ++ l)).isSome ∧ w.isFolder (.ofLocation (root ++ l)) ≠ .ok true := by
  rw [leadsToFolder_eq_false_iff, kindAt?_append hs]
  cases hl : s.at? l with
  | none => simp [kindAt?, hl]
  | some u =>
    have hat : w.tree.at? (root ++ l) = some u := by rw [at?_append, hs, Option.bind_some, hl]
    have hkind : u.kind = .folder ∨ u.kind = .file →
        w.isFolder (.ofLocation (root ++ l)) = .ok (decide (u.kind = .folder)) := fun hu => by
      rw [Place.isFolder_eq, Place.kindOf?_ofLocation hsound hat]
      · simp [Except.map]
      · rintro target rfl
        rcases hu with hu | hu <;> cases hu
    rw [kindAt?, hl]
    cases u with
    | file c => simp [hkind (.inr rfl), kind]
    | link target => simp [kind]
    | folder es => simp [hkind (.inl rfl), kind]

/-! ### The scan of a folder -/

/-- The documents of a folder, from the folder on. -/
def found (w : Place) (root : Location) (rules : List IgnoreRule) (extensions : List Text)
    (t : Tree) : List Location :=
  (files (leadsToFolder w root) (fun l => IgnoreRule.ignores rules (relative l)) [] t).filter
    fun l => (extensions.map lower).contains (lower (Path.suffixOf (l.getLast?.getD [])))

/-- The scan of a folder that is there fails only if its rules cannot be read. -/
theorem documents_eq_bind {entries : List (Text × Tree)} (hsound : w.tree.Sound)
    (hq : w.expandHome p = .ok q) (hroot : w.resolve q = .ok root)
    (hfolder : w.tree.at? root = some (folder entries)) (shown : Text)
    (extensions excluded : List Text) :
    documents w p shown extensions excluded = rulesFor w root excluded >>= fun rules =>
      .ok ((found w root rules (effective extensions) (folder entries)).map (root ++ ·)) := by
  have hkind : w.kindOf? (.ofLocation root) = .ok (some .folder) :=
    Place.kindOf?_ofLocation hsound hfolder nofun
  have hholds : w.holds (.ofLocation root) = .ok true := by rw [Place.holds_eq, hkind]; rfl
  have hfile : w.isFile (.ofLocation root) = .ok false := by rw [Place.isFile_eq, hkind]; rfl
  simp only [documents, hq, hroot, hholds, hfile, hfolder, bind, Except.bind, Bool.not_true,
    Bool.false_eq_true, if_false, Option.getD_some]
  rfl

theorem documents_of_folder {entries : List (Text × Tree)} (hsound : w.tree.Sound)
    (hq : w.expandHome p = .ok q) (hroot : w.resolve q = .ok root)
    (hfolder : w.tree.at? root = some (folder entries)) (hlines : IgnoreLines w root lines)
    (shown : Text) (extensions excluded : List Text) :
    documents w p shown extensions excluded =
      .ok ((found w root (IgnoreRule.ofLines (lines ++ excluded)) (effective extensions)
        (folder entries)).map (root ++ ·)) := by
  rw [documents_eq_bind hsound hq hroot hfolder, hlines.rulesFor excluded, Place.ok_bind]

theorem mem_found {s : Tree} (hsound : w.tree.Sound) (hs : w.tree.at? root = some s) :
    l ∈ found w root rules extensions s ↔ IsDocument w root rules extensions l := by
  have hlisted : l ∈ files (leadsToFolder w root)
      (fun l => IgnoreRule.ignores rules (relative l)) [] s ↔
        Listed (leadsToFolder w root) (fun l => IgnoreRule.ignores rules (relative l)) [] s l := by
    rw [mem_files (hsound.of_at? hs)]
    exact ⟨fun ⟨p, hl, hp⟩ => hl ▸ hp, fun h => ⟨l, rfl, h⟩⟩
  have hignores : ∀ path isDirectory, IgnoreRule.ignores rules path isDirectory = false ↔
      ¬IgnoreRule.Ignored rules path isDirectory := fun path isDirectory => by
    rw [← IgnoreRule.ignores_iff, Bool.not_eq_true]
  rw [found, List.mem_filter, hlisted, List.contains_iff_mem]
  constructor
  · rintro ⟨⟨hbelow, hstop, hkept, hway⟩, hext⟩
    obtain ⟨hentry, hno⟩ := (stop_iff hsound hs).1 hstop
    refine ⟨hbelow, hentry, hno, hext, (hignores _ _).1 hkept, fun q name rest heq hrest => ?_⟩
    obtain ⟨hname, hopen⟩ := hway q name rest heq hrest
    refine ⟨?_, by simpa using hname, (hignores _ _).1 hopen⟩
    obtain ⟨k, hk⟩ := Option.isSome_iff_exists.1 hentry
    obtain ⟨x, xs, rfl⟩ := List.exists_cons_of_ne_nil hrest
    rw [heq, show root ++ (q ++ name :: x :: xs) = (root ++ (q ++ [name])) ++ x :: xs by simp] at hk
    exact kindAt?_of_append hk
  · rintro ⟨hbelow, hentry, hno, hext, hkept, hway⟩
    refine ⟨⟨hbelow, (stop_iff hsound hs).2 ⟨hentry, hno⟩, (hignores _ _).2 hkept,
      fun q name rest heq hrest => ?_⟩, hext⟩
    obtain ⟨-, hname, hopen⟩ := hway q name rest heq hrest
    exact ⟨by simpa using hname, (hignores _ _).2 hopen⟩

theorem pairwise_found {s : Tree} (hsound : w.tree.Sound) (hs : w.tree.at? root = some s)
    (rules : List IgnoreRule) (extensions : List Text) :
    (found w root rules extensions s).Pairwise Before :=
  (pairwise_files (hsound.of_at? hs)).sublist List.filter_sublist

/-- The scan of a folder gives exactly its documents, each once, in their order, whatever the order
in which folders list their entries. -/
theorem documents_eq (hsound : w.tree.Sound) (hq : w.expandHome p = .ok q)
    (hroot : w.resolve q = .ok root) (hfolder : w.tree.kindAt? root = some .folder)
    (hlines : IgnoreLines w root lines) :
    (∃ ls : List Location, documents w p shown extensions excluded = .ok (ls.map (root ++ ·)) ∧
        (∀ l, l ∈ ls ↔ IsDocument w root (IgnoreRule.ofLines (lines ++ excluded))
          (effective extensions) l) ∧
        ls.Nodup ∧ ls.Pairwise Before) ∧
      ∀ t, t.Sound → (∀ l, w.tree.kindAt? l = t.kindAt? l) →
        (∀ l, w.tree.contentAt? l = t.contentAt? l) →
        documents { w with tree := t } p shown extensions excluded =
          documents w p shown extensions excluded := by
  obtain ⟨entries, hat⟩ := kindAt?_eq_folder_iff.1 hfolder
  have hdocs := documents_of_folder hsound hq hroot hat hlines shown extensions excluded
  have hpair := pairwise_found hsound hat (IgnoreRule.ofLines (lines ++ excluded))
    (effective extensions)
  refine ⟨⟨_, hdocs, fun l => mem_found hsound hat, hpair.imp Before.ne, hpair⟩, ?_⟩
  intro t ht hkinds hcontents
  have hw : Place.Alike w { w with tree := t } := ⟨.of_kinds hsound ht hkinds, rfl, rfl⟩
  have hfolder' : t.kindAt? root = some .folder := hkinds root ▸ hfolder
  obtain ⟨entries', hat'⟩ := kindAt?_eq_folder_iff.1 hfolder'
  have hdocs' := documents_of_folder (w := { w with tree := t }) ht (hw.expandHome p ▸ hq)
    (hw.resolve q ▸ hroot) hat' (hlines.congr hw hcontents) shown extensions excluded
  have hpair' := pairwise_found (w := { w with tree := t }) ht hat'
    (IgnoreRule.ofLines (lines ++ excluded)) (effective extensions)
  rw [hdocs, hdocs']
  congr 2
  refine eq_of_pairwise_before hpair' hpair fun l => ?_
  rw [mem_found hsound hat, mem_found (w := { w with tree := t }) ht hat']
  exact ⟨fun h => h.congr ⟨⟨fun l => (hkinds l).symm, hw.tree.links.symm⟩, rfl, rfl⟩,
    fun h => h.congr hw⟩

/-- Files come before folders, the ignored folder is left out, and the letter case of an extension
does not count. -/
theorem documents_eq_sample :
    let w : Place := ⟨.folder [
      ("z.md".toList, .file (.text [])),
      (".gitignore".toList, .file (.text "d/\n".toList)),
      ("d".toList, .folder [("x.md".toList, .file (.text []))]),
      ("a".toList, .folder [("y.MD".toList, .file (.text []))])], [], []⟩
    let here := Path.ofText ".".toList
    w.tree.Sound ∧ IgnoreLines w [] ["d/\n".toList] ∧
      documents w here ".".toList [] [] = .ok [["z.md".toList], ["a".toList, "y.MD".toList]] ∧
      ∃ ls : List Location, documents w here ".".toList [] [] = .ok (ls.map ([] ++ ·)) ∧
        (∀ l, l ∈ ls ↔
          IsDocument w [] (IgnoreRule.ofLines ["d/\n".toList]) (effective []) l) ∧
        ls.Nodup ∧ ls.Pairwise Before := by
  intro w here
  have hsound : w.tree.Sound := by
    simp only [w, sound_folder_iff, sound_file, List.forall_mem_cons, List.not_mem_nil,
      false_imp_iff, implies_true, and_true]
    decide
  have hlines : IgnoreLines w [] ["d/\n".toList] :=
    .text "d/\n".toList (by cbv) (by cbv)
  have hroot : w.resolve here = .ok [] := by cbv
  exact ⟨hsound, hlines, by cbv, (documents_eq hsound rfl hroot rfl hlines).1⟩

/-- If no extensions are asked for, documents are found that have none of them. -/
theorem documents_of_no_extensions :
    let w : Place := ⟨.folder [("a.md".toList, .file (.text "x".toList))], [], []⟩
    let here := Path.ofText ".".toList
    w.tree.Sound ∧ w.expandHome here = .ok here ∧ w.resolve here = .ok [] ∧
      w.tree.kindAt? [] = some .folder ∧ IgnoreLines w [] [] ∧
      ¬∃ ls : List Location, documents w here ".".toList [] [] = .ok (ls.map ([] ++ ·)) ∧
        ∀ l, l ∈ ls ↔ IsDocument w [] (IgnoreRule.ofLines []) [] l := by
  intro w here
  have hsound : w.tree.Sound := by
    simp only [w, sound_folder_iff, sound_file, List.forall_mem_cons, List.not_mem_nil,
      false_imp_iff, implies_true, and_true]
    decide
  refine ⟨hsound, rfl, by cbv, rfl, .absent (by cbv), ?_⟩
  rintro ⟨ls, hls, hmem⟩
  have hfound : documents w here ".".toList [] [] = .ok [["a.md".toList]] := by
    cbv
  rw [hfound] at hls
  have hin : ["a.md".toList] ∈ ls := by
    have heq : [["a.md".toList]] = ls := by simpa using Except.ok.inj hls
    rw [← heq]
    exact List.mem_singleton_self _
  simpa using ((hmem _).1 hin).extension

end MarkTidy.Scan
