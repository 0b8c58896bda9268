import MarkTidy.Proofs.Config.Refusal
import MarkTidy.Proofs.Text.Lowercase
import MarkTidy.Proofs.Text.Returns
import MarkTidy.Proofs.Yaml.Table
import MarkTidy.Proofs.Yaml.Tag

/-!
Switches, quoted and not. A plain scalar may be no text but a number, a moment or nothing, which
switch nothing. Of the words that turn off only a lone zero is such a scalar.
-/

namespace MarkTidy.Config

open Text MarkTidy.Yaml MarkTidy.Tree

variable {t : Text} {v : Value} {e : Entry} {es : List Entry}

/-! ### Words -/

/-- The position of a switch that is on unless it is turned off. -/
def isOn (s : Setting) : Bool := s.switch?.getD true

/-- The setting in the value of a scalar. -/
def scalarSetting (v : Value) : Setting := Setting.ofValue ⟨#[], .null⟩ 0 v

theorem isOn_text_eq_false_iff :
    isOn (.text t) = false ↔ String.ofList (lower (trim t)) ∈ Setting.noWords := by
  have hapart : ∀ w ∈ Setting.noWords, w ∉ Setting.yesWords := by decide
  rw [isOn, Setting.switch?]
  split_ifs with hyes hno
  · have hyes := List.contains_iff_mem.1 hyes
    simpa using fun h => hapart _ h hyes
  · simpa using List.contains_iff_mem.1 hno
  · simpa using hno

theorem trim_cons {c : Char} {r : Text} (hc : isBlank c = false) :
    trim (c :: r) = c :: trimRight r := by
  rw [trim, trimLeft_cons_of_not_blank hc, trimRight_cons, if_neg (by simp [hc])]

/-- The characters that numbers begin with are not blank and have no lower case. -/
theorem lowerChar_of_isLead {c : Char} (hc : Tag.isLead c = true) :
    c.toNat ≠ 0x130 ∧ c.toNat ≠ 0x3A3 ∧ lowerChar c = c ∧ isBlank c = false := by
  have hrange : 43 ≤ c.toNat ∧ c.toNat ≤ 57 := by
    simp only [Tag.isLead, Tag.isDigit, Bool.or_eq_true, Bool.and_eq_true, decide_eq_true_eq,
      beq_iff_eq] at hc
    obtain ((⟨hlow, hhigh⟩ | rfl) | rfl) | rfl := hc
    · have hlow : 48 ≤ c.toNat := hlow
      exact ⟨by omega, hhigh⟩
    · decide
    · decide
    · decide
  refine ⟨by omega, by omega, ?_, ?_⟩
  · rw [lowerChar, if_pos (by omega), if_neg]
    rintro ⟨hlow, -⟩
    have hlow : 65 ≤ c.toNat := hlow
    omega
  · simp only [isBlank, Bool.or_eq_false_iff, Bool.and_eq_false_iff, decide_eq_false_iff_not,
      beq_eq_false_iff_ne]
    omega

/-- What begins as a number and turns off is a zero and blanks. -/
theorem exists_blanks_of_leads (ht : Tag.Leads t) (h : isOn (.text t) = false) :
    ∃ r, t = '0' :: r ∧ r.all isBlank = true := by
  obtain ⟨c, r, rfl, hc⟩ := ht
  have hlead := lowerChar_of_isLead hc
  rw [isOn_text_eq_false_iff, trim_cons hlead.2.2.2, lower, lowerAfter_cons, lowered, if_neg hlead.1,
    if_neg hlead.2.1, hlead.2.2.1, List.singleton_append] at h
  have hwords : ∀ w ∈ Setting.noWords, (w.toList.head?.map Tag.isLead).getD false = true →
      w.toList = ['0'] := by
    decide
  have hword := hwords _ h (by simpa using hc)
  rw [String.toList_ofList] at hword
  obtain ⟨rfl, hrest⟩ := List.cons.inj hword
  refine ⟨r, rfl, trimRight_eq_nil_iff.1 ?_⟩
  cases hr : trimRight r with
  | nil => rfl
  | cons d u =>
    rw [hr, lowerAfter_cons] at hrest
    exact absurd (List.append_eq_nil_iff.1 hrest).1 (lowered_ne_nil _ _ _)

/-- What looks like a number or a moment turns off only if it is a lone zero. -/
theorem isOn_text_of_number
    (h : Tag.looksFloat t = true ∨ Tag.looksInt t = true ∨ Tag.looksMoment t = true)
    (hoff : isOn (.text t) = false) : t = ['0'] := by
  have hleads : Tag.Leads t := by
    obtain h | h | h := h
    · exact Tag.leads_of_looksFloat h
    · exact Tag.leads_of_looksInt h
    · exact Tag.leads_of_looksMoment h
  obtain ⟨r, rfl, hr⟩ := exists_blanks_of_leads hleads hoff
  cases r with
  | nil => rfl
  | cons b r =>
    obtain ⟨hb, hr⟩ : isBlank b = true ∧ r.all isBlank = true := by simpa using hr
    have hcolon : ':' ∉ r := fun hmem => absurd (List.all_eq_true.1 hr _ hmem) (by decide)
    obtain h | h | h := h
    · rw [Tag.not_looksFloat_zero hb hcolon] at h
      cases h
    · rw [Tag.not_looksInt_zero hb] at h
      cases h
    · rw [Tag.not_looksMoment_zero hb] at h
      cases h

/-! ### Plain and quoted scalars -/

theorem flag_of_looksBool (h : Tag.looksBool t = true) : Literal.flag t = .ok (isOn (.text t)) := by
  have hwords : ∀ w ∈ Tag.flagWords, Literal.flag w.toList = .ok (isOn (.text w.toList)) := by
    decide
  simpa using hwords _ (List.contains_iff_mem.1 h)

theorem isOn_of_looksNull (h : Tag.looksNull t = true) : isOn (.text t) = true := by
  have hwords : ∀ w ∈ ["", "~", "null", "Null", "NULL"], isOn (.text w.toList) = true := by
    decide
  simpa using hwords _ (List.contains_iff_mem.1 h)

/-- Numbers, moments and nothing switch nothing. -/
theorem isOn_reading {tag : Tag} (htag : tag ∈ [Tag.float, Tag.int, Tag.moment, Tag.null])
    (hv : reading tag t = .ok v) : isOn (scalarSetting v) = true := by
  have hread {α : Type} {x : Except Fault α} {f : α → Value}
      (hf : ∀ a, isOn (scalarSetting (f a)) = true) (hx : x.map f = .ok v) :
      isOn (scalarSetting v) = true := by
    cases x with
    | error e => cases hx
    | ok a =>
      obtain rfl := Except.ok.inj hx
      exact hf a
  simp only [List.mem_cons, List.not_mem_nil, or_false] at htag
  obtain rfl | rfl | rfl | rfl := htag
  · exact hread (fun _ => rfl) hv
  · exact hread (fun _ => rfl) hv
  · exact hread (fun _ => rfl) hv
  · obtain rfl := Except.ok.inj hv
    rfl

/-- A plain scalar with a value switches as its text does, unless it is a lone zero. -/
theorem isOn_reading_iff (ht : '\n' ∉ t) (hv : reading (Tag.ofPlain t) t = .ok v) :
    isOn (scalarSetting v) = isOn (.text t) ↔ t ≠ ['0'] := by
  have hne (htag : Tag.ofPlain t ≠ .int) : t ≠ ['0'] := by
    have hzero : Tag.ofPlain ['0'] = .int := by decide
    rintro rfl
    exact htag hzero
  obtain ⟨htag, h⟩ | ⟨htag, h⟩ | hnumber | htag | htag := Tag.ofPlain_cases ht
  · rw [htag, reading, flag_of_looksBool h] at hv
    obtain rfl := Except.ok.inj hv
    exact ⟨fun _ => hne (by rw [htag]; decide), fun _ => rfl⟩
  · have hon : isOn (scalarSetting v) = true := isOn_reading (by rw [htag]; decide) hv
    rw [hon, isOn_of_looksNull h]
    exact ⟨fun _ => hne (by rw [htag]; decide), fun _ => rfl⟩
  · have hon : isOn (scalarSetting v) = true := by
      refine isOn_reading ?_ hv
      obtain ⟨htag, -⟩ | ⟨htag, -⟩ | ⟨htag, -⟩ := hnumber <;> rw [htag] <;> decide
    have hlooks := hnumber.imp And.right (Or.imp And.right And.right)
    rw [hon]
    cases htext : isOn (.text t) with
    | true =>
      refine ⟨?_, fun _ => rfl⟩
      rintro - rfl
      have hoff : isOn (.text ['0']) = false := by decide
      rw [hoff] at htext
      cases htext
    | false => simpa using isOn_text_of_number hlooks htext
  · rw [htag] at hv
    obtain rfl := Except.ok.inj hv
    exact ⟨fun _ => hne (by rw [htag]; decide), fun _ => rfl⟩
  · have hfail : ∀ tag ∈ [Tag.merge, .default, .foreign], reading tag t = .error .malformed := by
      simp [reading]
    rw [hfail _ htag] at hv
    cases hv

/-! ### The settings of a section -/

theorem ofValue_zero (d : Document) (v : Value) : Setting.ofValue d 0 v = scalarSetting v := by
  cases v <;> rfl

/-- The setting of a line; nothing if its scalar has no value. -/
def entrySetting (e : Entry) : Setting :=
  match e.value with
  | .ok v => scalarSetting v
  | .error _ => .nothing

theorem entrySetting_of_value (h : e.value = .ok v) : entrySetting e = scalarSetting v := by
  rw [entrySetting, h]

def entrySettings (es : List Entry) : Setting := .table (es.map fun e => (e.key, entrySetting e))

theorem exists_values_cons {vs : List Value} (h : (e :: es).mapM Entry.value = .ok vs) :
    ∃ v vs', vs = v :: vs' ∧ e.value = .ok v ∧ es.mapM Entry.value = .ok vs' := by
  rw [List.mapM_cons] at h
  cases hv : e.value with
  | error f =>
    rw [hv] at h
    cases h
  | ok v =>
    cases hvs : es.mapM Entry.value with
    | error f =>
      rw [hv, hvs] at h
      cases h
    | ok vs' =>
      rw [hv, hvs] at h
      exact ⟨v, vs', (Except.ok.inj h).symm, rfl, rfl⟩

theorem exists_values_iff :
    (∃ vs, es.mapM Entry.value = .ok vs) ↔ ∀ e ∈ es, ∃ v, e.value = .ok v := by
  induction es with
  | nil => exact ⟨fun _ => nofun, fun _ => ⟨[], rfl⟩⟩
  | cons e es ih =>
    rw [List.forall_mem_cons, ← ih]
    constructor
    · rintro ⟨vs, hvs⟩
      obtain ⟨v, vs', -, hv, hvs'⟩ := exists_values_cons hvs
      exact ⟨⟨v, hv⟩, vs', hvs'⟩
    · rintro ⟨⟨v, hv⟩, vs, hvs⟩
      exact ⟨v :: vs, by rw [List.mapM_cons, hv, hvs]; rfl⟩

/-- The table of lines whose nodes come after some others. -/
theorem ofValue_pairsFrom {d : Document} {vs : List Value} (before : List (Option Value))
    (hvs : es.mapM Entry.value = .ok vs) (hd : d.values = (before ++ valuesOf es vs).toArray) :
    Setting.ofValue d 1 (.table (pairsFrom before.length es.length)) = entrySettings es := by
  induction es generalizing before vs with
  | nil => rfl
  | cons e es ih =>
    obtain ⟨v, vs, rfl, hv, hvs⟩ := exists_values_cons hvs
    have hkey : d.get? before.length = some (.text e.key) := by simp [Document.get?, hd, valuesOf]
    have hvalue : d.get? (before.length + 1) = some v := by simp [Document.get?, hd, valuesOf]
    have hrest := ih (before ++ [some (.text e.key), some v]) hvs (by simpa [valuesOf] using hd)
    simp only [Setting.ofValue, entrySettings, Setting.table.injEq, List.length_append,
      List.length_cons, List.length_nil] at hrest
    simp only [List.length_cons, pairsFrom, Setting.ofValue, entrySettings, List.filterMap_cons, hkey,
      hvalue, List.map_cons, ofValue_zero, entrySetting_of_value hv]
    rw [← hrest]
    simp only [ofValue_zero]

theorem ofValue_section {vs : List Value} (title : Text) (hvs : es.mapM Entry.value = .ok vs) :
    Setting.ofValue ⟨(sectionValues title es vs).toArray, .table [(1, 2)]⟩ depth (.table [(1, 2)]) =
      .table [(title, entrySettings es)] := by
  have hlines := ofValue_pairsFrom (d := ⟨(sectionValues title es vs).toArray, .table [(1, 2)]⟩)
    [some (.table [(1, 2)]), some (.text title), some (.table (pairsFrom 3 es.length))] hvs rfl
  rw [← hlines]
  rfl

/-- The line whose scalar counts for a key. -/
def lastLine? (es : List Entry) (key : Text) : Option Entry :=
  es.reverse.find? fun e => key == e.key

theorem get_entrySettings (es : List Entry) (key : Text) :
    (entrySettings es).get key = ((lastLine? es key).map entrySetting).getD .nothing := by
  have hlookup (l : List Entry) : (l.map fun e => (e.key, entrySetting e)).lookup key =
      (l.find? fun e => key == e.key).map entrySetting := by
    induction l with
    | nil => rfl
    | cons e l ih =>
      rw [List.map_cons, List.lookup_cons, List.find?_cons]
      cases key == e.key with
      | true => rfl
      | false => exact ih
  rw [Setting.get, entrySettings, Setting.entries, ← List.map_reverse, hlookup]
  rfl

/-- Whether a section leaves a rule on. -/
def leavesOn (es : List Entry) (key : Text) : Bool :=
  (lastLine? es key).all fun e => isOn (entrySetting e)

theorem isOn_get_entrySettings (es : List Entry) (key : Text) :
    isOn ((entrySettings es).get key) = leavesOn es key := by
  rw [get_entrySettings, leavesOn]
  cases lastLine? es key <;> rfl

def rulesOf (es : List Entry) : Rules where
  math := leavesOn es "math".toList
  spacing := leavesOn es "spacing".toList

/-- A file with nothing but a section of rules sets those, and no more. -/
theorem ofDocument_section {root : Location} {vs : List Value} (hvs : es.mapM Entry.value = .ok vs) :
    ofDocument root ⟨(sectionValues "rules".toList es vs).toArray, .table [(1, 2)]⟩ =
      .ok { root, rules := rulesOf es } := by
  have hsetting := ofValue_section "rules".toList hvs
  have hlisted : ∀ key ∈ listed,
      (Setting.table [("rules".toList, entrySettings es)]).get key = .nothing :=
    fun key hkey => by
      simp only [listed, List.mem_cons, List.not_mem_nil, or_false] at hkey
      obtain rfl | rfl := hkey <;> rfl
  have hrules : (Setting.table [("rules".toList, entrySettings es)]).get "rules".toList =
      entrySettings es := rfl
  have hlong : ¬IsOverlong ⟨(sectionValues "rules".toList es vs).toArray, .table [(1, 2)]⟩ := by
    rintro ⟨key, hkey, hlong⟩
    rw [hsetting, hlisted key hkey] at hlong
    cases hlong
  rw [ofDocument_of_table rfl rfl, if_neg hlong, hsetting, ofSetting, hrules,
    hlisted _ (by decide), hlisted _ (by decide)]
  simp only [rulesOf, ← isOn_get_entrySettings]
  rfl

/-! ### Quotes -/

/-- The line with its scalar in quotes. -/
def quote (e : Entry) : Entry := { e with style := .quoted }

theorem value_quote (e : Entry) : (quote e).value = .ok (.text e.text) := rfl

theorem entrySetting_quote (e : Entry) : entrySetting (quote e) = .text e.text := rfl

theorem isSound_quote (he : e.IsSound) : (quote e).IsSound := ⟨he.key, he.text⟩

theorem lastLine?_quote (es : List Entry) (key : Text) :
    lastLine? (es.map quote) key = (lastLine? es key).map quote := by
  rw [lastLine?, ← List.map_reverse, List.find?_map]
  rfl

/-- A zero without quotes. -/
def IsPlainZero (e : Entry) : Prop := e.style = .plain ∧ e.text = ['0']

theorem isOn_entrySetting_iff (ht : IsPlain e.text) (hv : e.value = .ok v) :
    isOn (entrySetting e) = isOn (entrySetting (quote e)) ↔ ¬IsPlainZero e := by
  rw [entrySetting_of_value hv, entrySetting_quote]
  obtain ⟨key, style, t⟩ := e
  cases style with
  | plain =>
    have htag : (⟨key, .plain, t⟩ : Entry).value = reading (Tag.ofPlain t) t := rfl
    rw [isOn_reading_iff ht.words.feed_not_mem (htag.symm.trans hv)]
    simp [IsPlainZero]
  | quoted =>
    obtain rfl : .text t = v := Except.ok.inj hv
    exact ⟨fun _ => nofun, fun _ => rfl⟩

/-- The scalar that counts for a key is a zero without quotes. -/
def EndsInZero (es : List Entry) (key : Text) : Prop := ∃ e ∈ lastLine? es key, IsPlainZero e

theorem leavesOn_quote_iff (hes : ∀ e ∈ es, e.IsSound) (hvs : ∀ e ∈ es, ∃ v, e.value = .ok v)
    (key : Text) : leavesOn es key = leavesOn (es.map quote) key ↔ ¬EndsInZero es key := by
  rw [leavesOn, leavesOn, lastLine?_quote, EndsInZero]
  cases hlast : lastLine? es key with
  | none => simp
  | some e =>
    have he : e ∈ es := List.mem_reverse.1 (List.mem_of_find?_eq_some hlast)
    obtain ⟨v, hv⟩ := hvs e he
    simpa using isOn_entrySetting_iff (hes e he).text hv

/-! ### Sections of rules -/

theorem isKey_of_name {k : Text} (h : k ∈ ["rules".toList, "math".toList, "spacing".toList]) :
    IsKey k := by
  have hkeys : ∀ k ∈ ["rules".toList, "math".toList, "spacing".toList],
      k ≠ [] ∧ (k.all fun x => decide ('a' ≤ x ∧ x ≤ 'z')) = true ∧ k.length ≤ 1024 ∧
        Tag.ofPlain k = .str := by
    decide
  obtain ⟨hne, hletters, hshort, htag⟩ := hkeys k h
  exact ⟨hne, fun x hx => of_decide_eq_true (List.all_eq_true.1 hletters x hx), hshort, htag⟩

theorem isKey_rules : IsKey "rules".toList := isKey_of_name (by decide)

section

variable {w w' : Place} {p p' : Path} {file file' : Location} {c c' : Config} {root : Location}
  {name : Text}

theorem ofContent_section (hes : ∀ e ∈ es, e.IsSound) (hne : es ≠ []) :
    ((∃ c, ofContent root name (.text (sectionText "rules".toList es)) = .ok c) ↔
        ∀ e ∈ es, ∃ v, e.value = .ok v) ∧
      ∀ c, ofContent root name (.text (sectionText "rules".toList es)) = .ok c →
        c.rules = rulesOf es := by
  have hblank : ¬(sectionText "rules".toList es).all isBlank = true := by
    rw [sectionText, List.all_append]
    exact Bool.false_ne_true
  have hdocument := document_sectionText isKey_rules hes hne
  rw [ofContent, unifyBreaks_of_not_mem (return_not_mem_sectionText isKey_rules hes),
    ← exists_values_iff]
  cases hvs : es.mapM Entry.value with
  | ok vs =>
    rw [hvs] at hdocument
    rw [ofText_of_document hblank hdocument, ofDocument_section hvs]
    refine ⟨⟨fun _ => ⟨vs, rfl⟩, fun _ => ⟨_, rfl⟩⟩, ?_⟩
    rintro c ⟨⟩
    rfl
  | error fault =>
    rw [hvs] at hdocument
    have herror : ∃ f, ofText root name (sectionText "rules".toList es) = .error f := by
      by_cases hfault : fault = .malformed
      · subst hfault
        exact ⟨_, ofText_of_malformed hblank hdocument⟩
      · exact ⟨_, ofText_of_fault hblank hdocument hfault⟩
    obtain ⟨f, hf⟩ := herror
    rw [hf]
    simp

theorem load_section (hsound : w.tree.Sound)
    (h : FileHolds w p file (.text (sectionText "rules".toList es))) (hes : ∀ e ∈ es, e.IsSound)
    (hne : es ≠ []) :
    ((∃ c, load w p = .ok c) ↔ ∀ e ∈ es, ∃ v, e.value = .ok v) ∧
      ∀ c, load w p = .ok c → c.rules = rulesOf es := by
  rw [h.load_eq hsound]
  exact ofContent_section hes hne

end

end MarkTidy.Config
