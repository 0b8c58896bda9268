import Mathlib.Data.Fintype.Basic
import MarkTidy.Proofs.Document.Pairing

/-!
Dollar math read back. The math spans of a text whose spans have no delimiters inside stand one
after another. They are read off the rewritten text again, unless an inline span is blank: it is
written as two dollar signs, which open a display span.
-/

namespace MarkTidy.Math

open Text

/-- A text as math spans of both kinds, each with the plain text in front of it. -/
inductive Formulas where
  | plain (t : Text)
  | span (before : Text) (k : Kind) (content : Text) (after : Formulas)
deriving DecidableEq, Repr

instance : Fintype Kind := ⟨{.display, .inline}, fun k => by cases k <;> decide⟩

instance : Fintype Side := ⟨{.opening, .closing}, fun s => by cases s <;> decide⟩

/-- No span of the text has a delimiter inside. -/
def Flat (t : Text) : Prop := ∀ k, ∀ c ∈ (spans k t).contents, ∀ j s, ¬Kind.delimiter j s <:+: c

instance (t : Text) : Decidable (Flat t) :=
  inferInstanceAs (Decidable (∀ k, ∀ c ∈ (spans k t).contents, ∀ j s, ¬Kind.delimiter j s <:+: c))

namespace Formulas

/-- The text with every span as it was read. -/
def source : Formulas → Text
  | .plain t => t
  | .span before k content f =>
    before ++ (k.delimiters.opening ++ content ++ k.delimiters.closing) ++ f.source

/-- The text with every span trimmed and in dollar signs. -/
def written : Formulas → Text
  | .plain t => t
  | .span before k content f => before ++ (k.dollars ++ trim content ++ k.dollars) ++ f.written

def trimmed : Formulas → Formulas
  | .plain t => .plain t
  | .span before k content f => .span before k (trim content) f.trimmed

/-- The spans of one kind. Those of the other kind stand in the plain text as they were read. -/
def only (k : Kind) : Formulas → Spans
  | .plain t => ⟨[], t⟩
  | .span before j content f =>
    if j = k then ⟨(before, content) :: (f.only k).parts, (f.only k).rest⟩
    else (f.only k).prepend (before ++ (j.delimiters.opening ++ content ++ j.delimiters.closing))

def size : Formulas → Nat
  | .plain _ => 0
  | .span _ _ _ f => f.size + 1

/-- The kind of the span that a dollar sign opens, and the text after its opening. -/
def opened : Text → Kind × Text
  | '$' :: t => (.display, t)
  | t => (.inline, t)

/-- The spans of a text in dollar math, at most `fuel` of them. -/
def readAtMost : Nat → Text → Formulas
  | 0, t => .plain t
  | fuel + 1, t =>
    match breakOn ['$'] t with
    | none => .plain t
    | some (before, inside) =>
      let (k, inside) := opened inside
      match breakOn k.dollars inside with
      | none => .plain t
      | some (content, after) => .span before k content (readAtMost fuel after)

/-- Reads dollar math from left to right: two dollar signs open a display span and one opens an
inline span, up to the next such sign. A text has fewer spans than characters. -/
def read (t : Text) : Formulas := readAtMost t.length t

variable {j k : Kind} {t before content : Text} {f g : Formulas}

/-! ### The spans of both kinds -/

theorem source_only (k : Kind) (f : Formulas) : (f.only k).source k.delimiters = f.source := by
  induction f with
  | plain t => rfl
  | span before j content f ih =>
    rw [only, source]
    split
    · next h =>
      subst h
      rw [Spans.source, Spans.render_cons]
      simp only [Spans.source] at ih
      exact congrArg _ ih
    · rw [Spans.source, Spans.render_prepend, ← Spans.source, ih]

@[simp] theorem only_span_self (before : Text) (k : Kind) (content : Text) (f : Formulas) :
    (span before k content f).only k =
      ⟨(before, content) :: (f.only k).parts, (f.only k).rest⟩ := if_pos rfl

theorem only_span_of_ne (hjk : j ≠ k) (before content : Text) (f : Formulas) :
    (span before j content f).only k = (f.only k).prepend
      (before ++ (j.delimiters.opening ++ content ++ j.delimiters.closing)) := if_neg hjk

/-- The spans of both kinds together are determined by those of each kind. -/
theorem eq_of_only_eq (h : ∀ k, f.only k = g.only k) : f = g := by
  induction f generalizing g with
  | plain t =>
    cases g with
    | plain u => exact congrArg plain (Spans.mk.inj (h .display)).2
    | span before k content g =>
      have hk := (Spans.mk.inj ((h k).trans (only_span_self before k content g))).1
      cases hk
  | span before k content f ih =>
    cases g with
    | plain u =>
      have hk := (Spans.mk.inj ((only_span_self before k content f).symm.trans (h k))).1
      cases hk
    | span before' j content' g =>
      by_cases hjk : j = k
      · subst hjk
        have hj := h j
        rw [only_span_self, only_span_self] at hj
        obtain ⟨hparts, hrest⟩ := Spans.mk.inj hj
        obtain ⟨hpair, htail⟩ := List.cons.inj hparts
        obtain ⟨rfl, rfl⟩ := Prod.mk.inj hpair
        refine congrArg _ (ih fun i => ?_)
        by_cases hji : j = i
        · subst hji
          exact congrArg₂ Spans.mk htail hrest
        · have hi := h i
          rw [only_span_of_ne hji, only_span_of_ne hji] at hi
          exact Spans.prepend_injective _ hi
      · -- Each of the two spans would start after the other.
        have hk := h k
        have hj := h j
        rw [only_span_self, only_span_of_ne hjk] at hk
        rw [only_span_self, only_span_of_ne (Ne.symm hjk)] at hj
        have hlt := Spans.length_le_of_prepend_eq hk.symm
        have hlt' := Spans.length_le_of_prepend_eq hj
        have hpos := List.length_pos_of_ne_nil j.opening_ne_nil
        simp only [List.length_append] at hlt hlt'
        omega

/-- No inline span is blank. -/
def Legible : Formulas → Prop
  | .plain _ => True
  | .span _ k content f => (k = .inline → trim content ≠ []) ∧ f.Legible

theorem legible_iff (f : Formulas) :
    f.Legible ↔ ∀ c ∈ (f.only .inline).contents, trim c ≠ [] := by
  induction f with
  | plain t => simp [Legible, only, Spans.contents]
  | span before k content f ih =>
    cases k with
    | display =>
      rw [only_span_of_ne (by simp), Spans.contents_prepend, ← ih]
      simp [Legible]
    | inline =>
      rw [only_span_self, Legible, ih]
      simp [Spans.contents]

theorem size_le_length_written (f : Formulas) : f.size ≤ f.written.length := by
  induction f with
  | plain t => exact Nat.zero_le _
  | span before k content f ih =>
    have hpos := List.length_pos_of_ne_nil k.dollars_ne_nil
    simp only [size, written, List.length_append]
    omega

/-! ### Reading -/

theorem breakOn_dollar (h : '$' ∉ before) (r : Text) :
    breakOn ['$'] (before ++ '$' :: r) = some (before, r) := by
  refine (breakOn_eq_some_iff (by simp)).2 ⟨by simp, fun hinf => h ?_⟩
  simpa using hinf.subset List.mem_cons_self

theorem breakOn_dollar_of_not_mem (h : '$' ∉ t) : breakOn ['$'] t = none :=
  breakOn_eq_none_iff.2 fun hinf => h (hinf.subset List.mem_cons_self)

theorem breakOn_dollars (k : Kind) (h : '$' ∉ content) (after : Text) :
    breakOn k.dollars (content ++ k.dollars ++ after) = some (content, after) := by
  refine (breakOn_eq_some_iff k.dollars_ne_nil).2 ⟨rfl, fun hinf => ?_⟩
  have hcount := hinf.sublist.count_le '$'
  rw [List.count_append, List.count_eq_zero.2 h] at hcount
  cases k <;> revert hcount <;> decide

theorem opened_dollars (k : Kind) (h : k = .inline → t.head? ≠ some '$') :
    ∃ r, k.dollars ++ t = '$' :: r ∧ opened r = (k, t) := by
  cases k with
  | display => exact ⟨'$' :: t, rfl, rfl⟩
  | inline =>
    refine ⟨t, rfl, ?_⟩
    unfold opened
    split
    · exact absurd rfl (h rfl)
    · rfl

theorem readAtMost_span (fuel : Nat) (hbefore : '$' ∉ before) (hcontent : '$' ∉ content)
    (h : k = .inline → content ≠ []) (after : Text) :
    readAtMost (fuel + 1) (before ++ (k.dollars ++ content ++ k.dollars) ++ after) =
      .span before k content (readAtMost fuel after) := by
  have hhead : k = .inline → (content ++ k.dollars ++ after).head? ≠ some '$' := by
    intro hk hhead
    obtain ⟨c, r, rfl⟩ := List.exists_cons_of_ne_nil (h hk)
    obtain rfl : c = '$' := by simpa using hhead
    exact hcontent List.mem_cons_self
  obtain ⟨r, hr, hopened⟩ := opened_dollars k hhead
  have htext : before ++ (k.dollars ++ content ++ k.dollars) ++ after = before ++ '$' :: r := by
    rw [← hr]
    simp
  rw [htext, readAtMost, breakOn_dollar hbefore]
  simp only [hopened, breakOn_dollars k hcontent]

/-- A blank inline span is not read back: its two dollar signs open a display span. -/
theorem readAtMost_blank_ne (fuel : Nat) (hbefore : '$' ∉ before) (after : Text) (f : Formulas) :
    readAtMost fuel (before ++ (Kind.inline.dollars ++ [] ++ Kind.inline.dollars) ++ after) ≠
      .span before .inline [] f := by
  have htext : before ++ (Kind.inline.dollars ++ [] ++ Kind.inline.dollars) ++ after =
      before ++ '$' :: '$' :: after := by
    simp [Kind.dollars]
  cases fuel with
  | zero => exact Formulas.noConfusion
  | succ fuel =>
    rw [htext, readAtMost, breakOn_dollar hbefore]
    simp only [opened]
    split <;> simp

theorem readAtMost_written_iff {fuel : Nat} (hdollar : '$' ∉ f.source) (hfuel : f.size ≤ fuel) :
    readAtMost fuel f.written = f.trimmed ↔ f.Legible := by
  induction f generalizing fuel with
  | plain t =>
    refine iff_of_true ?_ trivial
    cases fuel with
    | zero => rfl
    | succ fuel =>
      rw [source] at hdollar
      rw [written, readAtMost, breakOn_dollar_of_not_mem hdollar, trimmed]
  | span before k content f ih =>
    simp only [source, List.mem_append, not_or] at hdollar
    obtain ⟨⟨hbefore, ⟨-, hcontent⟩, -⟩, hrest⟩ := hdollar
    have htrim : '$' ∉ trim content := fun h => hcontent ((trim_isInfix content).subset h)
    obtain ⟨n, rfl⟩ : ∃ n, fuel = n + 1 := ⟨fuel - 1, by rw [size] at hfuel; omega⟩
    rw [written, trimmed, Legible]
    by_cases h : k = .inline → trim content ≠ []
    · rw [readAtMost_span n hbefore htrim h, and_iff_right h,
        ← ih hrest (Nat.le_of_succ_le_succ hfuel)]
      simp
    · refine iff_of_false ?_ fun hl => h hl.1
      obtain ⟨rfl, hnil⟩ : k = .inline ∧ trim content = [] := by simpa using h
      rw [hnil]
      exact readAtMost_blank_ne _ hbefore _ _

theorem read_written_iff (hdollar : '$' ∉ f.source) :
    read f.written = f.trimmed ↔ f.Legible :=
  readAtMost_written_iff hdollar f.size_le_length_written

end Formulas

/-! ### The spans of a flat text -/

variable {i j k : Kind} {t before inside content after : Text}

/-- Where the first opening delimiter of a kind stands. -/
def start (k : Kind) (t : Text) : Nat := (breakOn k.delimiters.opening t).elim 0 (·.1.length)

theorem exists_first (h : HasSpan j t) :
    ∃ k, HasSpan k t ∧ ∀ i, HasSpan i t → start k t ≤ start i t := by
  by_cases hboth : ∀ k, HasSpan k t
  · rcases Nat.le_total (start .display t) (start .inline t) with hle | hle
    · exact ⟨.display, hboth _, fun i _ => by cases i <;> [exact Nat.le_refl _; exact hle]⟩
    · exact ⟨.inline, hboth _, fun i _ => by cases i <;> [exact hle; exact Nat.le_refl _]⟩
  · obtain ⟨k, hk⟩ := not_forall.1 hboth
    refine ⟨j, h, fun i hi => ?_⟩
    obtain rfl : i = j := by cases i <;> cases j <;> cases k <;> first | rfl | contradiction
    exact Nat.le_refl _

theorem bracket_not_mem_delimiter (hki : k ≠ i) (r s : Side) : k.bracket r ∉ i.delimiter s := by
  rw [Kind.delimiter, List.mem_pair, not_or]
  exact ⟨k.bracket_ne_backslash r, fun h => hki (Kind.bracket_inj h).1⟩

theorem contents_of_span (ho : breakOn k.delimiters.opening t = some (before, inside))
    (hc : breakOn k.delimiters.closing inside = some (content, after)) :
    (spans k t).contents = content :: (spans k after).contents := by
  rw [spans, Spans.cut_of_span k.opening_ne_nil ho hc]
  rfl

/-- The other kind has no span in what comes up to the end of the first span. -/
theorem spans_of_first (hflat : Flat t) (hki : k ≠ i)
    (ho : breakOn k.delimiters.opening t = some (before, inside))
    (hc : breakOn k.delimiters.closing inside = some (content, after))
    (hfirst : HasSpan i t → start k t ≤ start i t) :
    spans i t = (spans i after).prepend
      (before ++ (k.delimiters.opening ++ content ++ k.delimiters.closing)) := by
  have ht := eq_append_of_span ho hc
  by_cases hi : HasSpan i t
  · have hbefore : ¬i.delimiter .opening <:+: before := by
      intro hinf
      obtain ⟨before', inside', -, -, ho', -⟩ := exists_span hi
      have hle : before.length ≤ before'.length := by simpa [start, ho, ho'] using hfirst hi
      have hpre := List.prefix_of_prefix_length_le (isPrefix_of_breakOn ho)
        (isPrefix_of_breakOn ho') hle
      rw [← i.opening_eq] at hinf
      exact ((breakOn_eq_some_iff i.opening_ne_nil).1 ho').2
        (hinf.trans (hpre.isInfix.trans (List.prefix_append _ _).isInfix))
    have hcontent : ¬i.delimiter .opening <:+: content :=
      hflat k content (contents_of_span ho hc ▸ List.mem_cons_self) i .opening
    have hplain : ¬i.delimiter .opening <:+:
        (before ++ ['\\']) ++ k.bracket .opening :: (content ++ ['\\']) := by
      rw [infix_append_cons (bracket_not_mem_delimiter hki _ _), delimiter_infix_append_backslash,
        delimiter_infix_append_backslash, not_or]
      exact ⟨hbefore, hcontent⟩
    rw [← i.opening_eq] at hplain
    have hbracket : k.bracket .closing ∉ i.delimiters.opening :=
      i.opening_eq ▸ bracket_not_mem_delimiter hki _ _
    have hcut := Spans.cut_append_cons (r := after) i.opening_ne_nil hbracket hplain
    rw [k.opening_eq, k.closing_eq] at ht ⊢
    simp only [ht, spans, Kind.delimiter, List.append_assoc, List.cons_append, List.nil_append]
      at hcut ⊢
    exact hcut
  · have hsuffix : after <:+ t :=
      ht ▸ (List.suffix_append _ _).trans (List.suffix_append _ _)
    have hafter : ¬HasSpan i after := fun h => hi (h.of_infix hsuffix.isInfix)
    rw [spans, spans, Spans.cut_of_not_inOrder i.opening_ne_nil hi,
      Spans.cut_of_not_inOrder i.opening_ne_nil hafter, ht]
    simp [Spans.prepend]

theorem flat_after (hflat : Flat t)
    (ho : breakOn k.delimiters.opening t = some (before, inside))
    (hc : breakOn k.delimiters.closing inside = some (content, after))
    (hother : ∀ i, k ≠ i → spans i t = (spans i after).prepend
      (before ++ (k.delimiters.opening ++ content ++ k.delimiters.closing))) : Flat after := by
  intro i c hi
  refine hflat i c ?_
  by_cases hki : k = i
  · subst hki
    exact contents_of_span ho hc ▸ List.mem_cons_of_mem _ hi
  · rwa [hother i hki, Spans.contents_prepend]

/-- The first span is rewritten, and what comes after it on its own. -/
theorem rewrite_of_first (hki : i ≠ k)
    (ho : breakOn k.delimiters.opening t = some (before, inside))
    (hc : breakOn k.delimiters.closing inside = some (content, after))
    (hother : spans i t = (spans i after).prepend
      (before ++ (k.delimiters.opening ++ content ++ k.delimiters.closing))) :
    rewrite t = before ++ (k.dollars ++ trim content ++ k.dollars) ++ rewrite after := by
  have hi : rewriteKind i t = before ++ k.delimiters.opening ++
      (content ++ k.delimiters.closing ++ rewriteKind i after) := by
    rw [rewriteKind, hother, Spans.render_prepend, ← rewriteKind]
    simp only [List.append_assoc]
  have ho' := breakOn_append k.opening_ne_nil ho
    (content ++ k.delimiters.closing ++ rewriteKind i after)
  have hc' := breakOn_append k.closing_ne_nil hc (rewriteKind i after)
  rw [rewrite_eq_of_ne hki.symm, rewrite_eq_of_ne hki.symm, hi, rewriteKind_of_span ho' hc']

open Formulas in
/-- A flat text is made of formulas, and rewriting it writes them. -/
theorem exists_formulas (hflat : Flat t) :
    ∃ f : Formulas, (∀ k, f.only k = spans k t) ∧ rewrite t = f.written := by
  generalize hn : t.length = n
  induction n using Nat.strongRecOn generalizing t with
  | ind n ih =>
    by_cases h : ∃ j, HasSpan j t
    · obtain ⟨j, hj⟩ := h
      obtain ⟨k, hk, hfirst⟩ := exists_first hj
      obtain ⟨before, inside, content, after, ho, hc⟩ := exists_span hk
      have hother := fun i hki => spans_of_first (i := i) hflat hki ho hc (hfirst i)
      have hlt := Spans.length_after_lt k.opening_ne_nil ho hc
      obtain ⟨f, hf, hwritten⟩ := ih _ (hn ▸ hlt) (flat_after hflat ho hc hother) rfl
      refine ⟨.span before k content f, fun i => ?_, ?_⟩
      · by_cases hki : k = i
        · subst hki
          rw [only_span_self, hf, spans, spans, Spans.cut_of_span k.opening_ne_nil ho hc]
        · rw [only_span_of_ne hki, hf, hother i hki]
      · obtain ⟨i, hki⟩ : ∃ i, k ≠ i := by
          cases k
          · exact ⟨.inline, by decide⟩
          · exact ⟨.display, by decide⟩
        rw [rewrite_of_first hki.symm ho hc (hother i hki), hwritten, written]
    · have hno : ∀ k, ¬HasSpan k t := fun k hk => h ⟨k, hk⟩
      refine ⟨.plain t, fun k => ?_, rewrite_of_not_hasSpan hno⟩
      exact (Spans.cut_of_not_inOrder k.opening_ne_nil (hno k)).symm

open Formulas in
/-- A flat text without dollar signs falls into math spans of both kinds in one way only. They are
read off the rewritten text again, trimmed and with the same text around them, exactly if none of
the inline spans is blank. -/
theorem read_rewrite_iff {t : Text} (hdollar : '$' ∉ t) (hflat : Flat t) :
    ∃ f : Formulas, (∀ g : Formulas, (∀ k, g.only k = spans k t) ↔ g = f) ∧
      (read (rewrite t) = f.trimmed ↔
        ∀ c ∈ (spans .inline t).contents, c.all isBlank = false) := by
  obtain ⟨f, hf, hwritten⟩ := exists_formulas hflat
  have hsource : f.source = t := by
    rw [← source_only .display, hf]
    exact Spans.render_cut _ t
  refine ⟨f, fun g => ⟨fun hg => eq_of_only_eq fun k => (hg k).trans (hf k).symm, ?_⟩, ?_⟩
  · rintro rfl
    exact hf
  · rw [hwritten, read_written_iff (hsource ▸ hdollar), legible_iff, hf]
    simp only [ne_eq, trim_eq_nil_iff, Bool.not_eq_true]

theorem read_rewrite_iff_sample :
    let t := "a \\(x\\)\\[ y \\] \\( z \\)".toList
    '$' ∉ t ∧ Flat t ∧
      ∃ f : Formulas, (∀ g : Formulas, (∀ k, g.only k = spans k t) ↔ g = f) ∧
        (Formulas.read (rewrite t) = f.trimmed ↔
          ∀ c ∈ (spans .inline t).contents, c.all isBlank = false) :=
  ⟨by decide, by decide, read_rewrite_iff (by decide) (by decide)⟩

/-- Blank inline math becomes two dollar signs, and two of them read as one display span. -/
theorem read_rewrite_blank_ne :
    let t := "\\(\\)x\\(\\)".toList
    '$' ∉ t ∧ Flat t ∧ rewrite t = "$$x$$".toList ∧
      ¬∃ f : Formulas, (∀ k, f.only k = spans k t) ∧ Formulas.read (rewrite t) = f.trimmed := by
  refine ⟨by decide, by decide, by decide, ?_⟩
  rintro ⟨f, hf, hread⟩
  have hspans : ∀ k, (Formulas.span [] .inline [] (.span ['x'] .inline [] (.plain []))).only k =
      spans k "\\(\\)x\\(\\)".toList := by
    decide
  obtain rfl := Formulas.eq_of_only_eq fun k => (hf k).trans (hspans k).symm
  revert hread
  decide

end MarkTidy.Math
