import MarkTidy.Proofs.Yaml.Line
import MarkTidy.Yaml.Tag

/-!
The tokens of a section: a key at the start of a line, and under it, indented by two, lines with a
key and a scalar each.
-/

namespace MarkTidy.Yaml

open Text

variable {c c' : Cursor} {k r t u v : Text} {x : Char} {n fuel : Nat} {s : Tokenizer}
  {b : Bool} {R : List Token} {i : Int} {is : List Int}

/-! ### Sections -/

/-- How a scalar is written on the line of its key. -/
inductive Style where
  | plain
  | quoted
deriving DecidableEq, Repr

def Style.write : Style → Text → Text
  | plain, t => t
  | quoted, t => '"' :: (Quoted.guarded t ++ ['"'])

/-- A line of a section. -/
structure Entry where
  key : Text
  style : Style
  text : Text
deriving DecidableEq, Repr

/-- Keys that are plain words of small letters. -/
structure IsKey (k : Text) : Prop where
  ne_nil : k ≠ []
  letters : ∀ x ∈ k, 'a' ≤ x ∧ x ≤ 'z'
  short : k.length ≤ 1024
  tag : Tag.ofPlain k = .str

structure Entry.IsSound (e : Entry) : Prop where
  key : IsKey e.key
  text : IsPlain e.text

namespace Entry

def line (e : Entry) : Text := ' ' :: ' ' :: (e.key ++ ':' :: ' ' :: (e.style.write e.text ++ ['\n']))

def tokens (e : Entry) : List Token :=
  [.key, .scalar e.key true, .value, .scalar e.text (e.style = .plain)]

end Entry

theorem length_flatMap_tokens (es : List Entry) :
    (es.flatMap Entry.tokens).length = 4 * es.length := by
  induction es with
  | nil => rfl
  | cons e es ih =>
    rw [List.flatMap_cons, List.length_append, ih, List.length_cons, Nat.mul_succ, Nat.add_comm]
    rfl

/-- The text of a section. -/
def sectionText (title : Text) (es : List Entry) : Text := title ++ ':' :: '\n' :: es.flatMap Entry.line

def sectionTokens (title : Text) (es : List Entry) : List Token :=
  .blockMappingStart :: .key :: .scalar title true :: .value :: .blockMappingStart ::
    (es.flatMap Entry.tokens ++ [.blockEnd, .blockEnd])

theorem ne_of_letter {y : Char} (hx : 'a' ≤ x ∧ x ≤ 'z') (hy : ¬('a' ≤ y ∧ y ≤ 'z')) : x ≠ y := by
  rintro rfl
  exact hy hx

theorem isInk_of_letter (hx : 'a' ≤ x ∧ x ≤ 'z') : IsInk x := by
  have hlow : 97 ≤ x.toNat := hx.1
  have hhigh : x.toNat ≤ 122 := hx.2
  refine ⟨?_, ?_, ?_⟩
  · simp only [isReadable, Bool.or_eq_true, Bool.and_eq_true, decide_eq_true_eq]
    omega
  · simp [isBreak, ne_of_letter hx (y := '\n') (by decide), ne_of_letter hx (y := '\r') (by decide)]
    omega
  · simp [isSpaceOrTab, ne_of_letter hx (y := ' ') (by decide), ne_of_letter hx (y := '\t') (by decide)]

theorem not_letter_of_mark (hx : x ∈ marks ++ looseMarks) : ¬('a' ≤ x ∧ x ≤ 'z') := by
  have hmarks : ((marks ++ looseMarks).all fun x => decide ¬('a' ≤ x ∧ x ≤ 'z')) = true := by decide
  exact of_decide_eq_true (List.all_eq_true.1 hmarks x hx)

theorem IsKey.exists_cons (hk : IsKey k) : ∃ x r, k = x :: r ∧ 'a' ≤ x ∧ x ≤ 'z' := by
  obtain ⟨x, r, rfl⟩ := List.exists_cons_of_ne_nil hk.ne_nil
  exact ⟨x, r, rfl, hk.letters x List.mem_cons_self⟩

namespace Tokenizer

/-! ### Between tokens -/

theorem skip_ink (hspace : x ≠ ' ') (hcomment : x ≠ '#') (hbreak : isBreak x = false)
    (hc : s.cursor.rest = List.replicate n ' ' ++ x :: r) :
    skipBlanksAndComments (fuel + 1) s = { s with cursor := s.cursor.advance n } := by
  have hspaces : s.cursor.skipSpaces = s.cursor.advance n := by
    rw [Cursor.skipSpaces, Cursor.skip, Cursor.span_eq (w := List.replicate n ' ') (by simp)
      (by simpa using hspace) hc, List.length_replicate]
  have hrest : (s.cursor.advance n).rest = x :: r := by
    rw [Cursor.rest_advance, hc, List.drop_left' List.length_replicate]
  have hsees : (s.cursor.advance n).sees 0 '#' = false :=
    Cursor.sees_eq_false (by rw [hrest]; simpa using hcomment)
  have hmeets : (s.cursor.advance n).meets isBreak = false :=
    Cursor.meets_eq_false (by rw [hrest]; simpa using hbreak)
  rw [skipBlanksAndComments, hspaces]
  simp [hsees, hmeets]

theorem skipSpaces_of_head (h : c.rest.head? ≠ some ' ') : c.skipSpaces = c := by
  have hspan : c.span (· == ' ') = ([], c) :=
    Cursor.span_eq (w := []) nofun (fun x hx => beq_false_of_ne fun hs => h (hs ▸ hx)) rfl
  rw [Cursor.skipSpaces, Cursor.skip, hspan]

theorem skip_nil (hc : s.cursor.rest = []) : skipBlanksAndComments (fuel + 1) s = s := by
  rw [skipBlanksAndComments, skipSpaces_of_head (by simp [hc])]
  simp [Cursor.sees, Cursor.meets, hc]

theorem skip_feed (hflow : s.flow = 0) (hc : s.cursor.rest = '\n' :: r) :
    skipBlanksAndComments (fuel + 1) s = skipBlanksAndComments fuel
      { s with cursor := ⟨r, s.cursor.index + 1, s.cursor.line + 1, 0⟩, keyAllowed := true } := by
  rw [skipBlanksAndComments, skipSpaces_of_head (by simp [hc])]
  simp [Cursor.sees, Cursor.meets, hc, isBreak, Cursor.lineBreak_feed hc, hflow]

/-- The lines `u` are to follow, with the break before them or without it. -/
def Awaits (c : Cursor) (keyAllowed : Bool) (u : Text) : Prop :=
  c.rest = '\n' :: u ∨ keyAllowed = true ∧ c.rest = u.drop 2 ∧ c.column = (u.take 2).length

theorem skip_of_awaits (hu : IsIndented u) (h : Awaits c b u) (R : List Token) (i : Int)
    (is : List Int) : ∃ c', skipBlanksAndComments (c.rest.length + 1) ⟨c, R, 0, i, is, b, []⟩ =
      ⟨c', R, 0, i, is, true, []⟩ ∧ c'.rest = u.drop 2 ∧ c'.column = (u.take 2).length := by
  obtain hrest | ⟨rfl, hrest, hcolumn⟩ := h
  · rw [hrest, List.length_cons, skip_feed rfl hrest]
    cases hu with
    | nil => exact ⟨_, skip_nil rfl, rfl, rfl⟩
    | line hx hcomment hbreak => exact ⟨_, skip_ink (n := 2) hx hcomment hbreak rfl, rfl, rfl⟩
  · refine ⟨c, ?_, hrest, hcolumn⟩
    cases hu with
    | nil => exact skip_nil hrest
    | line hx hcomment hbreak => exact skip_ink (n := 0) hx hcomment hbreak hrest

/-! ### Steps -/

theorem unwind_of_le {column : Int} (h : s.indent ≤ column) : s.unwind column = s := by
  rw [unwind]
  cases s.indents with
  | nil => rfl
  | cons outer rest =>
    rw [unwindTo, if_neg]
    simp [h]

theorem forgetStale_of_fresh (h : ∀ p ∈ s.places, s.isStale p = false) : s.forgetStale = .ok s := by
  have hany : (s.places.any fun p => s.isStale p && p.required) = false := by
    rw [List.any_eq_false]
    intro p hp
    simp [h p hp]
  have hfilter : s.places.filter (!s.isStale ·) = s.places :=
    List.filter_eq_self.2 fun p hp => by simp [h p hp]
  rw [forgetStale, hany, hfilter]
  rfl

theorem forgetPlace_of_nil (h : s.places = []) : s.forgetPlace = .ok s := by
  have hsame : { s with places := [] } = s := by rw [← h]
  rw [forgetPlace, h]
  exact congrArg Except.ok hsame

/-- A token is read past blanks and comments, at a place that closes no collection. -/
theorem step_of_skip {s' : Tokenizer}
    (hskip : skipBlanksAndComments (s.cursor.rest.length + 1) s = s')
    (hfresh : ∀ p ∈ s'.places, s'.isStale p = false) (hindent : s'.indent ≤ s'.cursor.column)
    (hc : s'.cursor.rest = x :: r) : s.step = s'.readToken x := by
  rw [step, hskip, forgetStale_of_fresh hfresh]
  simp only [bind, Except.bind, unwind_of_le hindent, hc]

theorem startsPlain_of_not_mem (hflow : s.flow = 0) (hx : IsInk x) (hmark : x ∉ marks)
    (hloose : x ∈ looseMarks → s.cursor.endsWord 1 = false) : s.startsPlain x = true := by
  have hmarks : "-?:,[]\x7b\x7d#&*!|>'\"%@\x60".toList = looseMarks ++ marks := rfl
  rw [startsPlain, hmarks, hx.notBreak, hx.notBlank, hflow]
  by_cases hmem : x ∈ looseMarks
  · have hcases : x = '-' ∨ x = '?' ∨ x = ':' := by simpa [looseMarks] using hmem
    rw [hloose hmem]
    obtain rfl | rfl | rfl := hcases <;> simp
  · simp [hmem, hmark]

/-- What begins as a plain scalar is read as one. -/
theorem readToken_plain (hflow : s.flow = 0) (hx : IsInk x) (hmark : x ∉ marks)
    (hloose : x ∈ looseMarks → s.cursor.endsWord 1 = false)
    (hstart : s.cursor.column = 0 → x ≠ '-' ∧ x ≠ '.') : s.readToken x = s.plainScalar := by
  have hplain := startsPlain_of_not_mem hflow hx hmark hloose
  have hword (hmem : x ∈ looseMarks) : ¬s.cursor.endsWord 1 = true := by simp [hloose hmem]
  have hdash : ¬(x = '-' ∧ s.cursor.endsWord 1 = true) := by
    rintro ⟨rfl, h⟩
    exact hword (by decide) h
  have hask : ¬(x = '?' ∧ s.cursor.endsWord 1 = true) := by
    rintro ⟨rfl, h⟩
    exact hword (by decide) h
  have hcolon : ¬(x = ':' ∧ s.cursor.endsWord 1 = true) := by
    rintro ⟨rfl, h⟩
    exact hword (by decide) h
  have hdashes : ¬(x = '-' ∧ s.cursor.column = 0) := fun h => (hstart h.2).1 h.1
  have hstops : ¬(x = '.' ∧ s.cursor.column = 0) := fun h => (hstart h.2).2 h.1
  simp only [marks, List.mem_cons, List.not_mem_nil, or_false, not_or] at hmark
  rw [readToken]
  simp [hflow, hmark, hplain, hdash, hask, hcolon, hdashes, hstops]

/-- A key is read, and its place is kept in mind. -/
theorem readToken_key (hk : IsKey (x :: r)) (hv : Plain.EndsWord v) (hc : c.rest = x :: r ++ ':' :: v) :
    readToken ⟨c, R, 0, i, is, true, []⟩ x =
      .ok ⟨c.advance (r.length + 1), .scalar (x :: r) true :: R, 0, i, is, false,
        [⟨0, R.length, i == c.column, c.index, c.line, c.column⟩]⟩ := by
  have hx := hk.letters x List.mem_cons_self
  have hink : ∀ y ∈ x :: r, IsInk y ∧ y ≠ ':' := fun y hy =>
    ⟨isInk_of_letter (hk.letters y hy), ne_of_letter (hk.letters y hy) (by decide)⟩
  have hcomment : x ≠ '#' := ne_of_letter hx (by decide)
  have hwords := Plain.words_key hink hk.ne_nil (by simpa using hcomment) hv hc (i + 1) c.rest.length
  have hmark : x ∉ marks ++ looseMarks := fun h => not_letter_of_mark h hx
  simp only [List.mem_append, not_or] at hmark
  rw [readToken_plain rfl (isInk_of_letter hx) hmark.1 (fun h => absurd h hmark.2)
    fun _ => ⟨ne_of_letter hx (by decide), ne_of_letter hx (by decide)⟩]
  simp only [plainScalar, markPlace, forgetPlace_of_nil, Bool.not_true, Bool.false_eq_true, if_false,
    bind, Except.bind, pure, Except.pure, Nat.lt_irrefl, decide_false, hwords]
  rfl

theorem endsWord_of_endsWord (hv : Plain.EndsWord v) (hc : c.rest = x :: v) : c.endsWord 1 = true := by
  rw [Cursor.endsWord, hc]
  cases v with
  | nil => rfl
  | cons y v => simpa using hv y rfl

/-- The mapping that a key opens, if it is indented by more than those that are open. -/
def opening (indent : Int) (column : Nat) : List Token :=
  if indent < column then [.blockMappingStart] else []

/-- After a key its colon is read, and the key goes before the text of the key. -/
theorem readToken_colon {t : Token} {p : KeyPlace} (hv : Plain.EndsWord v) (hc : c.rest = ':' :: v)
    (hlevel : p.level = 0) (hnumber : p.number = R.length) :
    readToken ⟨c, t :: R, 0, i, is, false, [p]⟩ ':' =
      .ok ⟨c.next, .value :: t :: .key :: (opening i p.column ++ R), 0,
        if i < p.column then p.column else i, if i < p.column then i :: is else is, false, []⟩ := by
  have hends := endsWord_of_endsWord hv hc
  have hread : readToken ⟨c, t :: R, 0, i, is, false, [p]⟩ ':' =
      valueMark ⟨c, t :: R, 0, i, is, false, [p]⟩ := by
    simp [readToken, hends]
  rw [hread, valueMark]
  have htwo : R.length + 1 + 1 - R.length = 2 := by omega
  by_cases hi : i < p.column
  · simp [hlevel, hnumber, insert, openBlock, opening, hi, htwo]
    rfl
  · simp [hlevel, hnumber, insert, openBlock, opening, hi]
    rfl

/-- A plain scalar is read, together with the break after it. -/
theorem readToken_text (ht : IsPlain t) (hu : IsIndented u) (hc : c.rest = t ++ '\n' :: u)
    (hcolumn : 3 ≤ c.column) (R : List Token) (is : List Int) :
    ∃ x r c', c.rest = x :: r ∧ IsInk x ∧ x ≠ '#' ∧
      readToken ⟨c, R, 0, 2, is, false, []⟩ x = .ok ⟨c', .scalar t true :: R, 0, 2, is, true, []⟩ ∧
      Awaits c' true u := by
  obtain ⟨x, r, rfl, hx, hcomment⟩ := ht.words.exists_cons
  have hlong : (x :: r).length < c.rest.length + 1 := by
    rw [hc, List.length_append]
    omega
  obtain ⟨c', hwords, hrest, hcol⟩ := Plain.words_eq ht.words hu hc hcolumn hlong
  have hloose : x ∈ looseMarks → c.endsWord 1 = false := fun hmem => by
    obtain ⟨y, hy, hink⟩ := ht.looseMark x rfl hmem
    have hone : c.rest[1]? = some y := by
      rw [hc, List.getElem?_append_left (List.getElem?_eq_some_iff.1 hy).1]
      exact hy
    simp [Cursor.endsWord, hone, hink.notBreak, hink.notBlank]
  refine ⟨x, r ++ '\n' :: u, c', hc, hx, hcomment, ?_, .inr ⟨rfl, hrest, hcol⟩⟩
  rw [readToken_plain rfl hx (ht.mark x rfl) hloose fun hzero => absurd hzero (by
    simp only
    omega)]
  have hindent : (2 : Int) + 1 = 3 := rfl
  simp only [plainScalar, markPlace, Bool.not_false, if_true, bind, Except.bind, pure, Except.pure,
    Nat.lt_irrefl, decide_false, hindent, hwords]
  rfl

/-- A quoted scalar is read up to the break after it. -/
theorem readToken_quoted (ht : IsWords t)
    (hc : c.rest = '"' :: (Quoted.guarded t ++ '"' :: '\n' :: u)) (R : List Token) (is : List Int) :
    ∃ c', readToken ⟨c, R, 0, 2, is, false, []⟩ '"' =
      .ok ⟨c', .scalar t false :: R, 0, 2, is, false, []⟩ ∧ Awaits c' false u := by
  have hnext : c.next.rest = Quoted.guarded t ++ '"' :: '\n' :: u := by
    rw [Cursor.rest_next, hc]
    rfl
  have hlong : t.length < c.rest.length + 1 := by
    have := Quoted.length_le_guarded t
    rw [hc, List.length_cons, List.length_append]
    omega
  obtain ⟨c', hwords, hrest⟩ := Quoted.words_guarded ht hnext hlong
  refine ⟨c', ?_, .inl hrest⟩
  have hread : readToken ⟨c, R, 0, 2, is, false, []⟩ '"' =
      leaf ⟨c, R, 0, 2, is, false, []⟩ (quotedScalar true) := by simp [readToken]
  rw [hread]
  simp only [leaf, quotedScalar, markPlace, Bool.not_false, if_true, bind, Except.bind, pure,
    Except.pure, hwords]
  rfl

/-! ### Runs -/

theorem run_succ {s' : Tokenizer} (hrest : s.cursor.rest ≠ []) (hstep : s.step = .ok s') (fuel : Nat) :
    run (fuel + 1) s = run fuel s' := by
  have hend : s.cursor.atEnd = false := by simpa [Cursor.atEnd] using hrest
  rw [run, hstep]
  simp [hend]

/-- A key and its colon are read in two steps. The column of the key is that of a mapping that is open,
or that it opens. -/
theorem run_key (hk : IsKey k) (hv : Plain.EndsWord v)
    (hskip : skipBlanksAndComments (c.rest.length + 1) ⟨c, R, 0, i, is, b, []⟩ =
      ⟨c', R, 0, i, is, true, []⟩)
    (hne : c.rest ≠ []) (hc : c'.rest = k ++ ':' :: v) (hindent : i ≤ c'.column) :
    ∃ c'', (∀ fuel, run (fuel + 2) ⟨c, R, 0, i, is, b, []⟩ =
      run fuel ⟨c'', .value :: .scalar k true :: .key :: (opening i c'.column ++ R), 0,
        if i < c'.column then c'.column else i, if i < c'.column then i :: is else is, false, []⟩) ∧
      c''.rest = v ∧ c''.column = c'.column + k.length + 1 := by
  obtain ⟨x, r, rfl, hx⟩ := hk.exists_cons
  have hplain : ∀ y ∈ x :: r, isBreak y = false ∧ y.toNat ≠ 0xFEFF := fun y hy => by
    have hy := hk.letters y hy
    have hhigh : y.toNat ≤ 122 := hy.2
    exact ⟨(isInk_of_letter hy).notBreak, by omega⟩
  have hshort : r.length + 1 ≤ 1024 := hk.short
  obtain ⟨c₁, hc₁, hadvance⟩ : ∃ c₁ : Cursor, c₁ =
      ⟨':' :: v, c'.index + (r.length + 1), c'.line, c'.column + (r.length + 1)⟩ ∧
        c'.advance (r.length + 1) = c₁ := ⟨_, rfl, Cursor.advance_letters hplain hc⟩
  have hrest : c₁.rest = ':' :: v := by rw [hc₁]
  have hcolumn : c₁.column = c'.column + (r.length + 1) := by rw [hc₁]
  let p : KeyPlace := ⟨0, R.length, i == c'.column, c'.index, c'.line, c'.column⟩
  have hfirst : step ⟨c, R, 0, i, is, b, []⟩ =
      .ok ⟨c₁, .scalar (x :: r) true :: R, 0, i, is, false, [p]⟩ := by
    rw [step_of_skip hskip (by simp) hindent hc, readToken_key hk hv hc, hadvance]
  have hfresh : isStale ⟨c₁, .scalar (x :: r) true :: R, 0, i, is, false, [p]⟩ p = false := by
    simp [isStale, p, hc₁]
    omega
  have hsecond : step ⟨c₁, .scalar (x :: r) true :: R, 0, i, is, false, [p]⟩ =
      .ok ⟨c₁.next, .value :: .scalar (x :: r) true :: .key :: (opening i c'.column ++ R), 0,
        if i < c'.column then c'.column else i, if i < c'.column then i :: is else is, false, []⟩ := by
    have hskip' : skipBlanksAndComments (c₁.rest.length + 1)
        ⟨c₁, .scalar (x :: r) true :: R, 0, i, is, false, [p]⟩ =
          ⟨c₁, .scalar (x :: r) true :: R, 0, i, is, false, [p]⟩ :=
      skip_ink (n := 0) (x := ':') (by decide) (by decide) rfl hrest
    have hindent' : i ≤ c₁.column := by omega
    rw [step_of_skip hskip' (fun q hq => by rwa [List.mem_singleton.1 hq]) hindent' hrest]
    exact readToken_colon hv hrest rfl rfl
  refine ⟨c₁.next, fun fuel => ?_, by rw [Cursor.rest_next, hrest]; rfl, ?_⟩
  · rw [run_succ hne hfirst, run_succ (by simp [hrest]) hsecond]
  · rw [hc₁, Cursor.next]
    rfl

/-- The scalar of a line is read in one step, written either way. -/
theorem run_text {t : Text} {style : Style} (ht : IsPlain t) (hu : IsIndented u)
    (hc : c.rest = ' ' :: (style.write t ++ '\n' :: u)) (hcolumn : 3 ≤ c.column) (R : List Token)
    (is : List Int) : ∃ c' b, (∀ fuel, run (fuel + 1) ⟨c, R, 0, 2, is, false, []⟩ =
      run fuel ⟨c', .scalar t (style = .plain) :: R, 0, 2, is, b, []⟩) ∧ Awaits c' b u := by
  have hnext : c.next.rest = style.write t ++ '\n' :: u := by rw [Cursor.rest_next, hc]; rfl
  have hcolumn' : 3 ≤ c.next.column := Nat.le_trans hcolumn (Cursor.column_le_next fun x hx => by
    rw [hc] at hx
    obtain rfl : ' ' = x := Option.some.inj hx
    rfl)
  have hindent : (2 : Int) ≤ c.next.column := by omega
  have hread {x : Char} {r : Text} {s' : Tokenizer} (hx : IsInk x) (hcomment : x ≠ '#')
      (hrest : c.next.rest = x :: r)
      (htoken : readToken ⟨c.next, R, 0, 2, is, false, []⟩ x = .ok s') (fuel : Nat) :
      run (fuel + 1) ⟨c, R, 0, 2, is, false, []⟩ = run fuel s' := by
    have hskip : skipBlanksAndComments (c.rest.length + 1) ⟨c, R, 0, 2, is, false, []⟩ =
        ⟨c.next, R, 0, 2, is, false, []⟩ :=
      skip_ink (n := 1) (x := x) (r := r) (by rintro rfl; cases hx.notBlank) hcomment hx.notBreak
        (by rw [hc, ← hnext, hrest]; rfl)
    exact run_succ (by simp [hc]) ((step_of_skip hskip (by simp) hindent hrest).trans htoken) fuel
  cases style with
  | plain =>
    obtain ⟨x, r, c', hrest, hx, hcomment, htoken, hawaits⟩ :=
      readToken_text ht hu hnext hcolumn' R is
    exact ⟨c', true, hread hx hcomment hrest htoken, hawaits⟩
  | quoted =>
    have hrest : c.next.rest = '"' :: (Quoted.guarded t ++ '"' :: '\n' :: u) := by
      rw [hnext]
      simp [Style.write]
    obtain ⟨c', htoken, hawaits⟩ := readToken_quoted ht.words hrest R is
    exact ⟨c', false, hread ⟨rfl, rfl, rfl⟩ (by decide) hrest htoken, hawaits⟩

theorem isIndented_line {e : Entry} (he : e.IsSound) (u : Text) : IsIndented (e.line ++ u) := by
  obtain ⟨x, r, hx, hletter⟩ := he.key.exists_cons
  rw [Entry.line, hx]
  exact .line (ne_of_letter hletter (by decide)) (ne_of_letter hletter (by decide))
    (isInk_of_letter hletter).notBreak

theorem isIndented_lines {es : List Entry} (hes : ∀ e ∈ es, e.IsSound) :
    IsIndented (es.flatMap Entry.line) := by
  cases es with
  | nil => exact .nil
  | cons e es => exact isIndented_line (hes e List.mem_cons_self) _

/-- A line is read in three steps. The first one of a section opens the mapping. -/
theorem run_entry {e : Entry} (he : e.IsSound) (hu : IsIndented u) (h : Awaits c b (e.line ++ u))
    (hi : i = 0 ∧ is = [-1] ∨ i = 2 ∧ is = [0, -1]) :
    ∃ c' b', (∀ fuel, run (fuel + 3) ⟨c, R, 0, i, is, b, []⟩ =
      run fuel ⟨c', e.tokens.reverse ++ (opening i 2 ++ R), 0, 2, [0, -1], b', []⟩) ∧
        Awaits c' b' u := by
  obtain ⟨c₁, hskip, hrest, hcolumn⟩ := skip_of_awaits (isIndented_line he u) h R i is
  have hkey : c₁.rest = e.key ++ ':' :: ' ' :: (e.style.write e.text ++ '\n' :: u) := by
    rw [hrest, Entry.line]
    simp
  have htwo : c₁.column = 2 := hcolumn
  have hne : c.rest ≠ [] := by
    obtain hfeed | ⟨-, hnow, -⟩ := h
    · simp [hfeed]
    · rw [hnow, ← hrest, hkey]
      simp
  have hv : Plain.EndsWord (' ' :: (e.style.write e.text ++ '\n' :: u)) :=
    Plain.endsWord_cons (.inr rfl) _
  obtain ⟨c₂, hrun, hrest₂, hcolumn₂⟩ :=
    run_key he.key hv hskip hne hkey (by obtain ⟨rfl, -⟩ | ⟨rfl, -⟩ := hi <;> omega)
  have hstate : (if i < c₁.column then (c₁.column : Int) else i) = 2 ∧
      (if i < c₁.column then i :: is else is) = [0, -1] := by
    rw [htwo]
    obtain ⟨rfl, rfl⟩ | ⟨rfl, rfl⟩ := hi <;> simp
  rw [hstate.1, hstate.2, htwo] at hrun
  obtain ⟨c₃, b', htext, hawaits⟩ := run_text he.text hu hrest₂ (by omega)
    (.value :: .scalar e.key true :: .key :: (opening i 2 ++ R)) [0, -1]
  exact ⟨c₃, b', fun fuel => (hrun (fuel + 1)).trans (htext fuel), hawaits⟩

/-- At the end both mappings are closed. -/
theorem run_end (h : Awaits c b []) (fuel : Nat) : run (fuel + 2) ⟨c, R, 0, 2, [0, -1], b, []⟩ =
    (R.reverse ++ [.blockEnd, .blockEnd], none) := by
  obtain ⟨c', hskip, hrest, hcolumn⟩ := skip_of_awaits .nil h R 2 [0, -1]
  have hzero : c'.column = 0 := hcolumn
  let s' : Tokenizer := ⟨c', .blockEnd :: .blockEnd :: R, 0, -1, [], true, []⟩
  have hstep : step ⟨c, R, 0, 2, [0, -1], b, []⟩ = .ok s' := by
    rw [step, hskip, forgetStale_of_fresh (by simp)]
    simp [bind, Except.bind, hrest, hzero, unwind, unwindTo, push, forgetPlace, s']
  have hstep' : s'.step = .ok s' := by
    rw [step, skip_nil hrest, forgetStale_of_fresh (by simp [s'])]
    simp [bind, Except.bind, hrest, unwind, unwindTo, forgetPlace, s']
  rw [run, hstep]
  dsimp only
  split
  · simp [s']
  · rw [run, hstep']
    have hend : s'.cursor.atEnd = true := by simp [Cursor.atEnd, s', hrest]
    simp [hend, s']

theorem run_entries {es : List Entry} (hes : ∀ e ∈ es, e.IsSound)
    (h : Awaits c b (es.flatMap Entry.line)) (fuel : Nat) :
    run (fuel + (3 * es.length + 2)) ⟨c, R, 0, 2, [0, -1], b, []⟩ =
      (R.reverse ++ (es.flatMap Entry.tokens ++ [.blockEnd, .blockEnd]), none) := by
  induction es generalizing c b R with
  | nil => exact run_end h fuel
  | cons e es ih =>
    obtain ⟨he, hes⟩ := List.forall_mem_cons.1 hes
    obtain ⟨c', b', hrun, hawaits⟩ :=
      run_entry (R := R) he (isIndented_lines hes) h (.inr ⟨rfl, rfl⟩)
    have hfuel : fuel + (3 * (e :: es).length + 2) = fuel + (3 * es.length + 2) + 3 := by
      rw [List.length_cons]
      omega
    rw [hfuel, hrun, ih hes hawaits]
    simp [opening]

end Tokenizer

/-! ### The characters of a section -/

section

variable {P : Char → Prop}

theorem IsWords.forall_mem (h : IsWords t) (hink : ∀ x, IsInk x → P x) (hspace : P ' ') :
    ∀ x ∈ t, P x := by
  induction h with
  | word hw => exact fun x hx => hink x (hw.ink x hx)
  | cons hw n _ ih =>
    simp only [List.mem_append, or_imp, forall_and]
    refine ⟨⟨fun x hx => hink x (hw.ink x hx), fun x hx => ?_⟩, ih⟩
    rw [List.eq_of_mem_replicate hx]
    exact hspace

theorem Style.forall_mem_write {style : Style} (h : IsWords t) (hink : ∀ x, IsInk x → P x)
    (hspace : P ' ') : ∀ x ∈ style.write t, P x := by
  have ht := h.forall_mem hink hspace
  have hquote : P '"' := hink _ ⟨rfl, rfl, rfl⟩
  have hguard : P '\\' := hink _ ⟨rfl, rfl, rfl⟩
  cases style with
  | plain => exact ht
  | quoted =>
    simp only [write, Quoted.guarded, List.forall_mem_cons, List.forall_mem_append, List.mem_flatMap]
    refine ⟨hquote, ?_, hquote, List.forall_mem_nil _⟩
    rintro x ⟨y, hy, hx⟩
    split at hx
    · obtain rfl | rfl : x = '\\' ∨ x = y := by simpa using hx
      · exact hguard
      · exact ht x hy
    · obtain rfl : x = y := by simpa using hx
      exact ht x hy

theorem IsKey.forall_mem (hk : IsKey k) (hink : ∀ x, IsInk x → P x) : ∀ x ∈ k, P x :=
  fun x hx => hink x (isInk_of_letter (hk.letters x hx))

/-- What holds of ink, a space and a line feed holds all over a section. -/
theorem forall_sectionText {title : Text} {es : List Entry} (htitle : IsKey title)
    (hes : ∀ e ∈ es, e.IsSound) (hink : ∀ x, IsInk x → P x) (hspace : P ' ') (hfeed : P '\n') :
    ∀ x ∈ sectionText title es, P x := by
  have hcolon : P ':' := hink _ ⟨rfl, rfl, rfl⟩
  have hline (e : Entry) (he : e.IsSound) : ∀ x ∈ e.line, P x := by
    simp only [Entry.line, List.forall_mem_cons, List.forall_mem_append]
    exact ⟨hspace, hspace, he.key.forall_mem hink, hcolon, hspace,
      Style.forall_mem_write he.text.words hink hspace, hfeed, List.forall_mem_nil _⟩
  simp only [sectionText, List.forall_mem_append, List.forall_mem_cons]
  refine ⟨htitle.forall_mem hink, hcolon, hfeed, fun x hx => ?_⟩
  obtain ⟨e, he, hx⟩ := List.mem_flatMap.1 hx
  exact hline e (hes e he) x hx

end

theorem IsInk.ne {y : Char} (hx : IsInk x) (hy : isBreak y = true) : x ≠ y := by
  rintro rfl
  rw [hx.notBreak] at hy
  cases hy

theorem readable_sectionText {title : Text} {es : List Entry} (htitle : IsKey title)
    (hes : ∀ e ∈ es, e.IsSound) : (sectionText title es).all isReadable = true :=
  List.all_eq_true.2 (forall_sectionText htitle hes (fun _ hx => hx.readable) rfl rfl)

theorem return_not_mem_sectionText {title : Text} {es : List Entry} (htitle : IsKey title)
    (hes : ∀ e ∈ es, e.IsSound) : '\r' ∉ sectionText title es := fun hmem =>
  forall_sectionText (P := (· ≠ '\r')) htitle hes (fun _ hx => hx.ne rfl) (by decide) (by decide) _
    hmem rfl

theorem IsWords.feed_not_mem (h : IsWords t) : '\n' ∉ t := fun hmem =>
  h.forall_mem (P := (· ≠ '\n')) (fun _ hx => hx.ne rfl) (by decide) _ hmem rfl

/-! ### The tokens of a section -/

theorem length_le_lines (es : List Entry) : 3 * es.length ≤ (es.flatMap Entry.line).length := by
  induction es with
  | nil => exact Nat.zero_le _
  | cons e es ih =>
    have hline : 3 ≤ e.line.length := by
      simp [Entry.line]
      omega
    rw [List.flatMap_cons, List.length_append, List.length_cons]
    omega

theorem tokens_sectionText {title : Text} {es : List Entry} (htitle : IsKey title)
    (hes : ∀ e ∈ es, e.IsSound) (hne : es ≠ []) :
    tokens (sectionText title es) = (sectionTokens title es, none) := by
  obtain ⟨x, r, hx, hletter⟩ := htitle.exists_cons
  have hmark : ({ rest := sectionText title es } : Cursor).meets (·.toNat == 0xFEFF) = false := by
    have hhigh : x.toNat ≤ 122 := hletter.2
    simp [Cursor.meets, sectionText, hx]
    omega
  rw [tokens, if_pos (readable_sectionText htitle hes)]
  simp only [hmark]
  obtain ⟨e, es, rfl⟩ := List.exists_cons_of_ne_nil hne
  obtain ⟨he, hes'⟩ := List.forall_mem_cons.1 hes
  have hv : Plain.EndsWord ('\n' :: (e :: es).flatMap Entry.line) :=
    Plain.endsWord_cons (.inl rfl) _
  have hskip : Tokenizer.skipBlanksAndComments ((sectionText title (e :: es)).length + 1)
      ⟨⟨sectionText title (e :: es), 0, 0, 0⟩, [], 0, -1, [], true, []⟩ =
        ⟨⟨sectionText title (e :: es), 0, 0, 0⟩, [], 0, -1, [], true, []⟩ :=
    Tokenizer.skip_ink (n := 0) (x := x) (r := r ++ ':' :: '\n' :: (e :: es).flatMap Entry.line)
      (ne_of_letter hletter (by decide)) (ne_of_letter hletter (by decide))
      (isInk_of_letter hletter).notBreak (by rw [sectionText, hx]; rfl)
  obtain ⟨c₁, hrun₁, hrest₁, -⟩ := Tokenizer.run_key htitle hv hskip (by simp [sectionText, hx]) rfl
    (by simp)
  obtain ⟨c₂, b', hrun₂, hawaits⟩ := Tokenizer.run_entry (b := false)
    (R := [.value, .scalar title true, .key, .blockMappingStart]) he
    (Tokenizer.isIndented_lines hes') (.inl hrest₁) (.inl ⟨rfl, rfl⟩)
  obtain ⟨fuel, hfuel⟩ : ∃ fuel, (sectionText title (e :: es)).length + 2 =
      fuel + (3 * es.length + 2) + 3 + 2 := by
    have hlines := length_le_lines (e :: es)
    have hlength : (sectionText title (e :: es)).length =
        r.length + ((e :: es).flatMap Entry.line).length + 3 := by
      simp [sectionText, hx]
      omega
    rw [List.length_cons] at hlines
    exact ⟨(sectionText title (e :: es)).length + 2 - (3 * es.length + 7), by omega⟩
  have hrun := (hrun₁ _).trans (hrun₂ (fuel + (3 * es.length + 2)))
  rw [hfuel, if_neg Bool.false_ne_true]
  refine hrun.trans ((Tokenizer.run_entries hes' hawaits fuel).trans ?_)
  simp [sectionTokens, Tokenizer.opening]

end MarkTidy.Yaml
