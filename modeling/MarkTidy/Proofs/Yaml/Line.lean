import MarkTidy.Yaml.Token

/-!
Scalars on one line. The words of a plain scalar stand with spaces between them, in double quotes a
quote and a backslash stand after a backslash. Either way the text is read back as it is.
-/

namespace MarkTidy.Yaml

open Text

variable {c : Cursor} {r t u w : Text} {x : Char} {n : Nat}

/-! ### Texts -/

/-- Characters of the words of a line. -/
structure IsInk (x : Char) : Prop where
  readable : isReadable x = true
  notBreak : isBreak x = false
  notBlank : isSpaceOrTab x = false

instance (x : Char) : Decidable (IsInk x) :=
  decidable_of_iff (isReadable x = true ∧ isBreak x = false ∧ isSpaceOrTab x = false)
    ⟨fun ⟨hreadable, hbreak, hblank⟩ => ⟨hreadable, hbreak, hblank⟩,
      fun hx => ⟨hx.readable, hx.notBreak, hx.notBlank⟩⟩

/-- A word of a plain scalar, after the first one. -/
structure IsWord (w : Text) : Prop where
  ne_nil : w ≠ []
  ink : ∀ x ∈ w, IsInk x
  comment : w.head? ≠ some '#'
  colon : w.getLast? ≠ some ':'

instance (w : Text) : Decidable (IsWord w) :=
  decidable_of_iff (w ≠ [] ∧ (w.all fun x => decide (IsInk x)) = true ∧ w.head? ≠ some '#' ∧
      w.getLast? ≠ some ':')
    ⟨fun ⟨hne, hink, hcomment, hcolon⟩ => ⟨hne, by simpa using hink, hcomment, hcolon⟩,
      fun hw => ⟨hw.ne_nil, by simpa using hw.ink, hw.comment, hw.colon⟩⟩

/-- Words with spaces between them. -/
inductive IsWords : Text → Prop
  | word {w : Text} (hw : IsWord w) : IsWords w
  | cons {w t : Text} (hw : IsWord w) (n : Nat) (ht : IsWords t) :
      IsWords (w ++ List.replicate (n + 1) ' ' ++ t)

theorem IsWord.exists_cons (h : IsWord w) : ∃ x r, w = x :: r ∧ IsInk x ∧ x ≠ '#' := by
  obtain ⟨x, r, rfl⟩ := List.exists_cons_of_ne_nil h.ne_nil
  exact ⟨x, r, rfl, h.ink x List.mem_cons_self, fun hx => h.comment (by rw [hx]; rfl)⟩

theorem IsWords.exists_cons (h : IsWords t) : ∃ x r, t = x :: r ∧ IsInk x ∧ x ≠ '#' := by
  cases h with
  | word hw => exact hw.exists_cons
  | cons hw n ht =>
    obtain ⟨x, r, rfl, hx⟩ := hw.exists_cons
    exact ⟨x, _, rfl, hx⟩

/-- Marks that no plain scalar begins with, and those that it begins with only in a longer word. -/
def marks : Text :=
  [',', '[', ']', '\x7b', '\x7d', '#', '&', '*', '!', '|', '>', '\'', '"', '%', '@', '\x60']

def looseMarks : Text := ['-', '?', ':']

/-- A text that can be written as it is on the line of its key. -/
structure IsPlain (t : Text) : Prop where
  words : IsWords t
  mark : ∀ x ∈ t.head?, x ∉ marks
  looseMark : ∀ x ∈ t.head?, x ∈ looseMarks → ∃ y ∈ t[1]?, IsInk y

theorem isPlain_cons (hwords : IsWords (x :: r)) (hmark : x ∉ marks ++ looseMarks) :
    IsPlain (x :: r) := by
  simp only [List.mem_append, not_or] at hmark
  refine ⟨hwords, ?_, ?_⟩
  · rintro y ⟨⟩
    exact hmark.1
  · rintro y ⟨⟩ hloose
    exact absurd hloose hmark.2

/-- What may follow a line of a mapping indented by two: nothing, or another line. -/
inductive IsIndented : Text → Prop
  | nil : IsIndented []
  | line {x : Char} {r : Text} (hx : x ≠ ' ') (hcomment : x ≠ '#') (hbreak : isBreak x = false) :
      IsIndented (' ' :: ' ' :: x :: r)

/-! ### Places -/

namespace Cursor

@[simp] theorem rest_next (c : Cursor) : c.next.rest = c.rest.drop 1 := by
  rw [next]
  split
  · next h => rw [h, List.drop_nil]
  · next h =>
    rw [h]
    split <;> rfl

@[simp] theorem rest_advance (n : Nat) (c : Cursor) : (c.advance n).rest = c.rest.drop n := by
  induction n generalizing c with
  | zero => rfl
  | succ n ih => rw [advance, ih, rest_next, List.drop_drop, Nat.add_comm]

/-- To go along a line never leads back. -/
theorem column_le_next (h : ∀ x ∈ c.rest.head?, isBreak x = false) : c.column ≤ c.next.column := by
  rw [next]
  split
  · exact Nat.le_refl _
  · next x r hr =>
    have hx : isBreak x = false := h x (by rw [hr]; rfl)
    rw [hx, Bool.false_and, if_neg Bool.false_ne_true]
    dsimp only
    split
    · exact Nat.le_refl _
    · exact Nat.le_succ _

theorem column_le_advance (hw : ∀ x ∈ w, isBreak x = false) (hc : c.rest = w ++ r) :
    c.column ≤ (c.advance w.length).column := by
  induction w generalizing c with
  | nil => exact Nat.le_refl _
  | cons x w ih =>
    obtain ⟨hx, hw⟩ := List.forall_mem_cons.1 hw
    have hnext : c.column ≤ c.next.column := column_le_next fun y hy => by
      rw [hc] at hy
      obtain rfl : x = y := Option.some.inj hy
      exact hx
    exact Nat.le_trans hnext (ih hw (by rw [rest_next, hc]; rfl))

/-- Along characters that take a column each. -/
theorem advance_letters (hw : ∀ x ∈ w, isBreak x = false ∧ x.toNat ≠ 0xFEFF) (hc : c.rest = w ++ r) :
    c.advance w.length = ⟨r, c.index + w.length, c.line, c.column + w.length⟩ := by
  induction w generalizing c with
  | nil =>
    obtain ⟨rest, index, line, column⟩ := c
    obtain rfl : rest = r := hc
    rfl
  | cons x w ih =>
    obtain ⟨⟨hx, hmark⟩, hw⟩ := List.forall_mem_cons.1 hw
    have hnext : c.next = ⟨w ++ r, c.index + 1, c.line, c.column + 1⟩ := by
      rw [next, hc]
      simp [hx, hmark]
    rw [List.length_cons, advance, hnext, ih hw rfl]
    simp [Nat.add_comm, Nat.add_left_comm]

/-- A run of characters with `p`, and then one without it or the end. -/
theorem span_eq {p : Char → Bool} (hw : ∀ x ∈ w, p x = true) (hr : ∀ x ∈ r.head?, p x = false)
    (hc : c.rest = w ++ r) : c.span p = (w, c.advance w.length) := by
  have htake : c.rest.takeWhile p = w := by
    rw [hc, List.takeWhile_append_of_pos hw]
    cases r with
    | nil => rw [List.takeWhile_nil, List.append_nil]
    | cons x r =>
      have hx : p x = false := hr x rfl
      rw [List.takeWhile_cons, hx, if_neg Bool.false_ne_true, List.append_nil]
  rw [span, htake]

theorem meets_eq_false {p : Char → Bool} (h : ∀ x ∈ c.rest.head?, p x = false) :
    c.meets p = false := by
  rw [meets]
  cases hx : c.rest.head? with
  | none => rfl
  | some x => exact h x hx

theorem sees_eq_false (h : c.rest.head? ≠ some x) : c.sees 0 x = false := by
  rw [sees, ← List.head?_eq_getElem?]
  exact beq_false_of_ne h

/-- A line feed leads to the start of the next line. -/
theorem lineBreak_feed (hc : c.rest = '\n' :: r) :
    c.lineBreak = (['\n'], ⟨r, c.index + 1, c.line + 1, 0⟩) := by
  rw [lineBreak, hc]
  simp only [next, hc]
  rfl

end Cursor

/-! ### Plain scalars -/

namespace Plain

/-- Where a word ends: before a blank or a break, or at the end of the text. -/
def EndsWord (r : Text) : Prop := ∀ x ∈ r.head?, isBreak x = true ∨ isSpaceOrTab x = true

theorem endsWord_cons (hx : isBreak x = true ∨ isSpaceOrTab x = true) (r : Text) :
    EndsWord (x :: r) := fun y hy => by
  obtain rfl : x = y := Option.some.inj hy
  exact hx

theorem wordLength_of_endsWord (h : EndsWord r) : wordLength false r = 0 := by
  cases r with
  | nil => rfl
  | cons x r => obtain hx | hx := h x rfl <;> simp [wordLength.eq_def, hx]

/-- A colon is of a word unless the word would end with it. -/
theorem wordLength_cons (hbreak : isBreak x = false) (hblank : isSpaceOrTab x = false)
    (hcolon : x = ':' → ¬EndsWord r) : wordLength false (x :: r) = wordLength false r + 1 := by
  rw [wordLength.eq_def]
  cases r with
  | nil =>
    have hne : x ≠ ':' := fun h => hcolon h nofun
    simp [hbreak, hblank, hne]
  | cons y r =>
    have hne : x = ':' → isBreak y = false ∧ isSpaceOrTab y = false := fun h => by
      simpa [EndsWord] using hcolon h
    simpa [hbreak, hblank] using hne

theorem wordLength_append (hink : ∀ x ∈ w, IsInk x) (hcolon : w.getLast? ≠ some ':')
    (hr : EndsWord r) : wordLength false (w ++ r) = w.length := by
  induction w with
  | nil => exact wordLength_of_endsWord hr
  | cons x w ih =>
    obtain ⟨hx, hw⟩ := List.forall_mem_cons.1 hink
    cases w with
    | nil =>
      have hne : x ≠ ':' := fun h => hcolon (by rw [h]; rfl)
      rw [List.singleton_append, wordLength_cons hx.notBreak hx.notBlank fun h => absurd h hne,
        wordLength_of_endsWord hr]
      rfl
    | cons y w =>
      have hy : IsInk y := hw y List.mem_cons_self
      have hends : ¬EndsWord (y :: w ++ r) := fun h => by
        have := h y rfl
        simp [hy.notBreak, hy.notBlank] at this
      rw [List.cons_append, wordLength_cons hx.notBreak hx.notBlank fun _ => hends,
        ih hw (by simpa using hcolon)]
      rfl

theorem wordLength_word (hw : IsWord w) (hr : EndsWord r) (hc : c.rest = w ++ r) :
    wordLength false c.rest = w.length := by
  rw [hc, wordLength_append hw.ink hw.colon hr]

theorem gap_spaces (hx : x ≠ ' ') (hbreak : isBreak x = false)
    (hc : c.rest = List.replicate n ' ' ++ x :: r) :
    gap c = (List.replicate n ' ', false, c.advance n) := by
  have hspan : c.span (· == ' ') = (List.replicate n ' ', c.advance (List.replicate n ' ').length) :=
    Cursor.span_eq (by simp) (by simpa using hx) hc
  have hmeets : (c.advance n).meets isBreak = false :=
    Cursor.meets_eq_false (by simpa [Cursor.rest_advance, hc] using hbreak)
  rw [gap, hspan, List.length_replicate]
  simp [hmeets]

theorem moreBreaks_space (n index line column : Nat) (r : Text) :
    moreBreaks (n + 1) ⟨' ' :: r, index, line, column⟩ =
      moreBreaks n ⟨r, index + 1, line, column + 1⟩ := rfl

theorem moreBreaks_ink (hx : x ≠ ' ') (hbreak : isBreak x = false) (n index line column : Nat)
    (r : Text) : moreBreaks (n + 1) ⟨x :: r, index, line, column⟩ = (some [], ⟨x :: r, index, line, column⟩) := by
  simp [moreBreaks, Cursor.sees, Cursor.meets, hx, hbreak]

/-- Past a line feed a scalar ends at an indentation of two. -/
theorem gap_feed (hu : IsIndented u) (hc : c.rest = '\n' :: u) :
    ∃ c', gap c = ([' '], true, c') ∧ c'.rest = u.drop 2 ∧ c'.column = (u.take 2).length := by
  have hspan : c.span (· == ' ') = ([], c) := Cursor.span_eq (w := []) (by simp) (by simp) hc
  have hmeets : c.meets isBreak = true := by
    rw [Cursor.meets, hc]
    rfl
  rw [gap, hspan]
  simp only [hmeets, Cursor.lineBreak_feed hc, if_true]
  cases hu with
  | nil => exact ⟨⟨[], c.index + 1, c.line + 1, 0⟩, rfl, rfl, rfl⟩
  | @line x r hx _ hbreak =>
    have hmore : moreBreaks (r.length + 4) ⟨' ' :: ' ' :: x :: r, c.index + 1, c.line + 1, 0⟩ =
        (some [], ⟨x :: r, c.index + 3, c.line + 1, 2⟩) := by
      rw [moreBreaks_space, moreBreaks_space, moreBreaks_ink hx hbreak]
    refine ⟨⟨x :: r, c.index + 3, c.line + 1, 2⟩, ?_, rfl, rfl⟩
    rw [if_neg (by simp [Cursor.atDocumentMark])]
    simp only [List.length_cons, hmore]
    rfl

/-- A word is taken up to its end, and what follows it decides how to go on. -/
theorem words_succ (hlength : wordLength false c.rest = w.length) (hc : c.rest = w ++ r) (hne : w ≠ [])
    (hcomment : w.head? ≠ some '#') (indent : Int) (fuel : Nat) :
    words false indent (fuel + 1) c =
      let (between, broken, c') := gap (c.advance w.length)
      if between.isEmpty || c'.sees 0 '#' || decide ((c'.column : Int) < indent) then (w, broken, c')
      else
        let (more, brokenLater, after) := words false indent fuel c'
        if more.isEmpty then (w, broken, after) else (w ++ between ++ more, brokenLater, after) := by
  have hsees : c.sees 0 '#' = false := Cursor.sees_eq_false (by
    obtain ⟨x, u, rfl⟩ := List.exists_cons_of_ne_nil hne
    rw [hc]
    exact hcomment)
  have hpos : (w.length == 0) = false := by simpa using hne
  rw [words, hlength, hsees, hpos, hc, List.take_left]
  rfl

/-- Past a word and spaces reading goes on with what follows on the line. -/
theorem words_spaces (hw : IsWord w) (hx : IsInk x) (hcomment : x ≠ '#')
    (hc : c.rest = w ++ (List.replicate (n + 1) ' ' ++ x :: r)) (hcolumn : 3 ≤ c.column) :
    ∃ c', c'.rest = x :: r ∧ 3 ≤ c'.column ∧ ∀ fuel, (words false 3 fuel c').1 ≠ [] →
      words false 3 (fuel + 1) c = (w ++ List.replicate (n + 1) ' ' ++ (words false 3 fuel c').1,
        (words false 3 fuel c').2) := by
  have hspace : x ≠ ' ' := by
    rintro rfl
    cases hx.notBlank
  have hafter : (c.advance w.length).rest = List.replicate (n + 1) ' ' ++ x :: r := by
    rw [Cursor.rest_advance, hc, List.drop_left]
  have hrest : ((c.advance w.length).advance (n + 1)).rest = x :: r := by
    rw [Cursor.rest_advance, hafter, List.drop_left' List.length_replicate]
  have hcol : 3 ≤ ((c.advance w.length).advance (n + 1)).column := by
    have hword := Cursor.column_le_advance (fun y hy => (hw.ink y hy).notBreak) hc
    have hspaces := Cursor.column_le_advance (w := List.replicate (n + 1) ' ')
      (fun y hy => by rw [List.eq_of_mem_replicate hy]; rfl) hafter
    rw [List.length_replicate] at hspaces
    omega
  have hends : EndsWord (List.replicate (n + 1) ' ' ++ x :: r) := endsWord_cons (.inr rfl) _
  have hsees : ((c.advance w.length).advance (n + 1)).sees 0 '#' = false :=
    Cursor.sees_eq_false (by rw [hrest]; simpa using hcomment)
  have hlow : ¬(((c.advance w.length).advance (n + 1)).column : Int) < 3 := by omega
  refine ⟨_, hrest, hcol, fun fuel hmore => ?_⟩
  rw [words_succ (wordLength_word hw hends hc) hc hw.ne_nil hw.comment,
    gap_spaces hspace hx.notBreak hafter]
  simp [hsees, hlow, hmore]

/-- The words of a line are read back, together with the break after them. -/
theorem words_eq (ht : IsWords t) (hu : IsIndented u) (hc : c.rest = t ++ '\n' :: u)
    (hcolumn : 3 ≤ c.column) {fuel : Nat} (hfuel : t.length < fuel) :
    ∃ c', words false 3 fuel c = (t, true, c') ∧ c'.rest = u.drop 2 ∧
      c'.column = (u.take 2).length := by
  induction ht generalizing c fuel with
  | @word w hw =>
    obtain ⟨fuel, rfl⟩ : ∃ k, fuel = k + 1 := ⟨fuel - 1, by omega⟩
    obtain ⟨c', hgap, hrest, hcol⟩ := gap_feed hu (c := c.advance w.length) (by simp [hc])
    have hends : EndsWord ('\n' :: u) := endsWord_cons (.inl rfl) u
    have hlow : (c'.column : Int) < 3 := by
      rw [hcol, List.length_take]
      omega
    refine ⟨c', ?_, hrest, hcol⟩
    rw [words_succ (wordLength_word hw hends hc) hc hw.ne_nil hw.comment, hgap]
    simp [hlow]
  | @cons w t hw n ht ih =>
    obtain ⟨fuel, rfl⟩ : ∃ k, fuel = k + 1 := ⟨fuel - 1, by omega⟩
    obtain ⟨x, r, rfl, hx, hcomment⟩ := ht.exists_cons
    have hlong : (x :: r).length < fuel := by
      simp only [List.length_append, List.length_replicate] at hfuel
      omega
    rw [List.append_assoc, List.append_assoc] at hc
    obtain ⟨c₁, hrest, hcol, hstep⟩ := words_spaces hw hx hcomment hc hcolumn
    obtain ⟨c', hwords, hr, hcolumn'⟩ := ih hrest hcol hlong
    refine ⟨c', ?_, hr, hcolumn'⟩
    rw [hstep fuel (by simp [hwords]), hwords]

theorem wordLength_key (hw : ∀ x ∈ w, IsInk x ∧ x ≠ ':') (hr : EndsWord r) :
    wordLength false (w ++ ':' :: r) = w.length := by
  induction w with
  | nil =>
    cases r with
    | nil => rfl
    | cons x r => obtain hx | hx := hr x rfl <;> simp [wordLength.eq_def, hx]
  | cons x w ih =>
    obtain ⟨⟨hx, hcolon⟩, hw⟩ := List.forall_mem_cons.1 hw
    rw [List.cons_append, wordLength_cons hx.notBreak hx.notBlank fun h => absurd h hcolon, ih hw]
    rfl

/-- Before a colon that ends a word a scalar ends. -/
theorem words_key (hw : ∀ x ∈ w, IsInk x ∧ x ≠ ':') (hne : w ≠ []) (hcomment : w.head? ≠ some '#')
    (hr : EndsWord r) (hc : c.rest = w ++ ':' :: r) (indent : Int) (fuel : Nat) :
    words false indent (fuel + 1) c = (w, false, c.advance w.length) := by
  have hlength : wordLength false c.rest = w.length := by rw [hc, wordLength_key hw hr]
  have hgap : gap (c.advance w.length) = ([], false, c.advance w.length) :=
    gap_spaces (n := 0) (x := ':') (r := r) (by decide) rfl (by simp [hc])
  rw [words_succ hlength hc hne hcomment, hgap]
  rfl

end Plain

/-! ### Quoted scalars -/

namespace Quoted

/-- A text as it stands between double quotes. -/
def guarded (t : Text) : Text := t.flatMap fun x => if x = '"' ∨ x = '\\' then ['\\', x] else [x]

theorem guarded_append (t u : Text) : guarded (t ++ u) = guarded t ++ guarded u :=
  List.flatMap_append

theorem guarded_spaces (n : Nat) : guarded (List.replicate n ' ') = List.replicate n ' ' := by
  induction n with
  | zero => rfl
  | succ n ih =>
    rw [List.replicate_succ, ← List.singleton_append, guarded_append, ih]
    rfl

/-- What a word in quotes ends before. -/
def EndsWord (r : Text) : Prop := r.head? = some ' ' ∨ r.head? = some '"'

theorem word_of_endsWord (hr : EndsWord r) (hc : c.rest = r) (fuel : Nat) :
    word true (fuel + 1) c = .ok ([], c) := by
  have hspan : c.span isOrdinary = ([], c) := Cursor.span_eq (w := []) (by simp) (by
    intro x hx
    obtain h | h := hr <;> rw [h] at hx <;> obtain rfl := Option.some.inj hx <;> rfl) hc
  have hsees (x : Char) (hx : x ≠ ' ' ∧ x ≠ '"') : c.sees 0 x = false := Cursor.sees_eq_false (by
    rw [hc]
    obtain h | h := hr <;> rw [h] <;> simp [hx.1.symm, hx.2.symm])
  rw [word, hspan]
  simp [hsees]
  rfl

theorem word_ordinary (hx : isOrdinary x = true) (hc : c.rest = x :: r) (fuel : Nat) :
    word true (fuel + 1) c = (word true (fuel + 1) c.next).map fun p => (x :: p.1, p.2) := by
  have hspan : c.span isOrdinary = (x :: (c.next.span isOrdinary).1, (c.next.span isOrdinary).2) := by
    simp [Cursor.span, hc, hx, Cursor.advance]
  rw [word, word, hspan]
  generalize c.next.span isOrdinary = p
  obtain ⟨t, c'⟩ := p
  simp only [Bool.not_true, Bool.false_and, Bool.true_and, Bool.or_false, Bool.false_eq_true, if_false]
  split
  · cases word true fuel c'.next with
    | error e => rfl
    | ok q => rfl
  · split
    · cases escape c'.next with
      | error e => rfl
      | ok q =>
        cases hq : word true fuel q.2 <;>
          simp [hq, bind, Except.bind, Except.map, pure, Except.pure]
    · rfl

/-- A quote or a backslash after a backslash. -/
theorem word_escaped (hx : x = '"' ∨ x = '\\') (hc : c.rest = '\\' :: x :: r) (fuel : Nat) :
    word true (fuel + 1) c = (word true fuel c.next.next).map fun p => (x :: p.1, p.2) := by
  have hspan : c.span isOrdinary = ([], c) := Cursor.span_eq (w := []) (by simp) (by
    intro y hy
    obtain rfl : '\\' = y := Option.some.inj hy
    rfl) hc
  have hnext : c.next.rest = x :: r := by rw [Cursor.rest_next, hc]; rfl
  have hescape : escape c.next = .ok ([x], c.next.next) := by
    rw [escape, hnext]
    obtain rfl | rfl := hx <;> rfl
  rw [word, hspan]
  cases hrest : word true fuel c.next.next <;>
    simp [Cursor.sees, hc, hescape, hrest, bind, Except.bind, Except.map, pure, Except.pure]

/-- A single quote stands for itself. -/
theorem word_quote (hc : c.rest = '\'' :: r) (fuel : Nat) :
    word true (fuel + 1) c = (word true fuel c.next).map fun p => ('\'' :: p.1, p.2) := by
  have hspan : c.span isOrdinary = ([], c) := Cursor.span_eq (w := []) (by simp) (by
    intro y hy
    obtain rfl : '\'' = y := Option.some.inj hy
    rfl) hc
  rw [word, hspan]
  cases hrest : word true fuel c.next <;>
    simp [Cursor.sees, hc, hrest, bind, Except.bind, Except.map, pure, Except.pure]

/-- A word between quotes is read back. -/
theorem word_guarded (hw : ∀ x ∈ w, IsInk x) (hr : EndsWord r) (fuel : Nat)
    (hc : c.rest = guarded w ++ r) (hfuel : w.length < fuel) :
    ∃ c', word true fuel c = .ok (w, c') ∧ c'.rest = r := by
  induction w generalizing c fuel with
  | nil =>
    obtain ⟨fuel, rfl⟩ : ∃ k, fuel = k + 1 := ⟨fuel - 1, by omega⟩
    exact ⟨c, word_of_endsWord hr hc fuel, hc⟩
  | cons x w ih =>
    obtain ⟨fuel, rfl⟩ : ∃ k, fuel = k + 1 := ⟨fuel - 1, by omega⟩
    obtain ⟨hx, hw'⟩ := List.forall_mem_cons.1 hw
    rw [List.length_cons] at hfuel
    by_cases hguard : x = '"' ∨ x = '\\'
    · have hc' : c.rest = '\\' :: x :: (guarded w ++ r) := by
        rw [hc, guarded, List.flatMap_cons, if_pos hguard]
        rfl
      obtain ⟨c', hword, hrest⟩ := ih hw' (c := c.next.next) fuel (by simp [hc']) (by omega)
      exact ⟨c', by rw [word_escaped hguard hc', hword]; rfl, hrest⟩
    · have hc' : c.rest = x :: (guarded w ++ r) := by
        rw [hc, guarded, List.flatMap_cons, if_neg hguard]
        rfl
      by_cases hquote : x = '\''
      · subst hquote
        obtain ⟨c', hword, hrest⟩ := ih hw' (c := c.next) fuel (by simp [hc']) (by omega)
        exact ⟨c', by rw [word_quote hc', hword]; rfl, hrest⟩
      · have hord : isOrdinary x = true := by
          rw [not_or] at hguard
          simp [isOrdinary, hquote, hguard, hx.notBlank, hx.notBreak]
        obtain ⟨c', hword, hrest⟩ := ih hw' (c := c.next) (fuel + 1) (by simp [hc']) (by omega)
        exact ⟨c', by rw [word_ordinary hord hc', hword]; rfl, hrest⟩

theorem gap_spaces (hblank : isSpaceOrTab x = false) (hbreak : isBreak x = false)
    (hc : c.rest = List.replicate n ' ' ++ x :: r) :
    gap c = .ok (List.replicate n ' ', c.advance n) := by
  have hspan : c.span isSpaceOrTab =
      (List.replicate n ' ', c.advance (List.replicate n ' ').length) :=
    Cursor.span_eq (fun y hy => by rw [List.eq_of_mem_replicate hy]; rfl) (by simpa using hblank) hc
  have hmeets : (c.advance n).meets isBreak = false :=
    Cursor.meets_eq_false (by simpa [Cursor.rest_advance, hc] using hbreak)
  have hend : (c.advance n).atEnd = false := by simp [Cursor.atEnd, hc]
  rw [gap, hspan, List.length_replicate]
  simp [hmeets, hend]
  rfl

theorem exists_head_guarded (ht : IsWords t) (r : Text) :
    ∃ x u, guarded t ++ r = x :: u ∧ isSpaceOrTab x = false ∧ isBreak x = false := by
  obtain ⟨x, u, rfl, hx, -⟩ := ht.exists_cons
  by_cases hguard : x = '"' ∨ x = '\\'
  · exact ⟨'\\', x :: (guarded u ++ r), by rw [guarded, List.flatMap_cons, if_pos hguard]; rfl, rfl,
      rfl⟩
  · exact ⟨x, guarded u ++ r, by rw [guarded, List.flatMap_cons, if_neg hguard]; rfl, hx.notBlank,
      hx.notBreak⟩

theorem length_le_guarded (t : Text) : t.length ≤ (guarded t).length := by
  induction t with
  | nil => exact Nat.le_refl _
  | cons x t ih =>
    rw [guarded, List.flatMap_cons, List.length_append, List.length_cons]
    have hpos : 0 < (if x = '"' ∨ x = '\\' then ['\\', x] else [x]).length := by
      split <;> simp
    have htail : t.length ≤ (guarded t).length := ih
    rw [guarded] at htail
    omega

/-- The words between double quotes are read back. -/
theorem words_guarded (ht : IsWords t) (hc : c.rest = guarded t ++ '"' :: r) {fuel : Nat}
    (hfuel : t.length < fuel) : ∃ c', words true fuel c = .ok (t, c') ∧ c'.rest = r := by
  induction ht generalizing c fuel with
  | @word w hw =>
    obtain ⟨fuel, rfl⟩ : ∃ k, fuel = k + 1 := ⟨fuel - 1, by omega⟩
    have hlong : w.length < c.rest.length + 1 := by
      have := length_le_guarded w
      rw [hc, List.length_append]
      omega
    obtain ⟨c', hword, hrest⟩ := word_guarded hw.ink (.inr rfl) _ hc hlong
    have hsees : c'.sees 0 '"' = true := by simp [Cursor.sees, hrest]
    refine ⟨c'.next, ?_, by rw [Cursor.rest_next, hrest]; rfl⟩
    rw [words, hword]
    simp [bind, Except.bind, hsees]
    rfl
  | @cons w t hw n ht ih =>
    obtain ⟨fuel, rfl⟩ : ∃ k, fuel = k + 1 := ⟨fuel - 1, by omega⟩
    rw [guarded_append, guarded_append, guarded_spaces, List.append_assoc, List.append_assoc] at hc
    have hlong : w.length < c.rest.length + 1 := by
      have := length_le_guarded w
      rw [hc, List.length_append]
      omega
    obtain ⟨c', hword, hrest⟩ := word_guarded hw.ink (.inl rfl) _ hc hlong
    have hsees : c'.sees 0 '"' = false := by simp [Cursor.sees, hrest, List.replicate_succ]
    obtain ⟨x, u, hhead, hblank, hbreak⟩ := exists_head_guarded ht ('"' :: r)
    have hgap := gap_spaces (c := c') (n := n + 1) hblank hbreak (by rw [hrest, hhead])
    have hshort : t.length < fuel := by
      simp only [List.length_append, List.length_replicate] at hfuel
      omega
    obtain ⟨c'', hwords, hlast⟩ := ih (c := c'.advance (n + 1))
      (by rw [Cursor.rest_advance, hrest, List.drop_left' List.length_replicate]) hshort
    refine ⟨c'', ?_, hlast⟩
    rw [words, hword]
    simp [bind, Except.bind, hsees, hgap, hwords]
    rfl

end Quoted

end MarkTidy.Yaml
