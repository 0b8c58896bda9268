import Mathlib.Data.List.Chain
import MarkTidy.Proofs.Document.Math

/-!
A text as characters and delimiters. A delimiter is stray, and then it is written as it was read, or
it is the mark of a span, and then it is written in dollar signs and the blanks on its inner side
are dropped.
-/

namespace MarkTidy.Math

open Text

inductive Token where
  | char (c : Char)
  | stray (k : Kind) (s : Side)
  | mark (k : Kind) (s : Side)
deriving DecidableEq, Repr

variable {k : Kind} {s : Side} {c : Char} {x y : Token} {xs as bs : List Token} {fresh : Bool}

def Token.isBlank : Token → Bool
  | .char c => Text.isBlank c
  | _ => false

/-- Nothing but blanks comes before the closing mark of a span. -/
def endsSpan : List Token → Bool
  | .char c :: xs => isBlank c && endsSpan xs
  | .mark _ .closing :: _ => true
  | _ => false

/-- What each token is written as; `fresh` says that only blanks came since an opening mark. -/
def pieces : Bool → List Token → List Text
  | _, [] => []
  | fresh, .char c :: xs =>
    (if isBlank c && (fresh || endsSpan xs) then [] else [c]) :: pieces (fresh && isBlank c) xs
  | _, .stray k s :: xs => k.delimiter s :: pieces false xs
  | _, .mark k s :: xs => k.dollars :: pieces (s = .opening) xs

def write (xs : List Token) : Text := (pieces false xs).flatten

@[simp] theorem write_nil : write [] = [] := rfl

@[simp] theorem write_stray (k : Kind) (s : Side) (xs : List Token) :
    write (.stray k s :: xs) = k.delimiter s ++ write xs := rfl

@[simp] theorem length_pieces (fresh : Bool) (xs : List Token) :
    (pieces fresh xs).length = xs.length := by
  fun_induction pieces fresh xs with
  | case1 => rfl
  | case2 fresh c xs ih => simp [ih]
  | case3 _ k s xs ih => simp [ih]
  | case4 _ k s xs ih => simp [ih]

/-! ### Blanks -/

theorem isBlank_backslash : isBlank '\\' = false := rfl

theorem Kind.bracket_not_blank (k : Kind) (s : Side) : isBlank (k.bracket s) = false := by
  cases k <;> cases s <;> rfl

theorem delimiter_not_blank (k : Kind) (s : Side) : ∀ c ∈ k.delimiter s, isBlank c = false := by
  intro c hc
  rcases List.mem_pair.1 hc with rfl | rfl
  · exact isBlank_backslash
  · exact k.bracket_not_blank s

theorem dollars_not_blank (k : Kind) : ∀ c ∈ k.dollars, isBlank c = false := by
  intro c hc
  rw [mem_dollars hc]
  rfl

/-- Every token but a character is written, and starts with a character that is not blank. -/
theorem exists_pieces_eq_cons (hx : ∀ c, x ≠ .char c) (fresh : Bool) (xs : List Token) :
    ∃ c r, (pieces fresh (x :: xs)).flatten = c :: r ∧ isBlank c = false := by
  cases x with
  | char c => exact absurd rfl (hx c)
  | stray k s => exact ⟨_, _, rfl, isBlank_backslash⟩
  | mark k s => cases k <;> exact ⟨_, _, rfl, rfl⟩

theorem trimLeft_pieces (xs : List Token) :
    trimLeft (write xs) = (pieces true xs).flatten := by
  induction xs with
  | nil => rfl
  | cons x xs ih =>
    by_cases hx : ∃ c, x = .char c
    · obtain ⟨c, rfl⟩ := hx
      cases hc : isBlank c with
      | true =>
        rw [write] at ih ⊢
        cases he : endsSpan xs <;> simp [pieces, hc, he, trimLeft_cons_of_blank, ih]
      | false => simp [write, pieces, hc, trimLeft_cons_of_not_blank hc]
    · have hx' : ∀ c, x ≠ .char c := fun c h => hx ⟨c, h⟩
      have hfresh : pieces true (x :: xs) = pieces false (x :: xs) := by
        cases x with
        | char c => exact absurd rfl (hx' c)
        | stray k s => rfl
        | mark k s => rfl
      obtain ⟨c, r, hcons, hc⟩ := exists_pieces_eq_cons hx' false xs
      rw [hfresh, write, hcons, trimLeft_cons_of_not_blank hc]

@[simp] theorem write_opening (k : Kind) (xs : List Token) :
    write (.mark k .opening :: xs) = k.dollars ++ trimLeft (write xs) := by
  rw [trimLeft_pieces]
  rfl

/-! ### Cutting at a token -/

theorem endsSpan_append (as bs : List Token) :
    endsSpan (as ++ bs) = (endsSpan as || as.all Token.isBlank && endsSpan bs) := by
  induction as with
  | nil => simp [endsSpan]
  | cons y as ih =>
    rw [List.cons_append]
    rcases y with c | ⟨k, s⟩ | ⟨k, _ | _⟩
    · cases hc : isBlank c <;> simp [endsSpan, Token.isBlank, hc, ih]
    · simp [endsSpan, Token.isBlank]
    · simp [endsSpan, Token.isBlank]
    · simp [endsSpan]

theorem pieces_append (hx : ∀ c, x ≠ .char c) (hx' : endsSpan (x :: bs) = false) (fresh : Bool)
    (as : List Token) :
    pieces fresh (as ++ x :: bs) = pieces fresh as ++ pieces false (x :: bs) := by
  induction as generalizing fresh with
  | nil =>
    cases x with
    | char c => exact absurd rfl (hx c)
    | stray k s => rfl
    | mark k s => rfl
  | cons y as ih =>
    rw [List.cons_append]
    cases y with
    | char c => simp [pieces, endsSpan_append, hx', ih]
    | stray k s => simp [pieces, ih]
    | mark k s => simp [pieces, ih]

theorem all_blank_pieces (fresh : Bool) (xs : List Token) :
    (pieces fresh xs).flatten.all isBlank = xs.all Token.isBlank := by
  induction xs generalizing fresh with
  | nil => rfl
  | cons x xs ih =>
    cases x with
    | char c =>
      have hrest := ih (fresh && isBlank c)
      cases hc : isBlank c with
      | false => simp [pieces, Token.isBlank, hc]
      | true => cases he : fresh || endsSpan xs <;> simp_all [pieces, Token.isBlank]
    | stray k s => rfl
    | mark k s => cases k <;> rfl

theorem flatten_pieces_append_closing (k : Kind) (fresh : Bool) (as bs : List Token) :
    (pieces fresh (as ++ .mark k .closing :: bs)).flatten =
      trimRight (pieces fresh as).flatten ++ (k.dollars ++ write bs) := by
  induction as generalizing fresh with
  | nil => rfl
  | cons y as ih =>
    rw [List.cons_append]
    cases y with
    | stray j s =>
      simp only [pieces, List.flatten_cons, ih]
      rw [trimRight_append_of_not_blank (delimiter_not_blank j s), List.append_assoc]
    | mark j s =>
      simp only [pieces, List.flatten_cons, ih]
      rw [trimRight_append_of_not_blank (dollars_not_blank j), List.append_assoc]
    | char c =>
      have hends : endsSpan (as ++ .mark k .closing :: bs) =
          (endsSpan as || as.all Token.isBlank) := by
        rw [endsSpan_append, endsSpan, Bool.and_true]
      simp only [pieces, List.flatten_cons, ih, hends, ← Bool.or_assoc]
      cases hc : isBlank c with
      | false => simp [trimRight_cons, hc]
      | true =>
        -- A blank with blanks alone after it, up to the closing mark, is dropped with them.
        have hrest := all_blank_pieces fresh as
        rw [Bool.and_true]
        cases hall : as.all Token.isBlank with
        | true =>
          rw [hall, ← trimRight_eq_nil_iff] at hrest
          cases he : fresh || endsSpan as <;> simp [trimRight_cons, hrest, hc]
        | false =>
          have hne : trimRight (pieces fresh as).flatten ≠ [] := by
            rw [ne_eq, trimRight_eq_nil_iff, hrest, hall]
            exact Bool.false_ne_true
          cases he : fresh || endsSpan as <;> simp [trimRight_cons, hne]

theorem write_append_stray (k : Kind) (s : Side) (as bs : List Token) :
    write (as ++ .stray k s :: bs) = write as ++ (k.delimiter s ++ write bs) := by
  rw [write, pieces_append (by simp) rfl, List.flatten_append, ← write, ← write, write_stray]

theorem write_append_opening (k : Kind) (as bs : List Token) :
    write (as ++ .mark k .opening :: bs) = write as ++ (k.dollars ++ trimLeft (write bs)) := by
  rw [write, pieces_append (by simp) rfl, List.flatten_append, ← write, ← write, write_opening]

theorem write_append_closing (k : Kind) (as bs : List Token) :
    write (as ++ .mark k .closing :: bs) = trimRight (write as) ++ (k.dollars ++ write bs) :=
  flatten_pieces_append_closing k false as bs

/-- A span is written trimmed, between dollar signs. -/
theorem write_append_span (k : Kind) (as cs bs : List Token) :
    write (as ++ .mark k .opening :: (cs ++ .mark k .closing :: bs)) =
      write as ++ (k.dollars ++ trim (write cs) ++ k.dollars) ++ write bs := by
  obtain ⟨d, r, hd, hdollar⟩ : ∃ d r, k.dollars = d :: r ∧ isBlank d = false := by
    cases k <;> exact ⟨_, _, rfl, rfl⟩
  have hleft : trimLeft (trimRight (write cs) ++ (k.dollars ++ write bs)) =
      trim (write cs) ++ (k.dollars ++ write bs) := by
    rw [hd, List.cons_append, trimLeft_append_cons hdollar, trimLeft_trimRight]
  rw [write_append_opening, write_append_closing, hleft]
  simp

/-! ### Reading a text -/

/-- A backslash and a bracket that are not one token do not stand next to each other. -/
def Apart (x y : Token) : Prop := ∀ k s, ¬(x = .char '\\' ∧ y = .char (Kind.bracket k s))

/-- Every delimiter that is written by characters is written by one token. -/
def Canonical (xs : List Token) : Prop := xs.IsChain Apart

theorem endsSpan_eq_false (h : ∀ k s, .mark k s ∉ xs) : endsSpan xs = false := by
  fun_induction endsSpan xs with
  | case1 c xs ih => rw [ih fun k s hm => h k s (List.mem_cons_of_mem _ hm), Bool.and_false]
  | case2 k xs => exact absurd List.mem_cons_self (h k .closing)
  | case3 => rfl

theorem write_char (h : ∀ k s, .mark k s ∉ xs) (c : Char) :
    write (.char c :: xs) = c :: write xs := by
  simp [write, pieces, endsSpan_eq_false h]

/-- Every text is written by some tokens. -/
theorem exists_write_eq (t : Text) :
    ∃ xs, Canonical xs ∧ (∀ k s, .mark k s ∉ xs) ∧ write xs = t := by
  induction t with
  | nil => exact ⟨[], .nil, by simp, rfl⟩
  | cons c t ih =>
    obtain ⟨xs, hcanon, hmark, rfl⟩ := ih
    by_cases h : ∃ k s ys, c = '\\' ∧ xs = .char (Kind.bracket k s) :: ys
    · obtain ⟨k, s, ys, rfl, rfl⟩ := h
      have hys : ∀ k s, .mark k s ∉ ys := fun k s hm => hmark k s (List.mem_cons_of_mem _ hm)
      refine ⟨.stray k s :: ys, ?_, by simpa using hys, ?_⟩
      · exact List.isChain_cons.2 ⟨fun y _ j r hc => Token.noConfusion hc.1, hcanon.tail⟩
      · rw [write_char hys, write_stray]
        rfl
    · refine ⟨.char c :: xs, ?_, by simpa using hmark, write_char hmark c⟩
      refine List.isChain_cons.2 ⟨fun y hy k s hc => h ?_, hcanon⟩
      obtain ⟨ys, rfl⟩ := List.head?_eq_some_iff.1 hy
      obtain ⟨hc, rfl⟩ := hc
      exact ⟨k, s, ys, by simpa using hc, rfl⟩

theorem Kind.dollar_ne_bracket (k : Kind) (s : Side) : '$' ≠ k.bracket s := by
  cases k <;> cases s <;> decide

theorem Kind.bracket_inj {j k : Kind} {r s : Side} (h : j.bracket r = k.bracket s) :
    j = k ∧ r = s := by
  cases j <;> cases k <;> cases r <;> cases s <;> first | exact ⟨rfl, rfl⟩ | simp [bracket] at h

theorem head?_write_mark (k : Kind) (s : Side) (xs : List Token) :
    (write (.mark k s :: xs)).head? = some '$' := by
  cases k <;> rfl

/-- A bracket at the front is a token of its own. -/
theorem head?_of_head?_write (h : (write xs).head? = some (k.bracket s)) :
    xs.head? = some (.char (k.bracket s)) := by
  induction xs with
  | nil => cases h
  | cons x xs ih =>
    cases x with
    | char c =>
      cases hdrop : isBlank c && endsSpan xs with
      | false =>
        obtain rfl : c = k.bracket s := by simpa [write, pieces, hdrop] using h
        rfl
      | true =>
        -- The blank is dropped before a closing mark, so no bracket comes next.
        have hnext := ih (by simpa [write, pieces, hdrop] using h)
        obtain ⟨ys, rfl⟩ := List.head?_eq_some_iff.1 hnext
        simp [endsSpan, k.bracket_not_blank] at hdrop
    | stray j r =>
      exact absurd (Option.some.inj h).symm (k.bracket_ne_backslash s)
    | mark j r =>
      rw [head?_write_mark] at h
      exact absurd (Option.some.inj h) (k.dollar_ne_bracket s)

/-- A delimiter occurs in what is written only where a stray token is. -/
theorem stray_mem_of_isInfix (hxs : Canonical xs) (fresh : Bool)
    (h : k.delimiter s <:+: (pieces fresh xs).flatten) : .stray k s ∈ xs := by
  induction xs generalizing fresh with
  | nil => exact absurd (List.infix_nil.1 h) (k.delimiter_ne_nil s)
  | cons x xs ih =>
    have hrest : ∀ fresh, k.delimiter s <:+: (pieces fresh xs).flatten → .stray k s ∈ x :: xs :=
      fun fresh h => List.mem_cons_of_mem x (ih hxs.tail fresh h)
    cases x with
    | char c =>
      rw [pieces, List.flatten_cons] at h
      split at h
      · exact hrest _ h
      rw [List.singleton_append] at h
      rcases List.infix_cons_iff.1 h with hpre | h
      · -- The backslash would be the character and the bracket the next token.
        obtain ⟨rfl, r, hr⟩ := List.cons_prefix_cons.1 hpre
        rw [isBlank_backslash, Bool.and_false, ← write] at hr
        have hhead : (write xs).head? = some (k.bracket s) := by
          rw [← hr]
          rfl
        have hx := (List.isChain_cons.1 hxs).1 _ (head?_of_head?_write hhead)
        exact absurd ⟨rfl, rfl⟩ (hx k s)
      · exact hrest _ h
    | stray j r =>
      rw [pieces, List.flatten_cons, j.delimiter_append] at h
      rcases List.infix_cons_iff.1 h with hpre | h
      · have hb := (List.cons_prefix_cons.1 (List.cons_prefix_cons.1 hpre).2).1
        obtain ⟨rfl, rfl⟩ := Kind.bracket_inj hb
        exact List.mem_cons_self
      rcases List.infix_cons_iff.1 h with hpre | h
      · exact absurd (List.cons_prefix_cons.1 hpre).1.symm (j.bracket_ne_backslash r)
      · exact hrest _ h
    | mark j r =>
      have hdollars : ∀ c ∈ j.dollars, c ∉ k.delimiter s := by
        intro c hc
        rw [mem_dollars hc, Kind.delimiter, List.mem_pair, not_or]
        exact ⟨by decide, k.dollar_ne_bracket s⟩
      rw [pieces, List.flatten_cons, infix_append_left_iff (k.delimiter_ne_nil s) hdollars] at h
      exact hrest _ h

end MarkTidy.Math
