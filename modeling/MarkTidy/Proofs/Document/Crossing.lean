import Mathlib.Order.Monotone.Basic
import MarkTidy.Proofs.Document.Pairing

/-!
Where spans stand. Inline math is rewritten after display math, in a text in which the display spans
are already written in dollar signs. An inline span of that text can begin in a display span and end
outside it, or the other way round. It does so exactly if the two spans cross before any rewriting.
-/

namespace MarkTidy.Math

open Text

/-- Where a span stands in a text: from `start` on, up to `stop`. -/
structure Place where
  start : Nat
  stop : Nat
deriving DecidableEq, Repr

namespace Place

def shift (n : Nat) (p : Place) : Place := ⟨n + p.start, n + p.stop⟩

theorem map_shift_zero (ps : List Place) : ps.map (shift 0) = ps :=
  List.map_id'' (fun p => by simp [shift]) ps

theorem map_shift_shift (m n : Nat) (ps : List Place) :
    (ps.map (shift n)).map (shift m) = ps.map (shift (m + n)) := by
  simp [shift, Function.comp_def, Nat.add_assoc]

/-- Each of the two places holds one end of the other. -/
def Crosses (a b : Place) : Prop :=
  (a.start < b.start ∧ b.start < a.stop ∧ a.stop < b.stop) ∨
    (b.start < a.start ∧ a.start < b.stop ∧ b.stop < a.stop)

/-- An inline span at `b` takes no part of a display span at `a`: it is outside the display span,
or all around it, or inside its dollar signs. -/
def Respects (b a : Place) : Prop :=
  b.stop ≤ a.start ∨ a.stop ≤ b.start ∨ (b.start ≤ a.start ∧ a.stop ≤ b.stop) ∨
    (a.start + Kind.display.dollars.length ≤ b.start ∧
      b.stop + Kind.display.dollars.length ≤ a.stop)

instance (a b : Place) : Decidable (Crosses a b) := inferInstanceAs (Decidable (_ ∨ _))

instance (b a : Place) : Decidable (Respects b a) := inferInstanceAs (Decidable (_ ∨ _))

end Place

/-- The places of spans that are written by `f`. -/
def placesOf (f : Text → Text) : List (Text × Text) → List Place
  | [] => []
  | (before, content) :: ps =>
    ⟨before.length, (before ++ f content).length⟩ ::
      (placesOf f ps).map (Place.shift (before ++ f content).length)

/-- Where the spans of a kind stand in a text. -/
def places (k : Kind) (t : Text) : List Place :=
  placesOf (fun c => k.delimiters.opening ++ c ++ k.delimiters.closing) (spans k t).parts

/-- Where the spans of a kind stand in the text in which that kind has been rewritten. -/
def writtenPlaces (k : Kind) (t : Text) : List Place :=
  placesOf (fun c => k.dollars ++ trim c ++ k.dollars) (spans k t).parts

variable {j k : Kind} {s : Side} {x : Token} {xs as bs cs : List Token} {opened : Bool} {m n : Nat}

/-! ### Offsets of tokens -/

/-- Where a token is written. -/
def offset (xs : List Token) (n : Nat) : Nat := ((pieces false xs).take n).flatten.length

def Token.spell : Token → Text
  | .char c => [c]
  | .stray k s => k.delimiter s
  | .mark k _ => k.dollars

theorem offset_mono (xs : List Token) : Monotone (offset xs) := by
  intro m n h
  obtain ⟨u, hu⟩ := List.take_prefix_take_left (l := pieces false xs) h
  rw [offset, offset, ← hu, List.flatten_append, List.length_append]
  exact Nat.le_add_right _ _

theorem getElem?_pieces (hx : ∀ c, x ≠ .char c) (fresh : Bool) (h : xs[n]? = some x) :
    (pieces fresh xs)[n]? = some x.spell := by
  induction xs generalizing fresh n with
  | nil => simp at h
  | cons y xs ih =>
    cases n with
    | zero =>
      obtain rfl : y = x := by simpa using h
      cases y with
      | char c => exact absurd rfl (hx c)
      | stray k s => rfl
      | mark k s => rfl
    | succ n =>
      have hn : xs[n]? = some x := by simpa using h
      cases y <;> exact ih _ hn

theorem offset_succ (hx : ∀ c, x ≠ .char c) (h : xs[n]? = some x) :
    offset xs (n + 1) = offset xs n + x.spell.length := by
  rw [offset, List.take_add_one, getElem?_pieces hx false h]
  simp [offset]

theorem offset_length (hx : ∀ c, x ≠ .char c) (hx' : endsSpan (x :: bs) = false)
    (as : List Token) : offset (as ++ x :: bs) as.length = (write as).length := by
  rw [offset, pieces_append hx hx', ← length_pieces false as, List.take_left, write]

theorem pieces_append_of_end (hx : ∀ c, x ≠ .char c) (hx' : ∀ k, x ≠ .mark k .opening)
    (fresh : Bool) (as bs : List Token) :
    pieces fresh (as ++ x :: bs) = pieces fresh (as ++ [x]) ++ pieces false bs := by
  induction as generalizing fresh with
  | nil =>
    rcases x with c | ⟨k, s⟩ | ⟨k, _ | _⟩
    · exact absurd rfl (hx c)
    · rfl
    · exact absurd rfl (hx' k)
    · rfl
  | cons y as ih =>
    have hends : endsSpan (x :: bs) = endsSpan [x] := by
      rcases x with c | ⟨k, s⟩ | ⟨k, _ | _⟩
      · exact absurd rfl (hx c)
      · rfl
      · rfl
      · rfl
    rw [List.cons_append, List.cons_append]
    cases y <;> simp [pieces, endsSpan_append, hends, ih]

theorem offset_add (hx : ∀ c, x ≠ .char c) (hx' : ∀ k, x ≠ .mark k .opening)
    (as bs : List Token) (n : Nat) :
    offset (as ++ x :: bs) (as.length + 1 + n) = (write (as ++ [x])).length + offset bs n := by
  have hlen : as.length + 1 = (pieces false (as ++ [x])).length := by simp
  rw [offset, pieces_append_of_end hx hx', hlen, List.take_length_add_append, List.flatten_append,
    List.length_append, ← write, ← offset]

/-! ### Places of spans -/

/-- Where the marked spans of a kind stand, counted in tokens: each opening mark goes with the next
closing one. -/
def tokenPlaces (k : Kind) : List Token → List Place
  | [] => []
  | x :: xs =>
    (if x = .mark k .opening then [⟨0, 1 + xs.idxOf (.mark k .closing) + 1⟩] else []) ++
      (tokenPlaces k xs).map (Place.shift 1)

/-- The place in the written text of a place that is counted in tokens. -/
def Place.written (xs : List Token) (p : Place) : Place := ⟨offset xs p.start, offset xs p.stop⟩

theorem tokenPlaces_append (h : .mark k .opening ∉ as) (bs : List Token) :
    tokenPlaces k (as ++ bs) = (tokenPlaces k bs).map (Place.shift as.length) := by
  induction as with
  | nil => exact (Place.map_shift_zero _).symm
  | cons x as ih =>
    rw [List.mem_cons, not_or] at h
    rw [List.cons_append, tokenPlaces, if_neg (Ne.symm h.1), List.nil_append, ih h.2,
      Place.map_shift_shift, List.length_cons, Nat.add_comm]

theorem tokenPlaces_of_not_mem (h : .mark k .opening ∉ xs) : tokenPlaces k xs = [] := by
  have hxs := tokenPlaces_append h []
  rwa [List.append_nil] at hxs

theorem tokenPlaces_span (has : .mark k .opening ∉ as) (hcs : ∀ s, .mark k s ∉ cs)
    (bs : List Token) :
    tokenPlaces k (as ++ .mark k .opening :: (cs ++ .mark k .closing :: bs)) =
      ⟨as.length, as.length + 1 + cs.length + 1⟩ ::
        (tokenPlaces k bs).map (Place.shift (as.length + 1 + cs.length + 1)) := by
  have hidx : (cs ++ Token.mark k .closing :: bs).idxOf (.mark k .closing) = cs.length := by
    simp [List.idxOf_append, hcs]
  rw [tokenPlaces_append has, tokenPlaces, if_pos rfl, hidx, tokenPlaces_append (hcs .opening),
    tokenPlaces, if_neg (by simp), List.nil_append, Place.map_shift_shift, Place.map_shift_shift,
    List.singleton_append, List.map_cons, Place.map_shift_shift]
  simp [Place.shift, Nat.add_assoc]

theorem not_mark_mem_after {x y : Token} (h : ∀ s, .mark k s ∉ as ++ x :: (cs ++ y :: bs)) :
    ∀ s, .mark k s ∉ bs :=
  fun s hs => h s (by simp [hs])

theorem tokenPlaces_pair_span (ho : .stray k .opening ∉ as) (hc : .stray k .closing ∉ cs)
    (hmark : ∀ s, .mark k s ∉ as ++ .stray k .opening :: (cs ++ .stray k .closing :: bs)) :
    tokenPlaces k (pair k false (as ++ .stray k .opening :: (cs ++ .stray k .closing :: bs))) =
      ⟨as.length, as.length + 1 + cs.length + 1⟩ ::
        (tokenPlaces k (pair k false bs)).map (Place.shift (as.length + 1 + cs.length + 1)) := by
  have has : .mark k .opening ∉ as := fun h => hmark .opening (by simp [h])
  have hcs : ∀ s, .mark k s ∉ cs := fun s h => hmark s (by simp [h])
  rw [pair_span ho hc, tokenPlaces_span has hcs]

theorem idxOf_pair (hjk : j ≠ k) (s : Side) (opened : Bool) (xs : List Token) :
    (pair k opened xs).idxOf (.mark j s) = xs.idxOf (.mark j s) := by
  induction xs generalizing opened with
  | nil => rfl
  | cons x xs ih =>
    by_cases hx : x = .mark j s
    · rw [pair, List.idxOf_cons_eq _ ((pairStep_eq_mark_iff hjk).2 hx), List.idxOf_cons_eq _ hx]
    · rw [pair, List.idxOf_cons_ne _ fun h => hx ((pairStep_eq_mark_iff hjk).1 h), ih,
        List.idxOf_cons_ne _ hx]

/-- Pairing the other kind moves no mark. -/
theorem tokenPlaces_pair (hjk : j ≠ k) (opened : Bool) (xs : List Token) :
    tokenPlaces j (pair k opened xs) = tokenPlaces j xs := by
  induction xs generalizing opened with
  | nil => rfl
  | cons x xs ih => simp only [pair, tokenPlaces, pairStep_eq_mark_iff hjk, idxOf_pair hjk, ih]

/-- The first span between its delimiters or marks `x` and `y`, and the places of the spans after
it. -/
theorem map_written_span {y : Token} {w : Text} (hx : ∀ c, x ≠ .char c)
    (hx' : endsSpan (x :: (cs ++ y :: bs)) = false) (hy : ∀ c, y ≠ .char c)
    (hy' : ∀ k, y ≠ .mark k .opening) (hw : write (as ++ x :: (cs ++ [y])) = write as ++ w)
    (ps : List Place) :
    ((⟨as.length, as.length + 1 + cs.length + 1⟩ ::
        ps.map (Place.shift (as.length + 1 + cs.length + 1))).map
      (Place.written (as ++ x :: (cs ++ y :: bs)))) =
    ⟨(write as).length, (write as ++ w).length⟩ ::
      (ps.map (Place.written bs)).map (Place.shift (write as ++ w).length) := by
  have hstop : ∀ n, offset (as ++ x :: (cs ++ y :: bs)) (as.length + 1 + cs.length + 1 + n) =
      (write as ++ w).length + offset bs n := by
    intro n
    have h := offset_add hy hy' (as ++ x :: cs) bs n
    simp only [List.append_assoc, List.cons_append, List.length_append, List.length_cons] at h
    rw [← hw, ← h]
    congr 1
    omega
  have hend : offset (as ++ x :: (cs ++ y :: bs)) (as.length + 1 + cs.length + 1) =
      (write as ++ w).length := hstop 0
  simp only [List.map_cons, List.map_map, Place.written, offset_length hx hx', hend]
  refine congrArg _ (List.map_congr_left fun p _ => ?_)
  simp [Place.written, Place.shift, hstop]

theorem places_write (hxs : Canonical xs) (hmark : ∀ s, .mark k s ∉ xs) :
    places k (write xs) = (tokenPlaces k (pair k false xs)).map (Place.written xs) := by
  induction cut k xs with
  | plain h =>
    rw [places, spans_write_unspanned hxs h, pair_unspanned h,
      tokenPlaces_of_not_mem (hmark .opening)]
    rfl
  | @span as cs bs ho hc _ ih =>
    have hw : write (as ++ .stray k .opening :: (cs ++ [.stray k .closing])) =
        write as ++ (k.delimiters.opening ++ write cs ++ k.delimiters.closing) := by
      rw [write_append_stray, write_append_stray, k.opening_eq, k.closing_eq]
      simp
    rw [tokenPlaces_pair_span ho hc hmark, map_written_span (by simp) rfl (by simp) (by simp) hw,
      ← ih hxs.after_span (not_mark_mem_after hmark), places, spans_write_span hxs ho hc]
    rfl

theorem writtenPlaces_write (hxs : Canonical xs) (hmark : ∀ s, .mark k s ∉ xs) :
    writtenPlaces k (write xs) =
      (tokenPlaces k (pair k false xs)).map (Place.written (pair k false xs)) := by
  induction cut k xs with
  | plain h =>
    rw [writtenPlaces, spans_write_unspanned hxs h, pair_unspanned h,
      tokenPlaces_of_not_mem (hmark .opening)]
    rfl
  | @span as cs bs ho hc _ ih =>
    have hw := write_append_span k as cs []
    rw [write_nil, List.append_nil] at hw
    rw [tokenPlaces_pair_span ho hc hmark, pair_span ho hc,
      map_written_span (by simp) rfl (by simp) (by simp) hw,
      ← ih hxs.after_span (not_mark_mem_after hmark), writtenPlaces, spans_write_span hxs ho hc]
    rfl

/-! ### Order -/

/-- A span of a kind stands at this place, counted in tokens. -/
def SpanAt (k : Kind) (xs : List Token) (p : Place) : Prop :=
  xs[p.start]? = some (.stray k .opening) ∧
    ∃ n, p.stop = n + 1 ∧ p.start < n ∧ xs[n]? = some (.stray k .closing)

theorem SpanAt.shift {p : Place} (h : SpanAt k bs p) (as : List Token) :
    SpanAt k (as ++ bs) (p.shift as.length) := by
  have hget : ∀ n, (as ++ bs)[as.length + n]? = bs[n]? := fun n => by
    rw [List.getElem?_append_right (Nat.le_add_right _ _), Nat.add_sub_cancel_left]
  obtain ⟨hstart, n, hn, hlt, hstop⟩ := h
  refine ⟨(hget _).trans hstart, as.length + n, ?_, ?_, (hget n).trans hstop⟩
  · rw [Place.shift, hn, Nat.add_assoc]
  · exact Nat.add_lt_add_left hlt _

theorem SpanAt.read {p : Place} (h : SpanAt k xs p) : SpanAt k (xs.map Token.read) p := by
  obtain ⟨hstart, n, hn, hlt, hstop⟩ := h
  refine ⟨?_, n, hn, hlt, ?_⟩
  · rw [List.getElem?_map, hstart]
    rfl
  · rw [List.getElem?_map, hstop]
    rfl

theorem spanAt_of_mem (hmark : ∀ s, .mark k s ∉ xs) {p : Place}
    (hp : p ∈ tokenPlaces k (pair k false xs)) : SpanAt k xs p := by
  induction cut k xs generalizing p with
  | plain h => simp [pair_unspanned h, tokenPlaces_of_not_mem (hmark .opening)] at hp
  | @span as cs bs ho hc _ ih =>
    rw [tokenPlaces_pair_span ho hc hmark, List.mem_cons, List.mem_map] at hp
    have hassoc : as ++ .stray k .opening :: (cs ++ .stray k .closing :: bs) =
        (as ++ .stray k .opening :: cs) ++ .stray k .closing :: bs := by simp
    rcases hp with rfl | ⟨q, hq, rfl⟩
    · refine ⟨by simp, as.length + 1 + cs.length, rfl, by simp only; omega, ?_⟩
      have hlen : as.length + 1 + cs.length = (as ++ Token.stray k .opening :: cs).length := by
        simp only [List.length_append, List.length_cons]
        omega
      rw [hassoc, hlen, List.getElem?_append_right (Nat.le_refl _), Nat.sub_self]
      rfl
    · have hlen : as.length + 1 + cs.length + 1 =
          (as ++ Token.stray k .opening :: (cs ++ [.stray k .closing])).length := by
        simp only [List.length_append, List.length_cons, List.length_nil]
        omega
      have hbs := (ih (not_mark_mem_after hmark) hq).shift
        (as ++ .stray k .opening :: (cs ++ [.stray k .closing]))
      rw [← hlen] at hbs
      simpa using hbs

/-- A delimiter takes room in the text, and one of display math as much as its dollar signs. -/
theorem offset_succ_of_stray (h : (xs.map Token.read)[n]? = some (.stray k s)) :
    offset xs n < offset xs (n + 1) ∧
      (k = .display → offset xs (n + 1) = offset xs n + Kind.display.dollars.length) := by
  rw [List.getElem?_map, Option.map_eq_some_iff] at h
  obtain ⟨x, hx, hread⟩ := h
  cases x with
  | char c => cases hread
  | stray j r =>
    obtain ⟨rfl, rfl⟩ := Token.stray.inj hread
    rw [offset_succ (by simp) hx]
    exact ⟨by simp [Token.spell, Kind.delimiter], fun _ => rfl⟩
  | mark j r =>
    obtain ⟨rfl, rfl⟩ := Token.stray.inj hread
    rw [offset_succ (by simp) hx]
    exact ⟨Nat.lt_add_of_pos_right (List.length_pos_of_ne_nil j.dollars_ne_nil), by rintro rfl; rfl⟩

theorem offset_lt_iff (h : (xs.map Token.read)[m]? = some (.stray k s)) :
    offset xs m < offset xs n ↔ m < n :=
  ⟨(offset_mono xs).reflect_lt, fun hlt => (offset_succ_of_stray h).1.trans_le (offset_mono xs hlt)⟩

theorem offset_lt_succ_iff (h : (xs.map Token.read)[n]? = some (.stray k s)) :
    offset xs m < offset xs (n + 1) ↔ m < n + 1 :=
  ⟨(offset_mono xs).reflect_lt,
    fun hlt => (offset_mono xs (Nat.le_of_lt_succ hlt)).trans_lt (offset_succ_of_stray h).1⟩

/-- Spans cross in the text if they cross in the tokens. -/
theorem crosses_written_iff {a b : Place} (ha : SpanAt j (xs.map Token.read) a)
    (hb : SpanAt k (xs.map Token.read) b) :
    (a.written xs).Crosses (b.written xs) ↔ a.Crosses b := by
  obtain ⟨ha, m, ham, -, hm⟩ := ha
  obtain ⟨hb, n, hbn, -, hn⟩ := hb
  simp only [Place.Crosses, Place.written, ham, hbn, offset_lt_iff ha, offset_lt_iff hb,
    offset_lt_succ_iff hm, offset_lt_succ_iff hn]

theorem ne_of_getElem?_ne {y : Token} (hm : xs[m]? = some x) (hn : xs[n]? = some y) (h : x ≠ y) :
    m ≠ n := by
  rintro rfl
  exact h (Option.some.inj (hm.symm.trans hn))

/-- A delimiter of the inline span is on either side of each of the dollar signs of the display
span. So the spans are apart or nested, if they do not cross. -/
theorem respects_written_iff {a b : Place} (ha : SpanAt .display (xs.map Token.read) a)
    (hb : SpanAt .inline (xs.map Token.read) b) :
    (b.written xs).Respects (a.written xs) ↔ ¬a.Crosses b := by
  obtain ⟨ha, m, ham, hlt, hm⟩ := ha
  obtain ⟨hb, n, hbn, hlt', hn⟩ := hb
  have h₁ := ne_of_getElem?_ne ha hb (by simp)
  have h₂ := ne_of_getElem?_ne ha hn (by simp)
  have h₃ := ne_of_getElem?_ne hm hb (by simp)
  have h₄ := ne_of_getElem?_ne hm hn (by simp)
  have hle : ∀ i j, i < j → offset xs (i + 1) ≤ offset xs j := fun i j h => offset_mono xs h
  have hwa := (offset_succ_of_stray ha).2 rfl
  have hwm := (offset_succ_of_stray hm).2 rfl
  have hwb := (offset_succ_of_stray hb).1
  have hwn := (offset_succ_of_stray hn).1
  have hab := hle a.start b.start
  have hba := hle b.start a.start
  have han := hle a.start n
  have hna := hle n a.start
  have hmb := hle m b.start
  have hbm := hle b.start m
  have hmn := hle m n
  have hnm := hle n m
  have ham' := hle a.start m hlt
  have hbn' := hle b.start n hlt'
  have hwidth : Kind.display.dollars.length = 2 := rfl
  simp only [Place.Respects, Place.Crosses, Place.written, ham, hbn]
  omega

/-- The inline pass takes no part of a display span exactly if no inline span of the text crosses a
display span of the text. -/
theorem respects_iff_not_crosses (t : Text) :
    (∀ a ∈ writtenPlaces .display t, ∀ b ∈ places .inline (rewriteKind .display t),
        b.Respects a) ↔
      ∀ a ∈ places .display t, ∀ b ∈ places .inline t, ¬a.Crosses b := by
  obtain ⟨xs, hxs, hmark, rfl⟩ := exists_write_eq t
  have hmark' : ∀ s, .mark .inline s ∉ pair .display false xs :=
    fun s h => hmark .inline s ((mark_mem_pair (by simp)).1 h)
  have hinline : tokenPlaces .inline (pair .inline false (pair .display false xs)) =
      tokenPlaces .inline (pair .inline false xs) := by
    rw [pair_pair_comm (by simp), tokenPlaces_pair (by simp)]
  rw [writtenPlaces_write hxs (hmark _), rewriteKind_write hxs,
    places_write (canonical_pair hxs) hmark', places_write hxs (hmark _),
    places_write hxs (hmark _), hinline]
  simp only [List.forall_mem_map]
  refine forall₂_congr fun a ha => forall₂_congr fun b hb => ?_
  have hat := (spanAt_of_mem (hmark .display) ha).read
  have hbt := (spanAt_of_mem (hmark .inline) hb).read
  rw [crosses_written_iff hat hbt]
  rw [← map_read_pair .display false] at hat hbt
  exact respects_written_iff hat hbt

/-- The inline span begins in the display span and ends behind it, so the closing dollar signs of
the display span become its content. -/
theorem not_respects_crossing :
    let t := "\\[a \\( b\\] c\\)".toList
    rewriteKind .display t = "$$a \\( b$$ c\\)".toList ∧
      rewrite t = "$$a $b$$ c$".toList ∧
      writtenPlaces .display t = [⟨0, 10⟩] ∧
      places .inline (rewriteKind .display t) = [⟨4, 14⟩] ∧
      ¬∀ a ∈ writtenPlaces .display t, ∀ b ∈ places .inline (rewriteKind .display t),
        b.Respects a := by
  decide

end MarkTidy.Math
