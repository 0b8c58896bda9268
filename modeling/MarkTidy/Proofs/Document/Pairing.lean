import MarkTidy.Proofs.Document.Token

/-!
Pairing the delimiters of a kind: an opening one that has a closing one after it becomes, with the
next closing one, a mark. Rewriting a text is pairing its tokens. Pairing looks at the delimiters of
one kind only, so the two kinds can be paired in either order.
-/

namespace MarkTidy.Math

open Text

variable {j k : Kind} {s : Side} {x : Token} {xs as bs cs : List Token} {opened more : Bool}

/-- One token, and whether a span is open after it; `more` says that a closing delimiter follows. -/
def pairStep (k : Kind) (opened more : Bool) (x : Token) : Token × Bool :=
  if opened = false ∧ more = true ∧ x = .stray k .opening then (.mark k .opening, true)
  else if opened = true ∧ x = .stray k .closing then (.mark k .closing, false)
  else (x, opened)

def pair (k : Kind) : Bool → List Token → List Token
  | _, [] => []
  | opened, x :: xs =>
    let step := pairStep k opened (.stray k .closing ∈ xs) x
    step.1 :: pair k step.2 xs

/-- A token as it was read, before any pairing. -/
def Token.read : Token → Token
  | .mark k s => .stray k s
  | x => x

/-! ### One token -/

theorem pairStep_of_ne (h : ∀ s, x ≠ .stray k s) (opened more : Bool) :
    pairStep k opened more x = (x, opened) := by
  simp [pairStep, h]

theorem pairStep_cases (k : Kind) (opened more : Bool) (x : Token) :
    (pairStep k opened more x).1 = x ∨
      ∃ s, x = .stray k s ∧ (pairStep k opened more x).1 = .mark k s := by
  unfold pairStep
  split
  · next h => exact .inr ⟨.opening, h.2.2, rfl⟩
  split
  · next h => exact .inr ⟨.closing, h.2, rfl⟩
  · exact .inl rfl

theorem read_pairStep (k : Kind) (opened more : Bool) (x : Token) :
    (pairStep k opened more x).1.read = x.read := by
  rcases pairStep_cases k opened more x with h | ⟨s, rfl, h⟩
  · rw [h]
  · rw [h]
    rfl

theorem pairStep_eq_stray_iff (hjk : j ≠ k) :
    (pairStep k opened more x).1 = .stray j s ↔ x = .stray j s := by
  rcases pairStep_cases k opened more x with h | ⟨r, rfl, h⟩
  · rw [h]
  · simp [h, hjk.symm]

theorem pairStep_eq_mark_iff (hjk : j ≠ k) :
    (pairStep k opened more x).1 = .mark j s ↔ x = .mark j s := by
  rcases pairStep_cases k opened more x with h | ⟨r, rfl, h⟩
  · rw [h]
  · simp [h, hjk.symm]

/-! ### All tokens -/

theorem map_read_pair (k : Kind) (opened : Bool) (xs : List Token) :
    (pair k opened xs).map Token.read = xs.map Token.read := by
  induction xs generalizing opened with
  | nil => rfl
  | cons x xs ih => rw [pair, List.map_cons, List.map_cons, read_pairStep, ih]

theorem Canonical.after_span {x y : Token} (h : Canonical (as ++ x :: (cs ++ y :: bs))) :
    Canonical bs :=
  (List.IsChain.right_of_append (List.IsChain.right_of_append h).tail).tail

theorem apart_read {x y : Token} : Apart x.read y.read ↔ Apart x y := by
  cases x <;> cases y <;> simp [Apart, Token.read]

theorem canonical_map_read : Canonical (xs.map Token.read) ↔ Canonical xs := by
  simp only [Canonical, List.isChain_map, apart_read]

theorem canonical_pair (h : Canonical xs) : Canonical (pair k opened xs) := by
  rwa [← canonical_map_read, map_read_pair, canonical_map_read]

theorem stray_mem_pair (hjk : j ≠ k) : .stray j s ∈ pair k opened xs ↔ .stray j s ∈ xs := by
  induction xs generalizing opened with
  | nil => rfl
  | cons x xs ih =>
    rw [pair, List.mem_cons, List.mem_cons, ih, eq_comm, pairStep_eq_stray_iff hjk, eq_comm]

theorem mark_mem_pair (hjk : j ≠ k) : .mark j s ∈ pair k opened xs ↔ .mark j s ∈ xs := by
  induction xs generalizing opened with
  | nil => rfl
  | cons x xs ih =>
    rw [pair, List.mem_cons, List.mem_cons, ih, eq_comm, pairStep_eq_mark_iff hjk, eq_comm]

/-- Pairing one kind does not hinder the other. -/
theorem pair_pair_comm (hjk : j ≠ k) (o o' : Bool) (xs : List Token) :
    pair j o (pair k o' xs) = pair k o' (pair j o xs) := by
  induction xs generalizing o o' with
  | nil => rfl
  | cons x xs ih =>
    simp only [pair, stray_mem_pair hjk, stray_mem_pair hjk.symm]
    -- The token is a delimiter of one of the kinds at most, and the other pairing leaves it alone.
    by_cases hx : ∀ s, x ≠ .stray j s
    · have hx' : ∀ s, (pairStep k o' (.stray k .closing ∈ xs) x).1 ≠ .stray j s :=
        fun s h => hx s ((pairStep_eq_stray_iff hjk).1 h)
      rw [pairStep_of_ne hx, pairStep_of_ne hx', ih]
    · obtain ⟨s, rfl⟩ : ∃ s, x = .stray j s := by simpa using hx
      have hk : ∀ r, Token.stray j s ≠ .stray k r := by simp [hjk]
      have hk' : ∀ r, (pairStep j o (.stray j .closing ∈ xs) (.stray j s)).1 ≠ .stray k r :=
        fun r h => hk r ((pairStep_eq_stray_iff hjk.symm).1 h)
      rw [pairStep_of_ne hk, pairStep_of_ne hk', ih]

/-! ### Spans -/

/-- No opening delimiter, or none after the first one that closes it. -/
def Unspanned (k : Kind) (xs : List Token) : Prop :=
  .stray k .opening ∈ xs → ∃ as bs, xs = as ++ .stray k .opening :: bs ∧
    .stray k .opening ∉ as ∧ .stray k .closing ∉ bs

/-- A token list falls apart into spans from left to right. -/
inductive Cut (k : Kind) : List Token → Prop
  | plain {xs : List Token} (h : Unspanned k xs) : Cut k xs
  | span {as cs bs : List Token} (ho : .stray k .opening ∉ as) (hc : .stray k .closing ∉ cs)
      (h : Cut k bs) : Cut k (as ++ .stray k .opening :: (cs ++ .stray k .closing :: bs))

theorem cut (k : Kind) (xs : List Token) : Cut k xs := by
  generalize hn : xs.length = n
  induction n using Nat.strongRecOn generalizing xs with
  | ind n ih =>
    by_cases hopen : .stray k .opening ∈ xs
    · obtain ⟨as, r, rfl, ho⟩ := List.eq_append_cons_of_mem hopen
      by_cases hclose : .stray k .closing ∈ r
      · obtain ⟨cs, bs, rfl, hc⟩ := List.eq_append_cons_of_mem hclose
        refine .span ho hc (ih _ ?_ bs rfl)
        simp only [← hn, List.length_append, List.length_cons]
        omega
      · exact .plain fun _ => ⟨as, r, rfl, ho, hclose⟩
    · exact .plain fun h => absurd h hopen

theorem pair_append_of_not_opening (h : .stray k .opening ∉ as) (bs : List Token) :
    pair k false (as ++ bs) = as ++ pair k false bs := by
  induction as with
  | nil => rfl
  | cons x as ih =>
    rw [List.mem_cons, not_or] at h
    simp [pair, pairStep, Ne.symm h.1, ih h.2]

theorem pair_append_of_not_closing (h : .stray k .closing ∉ cs) (bs : List Token) :
    pair k true (cs ++ bs) = cs ++ pair k true bs := by
  induction cs with
  | nil => rfl
  | cons x cs ih =>
    rw [List.mem_cons, not_or] at h
    simp [pair, pairStep, Ne.symm h.1, ih h.2]

theorem pair_of_not_closing (h : .stray k .closing ∉ bs) : pair k false bs = bs := by
  induction bs with
  | nil => rfl
  | cons x bs ih =>
    rw [List.mem_cons, not_or] at h
    simp [pair, pairStep, h.2, ih h.2]

theorem pair_unspanned (h : Unspanned k xs) : pair k false xs = xs := by
  by_cases hopen : .stray k .opening ∈ xs
  · obtain ⟨as, bs, rfl, ho, hc⟩ := h hopen
    rw [pair_append_of_not_opening ho, pair_of_not_closing (by simp [hc])]
  · have hpair := pair_append_of_not_opening hopen []
    rwa [List.append_nil, pair, List.append_nil] at hpair

theorem pair_span (ho : .stray k .opening ∉ as) (hc : .stray k .closing ∉ cs) (bs : List Token) :
    pair k false (as ++ .stray k .opening :: (cs ++ .stray k .closing :: bs)) =
      as ++ .mark k .opening :: (cs ++ .mark k .closing :: pair k false bs) := by
  rw [pair_append_of_not_opening ho, pair, pairStep, if_pos (by simp)]
  simp [pair_append_of_not_closing hc, pair, pairStep]

/-! ### Rewriting what the tokens write -/

theorem not_infix_write (hxs : Canonical xs) (h : .stray k s ∉ xs) :
    ¬k.delimiter s <:+: write xs :=
  fun hinf => h (stray_mem_of_isInfix hxs false hinf)

theorem breakOn_write (hxs : Canonical (as ++ .stray k s :: bs)) (h : .stray k s ∉ as) :
    breakOn (k.delimiter s) (write (as ++ .stray k s :: bs)) = some (write as, write bs) := by
  refine (breakOn_eq_some_iff (k.delimiter_ne_nil s)).2
    ⟨by rw [write_append_stray, List.append_assoc], fun hinf => ?_⟩
  exact not_infix_write (List.IsChain.left_of_append hxs) h
    ((delimiter_infix_append_backslash k s).1 hinf)

theorem not_hasSpan_write (hxs : Canonical xs) (h : Unspanned k xs) : ¬HasSpan k (write xs) := by
  rw [HasSpan, k.opening_eq, k.closing_eq, inOrder_pair_iff (k.delimiter_ne_nil _)]
  rintro ⟨before, inside, ho, hinf⟩
  by_cases hopen : .stray k .opening ∈ xs
  · obtain ⟨as, bs, rfl, has, hbs⟩ := h hopen
    rw [breakOn_write hxs has] at ho
    obtain ⟨-, rfl⟩ := Prod.mk.inj (Option.some.inj ho)
    exact not_infix_write (List.IsChain.right_of_append hxs).tail hbs hinf
  · rw [breakOn_eq_none_iff.2 (not_infix_write hxs hopen)] at ho
    cases ho

theorem spans_write_unspanned (hxs : Canonical xs) (h : Unspanned k xs) :
    spans k (write xs) = ⟨[], write xs⟩ :=
  Spans.cut_of_not_inOrder k.opening_ne_nil (not_hasSpan_write hxs h)

theorem spans_write_span
    (hxs : Canonical (as ++ .stray k .opening :: (cs ++ .stray k .closing :: bs)))
    (ho : .stray k .opening ∉ as) (hc : .stray k .closing ∉ cs) :
    spans k (write (as ++ .stray k .opening :: (cs ++ .stray k .closing :: bs))) =
      ⟨(write as, write cs) :: (spans k (write bs)).parts, (spans k (write bs)).rest⟩ := by
  have hopen := breakOn_write hxs ho
  have hclose := breakOn_write (List.IsChain.right_of_append hxs).tail hc
  rw [← k.opening_eq] at hopen
  rw [← k.closing_eq] at hclose
  exact Spans.cut_of_span k.opening_ne_nil hopen hclose

/-- Rewriting a text is pairing its tokens. -/
theorem rewriteKind_write (hxs : Canonical xs) :
    rewriteKind k (write xs) = write (pair k false xs) := by
  induction cut k xs with
  | plain h => rw [pair_unspanned h, rewriteKind_of_not_hasSpan (not_hasSpan_write hxs h)]
  | @span as cs bs ho hc _ ih =>
    rw [rewriteKind, spans_write_span hxs ho hc, Spans.render_cons, pair_span ho hc,
      write_append_span, ← ih hxs.after_span]
    rfl

theorem rewriteKind_rewriteKind_write (hxs : Canonical xs) :
    rewriteKind j (rewriteKind k (write xs)) = write (pair j false (pair k false xs)) := by
  rw [rewriteKind_write hxs, rewriteKind_write (canonical_pair hxs)]

theorem rewriteKind_comm_of_ne (hjk : j ≠ k) (t : Text) :
    rewriteKind j (rewriteKind k t) = rewriteKind k (rewriteKind j t) := by
  obtain ⟨xs, hxs, -, rfl⟩ := exists_write_eq t
  rw [rewriteKind_rewriteKind_write hxs, rewriteKind_rewriteKind_write hxs, pair_pair_comm hjk]

theorem rewrite_eq_of_ne (hjk : j ≠ k) (t : Text) :
    rewrite t = rewriteKind j (rewriteKind k t) := by
  cases j <;> cases k
  · exact absurd rfl hjk
  · exact rewriteKind_comm_of_ne hjk.symm t
  · rfl
  · exact absurd rfl hjk

/-- The order of the two passes does not matter. -/
theorem rewriteKind_comm (j k : Kind) (t : Text) :
    rewriteKind j (rewriteKind k t) = rewriteKind k (rewriteKind j t) := by
  by_cases hjk : j = k
  · rw [hjk]
  · exact rewriteKind_comm_of_ne hjk t

end MarkTidy.Math
