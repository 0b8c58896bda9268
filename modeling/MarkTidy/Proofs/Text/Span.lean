import MarkTidy.Proofs.Text.InOrder
import MarkTidy.Text.Span

/-!
The spans of a text are the only leftmost ones. In a leftmost decomposition no part in front of a
span has the opening delimiter, no content the closing one, and the rest has no span.
-/

namespace MarkTidy.Text.Spans

variable {d : Delimiters} {t before inside content after : Text}

/-- The text with every span written as it was read. -/
def source (d : Delimiters) (s : Spans) : Text := s.render fun c => d.opening ++ c ++ d.closing

@[simp] theorem render_nil (f : Text → Text) (rest : Text) : render f ⟨[], rest⟩ = rest := rfl

theorem render_cons (f : Text → Text) (p : Text × Text) (ps : List (Text × Text)) (rest : Text) :
    render f ⟨p :: ps, rest⟩ = p.1 ++ f p.2 ++ render f ⟨ps, rest⟩ := by
  simp [render]

@[simp] theorem renderIdx_nil (f : Nat → Text → Text) (rest : Text) :
    renderIdx f ⟨[], rest⟩ = rest := rfl

theorem renderIdx_cons (f : Nat → Text → Text) (p : Text × Text) (ps : List (Text × Text))
    (rest : Text) : renderIdx f ⟨p :: ps, rest⟩ =
      p.1 ++ f 0 p.2 ++ renderIdx (fun i => f (i + 1)) ⟨ps, rest⟩ := by
  simp [renderIdx, List.zipIdx_cons, List.zipIdx_succ, List.flatMap_map]

theorem render_eq_renderIdx (f : Text → Text) (s : Spans) :
    s.render f = s.renderIdx fun _ => f := by
  obtain ⟨parts, rest⟩ := s
  induction parts with
  | nil => rfl
  | cons p ps ih => rw [render_cons, renderIdx_cons, ih]

theorem cutAtMost_of_none (h : breakOn d.opening t = none) (n : Nat) :
    cutAtMost d n t = ⟨[], t⟩ := by
  cases n <;> simp [cutAtMost, h]

theorem cutAtMost_of_unclosed (ho : breakOn d.opening t = some (before, inside))
    (hc : breakOn d.closing inside = none) (n : Nat) : cutAtMost d n t = ⟨[], t⟩ := by
  cases n <;> simp [cutAtMost, ho, hc]

theorem cutAtMost_succ_of_span (ho : breakOn d.opening t = some (before, inside))
    (hc : breakOn d.closing inside = some (content, after)) (n : Nat) :
    cutAtMost d (n + 1) t =
      ⟨(before, content) :: (cutAtMost d n after).parts, (cutAtMost d n after).rest⟩ := by
  simp [cutAtMost, ho, hc]

theorem length_after_lt (hd : d.opening ≠ []) (ho : breakOn d.opening t = some (before, inside))
    (hc : breakOn d.closing inside = some (content, after)) : after.length < t.length := by
  have h₁ := length_after_of_breakOn ho
  have h₂ := length_after_of_breakOn hc
  have h₃ := List.length_pos_of_ne_nil hd
  omega

/-- The bound on the number of spans does not matter once it reaches the length of the text. -/
theorem cutAtMost_eq_cut (hd : d.opening ≠ []) {n : Nat} (h : t.length ≤ n) :
    cutAtMost d n t = cut d t := by
  suffices hs : ∀ n m, t.length ≤ n → t.length ≤ m → cutAtMost d n t = cutAtMost d m t from
    hs n t.length h (Nat.le_refl _)
  intro n m hn hm
  -- The text after a span is shorter, so one step less is enough for it.
  induction n generalizing m t with
  | zero =>
    obtain rfl : t = [] := List.length_eq_zero_iff.1 (Nat.le_zero.1 hn)
    have hb : breakOn d.opening [] = none := by simp [breakOn, hd]
    rw [cutAtMost_of_none hb, cutAtMost_of_none hb]
  | succ n ih =>
    cases ho : breakOn d.opening t with
    | none => rw [cutAtMost_of_none ho, cutAtMost_of_none ho]
    | some r =>
      obtain ⟨before, inside⟩ := r
      cases hc : breakOn d.closing inside with
      | none => rw [cutAtMost_of_unclosed ho hc, cutAtMost_of_unclosed ho hc]
      | some r =>
        obtain ⟨content, after⟩ := r
        have hlt := length_after_lt hd ho hc
        obtain ⟨m, rfl⟩ : ∃ k, m = k + 1 := ⟨m - 1, by omega⟩
        rw [cutAtMost_succ_of_span ho hc, cutAtMost_succ_of_span ho hc,
          ih (by omega) m (by omega) (by omega)]

theorem cut_of_none (h : breakOn d.opening t = none) : cut d t = ⟨[], t⟩ := cutAtMost_of_none h _

theorem cut_of_unclosed (ho : breakOn d.opening t = some (before, inside))
    (hc : breakOn d.closing inside = none) : cut d t = ⟨[], t⟩ := cutAtMost_of_unclosed ho hc _

theorem cut_of_span (hd : d.opening ≠ []) (ho : breakOn d.opening t = some (before, inside))
    (hc : breakOn d.closing inside = some (content, after)) :
    cut d t = ⟨(before, content) :: (cut d after).parts, (cut d after).rest⟩ := by
  have hlt := length_after_lt hd ho hc
  rw [cut]
  obtain ⟨n, hn⟩ : ∃ k, t.length = k + 1 := ⟨t.length - 1, by omega⟩
  rw [hn, cutAtMost_succ_of_span ho hc, cutAtMost_eq_cut hd (by omega)]

/-- A span is found exactly if the closing delimiter comes up after the opening one. -/
theorem parts_cut_eq_nil_iff (hd : d.opening ≠ []) :
    (cut d t).parts = [] ↔ ¬InOrder [d.opening, d.closing] t := by
  rw [inOrder_pair_iff hd]
  cases ho : breakOn d.opening t with
  | none => simp [cut_of_none ho]
  | some r =>
    obtain ⟨before, inside⟩ := r
    cases hc : breakOn d.closing inside with
    | none => simp [cut_of_unclosed ho hc, ← breakOn_eq_none_iff, hc]
    | some r => simp [cut_of_span hd ho hc, ← occursIn_iff, occursIn, hc]

theorem cut_of_not_inOrder (hd : d.opening ≠ []) (h : ¬InOrder [d.opening, d.closing] t) :
    cut d t = ⟨[], t⟩ := by
  have hparts := (parts_cut_eq_nil_iff hd).2 h
  have hrender := render_cut d t
  rw [render, hparts] at hrender
  exact congrArg₂ Spans.mk hparts hrender

/-- A decomposition in which every span starts and ends as early as it can. -/
structure Leftmost (d : Delimiters) (s : Spans) : Prop where
  before : ∀ p ∈ s.parts, ¬d.opening <:+: p.1 ++ d.opening.dropLast
  content : ∀ p ∈ s.parts, ¬d.closing <:+: p.2 ++ d.closing.dropLast
  rest : ¬InOrder [d.opening, d.closing] s.rest

theorem leftmost_cut (ho : d.opening ≠ []) (hc : d.closing ≠ []) (t : Text) :
    Leftmost d (cut d t) := by
  generalize hn : t.length = n
  induction n using Nat.strongRecOn generalizing t with
  | ind n ih =>
    by_cases hspan : InOrder [d.opening, d.closing] t
    · obtain ⟨before, inside, hb, hin⟩ := (inOrder_pair_iff ho).1 hspan
      obtain ⟨⟨content, after⟩, ha⟩ := Option.isSome_iff_exists.1 (occursIn_iff.2 hin)
      have htail := ih _ (hn ▸ length_after_lt ho hb ha) after rfl
      rw [cut_of_span ho hb ha]
      exact ⟨List.forall_mem_cons.2 ⟨((breakOn_eq_some_iff ho).1 hb).2, htail.before⟩,
        List.forall_mem_cons.2 ⟨((breakOn_eq_some_iff hc).1 ha).2, htail.content⟩, htail.rest⟩
    · rw [cut_of_not_inOrder ho hspan]
      exact ⟨by simp, by simp, hspan⟩

/-- A leftmost decomposition is what cutting its text gives. -/
theorem cut_source (ho : d.opening ≠ []) (hc : d.closing ≠ []) {s : Spans} (h : Leftmost d s) :
    cut d (s.source d) = s := by
  obtain ⟨parts, rest⟩ := s
  induction parts with
  | nil => exact cut_of_not_inOrder ho h.rest
  | cons p ps ih =>
    obtain ⟨hb, hbs⟩ := List.forall_mem_cons.1 h.before
    obtain ⟨hp, hps⟩ := List.forall_mem_cons.1 h.content
    have htail := ih ⟨hbs, hps, h.rest⟩
    rw [source] at htail ⊢
    have hopen : breakOn d.opening (render (fun c => d.opening ++ c ++ d.closing) ⟨p :: ps, rest⟩) =
        some (p.1, p.2 ++ d.closing ++ render (fun c => d.opening ++ c ++ d.closing) ⟨ps, rest⟩) :=
      (breakOn_eq_some_iff ho).2 ⟨by simp [render_cons], hb⟩
    have hclose := (breakOn_eq_some_iff hc).2
      ⟨rfl (a := p.2 ++ d.closing ++ render (fun c => d.opening ++ c ++ d.closing) ⟨ps, rest⟩), hp⟩
    rw [cut_of_span ho hopen hclose, htail]

/-! ### Plain text in front -/

/-- The same spans with more plain text in front of them. -/
def prepend (u : Text) : Spans → Spans
  | ⟨[], rest⟩ => ⟨[], u ++ rest⟩
  | ⟨(before, content) :: ps, rest⟩ => ⟨(u ++ before, content) :: ps, rest⟩

theorem render_prepend (f : Text → Text) (u : Text) (s : Spans) :
    (s.prepend u).render f = u ++ s.render f := by
  rcases s with ⟨_ | ⟨⟨before, content⟩, ps⟩, rest⟩
  · rfl
  · simp [prepend, render_cons]

@[simp] theorem contents_prepend (u : Text) (s : Spans) : (s.prepend u).contents = s.contents := by
  rcases s with ⟨_ | ⟨⟨before, content⟩, ps⟩, rest⟩ <;> rfl

theorem prepend_injective (u : Text) : Function.Injective (prepend u) := by
  rintro ⟨_ | ⟨⟨before, content⟩, ps⟩, rest⟩ ⟨_ | ⟨⟨before', content'⟩, ps'⟩, rest'⟩ h <;>
    simp_all [prepend]

theorem length_le_of_prepend_eq {u : Text} {s : Spans} {p : Text × Text} {ps : List (Text × Text)}
    {rest : Text} (h : s.prepend u = ⟨p :: ps, rest⟩) : u.length ≤ p.1.length := by
  rcases s with ⟨_ | ⟨⟨before, content⟩, qs⟩, r⟩
  · simp [prepend] at h
  · obtain ⟨⟨rfl, -⟩, -⟩ := Spans.mk.inj h
    simp

/-- Text without the opening delimiter stays plain, if its last character is not in the delimiter
either. -/
theorem cut_append_cons (hd : d.opening ≠ []) {c : Char} {u r : Text} (hc : c ∉ d.opening)
    (hu : ¬d.opening <:+: u) : cut d (u ++ c :: r) = (cut d r).prepend (u ++ [c]) := by
  cases ho : breakOn d.opening r with
  | none =>
    have hnone : breakOn d.opening (u ++ c :: r) = none := by
      rw [breakOn_eq_none_iff, infix_append_cons hc, not_or, ← breakOn_eq_none_iff (t := r)]
      exact ⟨hu, ho⟩
    rw [cut_of_none hnone, cut_of_none ho]
    simp [prepend]
  | some p =>
    obtain ⟨before, inside⟩ := p
    obtain ⟨rfl, hno⟩ := (breakOn_eq_some_iff hd).1 ho
    have hsome : breakOn d.opening (u ++ c :: (before ++ d.opening ++ inside)) =
        some (u ++ c :: before, inside) := by
      refine (breakOn_eq_some_iff hd).2 ⟨by simp, ?_⟩
      rw [List.append_assoc, List.cons_append, infix_append_cons hc, not_or]
      exact ⟨hu, hno⟩
    cases hcl : breakOn d.closing inside with
    | none =>
      rw [cut_of_unclosed hsome hcl, cut_of_unclosed ho hcl]
      simp [prepend]
    | some p =>
      obtain ⟨content, after⟩ := p
      rw [cut_of_span hd hsome hcl, cut_of_span hd ho hcl]
      simp [prepend]

end MarkTidy.Text.Spans
