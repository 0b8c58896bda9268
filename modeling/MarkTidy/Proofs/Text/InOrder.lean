import MarkTidy.Proofs.Text.Search

/-!
Words that occur in a text one after another, without overlap. A character that is in none of the
words parts the text: some of the words occur before it and the others after it.
-/

namespace MarkTidy.Text

variable {c : Char} {t u v w a b m : Text} {ws vs : List Text}

/-- The words occur in the text in this order, each after the end of the one before it. -/
def InOrder : List Text → Text → Prop
  | [], _ => True
  | w :: ws, t => ∃ u v, t = u ++ w ++ v ∧ InOrder ws v

theorem inOrder_singleton : InOrder [w] t ↔ w <:+: t := by
  constructor
  · rintro ⟨u, v, rfl, -⟩
    exact ⟨u, v, rfl⟩
  · rintro ⟨u, v, rfl⟩
    exact ⟨u, v, rfl, trivial⟩

theorem InOrder.append_right (h : InOrder ws a) (b : Text) : InOrder ws (a ++ b) := by
  induction ws generalizing a with
  | nil => trivial
  | cons w ws ih =>
    obtain ⟨u, v, rfl, hv⟩ := h
    exact ⟨u, v ++ b, List.append_assoc _ _ _, ih hv⟩

theorem InOrder.append_left (h : InOrder ws b) (a : Text) : InOrder ws (a ++ b) := by
  cases ws with
  | nil => trivial
  | cons w ws =>
    obtain ⟨u, v, rfl, hv⟩ := h
    exact ⟨a ++ u, v, by simp, hv⟩

theorem InOrder.of_infix (h : InOrder ws a) (hab : a <:+: b) : InOrder ws b := by
  obtain ⟨u, v, rfl⟩ := hab
  exact (h.append_left u).append_right v

theorem InOrder.append (h₁ : InOrder ws a) (h₂ : InOrder vs b) : InOrder (ws ++ vs) (a ++ b) := by
  induction ws generalizing a with
  | nil => exact h₂.append_left a
  | cons w ws ih =>
    obtain ⟨u, v, rfl, hv⟩ := h₁
    exact ⟨u, v ++ b, List.append_assoc _ _ _, ih hv⟩

/-- A word without `c` that occurs around a `c` occurs before it or after it. -/
theorem append_eq_append_cons (hc : c ∉ w) (h : u ++ w ++ v = a ++ c :: b) :
    (∃ x, a = u ++ w ++ x ∧ v = x ++ c :: b) ∨ ∃ x, u = a ++ c :: x ∧ b = x ++ w ++ v := by
  -- The `c` comes after the word, or before it; in the word it cannot be.
  rcases List.append_eq_append_iff.1 h with ⟨x, rfl, rfl⟩ | ⟨x, hx, hcb⟩
  · exact .inl ⟨x, rfl, rfl⟩
  · cases x with
    | nil => exact .inl ⟨[], by simpa using hx.symm, by simpa using hcb.symm⟩
    | cons d x =>
      obtain ⟨rfl, rfl⟩ := List.cons.inj hcb
      rcases List.append_eq_append_iff.1 hx with ⟨y, -, rfl⟩ | ⟨y, rfl, hw⟩
      · exact absurd (List.mem_append_right y List.mem_cons_self) hc
      · cases y with
        | nil =>
          obtain rfl : c :: x = w := hw
          exact absurd List.mem_cons_self hc
        | cons e y =>
          obtain ⟨rfl, rfl⟩ := List.cons.inj hw
          exact .inr ⟨y, rfl, rfl⟩

/-- Characters that are not in the word are before it. -/
theorem exists_eq_append_of_stretch (hw : w ≠ []) (hm : ∀ c ∈ m, c ∉ w)
    (h : u ++ w ++ v = m ++ b) : ∃ x, u = m ++ x ∧ b = x ++ w ++ v := by
  induction m generalizing u with
  | nil => exact ⟨u, rfl, h.symm⟩
  | cons c m ih =>
    obtain ⟨hc, hm⟩ := List.forall_mem_cons.1 hm
    rcases append_eq_append_cons (a := []) hc h with ⟨x, hx, -⟩ | ⟨x, rfl, hx⟩
    · simp [hw] at hx
    · obtain ⟨y, rfl, hb⟩ := ih hm hx.symm
      exact ⟨y, rfl, hb⟩

/-- A stretch of characters that are not in the word parts the text like a single one. -/
theorem append_eq_append_stretch (hw : w ≠ []) (hm : ∀ c ∈ m, c ∉ w) (hnil : m ≠ [])
    (h : u ++ w ++ v = a ++ (m ++ b)) :
    (∃ x, a = u ++ w ++ x ∧ v = x ++ (m ++ b)) ∨ ∃ x, u = a ++ m ++ x ∧ b = x ++ w ++ v := by
  obtain ⟨c, m, rfl⟩ := List.exists_cons_of_ne_nil hnil
  obtain ⟨hc, hm⟩ := List.forall_mem_cons.1 hm
  rcases append_eq_append_cons hc h with hbefore | ⟨x, rfl, hx⟩
  · exact .inl hbefore
  · obtain ⟨y, rfl, hb⟩ := exists_eq_append_of_stretch hw hm hx.symm
    exact .inr ⟨y, by simp, hb⟩

theorem infix_append_cons (hc : c ∉ w) : w <:+: a ++ c :: b ↔ w <:+: a ∨ w <:+: b := by
  constructor
  · rintro ⟨u, v, h⟩
    rcases append_eq_append_cons hc h with ⟨x, rfl, -⟩ | ⟨x, -, rfl⟩
    · exact .inl ⟨u, x, rfl⟩
    · exact .inr ⟨x, v, rfl⟩
  · rintro (h | h)
    · exact h.trans (List.infix_append' [] a (c :: b))
    · exact h.trans ((List.suffix_append (a ++ [c]) b).isInfix.trans (by simp))

theorem isPrefix_append_cons (hc : c ∉ w) : w <+: a ++ c :: b ↔ w <+: a := by
  constructor
  · intro h
    rcases List.prefix_or_prefix_of_prefix h (List.prefix_append a (c :: b)) with hle | ⟨x, rfl⟩
    · exact hle
    rw [List.prefix_append_right_inj] at h
    cases x with
    | nil => simp
    | cons d x =>
      obtain rfl := (List.cons_prefix_cons.1 h).1
      simp at hc
  · exact fun h => h.trans (List.prefix_append a _)

theorem InOrder.split (hc : ∀ w ∈ ws, c ∉ w) (h : InOrder ws (a ++ c :: b)) :
    ∃ ws₁ ws₂, ws = ws₁ ++ ws₂ ∧ InOrder ws₁ a ∧ InOrder ws₂ b := by
  induction ws generalizing a with
  | nil => exact ⟨[], [], rfl, trivial, trivial⟩
  | cons w ws ih =>
    obtain ⟨hw, hws⟩ := List.forall_mem_cons.1 hc
    obtain ⟨u, v, hv, hrest⟩ := h
    rcases append_eq_append_cons hw hv.symm with ⟨x, rfl, rfl⟩ | ⟨x, -, rfl⟩
    · obtain ⟨ws₁, ws₂, rfl, h₁, h₂⟩ := ih hws hrest
      exact ⟨w :: ws₁, ws₂, rfl, ⟨u, x, rfl, h₁⟩, h₂⟩
    · exact ⟨[], w :: ws, rfl, trivial, ⟨x, v, rfl, hrest⟩⟩

theorem InOrder.eq_nil (hne : ∀ w ∈ ws, w ≠ []) (h : InOrder ws []) : ws = [] := by
  cases ws with
  | nil => rfl
  | cons w ws =>
    obtain ⟨u, v, hv, -⟩ := h
    simp only [List.nil_eq, List.append_eq_nil_iff] at hv
    exact absurd hv.1.2 (hne w List.mem_cons_self)

/-- Characters that are in none of the words can be dropped in front. -/
theorem InOrder.of_append_left (hne : ∀ w ∈ ws, w ≠ []) (hm : ∀ w ∈ ws, ∀ c ∈ m, c ∉ w)
    (h : InOrder ws (m ++ b)) : InOrder ws b := by
  induction m with
  | nil => exact h
  | cons c m ih =>
    have hc : ∀ w ∈ ws, c ∉ w := fun w hw => hm w hw c List.mem_cons_self
    have hrest : InOrder ws (m ++ b) := by
      obtain ⟨ws₁, ws₂, rfl, h₁, h₂⟩ := InOrder.split (a := []) hc h
      rw [h₁.eq_nil fun w hw => hne w (List.mem_append_left _ hw)]
      exact h₂
    exact ih (fun w hw d hd => hm w hw d (List.mem_cons_of_mem c hd)) hrest

theorem infix_append_left_iff (hne : w ≠ []) (hm : ∀ c ∈ m, c ∉ w) (t : Text) :
    w <:+: m ++ t ↔ w <:+: t := by
  refine ⟨fun h => ?_, fun h => h.trans (List.suffix_append m t).isInfix⟩
  refine inOrder_singleton.1 (InOrder.of_append_left (m := m) ?_ ?_ (inOrder_singleton.2 h)) <;>
    simpa

/-- A stretch of characters that are in none of the words parts the text like a single one. -/
theorem InOrder.split_append (hne : ∀ w ∈ ws, w ≠ []) (hm : ∀ w ∈ ws, ∀ c ∈ m, c ∉ w)
    (h : InOrder ws (a ++ (m ++ b))) (hnil : m ≠ []) :
    ∃ ws₁ ws₂, ws = ws₁ ++ ws₂ ∧ InOrder ws₁ a ∧ InOrder ws₂ b := by
  obtain ⟨c, m, rfl⟩ := List.exists_cons_of_ne_nil hnil
  obtain ⟨ws₁, ws₂, rfl, h₁, h₂⟩ := InOrder.split (fun w hw => hm w hw c List.mem_cons_self) h
  refine ⟨ws₁, ws₂, rfl, h₁, InOrder.of_append_left (m := m) ?_ ?_ h₂⟩
  · intro w hw
    exact hne w (List.mem_append_right _ hw)
  · intro w hw d hd
    exact hm w (List.mem_append_right _ hw) d (List.mem_cons_of_mem c hd)

/-- If the first word is not before such a stretch, all words come after it. -/
theorem InOrder.of_append_stretch (hne : ∀ x ∈ w :: ws, x ≠ [])
    (hm : ∀ x ∈ w :: ws, ∀ c ∈ m, c ∉ x)
    (h : InOrder (w :: ws) (a ++ (m ++ b))) (hnil : m ≠ []) (ha : ¬w <:+: a) :
    InOrder (w :: ws) b := by
  obtain ⟨ws₁, ws₂, hws, h₁, h₂⟩ := h.split_append hne hm hnil
  cases ws₁ with
  | nil => exact hws ▸ h₂
  | cons w' ws₁ =>
    obtain ⟨rfl, -⟩ := List.cons.inj hws
    obtain ⟨u, v, rfl, -⟩ := h₁
    exact absurd ⟨u, v, rfl⟩ ha

/-- Two words occur in order exactly if the second is found after the first place of the first. -/
theorem inOrder_pair_iff {p q : Text} (hp : p ≠ []) :
    InOrder [p, q] t ↔ ∃ a b, breakOn p t = some (a, b) ∧ q <:+: b := by
  constructor
  · rintro ⟨u, v, ht, hq⟩
    have hq := inOrder_singleton.1 hq
    cases hb : breakOn p t with
    | none => exact absurd ⟨u, v, ht.symm⟩ (breakOn_eq_none_iff.1 hb)
    | some r =>
      obtain ⟨a, b⟩ := r
      obtain ⟨ht', hno⟩ := (breakOn_eq_some_iff hp).1 hb
      refine ⟨a, b, rfl, hq.trans ?_⟩
      -- If the cut came later than `u`, the pattern would come up before it.
      have hle : a.length ≤ u.length := by
        by_contra hlt
        have hup : u ++ p <+: t := ht ▸ List.prefix_append _ _
        have hap : a ++ p.dropLast <+: t := ht' ▸ append_dropLast_isPrefix a p b
        refine hno (List.IsInfix.trans (List.suffix_append u p).isInfix
          (List.prefix_of_prefix_length_le hup hap ?_).isInfix)
        have := List.length_pos_of_ne_nil hp
        simp only [List.length_append, List.length_dropLast]
        omega
      have hv : v <:+ t := ht ▸ List.suffix_append _ _
      have hb : b <:+ t := ht' ▸ List.suffix_append _ _
      refine (List.suffix_of_suffix_length_le hv hb ?_).isInfix
      have := congrArg List.length (ht.symm.trans ht')
      simp only [List.length_append] at this
      omega
  · rintro ⟨a, b, hb, hq⟩
    exact ⟨a, b, eq_append_of_breakOn hb, inOrder_singleton.2 hq⟩

/-- One character occurs as often in order as it is counted. -/
theorem inOrder_replicate_iff {n : Nat} :
    InOrder (List.replicate n [c]) t ↔ n ≤ t.count c := by
  induction n generalizing t with
  | zero => simp [InOrder]
  | succ n ih =>
    rw [List.replicate_succ, InOrder]
    constructor
    · rintro ⟨u, v, rfl, hv⟩
      have hcount := ih.1 hv
      simp only [List.count_append, List.count_singleton_self]
      omega
    · intro h
      have hmem : c ∈ t := List.count_pos_iff.1 (by omega)
      obtain ⟨u, v, rfl, hu⟩ := List.eq_append_cons_of_mem hmem
      refine ⟨u, v, by simp, ih.2 ?_⟩
      rw [List.count_append, List.count_cons_self, List.count_eq_zero.2 hu] at h
      omega

end MarkTidy.Text
