import MarkTidy.Proofs.Document.Spacing

/-!
Texts that spacing leaves as they are. Their lines are trimmed, and two lines with content are
parted by as many empty lines as `separation` asks for. The conditions can be read off the lines
next to each other.
-/

namespace MarkTidy

open Text

/-- Lines laid out: the first and the last have content, all are trimmed, and no separation would
change. -/
inductive Spaced : List Text → Prop where
  | single {l : Text} (content : l.all isBlank = false) (trimmed : trimRight l = l) : Spaced [l]
  | next {l l' : Text} {ls : List Text} (content : l.all isBlank = false)
      (trimmed : trimRight l = l) (close : separation (.ofLine l) (.ofLine l') 0 = 0)
      (below : Spaced (l' :: ls)) : Spaced (l :: l' :: ls)
  | parted {l l' : Text} {ls : List Text} (content : l.all isBlank = false)
      (trimmed : trimRight l = l) (apart : separation (.ofLine l) (.ofLine l') 1 = 1)
      (below : Spaced (l' :: ls)) : Spaced (l :: [] :: l' :: ls)

variable {gap : Nat} {l l' x b : Text} {ls : List Text}

theorem ne_nil_of_content (h : l.all isBlank = false) : l ≠ [] := by
  rintro rfl
  exact Bool.noConfusion h

theorem eq_nil_of_blank (h : l.all isBlank = true) (ht : trimRight l = l) : l = [] := by
  rw [← ht, trimRight_eq_nil_iff, h]

theorem content_of_ne_nil (hne : l ≠ []) (ht : trimRight l = l) : l.all isBlank = false :=
  Bool.eq_false_iff.2 fun hb => hne (eq_nil_of_blank hb ht)

namespace Spaced

theorem head (h : Spaced (l :: ls)) : l.all isBlank = false ∧ trimRight l = l := by
  cases h <;> exact ⟨‹_›, ‹_›⟩

/-- Trimming the first line on the left keeps a layout. -/
theorem trimLeft_head (h : Spaced (l :: ls)) : Spaced (trimLeft l :: ls) := by
  have hc : (trimLeft l).all isBlank = false := by simpa using h.head.1
  have ht : trimRight (trimLeft l) = trimLeft l := by
    rw [← trim, ← trimLeft_trimRight, h.head.2]
  cases h with
  | single => exact .single hc ht
  | next _ _ close below => exact .next hc ht (by rwa [LineKind.ofLine_trimLeft]) below
  | parted _ _ apart below => exact .parted hc ht (by rwa [LineKind.ofLine_trimLeft]) below

end Spaced

namespace Layout

theorem trimRight_of_mem_spread {above : Option LineKind} (h : x ∈ spread above gap ls) :
    trimRight x = x := by
  induction ls generalizing above gap with
  | nil => simp [spread] at h
  | cons l ls ih =>
    cases hl : l.all isBlank with
    | true =>
      rw [spread_cons_of_blank hl] at h
      exact ih h
    | false =>
      rw [spread_cons_of_content hl] at h
      rcases List.mem_append.1 h with h | h
      · rw [List.eq_of_mem_replicate h]
        rfl
      rcases List.mem_cons.1 h with rfl | h
      · exact trimRight_trimRight l
      · exact ih h

/-- The first line that is written has content. -/
theorem spread_none (gap : Nat) (ls : List Text) : spread none gap ls = [] ∨
    ∃ l ls', (l :: ls') <:+ ls ∧ l.all isBlank = false ∧
      spread none gap ls = trimRight l :: spread (some (.ofLine l)) 0 ls' := by
  induction ls generalizing gap with
  | nil => exact .inl rfl
  | cons l ls ih =>
    cases hl : l.all isBlank with
    | false => exact .inr ⟨l, ls, List.suffix_rfl, hl, spread_cons_of_content hl⟩
    | true =>
      rw [spread_cons_of_blank hl]
      rcases ih (gap + 1) with h | ⟨y, ls', hsuf, hy⟩
      · exact .inl h
      · exact .inr ⟨y, ls', hsuf.trans (List.suffix_cons _ _), hy⟩

/-- Lines that are laid out stay as they are. -/
theorem spread_of_spaced (h : Spaced (l :: ls)) : spread (some (.ofLine l)) 0 ls = ls := by
  generalize hx : l :: ls = xs at h
  induction h generalizing l ls with
  | single =>
    obtain ⟨rfl, rfl⟩ := List.cons.inj hx
    rfl
  | next _ _ close below ih =>
    obtain ⟨rfl, rfl⟩ := List.cons.inj hx
    obtain ⟨hc, ht⟩ := below.head
    rw [spread_cons_of_content hc, margin, Option.elim_some, close, ht, ih rfl]
    rfl
  | parted _ _ apart below ih =>
    obtain ⟨rfl, rfl⟩ := List.cons.inj hx
    obtain ⟨hc, ht⟩ := below.head
    rw [spread_cons_of_blank rfl, spread_cons_of_content hc, margin, Option.elim_some, apart, ht,
      ih rfl]
    rfl

theorem eq_of_replicate_append {p q : Nat} {xs ys : List Text} (hl : l ≠ []) (hl' : l' ≠ [])
    (h : List.replicate p [] ++ l :: xs = List.replicate q [] ++ l' :: ys) :
    p = q ∧ l = l' ∧ xs = ys := by
  induction p generalizing q with
  | zero =>
    cases q with
    | zero => exact ⟨rfl, List.cons.inj h⟩
    | succ q => exact absurd (List.cons.inj h).1 hl
  | succ p ih =>
    cases q with
    | zero => exact absurd (List.cons.inj h).1.symm hl'
    | succ q =>
      obtain ⟨rfl, hrest⟩ := ih (List.cons.inj h).2
      exact ⟨rfl, hrest⟩

/-- Where a line with content stays as it is below `p` empty lines, `p` is the separation and the
lines below it stay as they are. -/
theorem separation_of_spread {k : LineKind} {p : Nat} (hc : l.all isBlank = false)
    (h : spread (some k) gap (l :: ls) = List.replicate p [] ++ l :: ls) :
    separation k (.ofLine l) gap = p ∧ trimRight l = l ∧ spread (some (.ofLine l)) 0 ls = ls := by
  have hne : trimRight l ≠ [] := by simp [trimRight_eq_nil_iff, hc]
  rw [spread_cons_of_content hc, margin, Option.elim_some] at h
  exact eq_of_replicate_append hne (ne_nil_of_content hc) h

/-- Lines that stay as they are are laid out. -/
theorem spaced_of_spread (hc : l.all isBlank = false) (ht : trimRight l = l)
    (h : spread (some (.ofLine l)) 0 ls = ls) : Spaced (l :: ls) := by
  generalize hn : ls.length = n
  induction n using Nat.strongRecOn generalizing l ls with
  | ind n ih =>
    have htrim : ∀ x ∈ ls, trimRight x = x := fun x hx => trimRight_of_mem_spread (h.symm ▸ hx)
    have hparted : (l :: (ls ++ List.replicate 0 [])).IsChain Parted := by
      rw [← h]
      exact isChain_parted_spread (ne_nil_of_content hc) (Nat.zero_le 1)
    rw [List.replicate_zero, List.append_nil] at hparted
    cases ls with
    | nil => exact .single hc ht
    | cons l' ls =>
      cases hc' : l'.all isBlank with
      | false =>
        obtain ⟨hsep, ht', hrest⟩ := separation_of_spread (p := 0) hc' h
        exact .next hc ht hsep (ih ls.length (by simp [← hn]) hc' ht' hrest rfl)
      | true =>
        obtain rfl : l' = [] := eq_nil_of_blank hc' (htrim _ List.mem_cons_self)
        rw [spread_cons_of_blank hc'] at h
        -- A second empty line cannot follow, so the next line has content.
        cases ls with
        | nil => exact absurd h (by simp [spread])
        | cons l₂ ls =>
          have hp := (List.isChain_cons_cons.1 (List.isChain_cons_cons.1 hparted).2).1
          have hne : l₂ ≠ [] := hp.resolve_left fun hnil => hnil rfl
          have hc₂ := content_of_ne_nil hne (htrim l₂ (by simp))
          have hlt : ls.length < n := by
            rw [← hn, List.length_cons, List.length_cons]
            omega
          obtain ⟨hsep, ht₂, hrest⟩ := separation_of_spread (p := 1) hc₂ h
          exact .parted hc ht hsep (ih ls.length hlt hc₂ ht₂ hrest rfl)

end Layout

/-! ### Lines next to each other -/

theorem separation_zero_eq_zero_iff {above below : LineKind} : separation above below 0 = 0 ↔
    above ≠ .heading ∧ below ≠ .heading ∧ (above = .listItem → below ≠ .other) := by
  cases above <;> cases below <;> decide

theorem separation_one_eq_one_iff {above below : LineKind} :
    separation above below 1 = 1 ↔ (above = .listItem → below ≠ .listItem) := by
  cases above <;> cases below <;> decide

/-- What spacing asks of lines that stand next to each other. -/
structure WellSpaced (ls : List Text) : Prop where
  ends : ∀ l ∈ ls, ∀ c ∈ l.getLast?, isBlank c = false
  empties : ¬[[], []] <:+: ls
  below_heading : ∀ l l', [l, l'] <:+: ls → LineKind.ofLine l = .heading → l' = []
  above_heading : ∀ l l', [l, l'] <:+: ls → LineKind.ofLine l' = .heading → l = []
  prose : ∀ l l', [l, l'] <:+: ls → LineKind.ofLine l = .listItem → LineKind.ofLine l' ≠ .other
  items : ∀ l l', [l, [], l'] <:+: ls → LineKind.ofLine l = .listItem →
    LineKind.ofLine l' ≠ .listItem

theorem pair_infix_cons {a b x y : Text} {zs : List Text} (h : [a, b] <:+: x :: y :: zs) :
    (a = x ∧ b = y) ∨ [a, b] <:+: y :: zs := by
  rcases List.infix_cons_iff.1 h with hpre | hinf
  · obtain ⟨hx, hpre⟩ := List.cons_prefix_cons.1 hpre
    exact .inl ⟨hx, (List.cons_prefix_cons.1 hpre).1⟩
  · exact .inr hinf

theorem triple_infix_cons {a b c x y : Text} {zs : List Text} (h : [a, b, c] <:+: x :: y :: zs) :
    (a = x ∧ b = y ∧ ∃ zs', zs = c :: zs') ∨ [a, b, c] <:+: y :: zs := by
  rcases List.infix_cons_iff.1 h with hpre | hinf
  · obtain ⟨hx, hpre⟩ := List.cons_prefix_cons.1 hpre
    obtain ⟨hy, zs', hz⟩ := List.cons_prefix_cons.1 hpre
    exact .inl ⟨hx, hy, zs', hz.symm⟩
  · exact .inr hinf

namespace WellSpaced

theorem trimmed (h : WellSpaced ls) : ∀ l ∈ ls, trimRight l = l :=
  fun l hl => trimRight_eq_self_iff.2 (h.ends l hl)

theorem tail (h : WellSpaced (l :: ls)) : WellSpaced ls where
  ends x hx := h.ends x (List.mem_cons_of_mem l hx)
  empties hinf := h.empties (List.infix_cons hinf)
  below_heading x y hinf := h.below_heading x y (List.infix_cons hinf)
  above_heading x y hinf := h.above_heading x y (List.infix_cons hinf)
  prose x y hinf := h.prose x y (List.infix_cons hinf)
  items x y hinf := h.items x y (List.infix_cons hinf)

theorem singleton (ht : trimRight l = l) : WellSpaced [l] := by
  have hpair : ∀ {a b : Text}, ¬[a, b] <:+: [l] := fun h => absurd h.length_le (by simp)
  have htriple : ∀ {a b c : Text}, ¬[a, b, c] <:+: [l] := fun h => absurd h.length_le (by simp)
  refine ⟨fun x hx => ?_, hpair, fun _ _ h => absurd h hpair, fun _ _ h => absurd h hpair,
    fun _ _ h => absurd h hpair, fun _ _ h => absurd h htriple⟩
  rw [List.mem_singleton.1 hx]
  exact trimRight_eq_self_iff.1 ht

/-- A line put above well-spaced lines has only the next two lines to respect. -/
theorem cons (h : WellSpaced (l' :: ls)) (ht : trimRight l = l) (hempty : l ≠ [] ∨ l' ≠ [])
    (hbelow : LineKind.ofLine l = .heading → l' = [])
    (habove : LineKind.ofLine l' = .heading → l = [])
    (hprose : LineKind.ofLine l = .listItem → LineKind.ofLine l' ≠ .other)
    (hitems : LineKind.ofLine l = .listItem → l' = [] → ∀ x xs, ls = x :: xs →
      LineKind.ofLine x ≠ .listItem) : WellSpaced (l :: l' :: ls) := by
  constructor
  · exact List.forall_mem_cons.2 ⟨trimRight_eq_self_iff.1 ht, h.ends⟩
  · intro hinf
    rcases pair_infix_cons hinf with ⟨rfl, rfl⟩ | hinf
    · exact hempty.elim (fun hne => hne rfl) (fun hne => hne rfl)
    · exact h.empties hinf
  · intro x y hinf
    rcases pair_infix_cons hinf with ⟨rfl, rfl⟩ | hinf
    · exact hbelow
    · exact h.below_heading x y hinf
  · intro x y hinf
    rcases pair_infix_cons hinf with ⟨rfl, rfl⟩ | hinf
    · exact habove
    · exact h.above_heading x y hinf
  · intro x y hinf
    rcases pair_infix_cons hinf with ⟨rfl, rfl⟩ | hinf
    · exact hprose
    · exact h.prose x y hinf
  · intro x y hinf hx
    rcases triple_infix_cons hinf with ⟨rfl, hnil, zs, rfl⟩ | hinf
    · exact hitems hx hnil.symm y zs rfl
    · exact h.items x y hinf hx

end WellSpaced

theorem Spaced.wellSpaced (h : Spaced ls) : WellSpaced ls := by
  have hempty : LineKind.ofLine [] = .blank := rfl
  induction h with
  | single _ ht => exact .singleton ht
  | next hc ht close below ih =>
    obtain ⟨ha, hb, hp⟩ := separation_zero_eq_zero_iff.1 close
    exact ih.cons ht (.inl (ne_nil_of_content hc)) (fun h => absurd h ha) (fun h => absurd h hb) hp
      fun _ h => absurd h (ne_nil_of_content below.head.1)
  | parted hc ht apart below ih =>
    have hitems := separation_one_eq_one_iff.1 apart
    have hne := ne_nil_of_content below.head.1
    have htail := ih.cons (l := []) rfl (.inr hne) (by simp [hempty]) (fun _ => rfl)
      (by simp [hempty]) (by simp [hempty])
    refine htail.cons ht (.inl (ne_nil_of_content hc)) (fun _ => rfl) (by simp [hempty])
      (by simp [hempty]) fun h _ x xs hx => ?_
    obtain ⟨rfl, -⟩ := List.cons.inj hx
    exact hitems h

theorem Spaced.of_wellSpaced (h : WellSpaced (l :: ls)) (hc : l.all isBlank = false)
    (hlast : (l :: ls).getLast? ≠ some []) : Spaced (l :: ls) := by
  generalize hn : ls.length = n
  induction n using Nat.strongRecOn generalizing l ls with
  | ind n ih =>
    have ht := h.trimmed l List.mem_cons_self
    have hne := ne_nil_of_content hc
    cases ls with
    | nil => exact .single hc ht
    | cons l' ls =>
      by_cases hl' : l' = []
      · subst hl'
        cases ls with
        | nil => simp at hlast
        | cons l₂ ls =>
          have htail := h.tail.tail
          have hne₂ : l₂ ≠ [] := by
            rintro rfl
            exact h.tail.empties (List.prefix_append [[], []] ls).isInfix
          have hitems := h.items l l₂ (List.prefix_append [l, [], l₂] ls).isInfix
          have hc₂ := content_of_ne_nil hne₂ (htail.trimmed l₂ List.mem_cons_self)
          have hlt : ls.length < n := by
            rw [← hn, List.length_cons, List.length_cons]
            omega
          refine .parted hc ht (separation_one_eq_one_iff.2 hitems)
            (ih ls.length hlt htail hc₂ ?_ rfl)
          simpa [List.getLast?_cons_cons] using hlast
      · have hpair : [l, l'] <:+: l :: l' :: ls := (List.prefix_append [l, l'] ls).isInfix
        have hsep : separation (.ofLine l) (.ofLine l') 0 = 0 := separation_zero_eq_zero_iff.2
          ⟨fun hk => hl' (h.below_heading l l' hpair hk),
            fun hk => hne (h.above_heading l l' hpair hk), h.prose l l' hpair⟩
        have hc' := content_of_ne_nil hl' (h.tail.trimmed l' List.mem_cons_self)
        refine .next hc ht hsep (ih ls.length (by simp [← hn]) h.tail hc' ?_ rfl)
        simpa [List.getLast?_cons_cons] using hlast

/-! ### Texts that spacing leaves as they are -/

namespace Layout

theorem trim_normalize (t : Text) : trim (normalize t) = normalize t := trim_trim _

theorem normalize_nil : normalize [] = [] := rfl

/-- What is written of a text: nothing, or its first line with content, trimmed, and what comes
after it. -/
theorem normalize_eq (t : Text) : normalize t = [] ∨
    ∃ l ls, (l :: ls) <:+ Text.lines t ∧ l.all isBlank = false ∧
      spread none 0 (Text.lines t) = trimRight l :: spread (some (.ofLine l)) 0 ls ∧
      normalize t = unlines (trim l :: spread (some (.ofLine l)) 0 ls) := by
  rw [normalize_eq_spread]
  rcases spread_none 0 (Text.lines t) with h | ⟨l, ls, hsuf, hl, h⟩
  · exact .inl (by rw [h, unlines_nil, trimLeft_nil])
  · refine .inr ⟨l, ls, hsuf, hl, h, ?_⟩
    rw [h, trimLeft_unlines (by simpa using hl), trimLeft_trimRight]

/-- No line that is written has a line feed. -/
theorem feed_not_mem_of_suffix {t : Text} (h : (l :: ls) <:+ Text.lines t) :
    ∀ x ∈ trim l :: spread (some (.ofLine l)) 0 ls, '\n' ∉ x := by
  have hlines : ∀ x ∈ l :: ls, '\n' ∉ x := fun x hx => feed_not_mem_of_mem_lines (h.subset hx)
  obtain ⟨hl, hls⟩ := List.forall_mem_cons.1 hlines
  exact List.forall_mem_cons.2 ⟨fun hx => hl ((trim_isInfix l).subset hx), feed_not_mem_spread hls⟩

theorem lines_unlines_of_trimmed (hne : ls ≠ []) (hfeed : ∀ x ∈ ls, '\n' ∉ x)
    (ht : ∀ x ∈ ls, trimRight x = x) : Text.lines (unlines ls) = ls :=
  lines_unlines hne fun x hx => ⟨hfeed x hx, getLast?_ne_return (ht x hx)⟩

theorem trimRight_of_mem_written (h : x ∈ trim l :: spread (some (.ofLine l)) gap ls) :
    trimRight x = x := by
  rcases List.mem_cons.1 h with rfl | h
  · exact trimRight_trimRight _
  · exact trimRight_of_mem_spread h

/-- Cutting a text again, the same lines are read as were written. -/
theorem lines_normalize {t : Text} (hsuf : (l :: ls) <:+ Text.lines t)
    (h : normalize t = unlines (trim l :: spread (some (.ofLine l)) 0 ls)) :
    Text.lines (normalize t) = trim l :: spread (some (.ofLine l)) 0 ls := by
  rw [h]
  apply lines_unlines_of_trimmed (List.cons_ne_nil _ _) (feed_not_mem_of_suffix hsuf)
  exact fun x => trimRight_of_mem_written

theorem normalize_unlines (h : Spaced (l :: ls)) (hfeed : ∀ x ∈ l :: ls, '\n' ∉ x) :
    normalize (unlines (l :: ls)) = trimLeft (unlines (l :: ls)) := by
  obtain ⟨hc, ht⟩ := h.head
  have hlines := lines_unlines_of_trimmed (List.cons_ne_nil l ls) hfeed h.wellSpaced.trimmed
  rw [normalize_eq_spread, hlines, spread_cons_of_content hc, ht, spread_of_spaced h]
  rfl

/-- The lines of a text that is left as it is are laid out. -/
theorem wellSpaced_of_normalize (h : normalize b = b) : WellSpaced (splitAtChar '\n' b) := by
  rcases normalize_eq b with hnil | ⟨l, ls, hsuf, hc, hspread, heq⟩
  · obtain rfl : b = [] := h.symm.trans hnil
    exact .singleton rfl
  have hfeed := feed_not_mem_of_suffix hsuf
  have hlines := lines_normalize hsuf heq
  rw [h] at heq hlines
  generalize spread (some (.ofLine l)) 0 ls = rest at *
  have htl : trimRight (trim l) = trim l := trimRight_trimRight _
  have hcl : (trim l).all isBlank = false := by rw [trim]; simpa using hc
  rw [hlines, spread_cons_of_content hcl] at hspread
  obtain ⟨-, hfix⟩ := List.cons.inj hspread
  rw [heq, splitAtChar_unlines (List.cons_ne_nil _ _) hfeed]
  exact (spaced_of_spread hcl htl hfix).wellSpaced

theorem normalize_of_wellSpaced (ht : trim b = b) (h : WellSpaced (splitAtChar '\n' b)) :
    normalize b = b := by
  by_cases hb : b = []
  · rw [hb, normalize_nil]
  have hleft : trimLeft b = b := by rw [← ht, ← trimLeft_trimRight, trimLeft_trimLeft]
  have hright : trimRight b = b := by rw [← ht, trim, trimRight_trimRight]
  have hunlines := unlines_splitAtChar b
  have hfeed : ∀ x ∈ splitAtChar '\n' b, '\n' ∉ x := fun x => not_mem_of_mem_splitAtChar
  obtain ⟨l, ls, hls⟩ := List.exists_cons_of_ne_nil (splitAtChar_ne_nil '\n' b)
  rw [hls] at h hunlines hfeed
  rw [← hunlines] at hb hleft hright ⊢
  have hne := ne_nil_of_trimLeft_unlines hleft hb
  have hc := content_of_ne_nil hne (h.trimmed l List.mem_cons_self)
  have hlast := getLast?_ne_nil_of_trimRight_unlines hright hb
  rw [normalize_unlines (.of_wellSpaced h hc hlast) hfeed, hleft]

/-- Spacing leaves exactly the trimmed texts with well-spaced lines as they are. -/
theorem normalize_eq_self_iff :
    normalize b = b ↔ trim b = b ∧ WellSpaced (splitAtChar '\n' b) :=
  ⟨fun h => ⟨h ▸ trim_normalize b, wellSpaced_of_normalize h⟩,
    fun h => normalize_of_wellSpaced h.1 h.2⟩

/-- Written lines are laid out, as long as no line changes its kind by being trimmed. -/
theorem spaced_spread (hl : l.all isBlank = false)
    (hkind : ∀ x ∈ l :: ls, LineKind.ofLine (trimRight x) = LineKind.ofLine x) :
    Spaced (trimRight l :: spread (some (.ofLine l)) gap ls) := by
  have hc : (trimRight l).all isBlank = false := by simpa using hl
  have ht := trimRight_trimRight l
  obtain ⟨hkl, hks⟩ := List.forall_mem_cons.1 hkind
  induction ls generalizing l gap with
  | nil => exact .single hc ht
  | cons l' ls ih =>
    obtain ⟨hkl', hks'⟩ := List.forall_mem_cons.1 hks
    cases hl' : l'.all isBlank with
    | true =>
      rw [spread_cons_of_blank hl']
      exact ih hl (List.forall_mem_cons.2 ⟨hkl, hks'⟩) hc ht hkl hks'
    | false =>
      have hbelow : Spaced (trimRight l' :: spread (some (.ofLine l')) 0 ls) :=
        ih hl' hks (by simpa using hl') (trimRight_trimRight l') hkl' hks'
      have hle := separation_le_one (.ofLine l) (.ofLine l') gap
      have hsep := separation_separation (.ofLine l) (.ofLine l') gap
      rw [spread_cons_of_content hl', margin, Option.elim_some]
      obtain hs | hs : separation (.ofLine l) (.ofLine l') gap = 0 ∨
          separation (.ofLine l) (.ofLine l') gap = 1 := by omega
      · rw [hs] at hsep ⊢
        exact .next hc ht (by rwa [hkl, hkl']) hbelow
      · rw [hs] at hsep ⊢
        exact .parted hc ht (by rwa [hkl, hkl']) hbelow

theorem trimRight_of_mem_lines {t : Text} (h : x ∈ Text.lines (normalize t)) :
    trimRight x = x := by
  rcases normalize_eq t with hnil | ⟨l, ls, hsuf, -, -, heq⟩
  · rw [hnil] at h
    rw [List.mem_singleton.1 h]
    rfl
  · rw [lines_normalize hsuf heq] at h
    exact trimRight_of_mem_written h

/-- Spacing a text twice is spacing it once, if none of its lines is a bare marker. -/
theorem normalize_normalize {t : Text} (h : ∀ l ∈ Text.lines t, ¬LineKind.BareMarker l) :
    normalize (normalize t) = normalize t := by
  rcases normalize_eq t with hnil | ⟨l, ls, hsuf, hc, -, heq⟩
  · rw [hnil, normalize_nil]
  have hkind : ∀ x ∈ l :: ls, LineKind.ofLine (trimRight x) = LineKind.ofLine x :=
    fun x hx => LineKind.ofLine_trimRight (h x (hsuf.subset hx))
  have hspaced : Spaced (trimRight l :: spread (some (.ofLine l)) 0 ls) := spaced_spread hc hkind
  have hspaced := hspaced.trimLeft_head
  rw [trimLeft_trimRight] at hspaced
  have hfix := normalize_unlines hspaced (feed_not_mem_of_suffix hsuf)
  rw [← heq] at hfix
  rw [hfix, ← trim_normalize t, ← trimLeft_trimRight, trimLeft_trimLeft]

/-- All lines of a spaced text are trimmed, so none of them is a bare marker any more. -/
theorem not_bareMarker_of_mem_lines {t : Text} (h : x ∈ Text.lines (normalize t)) :
    ¬LineKind.BareMarker x :=
  LineKind.not_bareMarker_of_trimRight (trimRight_of_mem_lines h)

/-- The third spacing of a text changes nothing. -/
theorem normalize_normalize_normalize (t : Text) :
    normalize (normalize (normalize t)) = normalize (normalize t) := by
  apply normalize_normalize
  intro l hl
  exact not_bareMarker_of_mem_lines hl

/-- The second one may: a bare marker is a list item until it is trimmed. -/
example : normalize "- a\n- \n- b".toList = "- a\n-\n- b".toList ∧
    normalize "- a\n-\n- b".toList = "- a\n\n-\n- b".toList := by decide

end Layout

end MarkTidy
