import MarkTidy.Proofs.Document.Integrity

/-!
Tokens that were moved or lost. A text is woven of some of the tokens, in any order, and of gaps
without the word that all tokens share. Each token in it is put back to its block, and the others
are told of as lost.
-/

namespace MarkTidy

open Text

variable {nonce u v x : Text} {gaps xs ys : List Text} {order : List Nat} {i j k : Nat}

theorem weave_append_cons (h : ys.length < gaps.length) (x : Text) (zs : List Text) :
    weave gaps (ys ++ x :: zs) =
      weave (gaps.take (ys.length + 1)) ys ++ x ++ weave (gaps.drop (ys.length + 1)) zs := by
  induction ys generalizing gaps with
  | nil =>
    obtain ⟨gap, gaps, rfl⟩ := List.exists_cons_of_length_pos h
    rfl
  | cons y ys ih =>
    obtain ⟨gap, gaps, rfl⟩ := List.exists_cons_of_length_pos (Nat.zero_lt_of_lt h)
    have hrest := ih (Nat.lt_of_succ_lt_succ h)
    simp [weave, hrest]

theorem natural_injective : Function.Injective natural := by
  intro i j h
  simpa [natural] using congrArg (Nat.ofDigitChars 10 · 0) h

theorem eq_of_natural_append_percent (h : natural i ++ '%' :: u = natural j ++ '%' :: v) :
    i = j := by
  have hpre : ∀ {i j u v}, natural i ++ '%' :: u = natural j ++ '%' :: v →
      natural i <+: natural j := by
    intro i j u v h
    have hnumber : '%' ∉ natural i := fun hc =>
      absurd (Fence.natural_subset_hexDigits i hc) (by decide)
    exact (isPrefix_append_cons hnumber).1 (h ▸ List.prefix_append _ _)
  exact natural_injective ((hpre h).eq_of_length_le (hpre h.symm).length_le)

namespace Fence

theorem token_eq_append (nonce : Text) (i : Nat) :
    token nonce i = ['%', '%'] ++ (tokenWord nonce ++ natural i ++ ['%', '%']) := by
  simp [token, tokenStem_eq_append]

theorem backquote_not_mem_tokenWord (hn : nonce ⊆ hexDigits) : '\x60' ∉ tokenWord nonce :=
  fun h => backquote_not_mem_tokenStem hn (tokenStem_eq_append nonce ▸ List.mem_append_right _ h)

/-- The first letter of the word is in no other place of it. -/
theorem exists_tokenWord_eq_cons (hn : nonce ⊆ hexDigits) :
    ∃ r, tokenWord nonce = 'M' :: r ∧ 'M' ∉ r := by
  have hdigit : 'M' ∉ nonce := fun h => absurd (hn h) (by decide)
  have hhead : 'M' ∉ "YLINT-CODE-".toList := by decide
  refine ⟨"YLINT-CODE-".toList ++ (nonce ++ ['-']), tokenWord_eq nonce, ?_⟩
  rw [List.mem_append, List.mem_append, not_or, not_or]
  exact ⟨hhead, hdigit, by decide⟩

/-- The word and a number hold the word once. -/
theorem eq_natural_of_tokenWord (hn : nonce ⊆ hexDigits)
    (h : tokenWord nonce ++ natural i = u ++ tokenWord nonce ++ v) : v = natural i := by
  obtain ⟨r, hr, hletter⟩ := exists_tokenWord_eq_cons hn
  cases u with
  | nil => exact (List.append_cancel_left h).symm
  | cons c u =>
    -- The word would start anew after its first letter, or in the number.
    rw [hr] at h
    have htail : r ++ natural i = u ++ 'M' :: r ++ v := (List.cons.inj h).2
    have hmem : 'M' ∈ r ++ natural i := by simp [htail]
    rcases List.mem_append.1 hmem with hmem | hmem
    · exact absurd hmem hletter
    · exact absurd (natural_subset_hexDigits i hmem) (by decide)

/-! ### Where the word comes up -/

/-- What cannot be taken for token number `j`: a token with another number, or a block in which no
token begins. -/
inductive Foreign (nonce : Text) (j : Nat) : Text → Prop
  | token {i : Nat} : i ≠ j → Foreign nonce j (Fence.token nonce i)
  | block {c : Text} : ¬tokenStem nonce <:+: c → Foreign nonce j (fenced c)

/-- Text before and after the word that is not what token number `j` has there: another number comes
next, or a backquote came before and no percent signs after it. -/
def Harmless (j : Nat) (u v : Text) : Prop :=
  (∃ i r, i ≠ j ∧ v = natural i ++ '%' :: r) ∨ ∃ a b, u = a ++ '\x60' :: b ∧ ¬['%', '%'] <:+ b

theorem Harmless.append_left (h : Harmless j u v) (a : Text) : Harmless j (a ++ u) v := by
  rcases h with hnumber | ⟨a', b, rfl, hb⟩
  · exact .inl hnumber
  · exact .inr ⟨a ++ a', b, by simp, hb⟩

theorem not_mem_tokenWord_of_percents (hn : nonce ⊆ hexDigits) :
    ∀ c ∈ ['%', '%'], c ∉ tokenWord nonce := by
  simpa using percent_not_mem_tokenWord hn

/-- After a gap without the word and a foreign word, the word comes up in the foreign word or behind
it. -/
theorem Foreign.harmless_or (hx : Foreign nonce j x) (hn : nonce ⊆ hexDigits) {gap t : Text}
    (hgap : ¬tokenWord nonce <:+: gap) (h : u ++ tokenWord nonce ++ v = gap ++ x ++ t) :
    Harmless j u v ∨ ∃ y, u = gap ++ x ++ y ∧ y ++ tokenWord nonce ++ v = t := by
  have hne := tokenWord_ne_nil nonce
  cases hx with
  | @token i hi =>
    have hpercents := not_mem_tokenWord_of_percents hn
    have hcut : u ++ tokenWord nonce ++ v =
        gap ++ (['%', '%'] ++ ((tokenWord nonce ++ natural i) ++ (['%', '%'] ++ t))) := by
      simp [h, token_eq_append]
    rcases append_eq_append_stretch hne hpercents (List.cons_ne_nil _ _) hcut with
      ⟨y, hy, -⟩ | ⟨y, rfl, hy⟩
    · exact absurd ⟨u, y, hy.symm⟩ hgap
    rcases append_eq_append_stretch hne hpercents (List.cons_ne_nil _ _) hy.symm with
      ⟨z, hz, rfl⟩ | ⟨z, rfl, hz⟩
    · obtain rfl := eq_natural_of_tokenWord hn hz
      exact .inl (.inl ⟨i, _, hi, rfl⟩)
    · exact .inr ⟨z, by simp [token_eq_append], hz.symm⟩
  | @block c hc =>
    have hquotes : ∀ c ∈ mark, c ∉ tokenWord nonce := by
      simpa [mark] using backquote_not_mem_tokenWord hn
    have hcut : u ++ tokenWord nonce ++ v = gap ++ (mark ++ (c ++ (mark ++ t))) := by
      simp [h, fenced]
    rcases append_eq_append_stretch hne hquotes mark_ne_nil hcut with ⟨y, hy, -⟩ | ⟨y, rfl, hy⟩
    · exact absurd ⟨u, y, hy.symm⟩ hgap
    rcases append_eq_append_stretch hne hquotes mark_ne_nil hy.symm with
      ⟨z, rfl, -⟩ | ⟨z, rfl, hz⟩
    · refine .inl (.inr ⟨gap ++ ['\x60', '\x60'], y, by simp [mark], ?_⟩)
      rintro ⟨y, rfl⟩
      exact hc ⟨y, z, by simp [tokenStem_eq_append]⟩
    · exact .inr ⟨z, by simp [fenced], hz.symm⟩

/-- Wherever the word comes up among foreign words, it is not that of token number `j`. -/
theorem harmless_of_weave (hn : nonce ⊆ hexDigits) (hgaps : ∀ s ∈ gaps, ¬tokenWord nonce <:+: s)
    (hxs : ∀ x ∈ xs, Foreign nonce j x) (h : u ++ tokenWord nonce ++ v = weave gaps xs) :
    Harmless j u v := by
  induction xs generalizing gaps u with
  | nil =>
    cases gaps with
    | nil => simp [weave, tokenWord_ne_nil] at h
    | cons gap gaps => exact absurd ⟨u, v, h⟩ (hgaps gap List.mem_cons_self)
  | cons x xs ih =>
    obtain ⟨hx, hxs⟩ := List.forall_mem_cons.1 hxs
    cases gaps with
    | nil => simp [weave, tokenWord_ne_nil] at h
    | cons gap gaps =>
      obtain ⟨hgap, hgaps⟩ := List.forall_mem_cons.1 hgaps
      rcases hx.harmless_or hn hgap h with hharmless | ⟨y, rfl, hy⟩
      · exact hharmless
      · exact (ih hgaps hxs hy).append_left (gap ++ x)

/-- A token does not come up among foreign words, nor together with the first characters of that
token after them. -/
theorem not_token_infix (hn : nonce ⊆ hexDigits) (hgaps : ∀ s ∈ gaps, ¬tokenWord nonce <:+: s)
    (hxs : ∀ x ∈ xs, Foreign nonce j x) :
    ¬token nonce j <:+: weave gaps xs ++ (token nonce j).dropLast := by
  rintro ⟨u, v, h⟩
  have hlast : (token nonce j).dropLast =
      ['%', '%'] ++ (tokenWord nonce ++ natural j ++ ['%']) := by
    rw [token_eq_append, ← List.append_assoc, List.dropLast_append_of_ne_nil (by simp)]
    simp
  have hcut : (u ++ ['%', '%']) ++ tokenWord nonce ++ (natural j ++ '%' :: '%' :: v) =
      weave gaps xs ++ (['%', '%'] ++ (tokenWord nonce ++ natural j ++ ['%'])) := by
    rw [← hlast, ← h]
    simp [token_eq_append]
  rcases append_eq_append_stretch (tokenWord_ne_nil nonce) (not_mem_tokenWord_of_percents hn)
      (List.cons_ne_nil _ _) hcut with ⟨y, hy, hv⟩ | ⟨y, -, hy⟩
  · rcases harmless_of_weave hn hgaps hxs hy.symm with ⟨i, r, hi, rfl⟩ | ⟨a, b, hu, hb⟩
    · rw [List.append_assoc, List.cons_append] at hv
      exact hi (eq_of_natural_append_percent hv).symm
    · -- The percent signs of the token would come after the last fence.
      have hsplit : u ++ ['%', '%'] ++ [] = a ++ '\x60' :: b := by rw [List.append_nil, hu]
      rcases append_eq_append_cons (by decide) hsplit with ⟨z, -, hz⟩ | ⟨z, -, rfl⟩
      · simp at hz
      · exact hb ⟨z, by simp⟩
  · have hlen := congrArg List.length hy
    simp only [List.length_append, List.length_cons, List.length_nil] at hlen
    omega

/-- The first place of a token among foreign words is where it was put. -/
theorem breakOn_token (hn : nonce ⊆ hexDigits) (hgaps : ∀ s ∈ gaps, ¬tokenWord nonce <:+: s)
    (hxs : ∀ x ∈ xs, Foreign nonce j x) (r : Text) :
    breakOn (token nonce j) (weave gaps xs ++ token nonce j ++ r) = some (weave gaps xs, r) := by
  have hne : token nonce j ≠ [] := by simp [token_eq_append]
  exact (breakOn_eq_some_iff hne).2 ⟨rfl, not_token_infix hn hgaps hxs⟩

theorem breakOn_token_eq_none (hn : nonce ⊆ hexDigits)
    (hgaps : ∀ s ∈ gaps, ¬tokenWord nonce <:+: s) (hxs : ∀ x ∈ xs, Foreign nonce j x) :
    breakOn (token nonce j) (weave gaps xs) = none :=
  breakOn_eq_none_iff.2 fun hinf =>
    not_token_infix hn hgaps hxs (hinf.trans (List.prefix_append _ _).isInfix)

/-! ### One token after another -/

/-- What stands for number `i` when the first `k` tokens have been looked for. -/
def stage (nonce : Text) (block : Nat → Text) (k i : Nat) : Text :=
  if i < k then block i else token nonce i

variable {block : Nat → Text}

theorem stage_of_lt (h : i < k) : stage nonce block k i = block i := if_pos h

theorem stage_of_le (h : k ≤ i) : stage nonce block k i = token nonce i := if_neg (Nat.not_lt.2 h)

theorem foreign_stage (hblock : ∀ i ∈ order, ∃ c, block i = fenced c ∧ ¬tokenStem nonce <:+: c)
    (hi : i ∈ order) (hij : i ≠ j) : Foreign nonce j (stage nonce block k i) := by
  rcases Nat.lt_or_ge i k with h | h
  · obtain ⟨c, hc, hstem⟩ := hblock i hi
    rw [stage_of_lt h, hc]
    exact .block hstem
  · rw [stage_of_le h]
    exact .token hij

theorem map_stage_succ (hk : k ∉ order) :
    order.map (stage nonce block k) = order.map (stage nonce block (k + 1)) := by
  refine List.map_congr_left fun i hi => ?_
  have hne : i ≠ k := fun h => hk (h ▸ hi)
  have hiff : i < k ↔ i < k + 1 := by omega
  simp only [stage, hiff]

/-- One step: the token is replaced where it stands, or it is not found. -/
theorem replaceFirst?_stage (hn : nonce ⊆ hexDigits)
    (hgaps : ∀ s ∈ gaps, ¬tokenWord nonce <:+: s) (hlen : gaps.length = order.length + 1)
    (hnodup : order.Nodup)
    (hblock : ∀ i ∈ order, ∃ c, block i = fenced c ∧ ¬tokenStem nonce <:+: c) (k : Nat) :
    replaceFirst? (token nonce k) (block k) (weave gaps (order.map (stage nonce block k))) =
      if k ∈ order then some (weave gaps (order.map (stage nonce block (k + 1)))) else none := by
  split
  · next hk =>
    obtain ⟨before, after, rfl⟩ := List.append_of_mem hk
    have hnot : k ∉ before ++ after := (List.nodup_cons.1 (List.nodup_middle.1 hnodup)).1
    obtain ⟨hbefore, hafter⟩ := not_or.1 (List.mem_append.not.1 hnot)
    have hforeign : ∀ x ∈ before.map (stage nonce block k), Foreign nonce k x := by
      refine List.forall_mem_map.2 fun i hi => ?_
      exact foreign_stage hblock (List.mem_append_left _ hi) fun h => hbefore (h ▸ hi)
    have hcut : ∀ f : Nat → Text, weave gaps ((before ++ k :: after).map f) =
        weave (gaps.take (before.length + 1)) (before.map f) ++ f k ++
          weave (gaps.drop (before.length + 1)) (after.map f) := by
      intro f
      have hlt : (before.map f).length < gaps.length := by
        simp only [List.length_map, List.length_append, List.length_cons] at hlen ⊢
        omega
      simpa using weave_append_cons hlt (f k) (after.map f)
    rw [replaceFirst?, hcut, hcut, stage_of_le (Nat.le_refl k), stage_of_lt (Nat.lt_succ_self k),
      breakOn_token hn (fun s hs => hgaps s (List.mem_of_mem_take hs)) hforeign, Option.map_some,
      map_stage_succ hbefore, map_stage_succ hafter]
  · next hk =>
    have hforeign : ∀ x ∈ order.map (stage nonce block k), Foreign nonce k x := by
      refine List.forall_mem_map.2 fun i hi => ?_
      exact foreign_stage hblock hi fun h => hk (h ▸ hi)
    rw [replaceFirst?, breakOn_token_eq_none hn hgaps hforeign, Option.map_none]

/-- A whole run: the tokens that are there become their blocks, the others are told of. -/
theorem restoreFrom_stage (hn : nonce ⊆ hexDigits)
    (hgaps : ∀ s ∈ gaps, ¬tokenWord nonce <:+: s) (hlen : gaps.length = order.length + 1)
    (hnodup : order.Nodup)
    (hblock : ∀ i ∈ order, ∃ c, block i = fenced c ∧ ¬tokenStem nonce <:+: c) (k m : Nat) :
    Protected.restoreFrom nonce k ((List.range' k m).map block)
        (weave gaps (order.map (stage nonce block k))) =
      (weave gaps (order.map (stage nonce block (k + m))),
        (List.range' k m).filter (· ∉ order)) := by
  induction m generalizing k with
  | zero => rfl
  | succ m ih =>
    have hrest := ih (k + 1)
    rw [Nat.add_right_comm, Nat.add_assoc] at hrest
    rw [List.range'_succ, List.map_cons, Protected.restoreFrom,
      replaceFirst?_stage hn hgaps hlen hnodup hblock k]
    by_cases hk : k ∈ order
    · rw [if_pos hk, List.filter_cons_of_neg (by simpa using hk)]
      exact hrest
    · rw [if_neg hk, map_stage_succ hk, List.filter_cons_of_pos (by simpa using hk)]
      dsimp only
      rw [hrest]

end Fence

namespace Protected

/-- Some of the tokens of a document, in any order and without repetition, woven with any gaps that
do not have the word of its tokens: each token is put back to its block and the gaps stay as they
are. The tokens that are not there are told of once each, in order. -/
theorem restore_scattered {drawn : List Text} (hdrawn : ∀ n ∈ drawn, IsNonce n) (d : Text) :
    let p := ofText drawn d
    ∀ (order : List (Fin p.blocks.length)) (gaps : List Text), order.Nodup →
      gaps.length = order.length + 1 →
      (∀ s ∈ gaps, occursIn (Fence.tokenWord p.nonce) s = false) →
      p.restore (weave gaps (order.map fun i => p.token i.val)) =
        (weave gaps (order.map p.blocks.get),
          (List.range p.blocks.length).filter (· ∉ order.map Fin.val)) := by
  obtain ⟨front, nonce, cs, w, hd⟩ := exists_shape hdrawn d
  intro p order gaps hnodup hlen hgaps
  obtain ⟨hnonce, hblocks⟩ : p.nonce = nonce ∧ p.blocks = cs.map Fence.fenced := by
    rw [show p = _ from hd.protected_eq]
    exact ⟨rfl, rfl⟩
  have hn : p.nonce ⊆ hexDigits := hnonce ▸ hd.hex
  have hblock : ∀ i ∈ order.map Fin.val, ∃ c,
      p.blocks[i]?.getD [] = Fence.fenced c ∧ ¬Fence.tokenStem p.nonce <:+: c := by
    intro i hi
    obtain ⟨j, -, rfl⟩ := List.mem_map.1 hi
    have hmem : p.blocks[j] ∈ cs.map Fence.fenced := hblocks ▸ List.getElem_mem j.isLt
    obtain ⟨c, hc, heq⟩ := List.mem_map.1 hmem
    refine ⟨c, by simp [heq], fun hinf => hd.free ?_⟩
    rw [hnonce] at hinf
    exact hd.weaves.slots.infix_fill_source (Fence.tokenStem_ne_nil nonce)
      (backquote_not_mem_tokenStem hd.hex) hc hinf
  have hrun := Fence.restoreFrom_stage hn (fun s hs => occursIn_eq_false_iff.1 (hgaps s hs))
    (by simpa using hlen) (hnodup.map fun _ _ => Fin.ext) hblock 0 p.blocks.length
  have hall : (List.range' 0 p.blocks.length).map (fun i => p.blocks[i]?.getD []) = p.blocks := by
    refine List.ext_getElem (by simp) fun i hi hi' => ?_
    simp [hi']
  have hstart : (order.map Fin.val).map (Fence.stage p.nonce (fun i => p.blocks[i]?.getD []) 0) =
      order.map fun i => p.token i.val := by
    rw [List.map_map]
    exact List.map_congr_left fun i _ => Fence.stage_of_le (Nat.zero_le i.val)
  have hend : (order.map Fin.val).map
      (Fence.stage p.nonce (fun i => p.blocks[i]?.getD []) (0 + p.blocks.length)) =
        order.map p.blocks.get := by
    rw [List.map_map]
    refine List.map_congr_left fun i _ => ?_
    rw [Function.comp_apply, Fence.stage_of_lt (by omega)]
    simp
  rw [hall, hstart, hend, ← List.range_eq_range'] at hrun
  exact hrun

/-- Of three tokens the last comes first and the second is lost. A block holds the lost token but
for its first percent sign. -/
theorem restore_scattered_sample :
    let nonce := "00000000000000ff".toList
    let first := Fence.fenced "%MYLINT-CODE-00000000000000ff-1%%".toList
    let d := first ++ Fence.fenced ['b'] ++ Fence.fenced ['c']
    let gaps := ["%%MYLINT-CODE".toList, ['%'], "-1%%".toList]
    (∀ n ∈ [nonce], IsNonce n) ∧
      (ofText [nonce] d).restore (weave gaps [Fence.token nonce 2, Fence.token nonce 0]) =
        (weave gaps [Fence.fenced ['c'], first], [1]) := by
  intro nonce first d gaps
  have hdrawn : ∀ n ∈ [nonce], IsNonce n := by
    intro n hn
    rw [List.mem_singleton.1 hn]
    exact ⟨rfl, by decide⟩
  have hchars : first = Fence.fenced _ := congrArg Fence.fenced String.toList_ofList
  have hp : ofText [nonce] d = ⟨[], Fence.token nonce 0 ++ Fence.token nonce 1 ++
      Fence.token nonce 2, [first, Fence.fenced ['b'], Fence.fenced ['c']], nonce⟩ := by
    simp only [d]
    rw [hchars]
    decide
  have hrestore := restore_scattered hdrawn d
  rw [hp] at hrestore
  rw [hp]
  exact ⟨hdrawn, hrestore [2, 0] gaps (by decide) rfl (by decide)⟩

end Protected

end MarkTidy
