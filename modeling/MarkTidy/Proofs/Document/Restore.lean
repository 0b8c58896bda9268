import MarkTidy.Proofs.Document.Knot
import MarkTidy.Proofs.Document.Nonce

/-!
Putting the blocks back. A token's stem cannot overlap itself, so its first occurrence is where the
token was put, as long as the text before it has no stem; and where the gaps and the blocks have no
stem, neither has the text they are put together to.
-/

namespace MarkTidy

open Text Template

variable {nonce a u w r x z : Text} {c : Char}

/-! ### Words that do not overlap themselves -/

/-- No proper end of the word is also its beginning. -/
def Unbordered (w : Text) : Prop := ∀ y, y ≠ [] → y <:+ w → y <+: w → y = w

theorem unbordered_of_double (hc : c ∉ r) (hr : r ≠ []) : Unbordered (c :: c :: r) := by
  intro y hy hsuf hpre
  rcases List.suffix_cons_iff.1 hsuf with rfl | hsuf'
  · rfl
  rcases List.suffix_cons_iff.1 hsuf' with rfl | hr'
  · obtain ⟨d, s, rfl⟩ := List.exists_cons_of_ne_nil hr
    obtain ⟨-, h⟩ := List.cons_prefix_cons.1 hpre
    obtain ⟨rfl, -⟩ := List.cons_prefix_cons.1 h
    exact absurd List.mem_cons_self hc
  · obtain ⟨d, s, rfl⟩ := List.exists_cons_of_ne_nil hy
    obtain ⟨rfl, -⟩ := List.cons_prefix_cons.1 hpre
    exact absurd (hr'.subset List.mem_cons_self) hc

/-- A word that starts with an unbordered one is found right after a text without that one. -/
theorem breakOn_of_unbordered (hw : Unbordered w) (hne : w ≠ []) (ha : ¬w <:+: a) (z r : Text) :
    breakOn (w ++ z) (a ++ (w ++ z) ++ r) = some (a, r) := by
  refine (breakOn_eq_some_iff (List.append_ne_nil_of_left_ne_nil hne z)).2 ⟨rfl, ?_⟩
  rintro ⟨u, v, h⟩
  have hlen := congrArg List.length h
  have hpos := List.length_pos_of_ne_nil hne
  simp only [List.length_append, List.length_dropLast] at hlen
  rw [List.append_assoc] at h
  have hu : u <+: a ++ (w ++ z).dropLast := h ▸ List.prefix_append _ _
  obtain ⟨x, rfl⟩ : u <+: a :=
    List.prefix_of_prefix_length_le hu (List.prefix_append _ _) (by omega)
  rw [List.append_assoc, List.append_assoc] at h
  -- An occurrence that starts in `a` either ends there or reaches into the token.
  rcases List.append_eq_append_iff.1 (List.append_cancel_left h) with ⟨y, rfl, -⟩ | ⟨y, hwy, hy⟩
  · exact ha ⟨u, y, by simp⟩
  by_cases hnil : y = []
  · exact ha ⟨u, [], by simp [hwy, hnil]⟩
  -- The occurrence would straddle the end of `a`, and the part beyond it would be a border.
  have hyz : y <+: w ++ z := (hy ▸ List.prefix_append y (z ++ v)).trans (List.dropLast_prefix _)
  have hywlen : y.length ≤ w.length := by simp [hwy]
  have hpre : y <+: w := List.prefix_of_prefix_length_le hyz (List.prefix_append w z) hywlen
  have hyw : y = w := hw y hnil ⟨x, hwy.symm⟩ hpre
  have hx : x = [] := by simpa [hyw] using hwy
  simp only [hx, List.length_append, List.length_nil] at hlen
  omega

/-! ### What tokens are made of -/

namespace Fence

/-- The word in every token with this nonce, between the percent signs and the number. -/
def tokenWord (nonce : Text) : Text := "MYLINT-CODE-".toList ++ nonce ++ ['-']

theorem tokenWord_eq (nonce : Text) : tokenWord nonce = "MYLINT-CODE-".toList ++ (nonce ++ ['-']) :=
  List.append_assoc _ _ _

theorem tokenWord_ne_nil (nonce : Text) : tokenWord nonce ≠ [] := nofun

theorem tokenStem_eq_append (nonce : Text) : tokenStem nonce = ['%', '%'] ++ tokenWord nonce := by
  have hstem : tokenStem nonce = '%' :: '%' :: ("MYLINT-CODE-".toList ++ (nonce ++ ['-'])) :=
    tokenStem_eq nonce
  rw [hstem, ← tokenWord_eq]
  rfl

theorem percent_not_mem_tokenWord (hn : nonce ⊆ hexDigits) : '%' ∉ tokenWord nonce := by
  have hdigit : '%' ∉ nonce := fun h => absurd (hn h) (by decide)
  have hhead : '%' ∉ "MYLINT-CODE-".toList := by decide
  rw [tokenWord_eq, List.mem_append, List.mem_append, not_or, not_or]
  exact ⟨hhead, hdigit, by decide⟩

end Fence

def tokenAlphabet : Text := "%MYLINT-CODE".toList ++ hexDigits

theorem not_blank_of_mem_tokenAlphabet : ∀ c ∈ tokenAlphabet, isBlank c = false :=
  List.all_iff_forall_prop.1 rfl

theorem not_delimiting_of_mem_tokenAlphabet : ∀ c ∈ tokenAlphabet, c ∉ delimiting :=
  List.all_iff_forall_prop.1 rfl

theorem not_written_of_mem_tokenAlphabet : ∀ c ∈ tokenAlphabet, c ∉ ['$', '\n', '\x60'] :=
  List.all_iff_forall_prop.1 rfl

theorem hexDigits_subset_tokenAlphabet : hexDigits ⊆ tokenAlphabet := List.subset_append_right _ _

theorem tokenStem_subset (hn : nonce ⊆ hexDigits) : Fence.tokenStem nonce ⊆ tokenAlphabet := by
  have hhead : Fence.stemHead ⊆ tokenAlphabet := by decide
  have hdash : '-' ∈ tokenAlphabet := by decide
  rw [Fence.tokenStem_eq]
  refine List.append_subset.2 ⟨hhead, List.append_subset.2 ⟨?_, ?_⟩⟩
  · exact List.Subset.trans hn hexDigits_subset_tokenAlphabet
  · exact List.cons_subset.2 ⟨hdash, List.nil_subset _⟩

theorem token_subset (hn : nonce ⊆ hexDigits) (i : Nat) : Fence.token nonce i ⊆ tokenAlphabet := by
  have hpercents : ['%', '%'] ⊆ tokenAlphabet := by decide
  refine List.append_subset.2 ⟨List.append_subset.2 ⟨tokenStem_subset hn, ?_⟩, hpercents⟩
  exact List.Subset.trans (Fence.natural_subset_hexDigits i) hexDigits_subset_tokenAlphabet

theorem plain_tokenStem (hn : nonce ⊆ hexDigits) : Plain (Fence.tokenStem nonce) where
  ne_nil := Fence.tokenStem_ne_nil nonce
  dollar h := not_written_of_mem_tokenAlphabet _ (tokenStem_subset hn h) (by decide)
  feed h := not_written_of_mem_tokenAlphabet _ (tokenStem_subset hn h) (by decide)

theorem backquote_not_mem_tokenStem (hn : nonce ⊆ hexDigits) : '\x60' ∉ Fence.tokenStem nonce :=
  fun h => not_written_of_mem_tokenAlphabet _ (tokenStem_subset hn h) (by decide)

theorem unbordered_tokenStem (hn : nonce ⊆ hexDigits) : Unbordered (Fence.tokenStem nonce) := by
  rw [Fence.tokenStem_eq_append]
  exact unbordered_of_double (Fence.percent_not_mem_tokenWord hn) (Fence.tokenWord_ne_nil nonce)

/-! ### What may fill a slot -/

namespace Knot

/-- One backquote, to part the gaps. -/
def seam (_ : Knot) : Text := ['\x60']

/-- The text between the fences. -/
def content : Knot → Text
  | block _ c => c
  | unclosed => []

theorem inert_backquote : LineKind.Inert '\x60' where
  not_blank := by decide
  not_digit := by decide
  not_mark := by decide

theorem inert_percent : LineKind.Inert '%' where
  not_blank := by decide
  not_digit := by decide
  not_mark := by decide

theorem solid_seam (b : Knot) : Solid b.seam := by
  rw [seam]
  exact ⟨⟨_, _, rfl, inert_backquote⟩, List.all_iff_forall_prop.1 rfl,
    List.all_iff_forall_prop.1 rfl⟩

theorem solid_stub (b : Knot) : Solid b.stub := by
  rw [stub]
  exact ⟨⟨_, _, rfl, inert_backquote⟩, List.all_iff_forall_prop.1 rfl,
    List.all_iff_forall_prop.1 rfl⟩

theorem solid_token (hn : nonce ⊆ hexDigits) (b : Knot) : Solid (b.token nonce) := by
  cases b with
  | block i c =>
    have hsub := token_subset hn i
    exact ⟨⟨'%', _, rfl, inert_percent⟩, fun d hd => not_blank_of_mem_tokenAlphabet d (hsub hd),
      fun d hd => not_delimiting_of_mem_tokenAlphabet d (hsub hd)⟩
  | unclosed =>
    rw [token, write]
    exact ⟨⟨'\x60', _, rfl, inert_backquote⟩, List.all_iff_forall_prop.1 rfl,
      List.all_iff_forall_prop.1 rfl⟩

theorem infix_backquote_cons_iff (hu : u ≠ []) (hq : '\x60' ∉ u) :
    u <:+: '\x60' :: r ↔ u <:+: r := by
  have h := infix_append_cons (a := []) (b := r) hq
  simpa [hu] using h

/-- A word without backquotes does not reach over the fences of a block. -/
theorem infix_append_source_iff (hu : u ≠ []) (hq : '\x60' ∉ u) (b : Knot) :
    u <:+: a ++ (b.source ++ r) ↔ u <:+: a ∨ u <:+: b.content ∨ u <:+: r := by
  cases b with
  | block i c =>
    have h : a ++ ((block i c).source ++ r) =
        a ++ '\x60' :: '\x60' :: '\x60' :: (c ++ '\x60' :: '\x60' :: '\x60' :: r) := by
      simp [source, write, Fence.fenced, Fence.mark]
    simp only [h, infix_append_cons hq, infix_backquote_cons_iff hu hq, content]
  | unclosed =>
    have h : a ++ (unclosed.source ++ r) = a ++ '\x60' :: '\x60' :: '\x60' :: r := by
      simp [source, write, Fence.mark]
    simp only [h, infix_append_cons hq, infix_backquote_cons_iff hu hq, content]
    simp [hu]

end Knot

variable {w v : Template Knot} {k : Nat} {cs : List Text}

/-- A word without backquotes comes up in a gap or in a block. -/
theorem infix_fill_source_iff (hu : u ≠ []) (hq : '\x60' ∉ u) :
    u <:+: a ++ fill Knot.source w ↔
      u <:+: a ++ fill Knot.seam w ∨ ∃ b ∈ slots w, u <:+: b.content := by
  induction w generalizing a with
  | nil => simp [slots]
  | cons p w ih =>
    cases p with
    | char c =>
      have h := ih (a := a ++ [c])
      simpa [slots] using h
    | slot b =>
      have h := ih (a := [])
      rw [List.nil_append, List.nil_append] at h
      have hseam : u <:+: a ++ fill Knot.seam (.slot b :: w) ↔
          u <:+: a ∨ u <:+: fill Knot.seam w := infix_append_cons hq
      rw [fill_slot, Knot.infix_append_source_iff hu hq, h, hseam, slots,
        List.exists_mem_cons_iff]
      simp only [or_assoc, or_left_comm]

/-- Each token is put back to its block, wherever the text so far and the blocks have no stem. -/
theorem restoreFrom_append_fill (hn : nonce ⊆ hexDigits)
    (hslots : Numbers w k cs)
    (hgaps : ¬Fence.tokenStem nonce <:+: a ++ fill Knot.seam w)
    (hcs : ∀ c ∈ cs, ¬Fence.tokenStem nonce <:+: c) :
    Protected.restoreFrom nonce k (cs.map Fence.fenced) (a ++ fill (Knot.token nonce) w) =
      (a ++ fill Knot.source w, []) := by
  -- `a` is the text put back so far; the stem of the next token is the first one after it.
  induction cs generalizing k a w with
  | nil =>
    rw [hslots.fill_of_nil (σ := Knot.token nonce) (τ := Knot.source) rfl]
    rfl
  | cons c cs ih =>
    obtain ⟨hc, hcs⟩ := List.forall_mem_cons.1 hcs
    obtain ⟨t, v, rfl, hv⟩ := hslots.of_cons
    have hq := backquote_not_mem_tokenStem hn
    have hne := Fence.tokenStem_ne_nil nonce
    rw [fill_append, fill_ofText, fill_slot, ← List.append_assoc] at hgaps
    obtain ⟨hat, hgaps⟩ := not_or.1 ((infix_append_cons hq).not.1 hgaps)
    have hbreak := breakOn_of_unbordered (unbordered_tokenStem hn) hne hat (natural k ++ ['%', '%'])
      (fill (Knot.token nonce) v)
    rw [← List.append_assoc] at hbreak
    have hnext : ¬Fence.tokenStem nonce <:+: (a ++ t ++ Fence.fenced c) ++ fill Knot.seam v := by
      rw [List.append_assoc]
      exact (Knot.infix_append_source_iff hne hq (.block k c)).not.2
        (not_or.2 ⟨hat, not_or.2 ⟨hc, hgaps⟩⟩)
    have hreplace : replaceFirst? (Fence.token nonce k) (Fence.fenced c)
        (a ++ fill (Knot.token nonce) (ofText t ++ .slot (.block k c) :: v)) =
          some ((a ++ t ++ Fence.fenced c) ++ fill (Knot.token nonce) v) := by
      rw [replaceFirst?, fill_append, fill_ofText, fill_slot, ← List.append_assoc,
        ← List.append_assoc]
      exact congrArg (Option.map _) hbreak
    simp only [List.map_cons, Protected.restoreFrom, hreplace]
    rw [ih hv hnext hcs]
    simp [Knot.source, Knot.write]

theorem Numbers.exists_content (h : Numbers w k cs) : ∀ c ∈ cs, ∃ b ∈ slots w, b.content = c := by
  induction cs generalizing k w with
  | nil => simp
  | cons c cs ih =>
    obtain ⟨t, v, rfl, hv⟩ := h.of_cons
    refine List.forall_mem_cons.2 ⟨⟨.block k c, by simp [slots], rfl⟩, fun c' hc' => ?_⟩
    obtain ⟨b, hb, hbc⟩ := ih hv c' hc'
    exact ⟨b, by simp [slots, hb], hbc⟩

/-- A word that comes up in a block comes up in the body. -/
theorem Numbers.infix_fill_source (h : Numbers w k cs) (hu : u ≠ []) (hq : '\x60' ∉ u) {c : Text}
    (hc : c ∈ cs) (hinf : u <:+: c) : u <:+: fill Knot.source w := by
  obtain ⟨b, hb, rfl⟩ := h.exists_content c hc
  exact (infix_fill_source_iff (a := []) hu hq).2 (.inr ⟨b, hb, hinf⟩)

/-- If the nonce is free in a body, its tokens are put back to its blocks. -/
theorem Numbers.restoreFrom_fill (h : Numbers w k cs) (hn : nonce ⊆ hexDigits)
    (hfree : ¬Fence.tokenStem nonce <:+: fill Knot.source w) :
    Protected.restoreFrom nonce k (cs.map Fence.fenced) (fill (Knot.token nonce) w) =
      (fill Knot.source w, []) := by
  have hne := Fence.tokenStem_ne_nil nonce
  have hq := backquote_not_mem_tokenStem hn
  have hgaps := (not_or.1 ((infix_fill_source_iff (a := []) hne hq).not.1 hfree)).1
  exact restoreFrom_append_fill (a := []) hn h hgaps fun c hc hinf =>
    hfree (h.infix_fill_source hne hq hc hinf)

/-! ### Templates of bodies -/

/-- Protection fills the slots of a body with tokens. -/
theorem Protected.ofSplit_fill (h : Weaves w 0 cs) (nonce front : Text) :
    Protected.ofSplit nonce ⟨front, fill Knot.source w⟩ =
      ⟨front, fill (Knot.token nonce) w, cs.map Fence.fenced, nonce⟩ := by
  obtain ⟨s, hleft, rfl, hfill⟩ := h.exists_spans
  have hsource : fill Knot.source w = s.source Fence.delimiters := by
    rw [Spans.source, Spans.render_eq_renderIdx]
    exact (hfill fun _ => Fence.fenced).symm
  have htoken : fill (Knot.token nonce) w = s.renderIdx fun i _ => Fence.token nonce i := by
    have h := hfill fun i _ => Fence.token nonce i
    simp only [Nat.zero_add] at h
    exact h.symm
  have hcut := Spans.cut_source Fence.mark_ne_nil Fence.mark_ne_nil hleft
  rw [Protected.ofSplit, hsource, hcut, htoken]
  rfl

/-- Every body has a template. -/
theorem exists_weaves_eq (body : Text) : ∃ w cs, Weaves w 0 cs ∧ fill Knot.source w = body := by
  obtain ⟨w, hw, hfill⟩ := exists_weaves
    (Spans.leftmost_cut (d := Fence.delimiters) Fence.mark_ne_nil Fence.mark_ne_nil body) 0
  have hrender := Spans.render_cut Fence.delimiters body
  rw [Spans.render_eq_renderIdx] at hrender
  exact ⟨w, _, hw, (hfill fun _ => Fence.fenced).trans hrender⟩

end MarkTidy
