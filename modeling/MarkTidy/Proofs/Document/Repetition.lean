import MarkTidy.Proofs.Document.MovedBoundary
import MarkTidy.Proofs.Document.Noninterference

/-!
Pass after pass. A pass rewrites math, and then there are fewer backslashes; or it moves the
boundary, and it can do so only twice; or it only spaces lines. Spacing twice in a row trims every
line that could still change its kind, so the pass after that changes nothing. Passes settle,
however they draw their nonces.
-/

namespace MarkTidy

open Text Template Frontmatter

variable {r : Rules} {w v : Template Knot} {cs : List Text} {d front nonce t : Text}

/-! ### Backslashes -/

theorem Template.count_fill {α : Type} (σ : α → Text) (c : Char) (w : Template α) :
    (fill σ w).count c = (fill (fun _ => []) w).count c + ((slots w).flatMap σ).count c := by
  induction w with
  | nil => rfl
  | cons p w ih =>
    cases p with
    | char d =>
      rw [fill_char, fill_char, List.count_cons, List.count_cons, ih, slots]
      omega
    | slot a =>
      rw [fill_slot, fill_slot, List.nil_append, List.count_append, ih, slots, List.flatMap_cons,
        List.count_append]
      omega

/-- Whatever fills the slots, reworking takes the same number of characters away. -/
theorem Reworked.count_fill (h : Reworked r cs w v) (σ τ : Knot → Text) (c : Char) :
    (fill σ v).count c + (fill τ w).count c = (fill σ w).count c + (fill τ v).count c := by
  rw [Template.count_fill σ c v, Template.count_fill τ c w, Template.count_fill σ c w,
    Template.count_fill τ c v, h.slots]
  omega

namespace Rules

theorem rewritten_eq_self_iff :
    r.rewritten t = t ↔ (r.math = true → ∀ k, ¬Math.HasSpan k t) := by
  rw [rewritten]
  split_ifs with hm
  · refine ⟨fun h _ k hspan => ?_, fun h => Math.rewrite_of_not_hasSpan (h hm)⟩
    have hlt := Math.count_rewrite_lt hspan
    rw [h] at hlt
    exact absurd hlt (Nat.lt_irrefl _)
  · exact iff_of_true rfl fun h => absurd h hm

theorem count_rework_le_rewritten (r : Rules) (t : Text) :
    (r.rework t).count '\\' ≤ (r.rewritten t).count '\\' := by
  rw [rework_eq]
  split_ifs
  · exact Layout.count_normalize_le _
  · exact Nat.le_refl _

theorem count_rework_le (r : Rules) (t : Text) : (r.rework t).count '\\' ≤ t.count '\\' := by
  apply (r.count_rework_le_rewritten t).trans
  rw [rewritten]
  split_ifs
  · exact (Math.count_rewriteKind_le _ _).trans (Math.count_rewriteKind_le _ _)
  · exact Nat.le_refl _

/-- No math has been rewritten, if no backslash is gone. -/
theorem rewritten_of_count (h : (r.rework t).count '\\' = t.count '\\') : r.rewritten t = t := by
  rw [rewritten_eq_self_iff]
  intro hm k hspan
  have hlt := Math.count_rewrite_lt hspan
  have hle := r.count_rework_le_rewritten t
  rw [rewritten, if_pos hm] at hle
  omega

end Rules

/-! ### Spacing again -/

/-- Where there is no math, the third time changes nothing. -/
theorem Rules.rework_rework_rework (h : r.rewritten t = t)
    (h' : r.rewritten (r.rework t) = r.rework t) :
    r.rework (r.rework (r.rework t)) = r.rework (r.rework t) := by
  cases hs : r.spacing with
  | false =>
    have hfix : r.rework t = t := by
      rw [rework_eq, hs, h]
      rfl
    rw [hfix, hfix, hfix]
  | true =>
    have hrework : ∀ {x}, r.rewritten x = x → r.rework x = Layout.normalize x := by
      intro x hx
      rw [rework_eq, hs, hx]
      rfl
    have htwice : r.rewritten (r.rework (r.rework t)) = r.rework (r.rework t) := by
      rw [hrework h']
      rw [rewritten_eq_self_iff] at h' ⊢
      exact fun hm k hspan =>
        h' hm k (Layout.inOrder_of_normalize (Math.plain_delimiters k) hspan)
    rw [hrework htwice, hrework h']
    apply Layout.normalize_normalize
    rw [hrework h]
    exact fun l hl => Layout.not_bareMarker_of_mem_lines hl

/-! ### Passes -/

namespace Rules

/-- The text after a pass. -/
def pass (r : Rules) (d : Text) : Text := (r.lint [] d).text

/-- The text after so many passes; each draws nonces of its own. -/
def passes (r : Rules) (draws : Nat → List Text) (d : Text) : Nat → Text
  | 0 => d
  | n + 1 => (r.lint (draws n) (passes r draws d n)).text

theorem passes_eq_iterate {draws : Nat → List Text} (hdraws : ∀ i, ∀ n ∈ draws i, IsNonce n)
    (r : Rules) (d : Text) (n : Nat) : r.passes draws d n = r.pass^[n] d := by
  induction n with
  | zero => rfl
  | succ n ih =>
    rw [passes, ih, Function.iterate_succ_apply', pass]
    exact r.text_lint_congr (hdraws n) (by simp) _

end Rules

theorem Shape.text_pass (hd : Shape [] d front nonce cs w) (hr : Reworked r cs w v) :
    r.pass d = front ++ fill Knot.source v := hd.text_lint hr

/-- What passes use up. -/
def potential (d : Text) : Nat := d.count '\\' + slack (split d).front

theorem slack_le_two (front : Text) : slack front ≤ 2 := by
  unfold slack
  split
  · exact Nat.le_refl 2
  · split <;> omega

theorem potential_of_split {b : Text} (h : split d = ⟨front, b⟩) :
    potential d = front.count '\\' + b.count '\\' + slack front := by
  rw [potential, h]
  nth_rewrite 1 [eq_append_of_split h]
  rw [List.count_append]

theorem Reworked.count_source_le (h : Reworked r cs w v) :
    (fill Knot.source v).count '\\' ≤ (fill Knot.source w).count '\\' := by
  have hcount := h.count_fill Knot.source Knot.seam '\\'
  have hrework := r.count_rework_le (fill Knot.seam w)
  rw [h.rework _ Knot.solid_seam] at hrework
  omega

theorem Reworked.rewritten_token (h : Reworked r cs w v) (hn : nonce ⊆ hexDigits)
    (hsource : (fill Knot.source v).count '\\' = (fill Knot.source w).count '\\') :
    r.rewritten (fill (Knot.token nonce) w) = fill (Knot.token nonce) w := by
  have hcount := h.count_fill Knot.source (Knot.token nonce) '\\'
  apply Rules.rewritten_of_count
  rw [h.rework_token hn]
  omega

namespace Shape

theorem potential_pass_le (hd : Shape [] d front nonce cs w) (hr : Reworked r cs w v) :
    potential (r.pass d) ≤ potential d := by
  have hle := hr.count_source_le
  have hslack : slack (Frontmatter.split (r.pass d)).front ≤ slack front := by
    rw [hd.text_pass hr]
    rcases hd.boundary.replace hr.replaces with hsame | hmoved
    · rw [hsame.split_eq]
    · exact hmoved.slack_lt.le
  rw [potential_of_split hd.split, potential, hd.text_pass hr, List.count_append]
  rw [hd.text_pass hr] at hslack
  omega

/-- A pass that uses up nothing leaves the boundary where it is and keeps all backslashes. -/
theorem pass (hd : Shape [] d front nonce cs w) (hr : Reworked r cs w v)
    (h : potential (r.pass d) = potential d) :
    (∃ nonce', Shape [] (r.pass d) front nonce' cs v) ∧
      (fill Knot.source v).count '\\' = (fill Knot.source w).count '\\' := by
  have hle := hr.count_source_le
  rw [potential_of_split hd.split, potential, hd.text_pass hr, List.count_append] at h
  rcases hd.boundary.replace hr.replaces with hsame | hmoved
  · have hsplit := hsame.split_eq
    rw [hsplit] at h
    dsimp only at h
    rw [← hd.text_pass hr] at hsplit
    exact ⟨⟨_, .of_split (by simp) hsplit hr.after⟩, by omega⟩
  · have hslack := hmoved.slack_lt
    omega

end Shape

namespace Rules

theorem potential_pass_le (r : Rules) (d : Text) : potential (r.pass d) ≤ potential d := by
  have hnone : ∀ n ∈ ([] : List Text), IsNonce n := by simp
  obtain ⟨front, nonce, cs, w, hd⟩ := exists_shape hnone d
  obtain ⟨v, hr⟩ := exists_reworked r hd.weaves
  exact hd.potential_pass_le hr

/-- If two passes in a row use up nothing, the next one changes nothing. -/
theorem pass_of_potential (h : potential (r.pass d) = potential d)
    (h' : potential (r.pass (r.pass d)) = potential (r.pass d)) :
    r.pass (r.pass (r.pass d)) = r.pass (r.pass d) := by
  have hnone : ∀ n ∈ ([] : List Text), IsNonce n := by simp
  obtain ⟨front, nonce, cs, w, hd⟩ := exists_shape hnone d
  obtain ⟨v, hr⟩ := exists_reworked r hd.weaves
  obtain ⟨u, hr'⟩ := exists_reworked r hr.after
  obtain ⟨x, hr''⟩ := exists_reworked r hr'.after
  obtain ⟨⟨_, hd'⟩, hcount⟩ := hd.pass hr h
  obtain ⟨⟨_, hd''⟩, hcount'⟩ := hd'.pass hr' h'
  -- All passes can be followed with the nonce of the first one.
  have hfree := hr'.free hd.hex (hr.free hd.hex hd.free)
  have hfree' := hr''.free hd.hex hfree
  have hthrice := rework_rework_rework (hr.rewritten_token hd.hex hcount) (by
    rw [hr.rework_token hd.hex]
    exact hr'.rewritten_token hd.hex hcount')
  rw [hr.rework_token hd.hex, hr'.rework_token hd.hex, hr''.rework_token hd.hex] at hthrice
  have hsource := (fill_token_inj hr'.after hr''.after hd.hex hfree hfree').1 hthrice
  rw [hd''.text_pass hr'', hd'.text_pass hr', hsource]

/-- A document settles in at most twice as many passes as they can use up, and two more. -/
theorem exists_iterate_pass_eq (r : Rules) (d : Text) :
    ∃ n ≤ 2 * potential d + 2, r.pass (r.pass^[n] d) = r.pass^[n] d := by
  generalize hk : potential d = k
  induction k using Nat.strongRecOn generalizing d with
  | ind k ih =>
    subst hk
    -- One of the next two passes uses something up, or nothing changes after them.
    have hle := r.potential_pass_le d
    have hle' := r.potential_pass_le (r.pass d)
    by_cases h : potential (r.pass d) = potential d
    · by_cases h' : potential (r.pass (r.pass d)) = potential (r.pass d)
      · exact ⟨2, by omega, pass_of_potential h h'⟩
      · obtain ⟨n, hn, hfix⟩ := ih _ (by omega) (r.pass (r.pass d)) rfl
        exact ⟨n + 2, by omega, hfix⟩
    · obtain ⟨n, hn, hfix⟩ := ih _ (by omega) (r.pass d) rfl
      exact ⟨n + 1, by omega, hfix⟩

/-- Linting a document again and again changes it only a few times, at most twice for each backslash
and six times more. -/
theorem exists_passes_eq (r : Rules) (draws : Nat → List Text)
    (hdraws : ∀ i, ∀ n ∈ draws i, IsNonce n) (d : Text) :
    ∃ n ≤ 2 * d.count '\\' + 6, ∀ m, n ≤ m → r.passes draws d m = r.passes draws d n := by
  obtain ⟨n, hn, hfix⟩ := r.exists_iterate_pass_eq d
  have hslack := slack_le_two (Frontmatter.split d).front
  rw [potential] at hn
  refine ⟨n, by omega, fun m hm => ?_⟩
  obtain ⟨k, rfl⟩ := Nat.exists_eq_add_of_le hm
  rw [passes_eq_iterate hdraws, passes_eq_iterate hdraws, Nat.add_comm, Function.iterate_add_apply]
  exact Function.iterate_fixed hfix k

/-- The first pass makes frontmatter, the first three rewrite one level of math each, and the second
one sees that a list item is none any more. -/
theorem exists_passes_eq_sample :
    let draws : Nat → List Text := fun _ => ["00000000000000ff".toList]
    let d := "\n---\nt: 1\n---\n\\[ \\[ \\[ a \\] b \\] c \\]\n- a\n- \n- b".toList
    (∀ i, ∀ n ∈ draws i, IsNonce n) ∧ passes {} draws d 1 ≠ passes {} draws d 0 ∧
      passes {} draws d 2 ≠ passes {} draws d 1 ∧ passes {} draws d 3 ≠ passes {} draws d 2 ∧
      ∃ n ≤ 18, ∀ m, n ≤ m → passes {} draws d m = passes {} draws d n := by
  intro draws d
  have hdraws : ∀ i, ∀ n ∈ draws i, IsNonce n :=
    fun _ => List.forall_mem_singleton.2 ⟨rfl, by decide⟩
  have hsettles := exists_passes_eq {} draws hdraws d
  have hchars : d = _ := String.toList_ofList
  refine ⟨hdraws, ?_, ?_, ?_, hsettles⟩ <;> rw [hchars] <;> decide

end Rules

end MarkTidy
