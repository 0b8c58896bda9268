import MarkTidy.Proofs.Document.Nonce

/-!
How many nonces are drawn. Nonces are drawn one after the other until one is free. No two different
nonces are rejected for the same place of the body, and so the drawing ends after at most one nonce
more than there are places at which a stem could start.
-/

namespace MarkTidy.Fence

open Text

variable {body n : Text} {ns drawn : List Text}

/-- A drawing from the first nonce to the last, which is the only free one and is what the drawing
comes to. -/
inductive Drawing (body : Text) : List Text → Text → Prop where
  | free {n : Text} (h : isFree body n = true) : Drawing body [n] n
  | taken {m n : Text} {ns : List Text} (h : isFree body m = false) (rest : Drawing body ns n) :
      Drawing body (m :: ns) n

theorem Drawing.exists_eq_append (h : Drawing body ns n) :
    ∃ before, ns = before ++ [n] ∧ ∀ m ∈ before, isFree body m = false := by
  induction h with
  | free => exact ⟨[], rfl, by simp⟩
  | taken h _ ih =>
    obtain ⟨before, rfl, hbefore⟩ := ih
    exact ⟨_ :: before, rfl, List.forall_mem_cons.2 ⟨h, hbefore⟩⟩

/-- What comes after the free nonce has no part in what is found. -/
theorem Drawing.find?_eq (h : Drawing body ns n) (hns : ns <+: drawn) :
    drawn.find? (isFree body) = some n := by
  obtain ⟨more, rfl⟩ := hns
  induction h with
  | free h => rw [List.singleton_append, List.find?_cons_of_pos h]
  | taken h _ ih => rw [List.cons_append, List.find?_cons_of_neg (by simp [h]), ih]

theorem Drawing.chooseNonce_eq (h : Drawing body ns n) (hns : ns <+: drawn) :
    chooseNonce drawn body = n := by
  rw [chooseNonce, h.find?_eq (hns.trans (List.prefix_append _ _)), Option.getD_some]

theorem exists_drawing (h : ∃ n ∈ drawn, isFree body n = true) :
    ∃ ns n, ns <+: drawn ∧ Drawing body ns n := by
  induction drawn with
  | nil => simp at h
  | cons m ms ih =>
    cases hm : isFree body m with
    | true => exact ⟨[m], m, by simp, .free hm⟩
    | false =>
      simp only [List.mem_cons, exists_eq_or_imp, hm, Bool.false_eq_true, false_or] at h
      obtain ⟨ns, n, hns, hn⟩ := ih h
      exact ⟨m :: ns, n, (List.prefix_cons_inj m).2 hns, .taken hm hn⟩

/-- Of more different nonces than there are places at which a stem could start, one is free. The
drawing ends at the first free one, after at most one nonce more than there are places. -/
theorem drawing_of_distinct (hnodup : drawn.Nodup) (hnonces : ∀ n ∈ drawn, IsNonce n)
    (body : Text) :
    ((places stemHead body).length < drawn.length → ∃ ns n, ns <+: drawn ∧ Drawing body ns n) ∧
      ∀ ns n, ns <+: drawn → Drawing body ns n →
        ns.length ≤ (places stemHead body).length + 1 ∧
          drawn.find? (isFree body) = some n ∧ chooseNonce drawn body = n := by
  have hdigits : ∀ n ∈ drawn, n ⊆ hexDigits := fun n hn => (hnonces n hn).digits
  constructor
  · intro hlen
    refine exists_drawing ?_
    by_contra! hall
    have hle := length_le_of_not_free hnodup hdigits fun n hn => Bool.eq_false_iff.2 (hall n hn)
    omega
  · intro ns n hns h
    refine ⟨?_, h.find?_eq hns, h.chooseNonce_eq hns⟩
    obtain ⟨before, rfl, hbefore⟩ := h.exists_eq_append
    have hsub : before.Sublist drawn :=
      (List.sublist_append_left before [n]).trans hns.sublist
    have hle := length_le_of_not_free (hnodup.sublist hsub)
      (fun m hm => hdigits m (hsub.subset hm)) hbefore
    simpa using hle

/-- The body rejects the first of two nonces. -/
theorem drawing_of_distinct_sample :
    let drawn := ["00000000000000a0".toList, "00000000000000b1".toList, "00000000000000c2".toList]
    let body := "%%MYLINT-CODE-00000000000000a0-".toList
    drawn.Nodup ∧ (∀ n ∈ drawn, IsNonce n) ∧ (places stemHead body).length = 1 ∧
      Drawing body (drawn.take 2) "00000000000000b1".toList ∧
      chooseNonce drawn body = "00000000000000b1".toList ∧ (drawn.take 2).length ≤ 2 ∧
      ∃ ns n, ns <+: drawn ∧ Drawing body ns n := by
  intro drawn body
  have hnodup : drawn.Nodup := by decide
  have hnonces : ∀ n ∈ drawn, IsNonce n := by
    have hall : ∀ n ∈ drawn, n.length = 16 ∧ n ⊆ hexDigits := by decide
    exact fun n hn => ⟨(hall n hn).1, (hall n hn).2⟩
  have hchars : body = _ := String.toList_ofList
  have hplaces : (places stemHead body).length = 1 := by
    rw [hchars]
    decide
  have hdrawing : Drawing body (drawn.take 2) "00000000000000b1".toList := by
    rw [hchars]
    exact .taken (by decide) (.free (by decide))
  obtain ⟨hexists, hevery⟩ := drawing_of_distinct hnodup hnonces body
  obtain ⟨hlen, -, hchosen⟩ := hevery _ _ (List.take_prefix 2 drawn) hdrawing
  rw [hplaces] at hexists hlen
  exact ⟨hnodup, hnonces, hplaces, hdrawing, hchosen, hlen, hexists (by decide)⟩

end MarkTidy.Fence
