import Mathlib.Data.List.Nodup
import Mathlib.Data.List.Perm.Subperm
import MarkTidy.Document.Fence
import MarkTidy.Proofs.Text.InOrder

/-!
A free nonce is always found. The stems of different nonces cannot start at the same place of a
body, so a body rejects no more nonces than it has places where a stem could start.
-/

namespace MarkTidy

open Text

def hexDigits : Text := "0123456789abcdef".toList

/-- Sixteen lowercase hexadecimal digits. -/
structure IsNonce (n : Text) : Prop where
  length : n.length = 16
  digits : n ⊆ hexDigits

namespace Fence

variable {n n' t body : Text} {ns : List Text} {c : Char}

/-- The places where a text has a word. -/
def places (w t : Text) : List Nat := (List.range t.length).filter fun i => w.isPrefixOf (t.drop i)

/-- What all stems start with. -/
def stemHead : Text := "%%MYLINT-CODE-".toList

theorem tokenStem_eq (n : Text) : tokenStem n = stemHead ++ (n ++ ['-']) := List.append_assoc _ _ _

theorem tokenStem_ne_nil (n : Text) : tokenStem n ≠ [] := by
  rw [tokenStem_eq]
  exact List.append_ne_nil_of_right_ne_nil _ (by simp)

theorem isFree_iff : isFree body n = true ↔ ¬tokenStem n <:+: body := by
  rw [isFree, Bool.not_eq_true', occursIn_eq_false_iff]

/-- A stem at the front of a text tells its nonce. -/
theorem eq_of_tokenStem_prefix (hn : n ⊆ hexDigits) (hn' : n' ⊆ hexDigits)
    (h : tokenStem n <+: t) (h' : tokenStem n' <+: t) : n = n' := by
  obtain ⟨r, rfl⟩ := h
  obtain ⟨r', hr⟩ := h'
  have hdash : '-' ∉ hexDigits := by decide
  rw [tokenStem_eq, tokenStem_eq, List.append_assoc, List.append_assoc] at hr
  have hr : n' ++ '-' :: r' = n ++ '-' :: r := by
    simpa using (List.append_right_inj stemHead).1 hr
  rcases append_eq_append_cons (u := []) (fun h => hdash (hn' h)) hr with ⟨x, hx, hxr⟩ | ⟨x, hx, -⟩
  · cases x with
    | nil => simpa using hx
    | cons c x =>
      obtain rfl : '-' = c := (List.cons.inj hxr).1
      exact absurd (hn (hx ▸ List.mem_append_right _ List.mem_cons_self)) hdash
  · simp at hx

/-- Where the stem of a nonce first comes up in a body. -/
def firstPlace (body n : Text) : Nat := ((breakOn (tokenStem n) body).map (·.1.length)).getD 0

theorem tokenStem_prefix_drop (h : isFree body n = false) :
    firstPlace body n < body.length ∧ tokenStem n <+: body.drop (firstPlace body n) := by
  have hocc : occursIn (tokenStem n) body = true := by rwa [isFree, Bool.not_eq_false'] at h
  obtain ⟨⟨before, after⟩, hb⟩ := Option.isSome_iff_exists.1 hocc
  have hpos := List.length_pos_of_ne_nil (tokenStem_ne_nil n)
  have hlen := length_after_of_breakOn hb
  have hplace : firstPlace body n = before.length := by rw [firstPlace, hb]; rfl
  rw [hplace]
  refine ⟨by omega, after, ?_⟩
  rw [eq_append_of_breakOn hb, List.append_assoc, List.drop_left]

theorem firstPlace_mem_places (h : isFree body n = false) :
    firstPlace body n ∈ places stemHead body := by
  obtain ⟨hlt, hpre⟩ := tokenStem_prefix_drop h
  refine List.mem_filter.2 ⟨List.mem_range.2 hlt, List.isPrefixOf_iff_prefix.2 (.trans ?_ hpre)⟩
  exact tokenStem_eq n ▸ List.prefix_append _ _

/-- Different rejected nonces have different places in the body. -/
theorem length_le_of_not_free (hnodup : ns.Nodup) (hdigits : ∀ n ∈ ns, n ⊆ hexDigits)
    (h : ∀ n ∈ ns, isFree body n = false) : ns.length ≤ (places stemHead body).length := by
  -- Two rejected nonces with the same first place would be read off the same text.
  have hinj : ∀ n ∈ ns, ∀ n' ∈ ns, firstPlace body n = firstPlace body n' → n = n' := by
    intro n hn n' hn' heq
    have hpre := (tokenStem_prefix_drop (h n hn)).2
    have hpre' := (tokenStem_prefix_drop (h n' hn')).2
    exact eq_of_tokenStem_prefix (hdigits n hn) (hdigits n' hn') hpre (heq ▸ hpre')
  have hmap : (ns.map (firstPlace body)).Nodup := List.Nodup.map_on hinj hnodup
  have hsub : ns.map (firstPlace body) ⊆ places stemHead body := by
    intro i hi
    obtain ⟨n, hn, rfl⟩ := List.mem_map.1 hi
    exact firstPlace_mem_places (h n hn)
  simpa using (hmap.subperm hsub).length_le

/-! ### Counters -/

theorem digitChar_mem_hexDigits : ∀ d < 16, Nat.digitChar d ∈ hexDigits := by decide

theorem toDigits_subset_hexDigits {b : Nat} (hb : 1 < b) (hb' : b ≤ 16) (m : Nat) :
    Nat.toDigits b m ⊆ hexDigits := by
  induction m using Nat.strongRecOn with
  | ind m ih =>
    rw [Nat.toDigits_eq_if hb]
    split
    · exact List.cons_subset.2 ⟨digitChar_mem_hexDigits m (by omega), List.nil_subset _⟩
    · have hlt : m % b < b := Nat.mod_lt m (by omega)
      refine List.append_subset.2 ⟨ih _ (Nat.div_lt_self (by omega) hb), ?_⟩
      exact List.cons_subset.2 ⟨digitChar_mem_hexDigits _ (by omega), List.nil_subset _⟩

theorem natural_subset_hexDigits (m : Nat) : natural m ⊆ hexDigits :=
  toDigits_subset_hexDigits (by omega) (by omega) m

theorem hexadecimal_subset_hexDigits (width m : Nat) : hexadecimal width m ⊆ hexDigits := by
  have hzero : '0' ∈ hexDigits := by decide
  refine List.append_subset.2 ⟨fun c hc => ?_, toDigits_subset_hexDigits (by omega) (by omega) m⟩
  exact List.eq_of_mem_replicate hc ▸ hzero

/-- The number that hexadecimal digits stand for. -/
def hexValue (t : Text) : Nat := t.foldl (fun v c => 16 * v + (hexDigit? c).getD 0) 0

theorem hexDigit?_digitChar : ∀ d < 16, (hexDigit? (Nat.digitChar d)).getD 0 = d := by decide

theorem hexValue_toDigits (m : Nat) : hexValue (Nat.toDigits 16 m) = m := by
  induction m using Nat.strongRecOn with
  | ind m ih =>
    rw [Nat.toDigits_eq_if (by omega)]
    split
    · next h => simp [hexValue, hexDigit?_digitChar m h]
    · have hdiv := ih (m / 16) (Nat.div_lt_self (by omega) (by omega))
      rw [hexValue, List.foldl_append, ← hexValue, hdiv, List.foldl_cons, List.foldl_nil,
        hexDigit?_digitChar _ (Nat.mod_lt m (by omega))]
      omega

theorem hexValue_hexadecimal (width m : Nat) : hexValue (hexadecimal width m) = m := by
  have hzeros : ∀ k, hexValue (List.replicate k '0') = 0 := by
    intro k
    induction k with
    | zero => rfl
    | succ k ih =>
      rw [List.replicate_succ', hexValue, List.foldl_append, ← hexValue, ih]
      rfl
  rw [hexadecimal, hexValue, List.foldl_append, ← hexValue, hzeros]
  exact hexValue_toDigits m

theorem counters_nodup (body : Text) : (counters body).Nodup := by
  refine List.Nodup.map_on (fun m _ m' _ h => ?_) List.nodup_range
  rw [← hexValue_hexadecimal 16 m, h, hexValue_hexadecimal]

theorem counters_subset_hexDigits (h : n ∈ counters body) : n ⊆ hexDigits := by
  obtain ⟨m, -, rfl⟩ := List.mem_map.1 h
  exact hexadecimal_subset_hexDigits 16 m

/-- There are more counters than a body can reject. -/
theorem exists_free_counter (body : Text) : ∃ n ∈ counters body, isFree body n = true := by
  by_contra hno
  have hlen := length_le_of_not_free (counters_nodup body) (fun n => counters_subset_hexDigits)
    fun n hn => by simpa using fun h => hno ⟨n, hn, h⟩
  have hplaces : (places stemHead body).length ≤ body.length := by
    simpa [places] using List.length_filter_le (fun i => stemHead.isPrefixOf (body.drop i))
      (List.range body.length)
  have hcounters : (counters body).length = body.length + 1 := by simp [counters]
  omega

/-- The chosen nonce is free, and made of hexadecimal digits like those to choose from. -/
theorem chooseNonce_spec {drawn : List Text} (hdrawn : ∀ n ∈ drawn, IsNonce n) (body : Text) :
    isFree body (chooseNonce drawn body) = true ∧ chooseNonce drawn body ⊆ hexDigits := by
  obtain ⟨n, hn, hfree⟩ := exists_free_counter body
  have hsome : ((drawn ++ counters body).find? (isFree body)).isSome = true :=
    List.find?_isSome.2 ⟨n, List.mem_append_right _ hn, hfree⟩
  obtain ⟨m, hm⟩ := Option.isSome_iff_exists.1 hsome
  rw [chooseNonce, hm, Option.getD_some]
  refine ⟨List.find?_some hm, ?_⟩
  rcases List.mem_append.1 (List.mem_of_find?_eq_some hm) with h | h
  · exact (hdrawn m h).digits
  · exact counters_subset_hexDigits h

end Fence

end MarkTidy
