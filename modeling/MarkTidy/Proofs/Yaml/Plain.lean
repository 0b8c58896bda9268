import MarkTidy.Proofs.Yaml.Line

/-!
Which texts are plain. What is read as a plain scalar to the end of its line is a plain text, so that
no text that can be written without quotes is missing among those.
-/

namespace MarkTidy.Yaml

open Text

variable {c : Cursor} {r t u v w : Text} {x : Char} {indent : Int} {fuel : Nat} {s s' : Tokenizer}

namespace Plain

/-- The word at the start of a text. It ends with a colon only if another one follows. -/
theorem exists_word (r : Text) : ∃ w v, r = w ++ v ∧ wordLength false r = w.length ∧
    (∀ x ∈ w, isBreak x = false ∧ isSpaceOrTab x = false) ∧ (EndsWord v → w.getLast? ≠ some ':') := by
  induction r with
  | nil => exact ⟨[], [], rfl, rfl, nofun, nofun⟩
  | cons x r ih =>
    obtain ⟨w, v, rfl, hlength, hink, hcolon⟩ := ih
    by_cases hword : isBreak x = true ∨ isSpaceOrTab x = true
    · exact ⟨[], _, rfl, wordLength_of_endsWord (endsWord_cons hword _), nofun, nofun⟩
    obtain ⟨hbreak, hblank⟩ : isBreak x = false ∧ isSpaceOrTab x = false := by simpa using hword
    by_cases hends : x = ':' ∧ EndsWord (w ++ v)
    · refine ⟨[], _, rfl, ?_, nofun, nofun⟩
      rw [hends.1]
      exact wordLength_key (w := []) nofun hends.2
    · have hnot : x = ':' → ¬EndsWord (w ++ v) := fun h he => hends ⟨h, he⟩
      refine ⟨x :: w, v, rfl, ?_, List.forall_mem_cons.2 ⟨⟨hbreak, hblank⟩, hink⟩, fun hv => ?_⟩
      · rw [wordLength_cons hbreak hblank hnot, hlength, List.length_cons]
      · cases w with
        | nil => simpa using fun h => hnot h hv
        | cons y w => simpa using hcolon hv

/-- The spaces at a place are followed by a break, or they are the gap. -/
theorem gap_cases (c : Cursor) : ∃ n v, c.rest = List.replicate n ' ' ++ v ∧
    ((∃ x ∈ v.head?, isBreak x = true) ∨ gap c = (List.replicate n ' ', false, c.advance n)) := by
  obtain ⟨n, hn⟩ : ∃ n, c.rest.takeWhile (· == ' ') = List.replicate n ' ' :=
    ⟨_, List.eq_replicate_of_mem fun x hx => eq_of_beq (List.all_eq_true.1 List.all_takeWhile x hx)⟩
  have hrest : c.rest = List.replicate n ' ' ++ c.rest.dropWhile (· == ' ') := by
    rw [← hn, List.takeWhile_append_dropWhile]
  refine ⟨n, _, hrest, ?_⟩
  have hadvance : (c.advance n).rest = c.rest.dropWhile (· == ' ') := by
    rw [Cursor.rest_advance]
    exact (congrArg (List.drop n) hrest).trans (List.drop_left' List.length_replicate)
  cases hmeets : (c.advance n).meets isBreak with
  | true =>
    left
    rw [← hadvance]
    rw [Cursor.meets] at hmeets
    cases hhead : (c.advance n).rest.head? with
    | none =>
      rw [hhead] at hmeets
      cases hmeets
    | some x =>
      rw [hhead] at hmeets
      exact ⟨x, rfl, hmeets⟩
  | false =>
    right
    rw [gap, Cursor.span, hn, List.length_replicate]
    simp [hmeets]

/-- What is read is a word, or a word and more after a gap. -/
theorem words_cases (hlength : wordLength false c.rest = w.length) (hc : c.rest = w ++ v)
    (hne : w ≠ []) (hcomment : w.head? ≠ some '#') (indent : Int) (fuel : Nat) :
    (words false indent (fuel + 1) c).1 = w ∨
      (gap (c.advance w.length)).1 ≠ [] ∧
        (words false indent fuel (gap (c.advance w.length)).2.2).1 ≠ [] ∧
          (words false indent (fuel + 1) c).1 = w ++ (gap (c.advance w.length)).1 ++
            (words false indent fuel (gap (c.advance w.length)).2.2).1 := by
  rw [words_succ hlength hc hne hcomment]
  dsimp only
  split
  · exact .inl rfl
  · next hgap =>
    split
    · exact .inl rfl
    · next hmore =>
      refine .inr ⟨fun h => hgap (by simp [h]), fun h => hmore (by simp [h]), rfl⟩

/-- Only a word is read, and no comment. -/
theorem word_of_words (hlength : wordLength false c.rest = w.length) (hc : c.rest = w ++ v)
    (h : (words false indent (fuel + 1) c).1 ≠ []) : w ≠ [] ∧ w.head? ≠ some '#' := by
  rw [words, hlength] at h
  split at h
  · exact absurd rfl h
  · next hstart =>
    obtain ⟨hsees, hpos⟩ : ¬c.sees 0 '#' = true ∧ w ≠ [] := by simpa using hstart
    refine ⟨hpos, fun hw => hsees ?_⟩
    obtain ⟨x, r, rfl⟩ := List.exists_cons_of_ne_nil hpos
    obtain rfl : x = '#' := Option.some.inj hw
    rw [Cursor.sees, hc]
    rfl

theorem head_words : ∀ x ∈ (words false indent fuel c).1.head?, isSpaceOrTab x = false := by
  intro x hx
  cases fuel with
  | zero => cases hx
  | succ fuel =>
    obtain ⟨w, v, hc, hlength, hink, -⟩ := exists_word c.rest
    have hne : (words false indent (fuel + 1) c).1 ≠ [] := fun h => by
      rw [h] at hx
      cases hx
    obtain ⟨hw, hcomment⟩ := word_of_words hlength hc hne
    obtain ⟨y, w, rfl⟩ := List.exists_cons_of_ne_nil hw
    have hy : isSpaceOrTab y = false := (hink y List.mem_cons_self).2
    obtain h | ⟨-, -, h⟩ := words_cases hlength hc hw hcomment indent fuel
    · rw [h] at hx
      obtain rfl : y = x := Option.some.inj hx
      exact hy
    · rw [h] at hx
      obtain rfl : y = x := Option.some.inj hx
      exact hy

/-- What ends with its line and is followed by spaces up to a break is those spaces. -/
theorem eq_spaces {n : Nat} (h : t ++ '\n' :: u = List.replicate n ' ' ++ v)
    (hv : ∃ x ∈ v.head?, isBreak x = true) (hline : ∀ x ∈ t, isBreak x = false) :
    t = List.replicate n ' ' := by
  obtain ⟨a, ha, hfeed⟩ | ⟨a, ha, hbreak⟩ := List.append_eq_append_iff.1 h
  · cases a with
    | nil => rw [ha, List.append_nil]
    | cons x a =>
      obtain rfl : '\n' = x := (List.cons.inj hfeed).1
      have hmem : '\n' ∈ List.replicate n ' ' := by simp [ha]
      exact absurd (List.eq_of_mem_replicate hmem) (by decide)
  · cases a with
    | nil => rw [ha, List.append_nil]
    | cons x a =>
      obtain ⟨y, hy, hbreaks⟩ := hv
      rw [hbreak] at hy
      obtain rfl : x = y := Option.some.inj hy
      rw [hline x (by simp [ha])] at hbreaks
      cases hbreaks

/-- A gap before more ink on the line is made of spaces. -/
theorem exists_gap_spaces {m : Text} (hc : c.rest = (gap c).1 ++ m ++ '\n' :: u)
    (hline : ∀ x ∈ (gap c).1 ++ m, isBreak x = false) (hgap : (gap c).1 ≠ []) (hm : m ≠ [])
    (hhead : ∀ x ∈ m.head?, isSpaceOrTab x = false) :
    ∃ n, gap c = (List.replicate (n + 1) ' ', false, c.advance (n + 1)) := by
  obtain ⟨n, r, hr, hbreak | hspaces⟩ := gap_cases c
  · have hblank := eq_spaces (hc.symm.trans hr) hbreak hline
    obtain ⟨x, m, rfl⟩ := List.exists_cons_of_ne_nil hm
    have hx : isSpaceOrTab x = false := hhead x rfl
    have hmem : x ∈ List.replicate n ' ' := by
      rw [← hblank]
      exact List.mem_append_right _ List.mem_cons_self
    rw [List.eq_of_mem_replicate hmem] at hx
    cases hx
  · cases n with
    | zero => exact absurd (congrArg Prod.fst hspaces) hgap
    | succ n => exact ⟨n, hspaces⟩

/-- What is read to the end of a line, and has no break in it, is made of words. -/
theorem isWords_of_words (hc : c.rest = t ++ '\n' :: u) (hread : ∀ x ∈ t, isReadable x = true)
    (hline : ∀ x ∈ t, isBreak x = false) (hne : t ≠ []) (h : (words false indent fuel c).1 = t) :
    IsWords t := by
  induction fuel generalizing c t with
  | zero => exact absurd h.symm hne
  | succ fuel ih =>
    obtain ⟨w, v, hrest, hlength, hink, hcolon⟩ := exists_word c.rest
    have hsome : (words false indent (fuel + 1) c).1 ≠ [] := by rwa [h]
    obtain ⟨hw, hcomment⟩ := word_of_words hlength hrest hsome
    have hafter : (c.advance w.length).rest = v := by rw [Cursor.rest_advance, hrest, List.drop_left]
    have hword (hmem : ∀ x ∈ w, x ∈ t) (hv : EndsWord v) : IsWord w :=
      ⟨hw, fun x hx => ⟨hread x (hmem x hx), (hink x hx).1, (hink x hx).2⟩, hcomment, hcolon hv⟩
    obtain hall | ⟨hgap, hmore, hall⟩ := words_cases hlength hrest hw hcomment indent fuel
    · obtain rfl : w = t := hall.symm.trans h
      have hv : v = '\n' :: u := List.append_cancel_left (hrest.symm.trans hc)
      exact .word (hword (fun x hx => hx) (by rw [hv]; exact endsWord_cons (.inl rfl) u))
    · rw [h, List.append_assoc] at hall
      rw [hall, List.append_assoc] at hc
      have hv := List.append_cancel_left (hrest.symm.trans hc)
      obtain ⟨n, hspaces⟩ := exists_gap_spaces (hafter.trans hv)
        (fun x hx => hline x (by rw [hall]; exact List.mem_append_right w hx)) hgap hmore head_words
      rw [hspaces] at hmore hall hv
      dsimp only at hmore hall hv
      have hrest' : ((c.advance w.length).advance (n + 1)).rest =
          (words false indent fuel ((c.advance w.length).advance (n + 1))).1 ++ '\n' :: u := by
        rw [Cursor.rest_advance, hafter, hv, List.append_assoc, List.drop_left' List.length_replicate]
      have hends : EndsWord v := by
        rw [hv]
        exact endsWord_cons (.inr rfl) _
      have hword' : IsWord w := hword (fun x hx => by simp [hall, hx]) hends
      have hmore' := ih hrest' (fun x hx => hread x (by simp [hall, hx]))
        (fun x hx => hline x (by simp [hall, hx])) hmore rfl
      rw [hall, ← List.append_assoc]
      exact .cons hword' n hmore'

end Plain

/-! ### Scalars -/

namespace Tokenizer

theorem markPlace_same (h : s.markPlace = .ok s') :
    s'.cursor = s.cursor ∧ s'.flow = s.flow ∧ s'.indent = s.indent := by
  rw [markPlace] at h
  split at h
  · obtain rfl := Except.ok.inj h
    exact ⟨rfl, rfl, rfl⟩
  · rw [forgetPlace] at h
    split at h
    · cases h
    · obtain rfl := Except.ok.inj h
      exact ⟨rfl, rfl, rfl⟩

theorem plainScalar_text (hflow : s.flow = 0) (hs : s.plainScalar = .ok s')
    (ht : s'.reversed.head? = some (.scalar t true)) :
    (Plain.words false (s.indent + 1) (s.cursor.rest.length + 1) s.cursor).1 = t := by
  rw [plainScalar] at hs
  cases hmark : s.markPlace with
  | error f =>
    rw [hmark] at hs
    cases hs
  | ok s₁ =>
    obtain ⟨hcursor, hflow₁, hindent⟩ := markPlace_same hmark
    rw [hmark] at hs
    obtain rfl := Except.ok.inj hs
    obtain ⟨rfl, -⟩ := Token.scalar.inj (Option.some.inj ht)
    rw [hcursor, hflow₁, hindent, hflow]
    rfl

/-- A text that is read as a plain scalar from the rest of its line is plain. -/
theorem isPlain_of_plainScalar (hflow : s.flow = 0) (hc : s.cursor.rest = t ++ '\n' :: u)
    (hread : ∀ x ∈ t, isReadable x = true) (hline : ∀ x ∈ t, isBreak x = false)
    (hstart : ∀ x ∈ s.cursor.rest.head?, s.startsPlain x = true) (hs : s.plainScalar = .ok s')
    (ht : s'.reversed.head? = some (.scalar t true)) : IsPlain t := by
  have hwords := plainScalar_text hflow hs ht
  have hfirst : "-?:,[]\x7b\x7d#&*!|>'\"%@\x60".toList = looseMarks ++ marks := by decide
  cases t with
  | nil =>
    have hfeed := hstart '\n' (by rw [hc]; rfl)
    simp [startsPlain, isBreak] at hfeed
  | cons x t =>
    have hx := hstart x (by rw [hc]; rfl)
    simp only [startsPlain, hfirst, Bool.or_eq_true, Bool.not_eq_true', Bool.or_eq_false_iff,
      Bool.and_eq_true, List.contains_eq_mem, decide_eq_false_iff_not, List.mem_append, not_or] at hx
    have hapart : ∀ y ∈ looseMarks, y ∉ marks := by simp [looseMarks, marks]
    have hloose (h : x = '-' ∨ x = '?' ∨ x = ':') : x ∈ looseMarks := by simpa [looseMarks] using h
    refine ⟨Plain.isWords_of_words hc hread hline (List.cons_ne_nil x t) hwords, ?_, ?_⟩
    · rintro y ⟨⟩
      obtain ⟨-, -, hmark⟩ | ⟨-, hmark⟩ := hx
      · exact hmark
      · refine hapart x (hloose ?_)
        simpa [hflow] using hmark
    · rintro y ⟨⟩ hmem
      obtain ⟨-, hmark, -⟩ | ⟨hends, -⟩ := hx
      · exact absurd hmem hmark
      · rw [Cursor.endsWord, hc] at hends
        cases t with
        | nil => simp [isBreak] at hends
        | cons y t =>
          obtain ⟨hbreak, hblank⟩ : isBreak y = false ∧ isSpaceOrTab y = false := by simpa using hends
          exact ⟨y, rfl, hread y (by simp), hbreak, hblank⟩

end Tokenizer

end MarkTidy.Yaml
