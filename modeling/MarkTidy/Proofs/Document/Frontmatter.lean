import Mathlib.Data.List.Infix
import MarkTidy.Document.Frontmatter

/-!
Frontmatter is cut off and nothing else is lost: the body is an end of the document, and the two
parts make up the document.
-/

namespace MarkTidy.Frontmatter

open Text

variable {d r body front t : Text}

theorem afterOpening_suffix (h : afterOpening d = some r) : r <:+ d := by
  unfold afterOpening at h
  split at h
  · next t =>
    have hdrop := List.dropWhile_suffix (l := t) fun c => decide (c = ' ' ∨ c = '\t')
    have hd : t <:+ '-' :: '-' :: '-' :: t := List.suffix_append ['-', '-', '-'] t
    split at h
    · next rest heq =>
      obtain rfl := Option.some.inj h
      rw [heq] at hdrop
      exact (List.suffix_cons _ _).trans (hdrop.trans hd)
    · next rest heq =>
      obtain rfl := Option.some.inj h
      rw [heq] at hdrop
      exact (List.suffix_append ['\r', '\n'] _).trans (hdrop.trans hd)
    · cases h
  · cases h

theorem afterLastFeed_suffix (h : afterLastFeed t = some r) : r <:+ t := by
  unfold afterLastFeed at h
  split at h
  · obtain rfl := Option.some.inj h
    have hpre := List.takeWhile_prefix (l := t.reverse) (· ≠ '\n')
    simpa using List.reverse_suffix.2 hpre
  · cases h

theorem afterClosing_suffix (h : afterClosing t = some body) : body <:+ t := by
  unfold afterClosing at h
  split at h
  · next r =>
    have ht : r <:+ '-' :: '-' :: '-' :: r := List.suffix_append ['-', '-', '-'] r
    split at h
    · obtain rfl := Option.some.inj h
      exact List.nil_suffix
    · next c rest heq =>
      -- The body starts within the blanks, after their last line feed.
      obtain ⟨x, hx, rfl⟩ := Option.map_eq_some_iff.1 h
      obtain ⟨y, hy⟩ := afterLastFeed_suffix hx
      have hr : y ++ (x ++ c :: rest) = r := by
        rw [← List.append_assoc, hy, ← heq, List.takeWhile_append_dropWhile]
      exact List.IsSuffix.trans ⟨y, hr⟩ ht
  · cases h

theorem afterLaterClosing_suffix (h : afterLaterClosing t = some body) : body <:+ t := by
  induction t with
  | nil => cases h
  | cons c t ih =>
    rw [afterLaterClosing] at h
    have ht := List.suffix_cons c t
    split at h
    · split at h
      · next b hb => exact (afterClosing_suffix (hb.trans h)).trans ht
      · exact (ih h).trans ht
    · exact (ih h).trans ht

theorem body_suffix (h : body? d = some body) : body <:+ d := by
  obtain ⟨r, hr, hbody⟩ := Option.bind_eq_some_iff.1 h
  have hd := afterOpening_suffix hr
  rcases Option.or_eq_some_iff.1 hbody with hlater | ⟨-, hfirst⟩
  · exact (afterLaterClosing_suffix hlater).trans hd
  · exact (afterClosing_suffix hfirst).trans hd

/-- The two parts of a document make it up. -/
theorem eq_append_of_split (h : split d = ⟨front, body⟩) : d = front ++ body := by
  unfold split at h
  split at h
  · next b hb =>
    obtain ⟨rfl, rfl⟩ := Split.mk.inj h
    obtain ⟨u, rfl⟩ := body_suffix hb
    simp
  · obtain ⟨rfl, rfl⟩ := Split.mk.inj h
    rfl

/-- The frontmatter of a document tells its body. -/
theorem split_of_front (hd : d = front ++ body) (h : (split d).front = front) :
    split d = ⟨front, body⟩ := by
  have hbody := eq_append_of_split (show split d = ⟨(split d).front, (split d).body⟩ from rfl)
  rw [h, hd] at hbody
  rw [← h, List.append_cancel_left hbody, ← hd]

end MarkTidy.Frontmatter
