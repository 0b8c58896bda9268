import MarkTidy.Config.Load
import MarkTidy.Proofs.Text.Lowercase
import MarkTidy.Proofs.Tree.Place

/-!
The extensions of a configuration that has been loaded: there is one at least, and each is written as
a suffix in lower case is.
-/

namespace MarkTidy.Config

open Text

variable {w : Place} {p : Path} {root : Location} {file t e : Text} {c : Config}

/-- An extension as suffixes are compared with it. -/
structure IsExtension (e : Text) : Prop where
  trimmed : trim e = e
  lower : lower e = e
  stop : e.head? = some '.'

theorem IsExtension.ne_nil (h : IsExtension e) : e ≠ [] := by
  rintro rfl
  cases h.stop

theorem isExtension_extension (t : Text) : IsExtension (Setting.extension t) := by
  have htrim : trim (Text.lower (trim t)) = Text.lower (trim t) := trim_lower (trim_trim t)
  rw [Setting.extension]
  split_ifs with hstop
  · exact ⟨htrim, lower_lower _, hstop⟩
  · refine ⟨?_, lower_of_isSmall ?_, rfl⟩
    · have hright := trimRight_append_of_not_blank (u := ['.']) (List.forall_mem_singleton.2 rfl)
        (Text.lower (trim t))
      rw [(trim_eq_self_iff.1 htrim).2] at hright
      exact trim_eq_self_iff.2 ⟨trimLeft_cons_of_not_blank (by decide), hright⟩
    · have hsmall : IsSmall '.' := isSmall_of_lowerChar (by decide) (by decide)
      exact List.forall_mem_cons.2 ⟨hsmall, fun _ => isSmall_of_mem_lower⟩

theorem isExtension_of_mem_defaultExtensions (h : e ∈ defaultExtensions) : IsExtension e := by
  have hall : ∀ e ∈ defaultExtensions, trim e = e ∧ Text.lower e = e ∧ e.head? = some '.' := by
    decide
  obtain ⟨htrim, hlower, hstop⟩ := hall e h
  exact ⟨htrim, hlower, hstop⟩

/-- A document asks for the default configuration, or for that of a table of settings. -/
theorem ofDocument_cases {d : Yaml.Document} (h : ofDocument root d = .ok c) :
    c = { root } ∨ ∃ s, c = ofSetting root s := by
  rw [ofDocument] at h
  split at h
  · exact .inl (Except.ok.inj h).symm
  · split at h
    · dsimp only at h
      split at h
      · cases h
      · exact .inr ⟨_, (Except.ok.inj h).symm⟩
    · cases h

theorem ofText_cases (h : ofText root file t = .ok c) :
    c = { root } ∨ ∃ s, c = ofSetting root s := by
  rw [ofText] at h
  split at h
  · exact .inl (Except.ok.inj h).symm
  · split at h
    · cases h
    · cases h
    · exact ofDocument_cases h

theorem load_cases (h : load w p = .ok c) : ∃ root, c = { root } ∨ ∃ s, c = ofSetting root s := by
  obtain ⟨file, -, h⟩ := Place.exists_of_bind h
  obtain ⟨root, -, h⟩ := Place.exists_of_bind h
  obtain ⟨there, -, h⟩ := Place.exists_of_bind h
  refine ⟨root, ?_⟩
  cases there with
  | false => exact .inl (Except.ok.inj h).symm
  | true =>
    obtain ⟨t, -, h⟩ := Place.exists_of_bind h
    exact ofText_cases h

/-- A configuration that has been loaded has extensions, all written as they are compared. -/
theorem extensions_of_load (h : load w p = .ok c) :
    c.extensions ≠ [] ∧ ∀ e ∈ c.extensions, IsExtension e := by
  have hdefault : defaultExtensions ≠ [] ∧ ∀ e ∈ defaultExtensions, IsExtension e :=
    ⟨by decide, fun _ => isExtension_of_mem_defaultExtensions⟩
  obtain ⟨root, rfl | ⟨s, rfl⟩⟩ := load_cases h
  · exact hdefault
  · rw [ofSetting]
    dsimp only
    split_ifs with hempty
    · exact hdefault
    · refine ⟨by simpa using hempty, fun e he => ?_⟩
      obtain ⟨t, -, rfl⟩ := List.mem_map.1 he
      exact isExtension_extension t

/-- An extension that is loaded has at least its full stop. -/
theorem nil_not_mem_extensions (h : load w p = .ok c) : [] ∉ c.extensions := fun hnil =>
  ((extensions_of_load h).2 _ hnil).ne_nil rfl

/-- Whether the extensions are lowered or taken as they are, a suffix in lower case is among them or
not. -/
theorem map_lower_extensions (h : load w p = .ok c) : c.extensions.map Text.lower = c.extensions := by
  conv_rhs => rw [← List.map_id c.extensions]
  exact List.map_congr_left fun e he => ((extensions_of_load h).2 e he).lower

end MarkTidy.Config
