import StepFlow.Text

/-!
# Texts cut at their ends

What stands after a text at the front of a longer one, and before a text at its end.
-/

namespace StepFlow.Text

variable {front back s : String}

theorem isPrefixOf_iff : front.isPrefixOf s = true ↔ ∃ back, s = front ++ back := by
  rw [String.isPrefixOf, String.startsWith_string_iff]
  constructor
  · rintro ⟨rest, hrest⟩
    exact ⟨String.ofList rest, by rw [← String.toList_inj, String.toList_append, String.toList_ofList, hrest]⟩
  · rintro ⟨back, rfl⟩
    rw [String.toList_append]
    exact List.prefix_append ..

theorem afterPrefix?_append (front back : String) : afterPrefix? front (front ++ back) = some back := by
  have hprefix : front.toList.isPrefixOf (front ++ back).toList = true := by
    rw [String.toList_append, List.isPrefixOf_iff_prefix]
    exact List.prefix_append ..
  rw [afterPrefix?, if_pos hprefix, String.toList_append, ← String.length_toList, List.drop_left,
    String.ofList_toList]

theorem afterPrefix?_eq_some_iff : afterPrefix? front s = some back ↔ s = front ++ back := by
  constructor
  · intro h
    unfold afterPrefix? at h
    split at h
    · rename_i hprefix
      obtain ⟨rest, hrest⟩ := List.isPrefixOf_iff_prefix.1 hprefix
      rw [← hrest, ← String.length_toList, List.drop_left] at h
      rw [← Option.some.inj h, ← String.toList_inj, String.toList_append, String.toList_ofList, hrest]
    · cases h
  · rintro rfl
    exact afterPrefix?_append front back

theorem beforeSuffix?_append (front back : String) : beforeSuffix? back (front ++ back) = some front := by
  have hsuffix : back.toList.isSuffixOf (front ++ back).toList = true := by
    rw [String.toList_append, List.isSuffixOf_iff_suffix]
    exact List.suffix_append ..
  rw [beforeSuffix?, if_pos hsuffix, String.length_append, Nat.add_sub_cancel, String.toList_append,
    ← String.length_toList, List.take_left, String.ofList_toList]

theorem beforeSuffix?_eq_some_iff : beforeSuffix? back s = some front ↔ s = front ++ back := by
  constructor
  · intro h
    unfold beforeSuffix? at h
    split at h
    · rename_i hsuffix
      obtain ⟨rest, hrest⟩ := List.isSuffixOf_iff_suffix.1 hsuffix
      have hlength : s.length - back.length = rest.length := by
        rw [← String.length_toList, ← hrest, List.length_append, String.length_toList, Nat.add_sub_cancel]
      rw [hlength, ← hrest, List.take_left] at h
      rw [← Option.some.inj h, ← String.toList_inj, String.toList_append, String.toList_ofList, hrest]
    · cases h
  · rintro rfl
    exact beforeSuffix?_append front back

end StepFlow.Text
