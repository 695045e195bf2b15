/-
TokenSheets/Proofs/Fragment/Palette.lean

The palette.

The configured colors come first and in their order; the named colors of the
web follow where they are not configured.  So no name comes twice, a configured
color is never covered, and only configured colors can be unusable.
-/
import TokenSheets.Proofs.Fragment.Settings

namespace TokenSheets

namespace SettingsSheets

/-! ### Named colors -/

theorem plain_namedColors :
    ∀ e ∈ namedColors, e.2.toList ≠ [] ∧ ∀ c ∈ e.2.toList, IsPlain c := by
  have hall : namedColors.all fun e =>
      !e.2.toList.isEmpty && e.2.toList.all fun c => decide (IsPlain c) := by
    decide +kernel
  simpa using hall

/-- Every named color can stand for a value. -/
theorem isUsable_of_mem_namedColors {e : String × String} (h : e ∈ namedColors) :
    isUsable e.2.toList = true :=
  isUsable_of_plain (plain_namedColors e h).1 (plain_namedColors e h).2

/-- A named color is written as it is. -/
theorem trimmed_of_mem_namedColors {e : String × String} (h : e ∈ namedColors) :
    trimmed e.2 = e.2 := by
  rw [trimmed, trim_of_plain (plain_namedColors e h).2, String.ofList_toList]

theorem nodup_keys_namedColors : namedColors.keys.Nodup := by
  decide +kernel

/-! ### Names of the palette -/

/-- The named colors that the palette adds. -/
def addedColors (c : ColorSettings) : Table String :=
  if c.includesNamed then namedColors.filter fun e => !(shownTokens c.colors).has e.1 else []

theorem palette_eq (c : ColorSettings) : palette c = shownTokens c.colors ++ addedColors c := rfl

theorem mem_keys_addedColors {c : ColorSettings} {name : String} :
    name ∈ (addedColors c).keys ↔
      c.includesNamed = true ∧ name ∈ namedColors.keys ∧ name ∉ c.colors.keys := by
  unfold addedColors
  split
  · rename_i h
    rw [Table.keys_filter namedColors fun k => !(shownTokens c.colors).has k, List.mem_filter,
      Bool.not_eq_true', Table.has_eq_false_iff, keys_shownTokens]
    simp [h]
  · rename_i h
    simp [h]

/-- A name of the palette is configured, or it is a named color and these are included. -/
theorem mem_keys_palette {c : ColorSettings} {name : String} :
    name ∈ (palette c).keys ↔
      name ∈ c.colors.keys ∨ c.includesNamed = true ∧ name ∈ namedColors.keys := by
  rw [palette_eq, Table.keys_append, List.mem_append, keys_shownTokens, mem_keys_addedColors]
  tauto

theorem nodup_keys_palette {c : ColorSettings} (hc : c.colors.keys.Nodup) :
    (palette c).keys.Nodup := by
  have hadded : (addedColors c).keys.Nodup := by
    unfold addedColors
    split
    · rw [Table.keys_filter namedColors fun k => !(shownTokens c.colors).has k]
      exact nodup_keys_namedColors.filter _
    · exact List.nodup_nil
  rw [palette_eq, Table.keys_append, keys_shownTokens]
  refine List.nodup_append.mpr ⟨hc, hadded, ?_⟩
  -- what is added is not configured
  rintro a ha b hb rfl
  exact (mem_keys_addedColors.mp hb).2.2 ha

/-! ### Texts of the palette -/

/-- The palette is usable as soon as the configured colors are. -/
theorem forall_mem_palette_isUsable_iff {c : ColorSettings} :
    (∀ e ∈ palette c, isUsable e.2.toList = true) ↔
      ∀ e ∈ c.colors, isUsable e.2.show.toList = true := by
  rw [← forall_mem_shownTokens_iff (p := fun s => isUsable s.toList = true), palette_eq]
  constructor
  · intro h e he
    exact h e (List.mem_append_left _ he)
  · intro h e he
    rcases List.mem_append.mp he with he | he
    · exact h e he
    · unfold addedColors at he
      split at he
      · exact isUsable_of_mem_namedColors (List.mem_of_mem_filter he)
      · exact absurd he List.not_mem_nil

end SettingsSheets

end TokenSheets
