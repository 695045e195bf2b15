/-
TokenSheets/Proofs/Summary/RoundTrip.lean

Summaries read back.

Two members of a summary are written only if there is something in them.  Their
reader takes a missing member for an empty list or for no artifacts, which is
what they were left out for.  The numbers of a summary have a width and its date
a range of years (`IsRecord`); the texts in it can be anything.
-/
import TokenSheets.Proofs.Document.RoundTrip
import TokenSheets.Summary

namespace TokenSheets

open Json Outcome Form.Entries

/-! ### Fragments -/

namespace FragmentRecord

variable (r : FragmentRecord)

theorem wellFormed_value : r.value.WellFormed := by
  rw [value, Value.wellFormed_object]
  simp [Table.keys]

theorem depth_value : r.value.depth = 1 := rfl

theorem decode_value : decode r.value.outline = .ok r := by
  have hpath : get r.value.shown "path" Decode.text = .ok r.path := get_shown.mpr ⟨_, rfl, rfl⟩
  have hsha : get r.value.shown "sha256" Decode.text = .ok r.sha256 := get_shown.mpr ⟨_, rfl, rfl⟩
  have hentries : form.entries r.value.outline = .ok r.value.shown := by
    refine Form.entries_of_fits (by decide) r.wellFormed_value ⟨_, rfl, fun _ hk => hk⟩ ?_
    intro f hf
    simp only [form, List.mem_cons, List.not_mem_nil, or_false] at hf
    rcases hf with rfl | rfl
    · exact fits_of_get hpath
    · exact fits_of_get hsha
  rw [decode, hentries, ok_bind, hpath, ok_bind, hsha, ok_bind]
  rfl

end FragmentRecord

/-! ### Artifacts -/

namespace Artifacts

variable {a : Artifacts}

theorem wellFormed_value (hbytes : a.cssBytes < 0x10000000000000000) : a.value.WellFormed := by
  have hnumber : (Number.int a.cssBytes).InRange := by
    constructor <;> omega
  rw [value, Value.wellFormed_object]
  simp [Table.keys, hnumber]

theorem depth_value : a.value.depth = 1 := rfl

theorem decode_value (hbytes : a.cssBytes < 0x10000000000000000) :
    decode a.value.outline = .ok a := by
  have hcss : get a.value.shown "css" path = .ok a.css := get_shown.mpr ⟨_, rfl, rfl⟩
  have hmap : get a.value.shown "map" path = .ok a.map := get_shown.mpr ⟨_, rfl, rfl⟩
  have hsha : get a.value.shown "css_sha256" Decode.text = .ok a.cssSha256 :=
    get_shown.mpr ⟨_, rfl, rfl⟩
  have hsize : get a.value.shown "css_bytes" Decode.natural64 = .ok a.cssBytes :=
    get_shown.mpr ⟨_, rfl, Decode.natural_number hbytes _⟩
  have hentries : form.entries a.value.outline = .ok a.value.shown := by
    refine Form.entries_of_fits (by decide) (wellFormed_value hbytes) ⟨_, rfl, fun _ hk => hk⟩ ?_
    intro f hf
    simp only [form, List.mem_cons, List.not_mem_nil, or_false] at hf
    rcases hf with rfl | rfl | rfl | rfl
    · exact fits_of_get hcss
    · exact fits_of_get hmap
    · exact fits_of_get hsha
    · exact fits_of_get hsize
  rw [decode, hentries, ok_bind, hcss, ok_bind, hmap, ok_bind, hsha, ok_bind, hsize, ok_bind]
  rfl

end Artifacts

/-! ### Summaries -/

namespace Summary

/-- The numbers of a summary fit their width, and its date is an instant of the years 0 to 9999
that is no leap second. -/
structure IsRecord (s : Summary) : Prop where
  version : s.schemaVersion < 0x100000000
  createdAt : s.createdAt.IsCommon
  size : ∀ a, s.artifacts = some a → a.cssBytes < 0x10000000000000000

variable {s : Summary}

theorem wellFormed_texts (items : List String) : (texts items).WellFormed := by
  simp [texts]

theorem depth_texts (items : List String) : (texts items).depth = 1 := by
  have hle : (texts items).depth ≤ 1 := Value.depth_array_map_le fun _ => Nat.le_refl 0
  rw [texts, Value.depth] at hle ⊢
  omega

theorem decode_texts (items : List String) : decodeTexts (texts items).outline = .ok items :=
  Decode.list_map fun s _ => Decode.text_string s

theorem hasOnly_value (s : Summary) : s.value.HasOnly form.names := by
  obtain ⟨_, _, _, _, _, _, _, _, pruned, artifacts⟩ := s
  refine ⟨_, rfl, ?_⟩
  cases pruned <;> cases artifacts <;>
    simp [Table.keys, Form.names, form, Field.required, Field.defaulted]

theorem wellFormed_value (hs : s.IsRecord) : s.value.WellFormed := by
  have hversion : (Number.int s.schemaVersion).InRange := by
    have hbound := hs.version
    constructor <;> omega
  have hartifacts := fun a ha => Artifacts.wellFormed_value (hs.size a ha)
  obtain ⟨_, _, _, _, _, _, _, _, pruned, artifacts⟩ := s
  rw [value, Value.wellFormed_object]
  constructor
  · cases pruned <;> cases artifacts <;> simp [Table.keys]
  · cases pruned <;> cases artifacts <;>
      simp_all [wellFormed_texts, Source.wellFormed_value, FragmentRecord.wellFormed_value]

/-- Nothing in a summary lies deeper than the members of its records. -/
theorem depth_value_le (s : Summary) : s.value.depth ≤ 3 := by
  have hsources : (Value.array (s.sources.map Source.value)).depth ≤ 2 :=
    Value.depth_array_map_le fun source => source.depth_value.le
  have hfragments : (Value.array (s.fragments.map FragmentRecord.value)).depth ≤ 2 :=
    Value.depth_array_map_le fun r => r.depth_value.le
  have htexts (items : List String) : (texts items).depth ≤ 2 := by
    rw [depth_texts]
    decide
  have hartifacts (a : Artifacts) : a.value.depth ≤ 2 := by
    rw [Artifacts.depth_value]
    decide
  apply Nat.succ_le_succ
  apply Value.depthOfMembers_le
  obtain ⟨_, _, _, _, _, _, _, _, pruned, artifacts⟩ := s
  cases pruned <;> cases artifacts <;>
    simp_all [Value.depth]

theorem get_pruned (s : Summary) : getD s.value.shown "pruned" decodeTexts [] = .ok s.pruned := by
  obtain ⟨_, _, _, _, _, _, _, _, pruned, artifacts⟩ := s
  rw [getD_shown]
  cases pruned with
  | nil => exact Or.inl ⟨by cases artifacts <;> rfl, rfl⟩
  | cons p ps => exact Or.inr ⟨texts (p :: ps), rfl, decode_texts _⟩

theorem get_artifacts (hs : s.IsRecord) :
    getD s.value.shown "artifacts" decodeArtifacts none = .ok s.artifacts := by
  have hsize := hs.size
  obtain ⟨_, _, _, _, _, _, _, _, pruned, artifacts⟩ := s
  rw [getD_shown]
  cases artifacts with
  | none => exact Or.inl ⟨by cases pruned <;> rfl, rfl⟩
  | some a =>
    refine Or.inr ⟨a.value, by cases pruned <;> rfl, ?_⟩
    exact Decode.optional_some nofun (Artifacts.decode_value (hsize a rfl))

theorem decode_value (hs : s.IsRecord) : decode s.value.outline = .ok s := by
  have hversion : get s.value.shown "schema_version" Decode.natural32 = .ok s.schemaVersion :=
    get_shown.mpr ⟨_, rfl, Decode.natural_number hs.version _⟩
  have hid : get s.value.shown "schema_id" Decode.text = .ok s.schemaId :=
    get_shown.mpr ⟨_, rfl, rfl⟩
  have hcreated : get s.value.shown "created_at" Decode.instant = .ok s.createdAt :=
    get_shown.mpr ⟨_, rfl, Decode.instant_write hs.createdAt⟩
  have hdigest : get s.value.shown "config_digest" Decode.text = .ok s.configDigest :=
    get_shown.mpr ⟨_, rfl, rfl⟩
  have hsources : get s.value.shown "sources" decodeSources = .ok s.sources :=
    get_shown.mpr ⟨_, rfl, Decode.list_map fun source _ => source.decode_value⟩
  have hsettings : get s.value.shown "settings" decodeTexts = .ok s.settings :=
    get_shown.mpr ⟨_, rfl, decode_texts _⟩
  have hutilities : get s.value.shown "utilities" decodeTexts = .ok s.utilities :=
    get_shown.mpr ⟨_, rfl, decode_texts _⟩
  have hfragments : get s.value.shown "fragments" decodeFragments = .ok s.fragments :=
    get_shown.mpr ⟨_, rfl, Decode.list_map fun r _ => r.decode_value⟩
  have hpruned := s.get_pruned
  have hartifacts := get_artifacts hs
  have hentries : form.entries s.value.outline = .ok s.value.shown := by
    refine Form.entries_of_fits (by decide) (wellFormed_value hs) s.hasOnly_value ?_
    intro f hf
    simp only [form, List.mem_cons, List.not_mem_nil, or_false] at hf
    rcases hf with rfl | rfl | rfl | rfl | rfl | rfl | rfl | rfl | rfl | rfl
    · exact fits_of_get hversion
    · exact fits_of_get hid
    · exact fits_of_get hcreated
    · exact fits_of_get hdigest
    · exact fits_of_get hsources
    · exact fits_of_get hsettings
    · exact fits_of_get hutilities
    · exact fits_of_get hfragments
    · exact fits_of_getD hpruned
    · exact fits_of_getD hartifacts
  rw [decode, hentries, ok_bind, hversion, ok_bind, hid, ok_bind, hcreated, ok_bind, hdigest,
    ok_bind, hsources, ok_bind, hsettings, ok_bind, hutilities, ok_bind, hfragments, ok_bind,
    hpruned, ok_bind, hartifacts, ok_bind]
  rfl

/-- **Summaries read back.** -/
theorem ofJson_json (hs : s.IsRecord) : ofJson s.json = .ok s := by
  have hdepth := s.depth_value_le
  have hlimit : Scan.depthLimit = 128 := rfl
  rw [ofJson, json, decodeText_prettyText decode (wellFormed_value hs) (by omega), decode_value hs]

end Summary

end TokenSheets
