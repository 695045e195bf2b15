/-
TokenSheets/Proofs/Document/RoundTrip.lean

Effective configurations read back.

The record of an effective configuration holds the configuration tree as it is,
so it is nested one deeper than the tree.  A reader accepts as many containers
inside each other as the loader of documents does.  A tree that is one short of
the limit was therefore loaded, but the record of it cannot be read
(`ofJson_json_tooDeep`).  Every other record reads back.
-/
import TokenSheets.Proofs.Json.RoundTrip
import TokenSheets.Proofs.Document.Effective

namespace TokenSheets

open Json Outcome

/-! ### Sources -/

namespace Source

/-- A source reads back, whatever became of the document. -/
theorem decode_value (s : Source) : decode s.value.outline = .ok s := by
  obtain ⟨origin, path, digest, status⟩ := s
  cases origin <;> cases digest <;> cases status <;> rfl

theorem wellFormed_value (s : Source) : s.value.WellFormed := by
  obtain ⟨origin, path, digest, status⟩ := s
  rw [value, Value.wellFormed_object]
  constructor
  · cases digest <;> cases status <;> simp [Table.keys, SourceStatus.members]
  · cases digest <;> cases status <;> simp [SourceStatus.members]

theorem depth_value (s : Source) : s.value.depth = 1 := by
  obtain ⟨origin, path, digest, status⟩ := s
  cases digest <;> cases status <;> rfl

end Source

namespace Effective

variable {e : Effective}

theorem wellFormed_value (hconfig : e.config.WellFormed)
    (hversion : e.schemaVersion < 0x100000000) : e.value.WellFormed := by
  rw [value, Value.wellFormed_object]
  constructor
  · simp [Table.keys]
  · have hnumber : (Number.int e.schemaVersion).InRange := by
      constructor <;> omega
    simp [hnumber, hconfig, Source.wellFormed_value]

theorem depth_value_le : e.value.depth ≤ max e.config.depth 2 + 1 := by
  have hsources : (Value.array (e.sources.map Source.value)).depth ≤ 2 :=
    Value.depth_array_map_le fun s => s.depth_value.le
  simp only [value, Value.depth, Value.depthOfMembers] at hsources ⊢
  omega

/-- The record reads back from its outline. -/
theorem decode_value (hconfig : e.config.WellFormed) (hversion : e.schemaVersion < 0x100000000) :
    decode e.value.outline = .ok e := by
  have hschema : Form.Entries.get e.value.shown "schema_version" Decode.natural32 =
      .ok e.schemaVersion :=
    Form.Entries.get_shown.mpr ⟨_, rfl, Decode.natural_number hversion _⟩
  have hid : Form.Entries.get e.value.shown "schema_id" Decode.text = .ok e.schemaId :=
    Form.Entries.get_shown.mpr ⟨_, rfl, rfl⟩
  have htree : Form.Entries.get e.value.shown "config" Decode.any = .ok e.config :=
    Form.Entries.get_shown.mpr ⟨_, rfl, Decode.any_outline hconfig⟩
  have hsources : Form.Entries.get e.value.shown "sources" (Decode.list Source.decode) =
      .ok e.sources :=
    Form.Entries.get_shown.mpr ⟨_, rfl, Decode.list_map fun s _ => s.decode_value⟩
  have hentries : form.entries e.value.outline = .ok e.value.shown := by
    refine Form.entries_of_fits (by decide) (wellFormed_value hconfig hversion)
      ⟨_, rfl, fun _ hk => hk⟩ ?_
    intro f hf
    simp only [form, List.mem_cons, List.not_mem_nil, or_false] at hf
    rcases hf with rfl | rfl | rfl | rfl
    · exact Form.Entries.fits_of_get hschema
    · exact Form.Entries.fits_of_get hid
    · exact Form.Entries.fits_of_get htree
    · exact Form.Entries.fits_of_get hsources
  rw [decode, hentries, ok_bind, hschema, ok_bind, hid, ok_bind, htree, ok_bind, hsources, ok_bind]
  rfl

/-- **Records read back** as long as the tree is not as deep as a document may be. -/
theorem ofJson_json (hconfig : e.config.WellFormed) (hversion : e.schemaVersion < 0x100000000)
    (hdepth : e.config.depth + 1 < Scan.depthLimit) : ofJson e.json = .ok e := by
  have hvalue := e.depth_value_le
  have hlimit : Scan.depthLimit = 128 := rfl
  rw [ofJson, json, decodeText_prettyText decode (wellFormed_value hconfig hversion) (by omega),
    decode_value hconfig hversion]

/-! ### Trees at the limit -/

/-- The members of a record are looked at one by one, and the tree is the third of them. -/
theorem decode_tooDeep {os : List (Except Fault String × Outline)}
    (hos : ShowsMembers 1 [("schema_version", .number (.int e.schemaVersion)),
      ("schema_id", .string e.schemaId), ("config", e.config),
      ("sources", .array (e.sources.map Source.value))] os)
    (hversion : e.schemaVersion < 0x100000000) (hdepth : Scan.depthLimit ≤ e.config.depth + 1) :
    ∃ f, decode (.object os none) = .error (.fault f) ∧ f.cause = .tooDeep := by
  simp only [ShowsMembers, List.forall₂_cons_left_iff] at hos
  obtain ⟨⟨key₁, o₁⟩, _, ⟨rfl, hshows₁⟩, ⟨⟨key₂, o₂⟩, _, ⟨rfl, hshows₂⟩,
    ⟨⟨key₃, o₃⟩, rest, ⟨rfl, hshows₃⟩, -, rfl⟩, rfl⟩, rfl⟩ := hos
  obtain rfl : o₁ = _ := hshows₁.fits (by simp [Value.depth, Scan.depthLimit])
  obtain rfl : o₂ = _ := hshows₂.fits (by simp [Value.depth, Scan.depthLimit])
  obtain ⟨f, hread, hcause⟩ := hshows₃.tooDeep hdepth
  refine ⟨f, ?_, hcause⟩
  have hcheck : (Field.required "schema_version" Decode.natural32).check
      (Value.number (.int e.schemaVersion)).outline = .ok () := by
    have hnatural := Decode.natural_number hversion "u32"
    simp only [Field.required, Decode.natural32, hnatural]
    rfl
  have hrefused : (Field.required "config" Decode.any).check o₃ = .error (.fault f) := by
    have hread' : o₃.read = .error f := hread
    simp only [Field.required, Decode.any, hread']
    rfl
  rw [decode, Form.entries, Form.fromMembers_cons_of_ok rfl rfl hcheck,
    Form.fromMembers_cons_of_ok (k := "schema_id") rfl rfl rfl,
    Form.fromMembers_cons_of_error rfl rfl hrefused]
  rfl

/-- A record whose tree is too deep for another container around it cannot be read. -/
theorem ofJson_json_tooDeep (hconfig : e.config.WellFormed)
    (hversion : e.schemaVersion < 0x100000000) (hdepth : Scan.depthLimit ≤ e.config.depth + 1) :
    ∃ f, ofJson e.json = .error (.fault f) ∧ f.cause = .tooDeep := by
  have hwf := wellFormed_value hconfig hversion
  obtain ⟨os, hos, hshows⟩ := exists_outline_pretty_object hwf
  obtain ⟨f, hf, hcause⟩ := decode_tooDeep hshows hversion hdepth
  refine ⟨f, ?_, hcause⟩
  have houtline : outline (piecesOfText (e.value.pretty 0)) = (.object os none, none) := hos
  rw [ofJson, json, decodeText, Value.prettyText, String.toList_ofList, houtline]
  dsimp only
  rw [hf]
  rfl

/-! ### Configurations of documents -/

section Resolved

variable {t : FileTree} {default : Path} {user : Option Path}

theorem schemaVersion_of_resolve (h : resolve t default user = .ok e) :
    e.schemaVersion = currentVersion := by
  simp only [resolve, bind_eq_ok] at h
  obtain ⟨⟨v, digest⟩, -, h⟩ := h
  cases user with
  | none => rw [← pure_eq_ok.mp h]; rfl
  | some p => rw [← pure_eq_ok.mp h]; rfl

/-- **What can be read of a resolved configuration.**  Its record reads back, with the tree, the
sources and everything that is computed from them, unless the tree is as deep as a document may
be; then the record is refused as too deep. -/
theorem ofJson_json_of_resolve (h : resolve t default user = .ok e) :
    (e.config.depth + 1 < Scan.depthLimit → ofJson e.json = .ok e) ∧
      (Scan.depthLimit ≤ e.config.depth + 1 →
        ∃ f, ofJson e.json = .error (.fault f) ∧ f.cause = .tooDeep) := by
  have hconfig := wellFormed_of_resolve h
  have hversion : e.schemaVersion < 0x100000000 := by
    rw [schemaVersion_of_resolve h]
    decide
  exact ⟨ofJson_json hconfig hversion, ofJson_json_tooDeep hconfig hversion⟩

end Resolved

/-- An object with as many lists inside each other as given. -/
def deepDocument (lists : Nat) : ByteArray :=
  (String.ofList ("\x7b\"a\":".toList ++ List.replicate lists '[' ++ List.replicate lists ']' ++
    ['\x7d'])).toUTF8

/-- A tree with a nested default document and a user document. -/
def deepTree (lists : Nat) : FileTree where
  entries :=
    [(["default.json"], .file (deepDocument lists) false),
     (["user.json"], .file "\x7b\"b\":[1.5e300,-0.0,\"\\u0007\"]\x7d".toUTF8 false)]
  here := []

/-- One list fewer than a document may have, and a user document that takes part. -/
theorem ofJson_json_of_resolve_deepTree :
    ∃ e, resolve (deepTree 125) ⟨"/default.json"⟩ (some ⟨"/user.json"⟩) = .ok e ∧
      e.config.depth = 126 ∧ e.usesUserConfig = true ∧ ofJson e.json = .ok e := by
  have hresolve : (resolve (deepTree 125) ⟨"/default.json"⟩ (some ⟨"/user.json"⟩)).toOption.any
      (fun e => decide (e.config.depth = 126) && e.usesUserConfig) = true := by decide +kernel
  cases hr : resolve (deepTree 125) ⟨"/default.json"⟩ (some ⟨"/user.json"⟩) with
  | error e =>
    rw [hr] at hresolve
    cases hresolve
  | ok e =>
    rw [hr] at hresolve
    obtain ⟨hdepth, huses⟩ := Bool.and_eq_true_iff.mp hresolve
    have hdepth' : e.config.depth = 126 := of_decide_eq_true hdepth
    exact ⟨e, rfl, hdepth', huses, (ofJson_json_of_resolve hr).1 (by rw [hdepth']; decide)⟩

/-- A default document as deep as it may be is loaded, and its record cannot be read. -/
theorem exists_record_not_read :
    ∃ e, resolve (deepTree 126) ⟨"/default.json"⟩ none = .ok e ∧ ofJson e.json ≠ .ok e := by
  have hresolve : (resolve (deepTree 126) ⟨"/default.json"⟩ none).toOption.any
      (fun e => decide (Scan.depthLimit ≤ e.config.depth + 1 ∧ e.schemaVersion < 0x100000000)) =
        true := by decide +kernel
  cases hr : resolve (deepTree 126) ⟨"/default.json"⟩ none with
  | error e =>
    rw [hr] at hresolve
    cases hresolve
  | ok e =>
    rw [hr] at hresolve
    obtain ⟨hdepth, hversion⟩ := of_decide_eq_true hresolve
    obtain ⟨f, hf, -⟩ := ofJson_json_tooDeep (wellFormed_of_resolve hr) hversion hdepth
    refine ⟨e, rfl, ?_⟩
    rw [hf]
    nofun

end Effective

end TokenSheets
