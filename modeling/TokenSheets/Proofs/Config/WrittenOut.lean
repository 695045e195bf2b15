/-
TokenSheets/Proofs/Config/WrittenOut.lean

A configuration written out is read as itself.

Each section is read by a decoder and written back by a function, and the two
belong together in the sense of `WritesBack`: what was read from a well-formed
document can be written as well-formed value, and this value reads back.  So
one lemma for each section carries both directions, and the section above it
needs nothing else.  A document may leave out fields, list a section as an array
and place the main switch anywhere among the flags; the section as written has
every field under its name and the switch first.

The utilities are not written back.  They stay as the document has them, and
the rules across fields look at the configuration only, so the document with
both other sections written out (`Config.writtenOut`) is accepted with the same
result.
-/
import TokenSheets.Proofs.Json.RoundTrip
import TokenSheets.Proofs.Config.Accepted

namespace TokenSheets

open Json Json.Form.Entries Outcome

/-! ### Tokens -/

/-- A token is read from the value that it is written as, and from no other. -/
theorem Token.decode_outline {v : Value} (hv : v.WellFormed) {t : Token} :
    Token.decode v.outline = .ok t ↔ v = t.value := by
  rw [Token.decode, Decode.any_outline hv, ok_bind]
  cases v <;> cases t <;> simp [Token.value, pure_eq_ok, throw_ne_ok]

theorem Token.writesBack : WritesBack Token.decode Token.value where
  wellFormed := by
    rintro _ t ⟨v, hv, rfl⟩ h
    rwa [← (decode_outline hv).mp h]
  reads := fun h => (decode_outline h).mpr rfl

/-! ### Flags of the root variables -/

namespace RootVars

/-- The flags can be written beside the switch: none has its name, and no name comes twice. -/
theorem wellFormed_value_iff {r : RootVars} :
    r.value.WellFormed ↔
      "enabled" ∉ r.domains.keys ∧ (Value.object r.domains).WellFormed := by
  rw [value, Value.wellFormed_object, Value.wellFormed_object, Table.keys_cons, List.nodup_cons,
    List.forall_mem_cons]
  simp [and_assoc]

theorem wellFormed_off : off.value.WellFormed := by
  simp [wellFormed_value_iff, off]

theorem wellFormed_insert {ms : Table Value} (hms : (Value.object ms).WellFormed) (k : String)
    {v : Value} (hv : v.WellFormed) : (Value.object (ms.insert k v)).WellFormed := by
  obtain ⟨hnodup, hmembers⟩ := Value.wellFormed_object.mp hms
  refine Value.wellFormed_object.mpr ⟨Table.nodup_keys_insert hnodup k v, ?_⟩
  intro m hm
  rcases Table.mem_insert hm with rfl | hold
  · exact hv
  · exact hmembers m hold

/-- Reading a member keeps the flags such that they can be written. -/
theorem wellFormed_of_decodeMembers {ms : List (Except Fault String × Outline)}
    (hms : ∀ m ∈ ms, m.2.ShowsWellFormed) {r r' : RootVars} {seen : Bool}
    (hr : r.value.WellFormed) (h : decodeMembers ms r seen = .ok r') : r'.value.WellFormed := by
  induction ms generalizing r seen with
  | nil => rwa [← Except.ok.inj h]
  | cons m rest ih =>
    obtain ⟨key, o⟩ := m
    obtain ⟨ho, hrest⟩ := List.forall_mem_cons.mp hms
    obtain ⟨hswitch, hflags⟩ := wellFormed_value_iff.mp hr
    simp only [decodeMembers, bind_eq_ok] at h
    obtain ⟨k, -, h⟩ := h
    split at h
    -- the switch is set and does not become a flag
    · split at h
      · simp [bind_eq_ok, throw_ne_ok] at h
      · simp only [bind_eq_ok] at h
        obtain ⟨b, -, h⟩ := h
        exact ih hrest (r := ⟨b, r.domains⟩) (wellFormed_value_iff.mpr ⟨hswitch, hflags⟩) h
    · rename_i hk
      simp only [bind_eq_ok] at h
      obtain ⟨v, hv, h⟩ := h
      obtain ⟨w, hw, rfl⟩ := ho
      rw [Decode.any_outline hw] at hv
      refine ih hrest (wellFormed_value_iff.mpr ⟨?_, ?_⟩) h
      · simp [Table.mem_keys_insert, hswitch, Ne.symm hk]
      · exact wellFormed_insert hflags k (Except.ok.inj hv ▸ hw)

/-- Flags of new names are read one by one and appended. -/
theorem decodeMembers_outlineMembers {ms : Table Value} (hms : (Value.object ms).WellFormed)
    (hswitch : "enabled" ∉ ms.keys) (r : RootVars) (hr : ∀ k ∈ ms.keys, k ∉ r.domains.keys) :
    decodeMembers (Value.outlineMembers ms) r true = .ok { r with domains := r.domains ++ ms } := by
  induction ms generalizing r with
  | nil => rw [Value.outlineMembers, decodeMembers, List.append_nil]
  | cons m rest ih =>
    obtain ⟨k, v⟩ := m
    obtain ⟨hnodup, hmembers⟩ := Value.wellFormed_object.mp hms
    rw [Table.keys_cons, List.nodup_cons] at hnodup
    rw [Table.keys_cons, List.mem_cons, not_or] at hswitch
    rw [Table.keys_cons, List.forall_mem_cons] at hr
    obtain ⟨hv, hrest⟩ := List.forall_mem_cons.mp hmembers
    have hnew := Table.forall_notMem_keys_insert hnodup.1 hr.2 v
    rw [Value.outlineMembers, decodeMembers, faulty, ok_bind, if_neg (Ne.symm hswitch.1),
      Decode.any_outline hv, ok_bind,
      ih (Value.wellFormed_object.mpr ⟨hnodup.2, hrest⟩) hswitch.2 _ hnew]
    simp [Table.insert_of_notMem hr.1]

theorem writesBack : WritesBack decode value where
  wellFormed := by
    intro o r ho h
    unfold decode at h
    split at h
    · simp only [bind_eq_ok, pure_eq_ok] at h
      obtain ⟨r', hr, -, -, rfl⟩ := h
      refine wellFormed_of_decodeMembers (fun m hm => ?_) ?_ hr
      · exact ho.of_mem_parts (List.mem_map_of_mem hm)
      · exact wellFormed_off
    · exact absurd h refuse_ne_ok
  reads := by
    intro r hr
    obtain ⟨hswitch, hflags⟩ := wellFormed_value_iff.mp hr
    -- the switch is written first, so it has been seen when the flags are read
    have hread := decodeMembers_outlineMembers hflags hswitch ⟨r.enabled, []⟩ (by simp)
    rw [value, Value.outline, Value.outlineMembers, decode, decodeMembers, faulty, ok_bind,
      if_pos rfl]
    simp only [Bool.false_eq_true, if_false, Value.outline, Decode.boolean, ok_bind, off]
    rw [hread]
    rfl

end RootVars

/-! ### Sections -/

theorem wellFormed_empty : (Value.object []).WellFormed := by
  simp

namespace Setup

theorem writesBack : WritesBack decode value where
  wellFormed := by
    intro o s ho h
    simp only [decode, bind_eq_ok, pure_eq_ok] at h
    obtain ⟨es, hes, -, -, -, -, size, hsize, r, hr, rfl⟩ := h
    have hsize := wellFormed_of_get hes ho Token.writesBack hsize
    have hr := wellFormed_of_getD hes ho RootVars.writesBack hr RootVars.wellFormed_off
    simp [value, Table.keys, hsize, hr]
  reads := by
    intro s hs
    have hprefix : get s.value.shown "prefix" Decode.text = .ok s.classPrefix :=
      get_written hs .text rfl
    have hseparator : get s.value.shown "separator" Decode.text = .ok s.separator :=
      get_written hs .text rfl
    have hsize : get s.value.shown "defaultFontSize" Token.decode = .ok s.defaultFontSize :=
      get_written hs Token.writesBack rfl
    have hroot : getD s.value.shown "rootVars" RootVars.decode .off = .ok s.rootVars :=
      getD_written hs RootVars.writesBack rfl
    have hentries : form.entries s.value.outline = .ok s.value.shown := by
      refine Form.entries_of_fits (by decide) hs ⟨_, rfl, fun _ hk => hk⟩ ?_
      simp only [form, sectionForm, List.forall_mem_cons]
      exact ⟨fits_of_get hprefix, fits_of_get hseparator, fits_of_get hsize, fits_of_getD hroot,
        nofun⟩
    rw [decode, hentries, ok_bind, hprefix, ok_bind, hseparator, ok_bind, hsize, ok_bind, hroot,
      ok_bind]
    rfl

end Setup

namespace BreakpointSettings

theorem wellFormed_off : off.value.WellFormed := by
  simp [off, value, Table.keys]

theorem writesBack : WritesBack decode value where
  wellFormed := by
    intro o b ho h
    simp only [decode, bind_eq_ok, pure_eq_ok] at h
    obtain ⟨es, hes, -, -, -, -, t, ht, rfl⟩ := h
    have ht := wellFormed_of_getD hes ho Token.writesBack.table ht wellFormed_empty
    rw [value, Value.wellFormed_object]
    simp only [List.forall_mem_cons, ht]
    simp [Table.keys]
  reads := by
    intro b hb
    have henabled : getD b.value.shown "enabled" Decode.boolean false = .ok b.enabled :=
      getD_written hb .boolean rfl
    have hseparator : getD b.value.shown "separator" Decode.text "@" = .ok b.separator :=
      getD_written hb .text rfl
    have htable : getD b.value.shown "breakpoints" (Decode.table Token.decode) [] =
        .ok b.breakpoints := getD_written hb Token.writesBack.table rfl
    have hentries : form.entries b.value.outline = .ok b.value.shown := by
      refine Form.entries_of_fits (by decide) hb ⟨_, rfl, fun _ hk => hk⟩ ?_
      simp only [form, sectionForm, List.forall_mem_cons]
      exact ⟨fits_of_getD henabled, fits_of_getD hseparator, fits_of_getD htable, nofun⟩
    rw [decode, hentries, ok_bind, henabled, ok_bind, hseparator, ok_bind, htable, ok_bind]
    rfl

end BreakpointSettings

namespace ColorSettings

theorem wellFormed_off : off.value.WellFormed := by
  simp [off, value, Table.keys]

theorem writesBack : WritesBack decode value where
  wellFormed := by
    intro o c ho h
    simp only [decode, bind_eq_ok, pure_eq_ok] at h
    obtain ⟨es, hes, -, -, -, -, t, ht, a, ha, rfl⟩ := h
    have ht := wellFormed_of_getD hes ho Token.writesBack.table ht wellFormed_empty
    have ha := wellFormed_of_getD hes ho WritesBack.text.table ha wellFormed_empty
    rw [value, Value.wellFormed_object]
    simp only [List.forall_mem_cons, ht, ha]
    simp [Table.keys]
  reads := by
    intro c hc
    have henabled : getD c.value.shown "enabled" Decode.boolean false = .ok c.enabled :=
      getD_written hc .boolean rfl
    have hnamed : getD c.value.shown "includeHTMLColors" Decode.boolean false =
        .ok c.includesNamed := getD_written hc .boolean rfl
    have hcolors : getD c.value.shown "colors" (Decode.table Token.decode) [] = .ok c.colors :=
      getD_written hc Token.writesBack.table rfl
    have haliases : getD c.value.shown "colorAlias" (Decode.table Decode.text) [] =
        .ok c.aliases := getD_written hc WritesBack.text.table rfl
    have hentries : form.entries c.value.outline = .ok c.value.shown := by
      refine Form.entries_of_fits (by decide) hc ⟨_, rfl, fun _ hk => hk⟩ ?_
      simp only [form, sectionForm, List.forall_mem_cons]
      exact ⟨fits_of_getD henabled, fits_of_getD hnamed, fits_of_getD hcolors,
        fits_of_getD haliases, nofun⟩
    rw [decode, hentries, ok_bind, henabled, ok_bind, hnamed, ok_bind, hcolors, ok_bind, haliases,
      ok_bind]
    rfl

end ColorSettings

namespace SpacingSettings

/-- A base that is not there is written as `null`. -/
theorem value_eq (p : SpacingSettings) :
    p.value = .object
      [("enabled", .bool p.enabled), ("defaultSpacingValue", p.base.elim .null .string),
       ("spacements", .object (p.factors.map fun e => (e.1, .number (.double e.2))))] := by
  obtain ⟨enabled, base, factors⟩ := p
  cases base <;> rfl

theorem wellFormed_off : off.value.WellFormed := by
  simp [off, value, Table.keys]

theorem writesBack : WritesBack decode value where
  wellFormed := by
    intro o p ho h
    simp only [decode, bind_eq_ok, pure_eq_ok] at h
    obtain ⟨es, hes, -, -, base, hbase, t, ht, rfl⟩ := h
    have hbase := wellFormed_of_getD hes ho (WritesBack.text.optional (by simp)) hbase
      Value.wellFormed_null
    have ht := wellFormed_of_getD hes ho WritesBack.double.table ht wellFormed_empty
    rw [value_eq, Value.wellFormed_object]
    simp only [List.forall_mem_cons, hbase, ht]
    simp [Table.keys]
  reads := by
    intro p hp
    have henabled : getD p.value.shown "enabled" Decode.boolean false = .ok p.enabled :=
      getD_written hp .boolean rfl
    have hbase : getD p.value.shown "defaultSpacingValue" (Decode.optional Decode.text) none =
        .ok p.base :=
      getD_written hp (WritesBack.text.optional (by simp)) (by rw [value_eq]; rfl)
    have hfactors : getD p.value.shown "spacements" (Decode.table Decode.double) [] =
        .ok p.factors := getD_written hp WritesBack.double.table rfl
    have hentries : form.entries p.value.outline = .ok p.value.shown := by
      refine Form.entries_of_fits (by decide) hp ⟨_, rfl, fun _ hk => hk⟩ ?_
      simp only [form, sectionForm, List.forall_mem_cons]
      exact ⟨fits_of_getD henabled, fits_of_getD hbase, fits_of_getD hfactors, nofun⟩
    rw [decode, hentries, ok_bind, henabled, ok_bind, hbase, ok_bind, hfactors, ok_bind]
    rfl

end SpacingSettings

namespace Settings

theorem wellFormed_off : off.value.WellFormed := by
  simp [off, value, Table.keys, BreakpointSettings.wellFormed_off, ColorSettings.wellFormed_off,
    SpacingSettings.wellFormed_off]

theorem writesBack : WritesBack decode value where
  wellFormed := by
    intro o s ho h
    simp only [decode, bind_eq_ok, pure_eq_ok] at h
    obtain ⟨es, hes, b, hb, c, hc, p, hp, rfl⟩ := h
    have hb := wellFormed_of_getD hes ho BreakpointSettings.writesBack hb
      BreakpointSettings.wellFormed_off
    have hc := wellFormed_of_getD hes ho ColorSettings.writesBack hc ColorSettings.wellFormed_off
    have hp := wellFormed_of_getD hes ho SpacingSettings.writesBack hp
      SpacingSettings.wellFormed_off
    simp [value, Table.keys, hb, hc, hp]
  reads := by
    intro s hs
    have hbreakpoints : getD s.value.shown "breakpoints" BreakpointSettings.decode .off =
        .ok s.breakpoints := getD_written hs BreakpointSettings.writesBack rfl
    have hcolors : getD s.value.shown "colors" ColorSettings.decode .off = .ok s.colors :=
      getD_written hs ColorSettings.writesBack rfl
    have hspacing : getD s.value.shown "spacing" SpacingSettings.decode .off = .ok s.spacing :=
      getD_written hs SpacingSettings.writesBack rfl
    have hentries : form.entries s.value.outline = .ok s.value.shown := by
      refine Form.entries_of_fits (by decide) hs ⟨_, rfl, fun _ hk => hk⟩ ?_
      simp only [form, sectionForm, List.forall_mem_cons]
      exact ⟨fits_of_getD hbreakpoints, fits_of_getD hcolors, fits_of_getD hspacing, nofun⟩
    rw [decode, hentries, ok_bind, hbreakpoints, ok_bind, hcolors, ok_bind, hspacing, ok_bind]
    rfl

end Settings

/-! ### The whole document -/

/-- The document with its setup and its settings as they are written back.  The utilities stay, or
stay away. -/
def Config.writtenOut (c : Config) (v : Value) : Value :=
  .object
    ([("setup", c.setup.value), ("settings", c.settings.value)] ++
      match v.member? "utilities" with
      | none => []
      | some u => [("utilities", u)])

namespace Config

theorem member?_writtenOut (c : Config) (v : Value) :
    (c.writtenOut v).member? "utilities" = v.member? "utilities" := by
  unfold writtenOut
  cases v.member? "utilities" <;> rfl

theorem wellFormed_writtenOut {c : Config} {v : Value} (hv : v.WellFormed)
    (hsetup : c.setup.value.WellFormed) (hsettings : c.settings.value.WellFormed) :
    (c.writtenOut v).WellFormed := by
  unfold writtenOut
  cases hu : v.member? "utilities" with
  | none => simp [Table.keys, hsetup, hsettings]
  | some u => simp [Table.keys, hsetup, hsettings, hv.of_member? hu]

theorem hasOnly_writtenOut (c : Config) (v : Value) :
    (c.writtenOut v).HasOnly ConfigDocument.form.names := by
  refine ⟨_, rfl, ?_⟩
  cases v.member? "utilities" <;> simp [Table.keys, Form.names, ConfigDocument.form, sectionForm,
    Field.required, Field.defaulted]

end Config

/-- A field is read from its member only. -/
theorem getD_shown_congr {α : Type} {v w : Value} {name : String}
    (h : w.member? name = v.member? name) (d : Decoder α) (default : α) :
    getD w.shown name d default = getD v.shown name d default := by
  rw [getD, getD, Value.get?_shown, Value.get?_shown, h]

namespace ConfigDocument

/-- Two of the sections of a document that was read can be written, and the third is a member. -/
theorem sections_of_decode {v : Value} (hv : v.WellFormed) (hobject : v.isObject = true)
    {d : ConfigDocument} (h : decode v.outline = .ok d) :
    d.setup.value.WellFormed ∧ d.settings.value.WellFormed ∧
      getD v.shown "utilities" UtilitiesDocument.decode ⟨false, []⟩ = .ok d.utilities := by
  have hitems : ∀ items, v ≠ .array items := by
    rintro items rfl
    cases hobject
  simp only [decode, bind_eq_ok, pure_eq_ok] at h
  obtain ⟨es, hes, s, hs, t, ht, u, hu, rfl⟩ := h
  refine ⟨wellFormed_of_get hes ⟨v, hv, rfl⟩ Setup.writesBack hs,
    wellFormed_of_getD hes ⟨v, hv, rfl⟩ Settings.writesBack ht Settings.wellFormed_off, ?_⟩
  obtain ⟨-, -, rfl⟩ := (Form.entries_outline rfl (by decide) hv hitems).mp hes
  exact hu

/-- The document is read from its three sections. -/
theorem decode_of_sections {v : Value} (hv : v.WellFormed) (hkeys : v.HasOnly form.names)
    {d : ConfigDocument} (hsetup : get v.shown "setup" Setup.decode = .ok d.setup)
    (hsettings : getD v.shown "settings" Settings.decode .off = .ok d.settings)
    (hutilities : getD v.shown "utilities" UtilitiesDocument.decode ⟨false, []⟩ =
      .ok d.utilities) : decode v.outline = .ok d := by
  have hentries : form.entries v.outline = .ok v.shown := by
    refine Form.entries_of_fits (by decide) hv hkeys ?_
    simp only [form, sectionForm, List.forall_mem_cons]
    exact ⟨fits_of_get hsetup, fits_of_getD hsettings, fits_of_getD hutilities, nofun⟩
  rw [decode, hentries, ok_bind, hsetup, ok_bind, hsettings, ok_bind, hutilities, ok_bind]
  rfl

end ConfigDocument

/-- **Defaults and normal forms change nothing.**  If a document is accepted, so is the document
with its setup and its settings written out, and both describe the same configuration. -/
theorem Config.ofValue_writtenOut {v : Value} (hv : v.WellFormed) (hobject : v.isObject = true)
    {c : Config} (h : ofValue v = .ok c) : ofValue (c.writtenOut v) = .ok c := by
  obtain ⟨d, us, hd, hus, rfl, hnone⟩ := parts_of_ofValue h
  obtain ⟨hsetup, hsettings, hutilities⟩ := ConfigDocument.sections_of_decode hv hobject hd
  have hw : (writtenOut ⟨d.setup, d.settings, ⟨d.utilities.enabled, us⟩⟩ v).WellFormed :=
    wellFormed_writtenOut hv hsetup hsettings
  have hdecode := ConfigDocument.decode_of_sections (d := d) hw (hasOnly_writtenOut _ v)
    (get_written hw Setup.writesBack rfl) (getD_written hw Settings.writesBack rfl)
    ((getD_shown_congr (member?_writtenOut _ v) _ _).trans hutilities)
  simp only [ofValue, bind_eq_ok, mapError_eq_ok]
  refine ⟨d, hdecode, us, hus, ?_⟩
  rw [hnone]
  rfl

/-- A document that leaves out what it can, with a setup in list form and with the switch of the
root variables among the flags. -/
def sparseDocument : Value :=
  .object
    [("utilities", .object
       [("enabled", .bool true),
        ("utilities", .object [("margin", .object [("initial", .number (.int 0))])])]),
     ("settings", .object
       [("spacing", .object
          [("defaultSpacingValue", .null),
           ("spacements", .object
             [("m", .number (.int 2)), ("s", .number (.double (Double.ofDecimal false 5 (-1))))])]),
        ("colors", .object
          [("colors", .object [("red", .string "#f00"), ("black", .number (.int 0))]),
           ("colorAlias", .object [("main", .string "red")])])]),
     ("setup", .array
       [.string "u", .string "-", .string "16px",
        .object
          [("spacements", .null), ("enabled", .bool true), ("colors", .number (.int 1))]])]

/-- The configuration of this document. -/
def sparse : Config where
  setup := ⟨"u", "-", .text "16px", ⟨true, [("spacements", .null), ("colors", .number (.int 1))]⟩⟩
  settings :=
    ⟨.off, ⟨false, false, [("red", .text "#f00"), ("black", .number (.int 0))], [("main", "red")]⟩,
     ⟨false, none, [("m", Double.ofInt 2), ("s", Double.ofDecimal false 5 (-1))]⟩⟩
  utilities := ⟨true, [⟨"margin", false, "0", .spacing "rem"⟩]⟩

theorem wellFormed_sparseDocument : sparseDocument.WellFormed := by
  have hhalf : (Double.ofDecimal false 5 (-1)).isFinite = true := by decide +kernel
  simp [sparseDocument, Number.InRange, Table.keys, hhalf]

theorem Config.ofValue_sparseDocument : ofValue sparseDocument = .ok sparse := by
  rfl

theorem Config.ofValue_writtenOut_sparse :
    ofValue sparseDocument = .ok sparse ∧
      ofValue (sparse.writtenOut sparseDocument) = .ok sparse :=
  ⟨ofValue_sparseDocument,
    ofValue_writtenOut wellFormed_sparseDocument rfl ofValue_sparseDocument⟩

end TokenSheets
