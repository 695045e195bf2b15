/-
TokenSheets/Proofs/Config/Accepted.lean

What an accepted configuration is like.

`Config.Accepted` collects the facts that reading establishes and that the
sheets later rely on: how names and separators are spelled, and that no table
repeats a name.  They hold for every document, however its values are nested
(`accepted_of_ofValue`), because names are inserted into tables one by one and
the rules across fields are checked at the end.  Only the finiteness of the
spacing factors is a fact about the numbers of the document, so it asks for a
well-formed one (`finite_factors_of_ofValue`).
-/
import TokenSheets.Proofs.Json.Decode
import TokenSheets.Config.Read

namespace TokenSheets

open Json Outcome

/-! ### The facts -/

/-- No table of the settings repeats a name. -/
structure Settings.Distinct (s : Settings) : Prop where
  breakpoints : s.breakpoints.breakpoints.keys.Nodup
  colors : s.colors.colors.keys.Nodup
  aliases : s.colors.aliases.keys.Nodup
  factors : s.spacing.factors.keys.Nodup

/-- What the checks establish. -/
structure Config.Accepted (c : Config) : Prop where
  classPrefix : isName c.setup.classPrefix.toList = true
  separator : isSeparator c.setup.separator = true
  breakpointSeparator : c.settings.breakpoints.enabled = true →
    isSeparator c.settings.breakpoints.separator = true
  names : ∀ n ∈ c.settings.names, isBlankName n = false
  rootVars : c.setup.rootVars.domains.keys.Nodup
  settings : c.settings.Distinct
  utilities : (c.utilities.entries.map (·.name)).Nodup
  utilityNames : ∀ u ∈ c.utilities.entries, Naming.isUtilityName u.name.toList = true
  rules : ∀ u ∈ c.utilities.entries, ∀ rules, u.source = .explicit rules → rules.keys.Nodup

/-! ### Sections -/

theorem RootVars.nodup_of_decodeMembers {ms : List (Except Fault String × Outline)}
    {r r' : RootVars} {seen : Bool} (hr : r.domains.keys.Nodup)
    (h : decodeMembers ms r seen = .ok r') : r'.domains.keys.Nodup := by
  induction ms generalizing r seen with
  | nil =>
    rw [← Except.ok.inj h]
    exact hr
  | cons m rest ih =>
    obtain ⟨key, o⟩ := m
    simp only [decodeMembers, bind_eq_ok] at h
    obtain ⟨k, -, h⟩ := h
    split at h
    · split at h
      · simp [bind_eq_ok, throw_ne_ok] at h
      · simp only [bind_eq_ok] at h
        obtain ⟨b, -, h⟩ := h
        refine ih ?_ h
        exact hr
    · simp only [bind_eq_ok] at h
      obtain ⟨v, -, h⟩ := h
      exact ih (Table.nodup_keys_insert hr k v) h

theorem RootVars.nodup_of_decode {o : Outline} {r : RootVars} (h : RootVars.decode o = .ok r) :
    r.domains.keys.Nodup := by
  unfold RootVars.decode at h
  split at h
  · simp only [bind_eq_ok, pure_eq_ok] at h
    obtain ⟨r', hr, -, -, rfl⟩ := h
    refine nodup_of_decodeMembers ?_ hr
    exact List.nodup_nil
  · exact absurd h refuse_ne_ok

theorem Setup.nodup_of_decode {o : Outline} {s : Setup} (h : Setup.decode o = .ok s) :
    s.rootVars.domains.keys.Nodup := by
  simp only [Setup.decode, bind_eq_ok, pure_eq_ok] at h
  obtain ⟨es, -, -, -, -, -, -, -, r, hr, rfl⟩ := h
  exact Form.Entries.getD_ensures (P := fun r => r.domains.keys.Nodup) hr List.nodup_nil
    RootVars.nodup_of_decode

theorem BreakpointSettings.nodup_of_decode {o : Outline} {b : BreakpointSettings}
    (h : BreakpointSettings.decode o = .ok b) : b.breakpoints.keys.Nodup := by
  simp only [BreakpointSettings.decode, bind_eq_ok, pure_eq_ok] at h
  obtain ⟨es, -, -, -, -, -, t, ht, rfl⟩ := h
  exact Form.Entries.getD_ensures (P := fun t => t.keys.Nodup) ht List.nodup_nil
    Decode.nodup_keys_of_table

theorem ColorSettings.nodup_of_decode {o : Outline} {c : ColorSettings}
    (h : ColorSettings.decode o = .ok c) : c.colors.keys.Nodup ∧ c.aliases.keys.Nodup := by
  simp only [ColorSettings.decode, bind_eq_ok, pure_eq_ok] at h
  obtain ⟨es, -, -, -, -, -, t, ht, a, ha, rfl⟩ := h
  constructor
  · exact Form.Entries.getD_ensures (P := fun t => t.keys.Nodup) ht List.nodup_nil
      Decode.nodup_keys_of_table
  · exact Form.Entries.getD_ensures (P := fun t => t.keys.Nodup) ha List.nodup_nil
      Decode.nodup_keys_of_table

theorem SpacingSettings.nodup_of_decode {o : Outline} {s : SpacingSettings}
    (h : SpacingSettings.decode o = .ok s) : s.factors.keys.Nodup := by
  simp only [SpacingSettings.decode, bind_eq_ok, pure_eq_ok] at h
  obtain ⟨es, -, -, -, -, -, t, ht, rfl⟩ := h
  exact Form.Entries.getD_ensures (P := fun t => t.keys.Nodup) ht List.nodup_nil
    Decode.nodup_keys_of_table

theorem Settings.distinct_of_decode {o : Outline} {s : Settings}
    (h : Settings.decode o = .ok s) : s.Distinct := by
  simp only [Settings.decode, bind_eq_ok, pure_eq_ok] at h
  obtain ⟨es, -, b, hb, c, hc, p, hp, rfl⟩ := h
  have hcolors : c.colors.keys.Nodup ∧ c.aliases.keys.Nodup :=
    Form.Entries.getD_ensures (P := fun c => c.colors.keys.Nodup ∧ c.aliases.keys.Nodup) hc
      ⟨List.nodup_nil, List.nodup_nil⟩ ColorSettings.nodup_of_decode
  refine ⟨?_, hcolors.1, hcolors.2, ?_⟩
  · exact Form.Entries.getD_ensures (P := fun b => b.breakpoints.keys.Nodup) hb List.nodup_nil
      BreakpointSettings.nodup_of_decode
  · exact Form.Entries.getD_ensures (P := fun p => p.factors.keys.Nodup) hp List.nodup_nil
      SpacingSettings.nodup_of_decode

/-! ### Utilities -/

/-- The rules that a definition lists do not repeat a name. -/
def UtilityDefinition.Distinct (d : UtilityDefinition) : Prop :=
  ∀ rules, d.rules = some rules → rules.keys.Nodup

theorem UtilityDefinition.distinct_of_decode {o : Outline} {d : UtilityDefinition}
    (h : UtilityDefinition.decode o = .ok d) : d.Distinct := by
  simp only [UtilityDefinition.decode, bind_eq_ok, pure_eq_ok] at h
  obtain ⟨es, -, -, -, -, -, r, hr, -, -, rfl⟩ := h
  intro rules hrules
  subst hrules
  rcases Form.Entries.getD_eq_ok hr with hnone | ⟨o', -, ho⟩
  · cases hnone
  · exact Decode.nodup_keys_of_table (Decode.optional_eq_some ho)

theorem UtilitiesDocument.distinct_of_decode {o : Outline} {u : UtilitiesDocument}
    (h : UtilitiesDocument.decode o = .ok u) :
    u.utilities.keys.Nodup ∧ ∀ e ∈ u.utilities, e.2.Distinct := by
  simp only [UtilitiesDocument.decode, bind_eq_ok, pure_eq_ok] at h
  obtain ⟨es, -, -, -, t, ht, rfl⟩ := h
  refine Form.Entries.getD_ensures
    (P := fun t => t.keys.Nodup ∧ ∀ e ∈ t, UtilityDefinition.Distinct e.2) ht ?_ ?_
  · exact ⟨List.nodup_nil, by simp⟩
  · intro o' t' ht'
    refine ⟨Decode.nodup_keys_of_table ht', ?_⟩
    intro e he
    obtain ⟨c, -, hc⟩ := Decode.mem_of_table ht' he
    exact UtilityDefinition.distinct_of_decode hc

/-- A utility keeps the name and the flag of its definition, and its source is decided by both. -/
theorem Utility.of_ofDefinition {name : String} {d : UtilityDefinition} {u : Utility}
    (h : Utility.ofDefinition name d = .ok u) :
    Naming.isUtilityName name.toList = true ∧
      u = ⟨name, d.enabled, d.initial.show, ruleSource name d⟩ := by
  unfold Utility.ofDefinition at h
  split at h
  · cases h
  · rename_i hname
    refine ⟨by simpa using hname, ?_⟩
    split at h
    · split at h
      · exact (Except.ok.inj h).symm
      · cases h
    · exact (Except.ok.inj h).symm

/-- Listed rules come from the definition. -/
theorem rules_of_ruleSource {name : String} {d : UtilityDefinition} {rules : Table Token}
    (h : ruleSource name d = .explicit rules) : d.rules = some rules := by
  unfold ruleSource at h
  split at h
  · rename_i hrules
    rw [hrules, RuleSource.explicit.inj h]
  · split at h
    · cases h
    · split at h <;> cases h

/-- The utilities are those of the document, in its order. -/
theorem utilities_of_utilitiesOf {t : Table UtilityDefinition} {us : List Utility}
    (h : utilitiesOf t = .ok us) :
    us.map (·.name) = t.keys ∧
      ∀ u ∈ us, ∃ e ∈ t, Utility.ofDefinition e.1 e.2 = .ok u := by
  induction t generalizing us with
  | nil =>
    rw [← Except.ok.inj h]
    simp
  | cons e rest ih =>
    obtain ⟨name, d⟩ := e
    simp only [utilitiesOf, bind_eq_ok, pure_eq_ok] at h
    obtain ⟨u, hu, us', hus, rfl⟩ := h
    obtain ⟨hnames, hmem⟩ := ih hus
    constructor
    · rw [List.map_cons, hnames, (Utility.of_ofDefinition hu).2]
      rfl
    · intro w hw
      rcases List.mem_cons.mp hw with rfl | hw
      · exact ⟨(name, d), by simp, hu⟩
      · obtain ⟨e, he, hew⟩ := hmem w hw
        exact ⟨e, List.mem_cons_of_mem _ he, hew⟩

/-! ### The whole configuration -/

/-- The parts of an accepted configuration. -/
theorem Config.parts_of_ofValue {v : Value} {c : Config} (h : Config.ofValue v = .ok c) :
    ∃ d us, ConfigDocument.decode v.outline = .ok d ∧
      utilitiesOf d.utilities.utilities = .ok us ∧
      c = ⟨d.setup, d.settings, ⟨d.utilities.enabled, us⟩⟩ ∧ c.violation? = none := by
  simp only [Config.ofValue, bind_eq_ok, mapError_eq_ok] at h
  obtain ⟨d, hd, us, hus, h⟩ := h
  split at h
  · exact absurd h throw_ne_ok
  · rename_i hnone
    obtain rfl := pure_eq_ok.mp h
    exact ⟨d, us, hd, hus, rfl, hnone⟩

theorem ConfigDocument.of_decode {o : Outline} {d : ConfigDocument}
    (h : ConfigDocument.decode o = .ok d) :
    d.setup.rootVars.domains.keys.Nodup ∧ d.settings.Distinct ∧
      d.utilities.utilities.keys.Nodup ∧ ∀ e ∈ d.utilities.utilities, e.2.Distinct := by
  simp only [ConfigDocument.decode, bind_eq_ok, pure_eq_ok] at h
  obtain ⟨es, -, s, hs, t, ht, u, hu, rfl⟩ := h
  obtain ⟨o', -, ho⟩ := Form.Entries.get_eq_ok hs
  refine ⟨Setup.nodup_of_decode ho, ?_, ?_⟩
  · exact Form.Entries.getD_ensures ht
      ⟨List.nodup_nil, List.nodup_nil, List.nodup_nil, List.nodup_nil⟩ Settings.distinct_of_decode
  · exact Form.Entries.getD_ensures
      (P := fun u => u.utilities.keys.Nodup ∧ ∀ e ∈ u.utilities, UtilityDefinition.Distinct e.2) hu
      ⟨List.nodup_nil, by simp⟩ UtilitiesDocument.distinct_of_decode

/-- The rules across fields that hold when none is reported as broken. -/
theorem Config.rules_of_violation?_eq_none {c : Config} (h : c.violation? = none) :
    isName c.setup.classPrefix.toList = true ∧ isSeparator c.setup.separator = true ∧
      (c.settings.breakpoints.enabled = true →
        isSeparator c.settings.breakpoints.separator = true) ∧
      ∀ n ∈ c.settings.names, isBlankName n = false := by
  unfold Config.violation? at h
  split at h
  · cases h
  · split at h
    · cases h
    · split at h
      · cases h
      · split at h
        · cases h
        · simp_all

/-- Whatever the document, its configuration has the facts. -/
theorem Config.accepted_of_ofValue {v : Value} {c : Config} (h : Config.ofValue v = .ok c) :
    c.Accepted := by
  obtain ⟨d, us, hd, hus, rfl, hnone⟩ := Config.parts_of_ofValue h
  obtain ⟨hroot, hsettings, hkeys, hdefs⟩ := ConfigDocument.of_decode hd
  obtain ⟨hclass, hsep, hbsep, hnames⟩ := Config.rules_of_violation?_eq_none hnone
  obtain ⟨hus_names, hus_defs⟩ := utilities_of_utilitiesOf hus
  refine ⟨hclass, hsep, hbsep, hnames, hroot, hsettings, ?_, ?_, ?_⟩
  · rw [hus_names]
    exact hkeys
  · intro u hu
    obtain ⟨e, -, he⟩ := hus_defs u hu
    obtain ⟨hname, rfl⟩ := Utility.of_ofDefinition he
    exact hname
  · intro u hu rules hrules
    obtain ⟨e, hmem, he⟩ := hus_defs u hu
    obtain ⟨-, rfl⟩ := Utility.of_ofDefinition he
    exact hdefs e hmem rules (rules_of_ruleSource hrules)

/-! ### Spacing factors -/

/-- The factors of a well-formed document are finite. -/
theorem Config.finite_factors_of_ofValue {v : Value} (hv : v.WellFormed) {c : Config}
    (h : Config.ofValue v = .ok c) : ∀ f ∈ c.settings.spacing.factors, f.2.isFinite = true := by
  obtain ⟨d, us, hd, -, rfl, -⟩ := Config.parts_of_ofValue h
  -- down from the document to its settings, to the spacing section and to its factors
  simp only [ConfigDocument.decode, bind_eq_ok, pure_eq_ok] at hd
  obtain ⟨es, hes, _, -, s, hs, _, -, rfl⟩ := hd
  intro f hf
  rcases Form.Entries.getD_eq_ok hs with rfl | ⟨o₁, ho₁, hs⟩
  · exact absurd hf List.not_mem_nil
  have hshow₁ : o₁.ShowsWellFormed :=
    Outline.ShowsWellFormed.of_mem_parts ⟨v, hv, rfl⟩ (Form.mem_parts_of_entries hes ho₁)
  simp only [Settings.decode, bind_eq_ok, pure_eq_ok] at hs
  obtain ⟨es₁, hes₁, _, -, _, -, p, hp, rfl⟩ := hs
  rcases Form.Entries.getD_eq_ok hp with rfl | ⟨o₂, ho₂, hp⟩
  · exact absurd hf List.not_mem_nil
  have hshow₂ : o₂.ShowsWellFormed := hshow₁.of_mem_parts (Form.mem_parts_of_entries hes₁ ho₂)
  simp only [SpacingSettings.decode, bind_eq_ok, pure_eq_ok] at hp
  obtain ⟨es₂, hes₂, _, -, _, -, t, ht, rfl⟩ := hp
  rcases Form.Entries.getD_eq_ok ht with rfl | ⟨o₃, ho₃, ht⟩
  · exact absurd hf List.not_mem_nil
  have hshow₃ : o₃.ShowsWellFormed := hshow₂.of_mem_parts (Form.mem_parts_of_entries hes₂ ho₃)
  obtain ⟨o₄, ho₄, hd⟩ := Decode.mem_of_table ht hf
  exact Decode.finite_of_double (hshow₃.of_mem_parts ho₄) hd

/-! ### A document with every section -/

/-- A small document that uses each section and each kind of rules. -/
def sampleDocument : Value :=
  .object
    [("setup", .object
       [("prefix", .string "u"), ("separator", .string "-"),
        ("defaultFontSize", .number (.int 16)),
        ("rootVars", .object
          [("enabled", .bool true), ("colors", .bool true), ("spacements", .number (.int 1))])]),
     ("settings", .object
       [("breakpoints", .object
          [("enabled", .bool true), ("breakpoints", .object [("sm", .string "40em")])]),
        ("colors", .object
          [("enabled", .bool true), ("colors", .object [("red", .string " #f00 ")]),
           ("colorAlias", .object [("main", .string "red"), ("link", .string "main")])]),
        ("spacing", .object
          [("enabled", .bool true), ("defaultSpacingValue", .string "8px"),
           ("spacements", .object [("m", .number (.int 2))])])]),
     ("utilities", .object
       [("enabled", .bool true),
        ("utilities", .object
          [("textColor", .object [("enabled", .bool true), ("initial", .string "inherit")]),
           ("margin", .object [("enabled", .bool true), ("initial", .number (.int 0))]),
           ("opacity", .object
             [("enabled", .bool true), ("initial", .number (.int 1)),
              ("rules", .object [("half", .string "50%")])]),
           ("cursor", .object [("enabled", .bool true), ("initial", .string "auto")])])])]

/-- The configuration of the small document. -/
def sample : Config where
  setup :=
    ⟨"u", "-", .number (.int 16),
      ⟨true, [("colors", .bool true), ("spacements", .number (.int 1))]⟩⟩
  settings :=
    ⟨⟨true, "@", [("sm", .text "40em")]⟩,
     ⟨true, false, [("red", .text " #f00 ")], [("main", "red"), ("link", "main")]⟩,
     ⟨true, some "8px", [("m", Double.ofInt 2)]⟩⟩
  utilities :=
    ⟨true,
     [⟨"textColor", true, "inherit", .colors⟩, ⟨"margin", true, "0", .spacing "rem"⟩,
      ⟨"opacity", true, "1", .explicit [("half", .text "50%")]⟩,
      ⟨"cursor", true, "auto", .custom⟩]⟩

theorem wellFormed_sampleDocument : sampleDocument.WellFormed := by
  simp [sampleDocument, Number.InRange, Table.keys]

theorem ofValue_sampleDocument : Config.ofValue sampleDocument = .ok sample := by
  rfl

end TokenSheets
