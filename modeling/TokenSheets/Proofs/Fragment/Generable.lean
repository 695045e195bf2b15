/-
TokenSheets/Proofs/Fragment/Generable.lean

Which configurations have sheets.

`Config.Generable` says it in terms of the configuration alone: what the tokens
look like, where the aliases point, that the spacing base is a length, and that
the settings which rules come from are enabled.  An accepted configuration has
sheets exactly then (`exists_generate_iff`), and otherwise its error is one of
those that `GenerateError.Expected` lists.  The other errors would be about
names, numbers or separators; reading the document has excluded them.
-/
import TokenSheets.Proofs.Fragment.Palette
import TokenSheets.Proofs.Fragment.Utilities
import TokenSheets.Proofs.Config.Accepted

namespace TokenSheets

open Json Outcome

/-! ### Usable tokens -/

/-- Whether a token can stand for a value: any number, or a text that is not blank and, once it
is trimmed, has nothing that ends a statement or a line. -/
def Token.Usable : Token → Prop
  | .number _ => True
  | .text s =>
    trim s.toList ≠ [] ∧
      ∀ c ∈ trim s.toList, c ≠ ';' ∧ c ≠ '\x7b' ∧ c ≠ '\x7d' ∧ c ≠ '\n' ∧ c ≠ '\r'

theorem isUsable_iff {s : List Char} :
    isUsable s = true ↔
      trim s ≠ [] ∧ ∀ c ∈ trim s, c ≠ ';' ∧ c ≠ '\x7b' ∧ c ≠ '\x7d' ∧ c ≠ '\n' ∧ c ≠ '\r' := by
  rw [isUsable, Bool.and_eq_true, Bool.not_eq_true', Bool.not_eq_true', List.isEmpty_eq_false_iff,
    List.any_eq_false]
  refine and_congr_right fun _ => forall₂_congr fun c _ => ?_
  simp only [breaksStatement, Bool.or_eq_true, decide_eq_true_eq, not_or, ne_eq, and_assoc]

/-- The text of a token can stand in a sheet exactly if the token is usable. -/
theorem Token.isUsable_show_iff {t : Token} : isUsable t.show.toList = true ↔ t.Usable := by
  cases t with
  | number n =>
    rw [Token.show, String.toList_ofList, Number.isUsable_write]
    simp [Token.Usable]
  | text s => exact isUsable_iff

/-! ### The condition -/

/-- What a configuration needs in order to have sheets. -/
structure Config.Generable (c : Config) : Prop where
  fontSize : c.setup.defaultFontSize.Usable
  breakpoints : c.settings.breakpoints.enabled = true →
    ∀ e ∈ c.settings.breakpoints.breakpoints, e.2.Usable
  colors : c.settings.colors.enabled = true → ∀ e ∈ c.settings.colors.colors, e.2.Usable
  /-- A target is a configured color, a named one if these are included, or an earlier alias. -/
  aliases : c.settings.colors.enabled = true →
    ∀ before name target after, c.settings.colors.aliases = before ++ (name, target) :: after →
      target ∈ c.settings.colors.colors.keys ∨
        (c.settings.colors.includesNamed = true ∧ target ∈ namedColors.keys) ∨
        target ∈ Table.keys before
  spacing : c.settings.spacing.enabled = true →
    ∃ raw base, c.settings.spacing.base = some raw ∧ Length.ofString? raw = .ok base
  colorRules : c.utilities.enabled = true → ∀ u ∈ c.utilities.entries, u.enabled = true →
    u.source = .colors → c.settings.colors.enabled = true
  spacingRules : c.utilities.enabled = true → ∀ u ∈ c.utilities.entries, u.enabled = true →
    ∀ unit, u.source = .spacing unit → c.settings.spacing.enabled = true
  listedRules : c.utilities.enabled = true → ∀ u ∈ c.utilities.entries, u.enabled = true →
    ∀ rules, u.source = .explicit rules → ∀ e ∈ rules, e.2.Usable

/-- The tokens that an unusable text can be reported for. -/
def SheetContext.IsToken : SheetContext → Prop
  | .defaultFontSize | .breakpoint _ | .color _ | .utility _ => True
  | .breakpointSeparator | .spacing _ => False

/-- The errors that an accepted configuration can end in. -/
inductive GenerateError.Expected : GenerateError → Prop where
  | literal (context : SheetContext) (token : context.IsToken) (text : String) :
    Expected (.sheet context (.invalidLiteral text))
  | missingSpacingValue : Expected .missingSpacingValue
  | invalidSpacingValue (value : String) (reason : LengthFault) :
    Expected (.invalidSpacingValue value reason)
  | unknownColorAlias (name target : String) : Expected (.unknownColorAlias name target)
  | missingRuleSource (utility : String) (domain : RuleDomain) :
    Expected (.missingRuleSource utility domain)

/-! ### Settings -/

theorem Config.Accepted.separator_ne_nil {c : Config} (hc : c.Accepted)
    (henabled : c.settings.breakpoints.enabled = true) :
    c.settings.breakpoints.separator.toList ≠ [] := by
  intro hnil
  have hsep := hc.breakpointSeparator henabled
  simp [isSeparator, hnil] at hsep

namespace SettingsSheets

/-- The aliases are known exactly if each target is among the colors or the earlier aliases. -/
theorem aliasesKnown_palette_iff {c : ColorSettings} :
    AliasesKnown (palette c).keys c.aliases ↔
      ∀ before name target after, c.aliases = before ++ (name, target) :: after →
        target ∈ c.colors.keys ∨ (c.includesNamed = true ∧ target ∈ namedColors.keys) ∨
          target ∈ Table.keys before := by
  simp only [AliasesKnown, mem_keys_palette, or_assoc]

/-- The four steps succeed exactly if the settings part of the condition holds. -/
theorem exists_modules_iff {c : Config} (hc : c.Accepted)
    (hfinite : ∀ f ∈ c.settings.spacing.factors, f.2.isFinite = true) :
    (∃ ms, modules c.setup c.settings = .ok ms) ↔
      isUsable c.setup.defaultFontSize.show.toList = true ∧
        (c.settings.breakpoints.enabled = true →
          ∀ e ∈ c.settings.breakpoints.breakpoints, isUsable e.2.show.toList = true) ∧
        (c.settings.colors.enabled = true →
          (∀ e ∈ c.settings.colors.colors, isUsable e.2.show.toList = true) ∧
            AliasesKnown (palette c.settings.colors).keys c.settings.colors.aliases) ∧
        (c.settings.spacing.enabled = true →
          ∃ raw base, c.settings.spacing.base = some raw ∧ Length.ofString? raw = .ok base) := by
  -- the breakpoints need their separator, which only an enabled section has to have
  have hbreakpoints : (∃ bs, step c.settings.breakpoints.enabled "breakpoints"
      (breakpoints c.settings.breakpoints) = .ok bs) ↔
      (c.settings.breakpoints.enabled = true →
        ∀ e ∈ c.settings.breakpoints.breakpoints, isUsable e.2.show.toList = true) :=
    (exists_step_iff "breakpoints").trans
      (forall_congr' fun henabled => exists_breakpoints_iff (hc.separator_ne_nil henabled))
  rw [← exists_core_iff, ← hbreakpoints, ← forall_mem_palette_isUsable_iff,
    ← exists_colorsSheet_iff c.setup.rootVars.capabilities,
    ← exists_step_iff "colors",
    ← exists_spacingSheet_iff c.setup.rootVars.capabilities hfinite,
    ← exists_step_iff "spacing"]
  simp only [modules_eq_ok]
  constructor
  · rintro ⟨-, root, bs, cs, ps, hroot, hbs, hcs, hps, -⟩
    exact ⟨⟨root, hroot⟩, ⟨bs, hbs⟩, ⟨cs, hcs⟩, ⟨ps, hps⟩⟩
  · rintro ⟨⟨root, hroot⟩, ⟨bs, hbs⟩, ⟨cs, hcs⟩, ⟨ps, hps⟩⟩
    exact ⟨_, root, bs, cs, ps, hroot, hbs, hcs, hps, rfl⟩

theorem expected_of_modules_eq_error {c : Config} (hc : c.Accepted)
    (hfinite : ∀ f ∈ c.settings.spacing.factors, f.2.isFinite = true) {e : GenerateError}
    (h : modules c.setup c.settings = .error e) : e.Expected := by
  simp only [modules, bind_eq_error, pure_ne_error, and_false, exists_false, or_false,
    step_eq_error] at h
  rcases h with ⟨-, h⟩ | ⟨-, -, ⟨henabled, h⟩ | ⟨-, -, ⟨-, h⟩ | ⟨-, -, -, h⟩⟩⟩
  · obtain ⟨text, rfl⟩ := error_of_core h
    exact .literal .defaultFontSize trivial text
  · obtain ⟨name, text, rfl⟩ := error_of_breakpoints (hc.separator_ne_nil henabled) h
    exact .literal (.breakpoint name) trivial text
  · rcases error_of_colorsSheet h with ⟨name, text, rfl⟩ | ⟨name, target, rfl⟩
    · exact .literal (.color name) trivial text
    · exact .unknownColorAlias name target
  · rcases error_of_spacingSheet hfinite h with rfl | ⟨value, reason, rfl⟩
    · exact .missingSpacingValue
    · exact .invalidSpacingValue value reason

end SettingsSheets

/-! ### Utilities -/

theorem Utilities.forall_mem_active_iff {us : Utilities} {p : Utility → Prop} :
    (∀ u ∈ us.active, p u) ↔
      (us.enabled = true → ∀ u ∈ us.entries, u.enabled = true → p u) := by
  unfold Utilities.active
  split
  · rename_i h
    simp [h]
  · rename_i h
    simp [h]

theorem Config.Accepted.isUtilityName_of_mem_active {c : Config} (hc : c.Accepted) :
    ∀ u ∈ c.utilities.active, Naming.isUtilityName u.name.toList = true :=
  Utilities.forall_mem_active_iff.mpr fun _ u hu _ => hc.utilityNames u hu

namespace UtilitySheets

/-- A utility finds the settings of its rules exactly if their domain is enabled. -/
theorem sourceKnown_iff {c : Config} {ms : List Module}
    (hms : SettingsSheets.modules c.setup c.settings = .ok ms) {u : Utility} :
    SourceKnown (ms.map (·.name)) u ↔
      (u.source = .colors → c.settings.colors.enabled = true) ∧
        ∀ unit, u.source = .spacing unit → c.settings.spacing.enabled = true := by
  obtain ⟨hcolors, hspacing⟩ := SettingsSheets.contains_domain_iff hms
  unfold SourceKnown
  rw [← hcolors, ← hspacing]
  cases hsource : u.source with
  | colors => simp [RuleSource.domain?, RuleDomain.name]
  | spacing unit => simp [RuleSource.domain?, RuleDomain.name]
  | explicit rules => simp [RuleSource.domain?]
  | custom => simp [RuleSource.domain?]

end UtilitySheets

/-! ### The whole configuration -/

/-- The condition, in the terms of the three stages. -/
theorem Config.generable_iff {c : Config} (hc : c.Accepted)
    (hfinite : ∀ f ∈ c.settings.spacing.factors, f.2.isFinite = true) :
    c.Generable ↔
      (∃ ms, SettingsSheets.modules c.setup c.settings = .ok ms) ∧
        (∀ u ∈ c.utilities.active,
          (u.source = .colors → c.settings.colors.enabled = true) ∧
            ∀ unit, u.source = .spacing unit → c.settings.spacing.enabled = true) ∧
        ∀ u ∈ c.utilities.active, UtilitySheets.RulesUsable u.source := by
  rw [SettingsSheets.exists_modules_iff hc hfinite, Utilities.forall_mem_active_iff,
    Utilities.forall_mem_active_iff, SettingsSheets.aliasesKnown_palette_iff]
  simp only [Token.isUsable_show_iff, UtilitySheets.RulesUsable]
  constructor
  · intro h
    refine ⟨⟨h.fontSize, h.breakpoints, ?_, h.spacing⟩, ?_, h.listedRules⟩
    · intro henabled
      exact ⟨h.colors henabled, h.aliases henabled⟩
    · intro henabled u hu huse
      exact ⟨h.colorRules henabled u hu huse, h.spacingRules henabled u hu huse⟩
  · rintro ⟨⟨hfont, hbreakpoints, hcolors, hspacing⟩, hsources, hlisted⟩
    refine ⟨hfont, hbreakpoints, ?_, ?_, hspacing, ?_, ?_, hlisted⟩
    · exact fun henabled => (hcolors henabled).1
    · exact fun henabled => (hcolors henabled).2
    · exact fun henabled u hu huse => (hsources henabled u hu huse).1
    · exact fun henabled u hu huse => (hsources henabled u hu huse).2

theorem Config.exists_generate_iff {c : Config} (hc : c.Accepted)
    (hfinite : ∀ f ∈ c.settings.spacing.factors, f.2.isFinite = true) :
    (∃ s, c.generate = .ok s) ↔ c.Generable := by
  rw [Config.generable_iff hc hfinite,
    ← UtilitySheets.exists_modulesOf_iff hc.isUtilityName_of_mem_active]
  simp only [Config.generate_eq_ok, UtilitySheets.checkSources_eq_ok]
  constructor
  · rintro ⟨-, ms, us, hms, hcheck, hus, -⟩
    refine ⟨⟨ms, hms⟩, ?_, ⟨us, hus⟩⟩
    intro u hu
    exact (UtilitySheets.sourceKnown_iff hms).mp (hcheck u hu)
  · rintro ⟨⟨ms, hms⟩, hsources, ⟨us, hus⟩⟩
    refine ⟨_, ms, us, hms, ?_, hus, rfl⟩
    intro u hu
    exact (UtilitySheets.sourceKnown_iff hms).mpr (hsources u hu)

theorem Config.expected_of_generate_eq_error {c : Config} (hc : c.Accepted)
    (hfinite : ∀ f ∈ c.settings.spacing.factors, f.2.isFinite = true) {e : GenerateError}
    (h : c.generate = .error e) : e.Expected := by
  rcases Config.generate_eq_error h with h | ⟨_, h⟩ | h
  · exact SettingsSheets.expected_of_modules_eq_error hc hfinite h
  · obtain ⟨utility, domain, rfl⟩ := UtilitySheets.error_of_checkSources h
    exact .missingRuleSource utility domain
  · obtain ⟨name, text, rfl⟩ :=
      UtilitySheets.error_of_modulesOf hc.isUtilityName_of_mem_active h
    exact .literal (.utility name) trivial text

/-! ### The small document -/

/-- The condition can be checked one part at a time. -/
theorem generable_sample : sample.Generable := by
  have husable {t : Token} (h : isUsable t.show.toList = true) : t.Usable :=
    Token.isUsable_show_iff.mp h
  have haliases : SettingsSheets.AliasesKnown
      (SettingsSheets.palette sample.settings.colors).keys sample.settings.colors.aliases := by
    simp [sample, SettingsSheets.aliasesKnown_cons_iff, SettingsSheets.aliasesKnown_nil,
      SettingsSheets.mem_keys_palette]
  refine ⟨trivial, fun _ => ?_, fun _ => ?_, fun _ => ?_, fun _ => ?_, ?_, ?_, fun _ => ?_⟩
  · simpa [sample] using husable (t := .text "40em") (by decide)
  · simpa [sample] using husable (t := .text " #f00 ") (by decide)
  · exact SettingsSheets.aliasesKnown_palette_iff.mp haliases
  · exact ⟨"8px", _, rfl, rfl⟩
  · exact fun _ _ _ _ _ => rfl
  · exact fun _ _ _ _ _ _ => rfl
  · simpa [sample] using husable (t := .text "50%") (by decide)

theorem exists_generate_sample : ∃ s, sample.generate = .ok s :=
  (Config.exists_generate_iff (Config.accepted_of_ofValue ofValue_sampleDocument)
    (Config.finite_factors_of_ofValue wellFormed_sampleDocument ofValue_sampleDocument)).mpr
    generable_sample

/-! ### The result -/

/-- **Which configurations have sheets.**  The configuration of a document is turned into sheets
exactly if it is generable, and every failure is one of the expected ones.  Every document that
was read is well-formed, and so is every tree that was merged from such. -/
theorem Config.generate_iff_generable {v : Value} (hv : v.WellFormed) {c : Config}
    (h : Config.ofValue v = .ok c) :
    ((∃ s, c.generate = .ok s) ↔ c.Generable) ∧
      ∀ e, c.generate = .error e → e.Expected := by
  have hc := Config.accepted_of_ofValue h
  have hfinite := Config.finite_factors_of_ofValue hv h
  exact ⟨Config.exists_generate_iff hc hfinite,
    fun _ he => Config.expected_of_generate_eq_error hc hfinite he⟩

/-- The small document is well-formed and accepted, and since it is generable it has sheets. -/
theorem Config.generate_iff_generable_sample :
    sampleDocument.WellFormed ∧ Config.ofValue sampleDocument = .ok sample ∧ sample.Generable ∧
      ∃ s, sample.generate = .ok s := by
  obtain ⟨hiff, -⟩ := Config.generate_iff_generable wellFormed_sampleDocument ofValue_sampleDocument
  exact ⟨wellFormed_sampleDocument, ofValue_sampleDocument, generable_sample,
    hiff.mpr generable_sample⟩

end TokenSheets
