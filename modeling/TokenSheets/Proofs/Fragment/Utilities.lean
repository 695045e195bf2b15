/-
TokenSheets/Proofs/Fragment/Utilities.lean

The utility sheets and the whole of what is generated.

A utility sheet differs from another one in its rules only, and the rules have
four kinds (`IsRules`).  The name of a mixin begins with the name of its
utility, which is made of letters and digits, so it is never refused; what is
left to fail are the rules that a definition lists, and the check that the
settings which rules come from are there.
-/
import TokenSheets.Proofs.Number.Finite
import TokenSheets.Proofs.Fragment.Settings

namespace TokenSheets

open Outcome

namespace UtilitySheets

/-! ### Rules -/

/-- The spacing map in another unit, with a plain zero. -/
def convertedSpacing (unit : String) : Expr :=
  .call SettingsSheets.mapSet
    [.call convertSpaceList [.var SettingsSheets.spacing, .str unit], .str "0",
     .number (.zero false) (Double.isFinite_zero false)]

/-- What the mixin of a utility binds as its rules, by the source of the rules. -/
inductive IsRules : RuleSource → Option Expr → Prop where
  | explicit {rules : Table Token} {es : List (String × Expr)}
      (writes : WritesTexts (SettingsSheets.shownTokens rules) es) :
      IsRules (.explicit rules) (some (.map es))
  | colors : IsRules .colors (some (.var SettingsSheets.colors))
  | spacing (unit : String) : IsRules (.spacing unit) (some (convertedSpacing unit))
  | custom : IsRules .custom none

/-- The listed rules of a source, if it lists any, can all stand for values. -/
def RulesUsable (source : RuleSource) : Prop :=
  ∀ rules, source = .explicit rules → ∀ e ∈ rules, isUsable e.2.show.toList = true

theorem exists_ruleEntries_iff {rules : Table Token} :
    (∃ es, ruleEntries rules = .ok es) ↔ ∀ e ∈ rules, isUsable e.2.show.toList = true := by
  simp only [ruleEntries_eq, exists_mapM_iff, exists_named_iff, exists_literal?_iff]

theorem isRules_of_rules? {source : RuleSource} {rules : Option Expr}
    (h : rules? source = .ok rules) : IsRules source rules := by
  cases source with
  | explicit listed =>
    obtain ⟨es, hes, rfl⟩ := map_eq_ok.mp h
    rw [ruleEntries_eq] at hes
    exact .explicit (writesTexts_of_mapM hes fun _ _ hx => hx)
  | colors =>
    obtain rfl := Except.ok.inj h
    exact .colors
  | spacing unit =>
    obtain rfl := Except.ok.inj h
    exact .spacing unit
  | custom =>
    obtain rfl := Except.ok.inj h
    exact .custom

theorem exists_rules?_iff {source : RuleSource} :
    (∃ rules, rules? source = .ok rules) ↔ RulesUsable source := by
  cases source with
  | explicit listed =>
    simp only [rules?, map_eq_ok, RulesUsable, RuleSource.explicit.injEq, forall_eq',
      ← exists_ruleEntries_iff]
    constructor
    · rintro ⟨-, es, hes, -⟩
      exact ⟨es, hes⟩
    · rintro ⟨es, hes⟩
      exact ⟨_, es, hes, rfl⟩
  | colors => simp [rules?, RulesUsable]
  | spacing unit => simp [rules?, RulesUsable]
  | custom => simp [rules?, RulesUsable]

theorem error_of_rules? {source : RuleSource} {e : SheetError} (h : rules? source = .error e) :
    ∃ text, e = .invalidLiteral text := by
  cases source with
  | explicit listed =>
    have hentries := map_eq_error.mp h
    rw [ruleEntries_eq] at hentries
    obtain ⟨a, -, ha⟩ := exists_error_of_mapM hentries
    exact ⟨_, (literal?_eq_error.mp (named_eq_error.mp ha)).2⟩
  | colors => cases h
  | spacing unit => cases h
  | custom => cases h

/-! ### One sheet -/

/-- The name of the mixin is spelled like one, since the name of the utility is. -/
theorem isName_mixinName {u : Utility} (h : Naming.isUtilityName u.name.toList = true) :
    isName (mixinName u).toList = true := by
  rw [mixinName, String.toList_append]
  cases hname : u.name.toList with
  | nil => simp [hname, Naming.isUtilityName] at h
  | cons c cs =>
    rw [hname, Naming.isUtilityName, Bool.and_eq_true, List.all_eq_true] at h
    obtain ⟨hc, hcs⟩ := h
    have hsuffix : ∀ x ∈ "Utility".toList, isNameChar x = true :=
      List.all_eq_true.mp (by decide)
    have hrest : ∀ x ∈ cs ++ "Utility".toList, isNameChar x = true := by
      intro x hx
      rcases List.mem_append.mp hx with hx | hx
      · simp [isNameChar, hcs x hx]
      · exact hsuffix x hx
    rw [List.cons_append, isName, Bool.and_eq_true, List.all_eq_true]
    refine ⟨?_, hrest⟩
    simp [isNameStart, hc]

theorem defineMixin?_eq_ok {name : String} {params : List Param} {body : List Item} {i : Item} :
    Item.defineMixin? name params body = .ok i ↔
      ∃ n : Ident, n.text = name ∧ i = .defineMixin n params body := by
  unfold Item.defineMixin? Ident.ofString?
  by_cases h : isName name.toList = true
  · rw [dif_pos h]
    constructor
    · intro hi
      exact ⟨⟨name, h⟩, rfl, (Except.ok.inj hi).symm⟩
    · rintro ⟨n, rfl, rfl⟩
      rfl
  · rw [dif_neg h]
    constructor
    · intro hi
      cases hi
    · rintro ⟨n, rfl, -⟩
      exact absurd n.isName h

/-- The sheet of a utility with given rules. -/
def utilityItems (u : Utility) (name : Ident) (rules : Option Expr) : List Item :=
  [.useModule "sass:map", .useModule "sass:meta",
   .defineMixin name [⟨breakpoint, some .null⟩] (mixinBody u rules),
   .assign SettingsSheets.utilities
     (SettingsSheets.setEntry SettingsSheets.utilities u.name
       (.call getMixin [.str (mixinName u)]))]

theorem sheet_of_sheet {u : Utility} {s : Sheet} (h : sheet u = .ok s) :
    ∃ name rules, name.text = mixinName u ∧ IsRules u.source rules ∧
      s = generatedSheet (utilityItems u name rules) := by
  simp only [sheet, inContext_eq_ok, bind_eq_ok, pure_eq_ok] at h
  obtain ⟨rules, hrules, mixin, hmixin, rfl⟩ := h
  obtain ⟨name, hname, rfl⟩ := defineMixin?_eq_ok.mp hmixin
  exact ⟨name, rules, hname, isRules_of_rules? hrules, rfl⟩

theorem exists_sheet_iff {u : Utility} (hu : Naming.isUtilityName u.name.toList = true) :
    (∃ s, sheet u = .ok s) ↔ RulesUsable u.source := by
  rw [← exists_rules?_iff]
  simp only [sheet, inContext_eq_ok, bind_eq_ok, pure_eq_ok]
  constructor
  · rintro ⟨-, rules, hrules, -⟩
    exact ⟨rules, hrules⟩
  · rintro ⟨rules, hrules⟩
    exact ⟨_, rules, hrules, _,
      defineMixin?_eq_ok.mpr ⟨⟨mixinName u, isName_mixinName hu⟩, rfl, rfl⟩, rfl⟩

theorem error_of_sheet {u : Utility} (hu : Naming.isUtilityName u.name.toList = true)
    {e : GenerateError} (h : sheet u = .error e) :
    ∃ text, e = .sheet (.utility u.name) (.invalidLiteral text) := by
  obtain ⟨s, hs, rfl⟩ := inContext_eq_error.mp h
  simp only [bind_eq_error, pure_ne_error, and_false, exists_false, or_false] at hs
  rcases hs with hs | ⟨rules, -, hmixin⟩
  · obtain ⟨text, rfl⟩ := error_of_rules? hs
    exact ⟨text, rfl⟩
  · have hok : ∃ i, Item.defineMixin? (mixinName u) [⟨breakpoint, some .null⟩]
        (mixinBody u rules) = .ok i :=
      ⟨_, defineMixin?_eq_ok.mpr ⟨⟨mixinName u, isName_mixinName hu⟩, rfl, rfl⟩⟩
    obtain ⟨i, hi⟩ := hok
    rw [hi] at hmixin
    cases hmixin

/-! ### All sheets -/

/-- The module of one utility. -/
def moduleOf (u : Utility) : Except GenerateError Module :=
  (sheet u).map fun s => ⟨u.name, s⟩

theorem modulesOf_eq (us : List Utility) : modulesOf us = us.mapM moduleOf := by
  induction us with
  | nil => rfl
  | cons u rest ih =>
    rw [modulesOf, List.mapM_cons, ih, moduleOf]
    cases sheet u <;> rfl

/-- A module is the sheet of one of the utilities. -/
theorem sheet_of_mem_modulesOf {us : List Utility} {ms : List Module}
    (h : modulesOf us = .ok ms) {m : Module} (hm : m ∈ ms) : ∃ u ∈ us, sheet u = .ok m.sheet := by
  rw [modulesOf_eq, mapM_eq_ok] at h
  induction h with
  | nil => simp at hm
  | @cons u m' us ms' hu _ ih =>
    rcases List.mem_cons.mp hm with rfl | hm
    · obtain ⟨s, hs, rfl⟩ := map_eq_ok.mp hu
      exact ⟨u, List.mem_cons_self, hs⟩
    · obtain ⟨u', hu', hs⟩ := ih hm
      exact ⟨u', List.mem_cons_of_mem _ hu', hs⟩

theorem exists_modulesOf_iff {us : List Utility}
    (hus : ∀ u ∈ us, Naming.isUtilityName u.name.toList = true) :
    (∃ ms, modulesOf us = .ok ms) ↔ ∀ u ∈ us, RulesUsable u.source := by
  rw [modulesOf_eq, exists_mapM_iff]
  refine forall₂_congr fun u hu => ?_
  rw [← exists_sheet_iff (hus u hu)]
  simp only [moduleOf, map_eq_ok]
  constructor
  · rintro ⟨-, s, hs, -⟩
    exact ⟨s, hs⟩
  · rintro ⟨s, hs⟩
    exact ⟨_, s, hs, rfl⟩

theorem error_of_modulesOf {us : List Utility}
    (hus : ∀ u ∈ us, Naming.isUtilityName u.name.toList = true) {e : GenerateError}
    (h : modulesOf us = .error e) :
    ∃ name text, e = .sheet (.utility name) (.invalidLiteral text) := by
  rw [modulesOf_eq] at h
  obtain ⟨u, hu, he⟩ := exists_error_of_mapM h
  exact ⟨u.name, error_of_sheet (hus u hu) (map_eq_error.mp he)⟩

/-! ### Rule sources -/

/-- The settings that a utility takes its rules from are among those there are. -/
def SourceKnown (settings : List String) (u : Utility) : Prop :=
  ∀ d, RuleSource.domain? u.source = some d → d.name ∈ settings

theorem checkSources_eq_ok {settings : List String} {us : List Utility} :
    checkSources settings us = .ok () ↔ ∀ u ∈ us, SourceKnown settings u := by
  induction us with
  | nil => simp [checkSources]
  | cons u rest ih =>
    rw [List.forall_mem_cons, ← ih, checkSources]
    cases hd : RuleSource.domain? u.source with
    | none => simp [SourceKnown, hd]
    | some d => by_cases hmem : d.name ∈ settings <;> simp [SourceKnown, hd, hmem]

theorem error_of_checkSources {settings : List String} {us : List Utility} {e : GenerateError}
    (h : checkSources settings us = .error e) :
    ∃ utility domain, e = .missingRuleSource utility domain := by
  induction us with
  | nil => cases h
  | cons u rest ih =>
    rw [checkSources] at h
    split at h
    · exact ih h
    · split at h
      · exact ih h
      · exact ⟨_, _, (Except.error.inj h).symm⟩

end UtilitySheets

/-! ### Everything -/

/-- A configuration has sheets exactly if its three stages succeed. -/
theorem Config.generate_eq_ok {c : Config} {s : Sources} :
    c.generate = .ok s ↔
      ∃ ms us, SettingsSheets.modules c.setup c.settings = .ok ms ∧
        UtilitySheets.checkSources (ms.map (·.name)) c.utilities.active = .ok () ∧
        UtilitySheets.modulesOf c.utilities.active = .ok us ∧
        s = ⟨.ofModules SettingsSheets.directory SettingsSheets.aggregatorName ms,
          .ofModules UtilitySheets.directory UtilitySheets.aggregatorName us⟩ := by
  simp only [Config.generate, bind_eq_ok, pure_eq_ok, SettingsSheets.generate_eq_ok,
    UtilitySheets.generate, UtilitySheets.modules, UtilitySheets.checkRuleSources, map_eq_ok]
  constructor
  · rintro ⟨_, ⟨ms, hms, rfl⟩, _, hcheck, _, ⟨us, hus, rfl⟩, rfl⟩
    exact ⟨ms, us, hms, hcheck, hus, rfl⟩
  · rintro ⟨ms, us, hms, hcheck, hus, rfl⟩
    exact ⟨_, ⟨ms, hms, rfl⟩, (), hcheck, _, ⟨us, hus, rfl⟩, rfl⟩

/-- A failure is one of the settings, of the rule sources or of the utilities. -/
theorem Config.generate_eq_error {c : Config} {e : GenerateError} (h : c.generate = .error e) :
    SettingsSheets.modules c.setup c.settings = .error e ∨
      (∃ names, UtilitySheets.checkSources names c.utilities.active = .error e) ∨
      UtilitySheets.modulesOf c.utilities.active = .error e := by
  simp only [Config.generate, bind_eq_error, pure_ne_error, and_false, exists_false, or_false,
    SettingsSheets.generate, UtilitySheets.generate, UtilitySheets.modules,
    UtilitySheets.checkRuleSources, map_eq_error] at h
  rcases h with h | ⟨m, -, h | ⟨-, -, h⟩⟩
  · exact Or.inl h
  · exact Or.inr (Or.inl ⟨m.enabled, h⟩)
  · exact Or.inr (Or.inr h)

end TokenSheets
