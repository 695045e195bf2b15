/-
TokenSheets/Proofs/Fragment/Disabled.lean

What is disabled has no influence.

Two configurations are the same *in use* (`Config.SameInUse`) if they differ
only in what neither of them uses: the flags of root variables that are off,
the contents of settings domains that are off, utilities that are disabled, and
all the utilities of a section that is off.  Each stage of the generation then
gives one and the same result for both, sheets or error, and so does the whole
(`Config.generate_congr`).

The stages look at a section only through its switch, which `SameUnlessOff`
says once for all sections; the utilities are compared entry by entry, because
disabled ones may stand anywhere among the others and on one side only.
-/
import TokenSheets.Proofs.Fragment.Utilities
import TokenSheets.Proofs.Config.Accepted

namespace TokenSheets

open Json

/-! ### Sections with a switch -/

/-- Two sections are one and the same, or both are off. -/
def SameUnlessOff {α : Type} (enabled : α → Bool) (a b : α) : Prop :=
  a = b ∨ (enabled a = false ∧ enabled b = false)

namespace SameUnlessOff

variable {α : Type} {enabled : α → Bool} {a b : α}

theorem enabled_eq (h : SameUnlessOff enabled a b) : enabled a = enabled b := by
  rcases h with rfl | ⟨ha, hb⟩
  · rfl
  · rw [ha, hb]

/-- What is only looked at when the section is on is the same for both. -/
theorem ite_congr {β : Type} (h : SameUnlessOff enabled a b) (f : α → β) (off : β) :
    (if enabled a then f a else off) = if enabled b then f b else off := by
  rcases h with rfl | ⟨ha, hb⟩
  · rfl
  · simp [ha, hb]

end SameUnlessOff

/-! ### Utilities -/

/-- Two lists of utilities with the same enabled ones in the same order.  A disabled utility of
either list has no counterpart in the other. -/
inductive SameEnabled : List Utility → List Utility → Prop where
  | nil : SameEnabled [] []
  | both (u : Utility) {us vs : List Utility} (rest : SameEnabled us vs) :
      SameEnabled (u :: us) (u :: vs)
  | left {u : Utility} {us vs : List Utility} (off : u.enabled = false)
      (rest : SameEnabled us vs) : SameEnabled (u :: us) vs
  | right {v : Utility} {us vs : List Utility} (off : v.enabled = false)
      (rest : SameEnabled us vs) : SameEnabled us (v :: vs)

namespace SameEnabled

theorem filter_eq {us vs : List Utility} (h : SameEnabled us vs) :
    us.filter (·.enabled) = vs.filter (·.enabled) := by
  induction h with
  | nil => rfl
  | both u _ ih => simp only [List.filter_cons, ih]
  | left off _ ih => rw [List.filter_cons_of_neg (by simp [off]), ih]
  | right off _ ih => rw [List.filter_cons_of_neg (by simp [off]), ih]

end SameEnabled

/-- Both sections are off, or both are on or off alike with the same enabled utilities. -/
def Utilities.SameInUse (u v : Utilities) : Prop :=
  (u.enabled = false ∧ v.enabled = false) ∨
    (u.enabled = v.enabled ∧ SameEnabled u.entries v.entries)

theorem Utilities.SameInUse.active_eq {u v : Utilities} (h : u.SameInUse v) :
    u.active = v.active := by
  unfold Utilities.active
  rcases h with ⟨hu, hv⟩ | ⟨henabled, hentries⟩
  · simp [hu, hv]
  · rw [henabled, hentries.filter_eq]

/-! ### Settings -/

/-- The same, up to the flags of root variables that are off. -/
structure Setup.SameInUse (s t : Setup) : Prop where
  classPrefix : s.classPrefix = t.classPrefix
  separator : s.separator = t.separator
  defaultFontSize : s.defaultFontSize = t.defaultFontSize
  rootVars : SameUnlessOff RootVars.enabled s.rootVars t.rootVars

/-- The same, up to the contents of domains that are off. -/
structure Settings.SameInUse (s t : Settings) : Prop where
  breakpoints : SameUnlessOff BreakpointSettings.enabled s.breakpoints t.breakpoints
  colors : SameUnlessOff ColorSettings.enabled s.colors t.colors
  spacing : SameUnlessOff SpacingSettings.enabled s.spacing t.spacing

namespace SettingsSheets

theorem capabilities_congr {s t : Setup} (h : s.SameInUse t) :
    s.rootVars.capabilities = t.rootVars.capabilities :=
  h.rootVars.ite_congr RootVars.flagged []

theorem core_congr {s t : Setup} (h : s.SameInUse t) : core s = core t := by
  simp only [core, h.classPrefix, h.separator, h.defaultFontSize, h.rootVars.enabled_eq]

/-- A step of a domain sees the domain only if it runs. -/
theorem step_congr {α : Type} {enabled : α → Bool} {a b : α} (h : SameUnlessOff enabled a b)
    (name : String) (sheet : α → Except GenerateError Sheet) :
    step (enabled a) name (sheet a) = step (enabled b) name (sheet b) :=
  h.ite_congr (fun x => (sheet x).map fun s => [(⟨name, s⟩ : Module)]) (.ok [])

theorem modules_congr {s t : Setup} {a b : Settings} (hst : s.SameInUse t)
    (hab : a.SameInUse b) : modules s a = modules t b := by
  have hb := step_congr hab.breakpoints "breakpoints" breakpoints
  have hc := step_congr hab.colors "colors" (colorsSheet · t.rootVars.capabilities)
  have hs := step_congr hab.spacing "spacing" (spacingSheet · t.rootVars.capabilities)
  simp only [modules, capabilities_congr hst, core_congr hst, hb, hc, hs]

end SettingsSheets

/-! ### Configurations -/

/-- The same, up to what neither configuration uses. -/
structure Config.SameInUse (c d : Config) : Prop where
  setup : c.setup.SameInUse d.setup
  settings : c.settings.SameInUse d.settings
  utilities : c.utilities.SameInUse d.utilities

/-- **What is disabled has no influence.**  Two configurations that differ only in what neither
of them uses generate the same fragments with the same names, or fail with the same error. -/
theorem Config.generate_congr {c d : Config} (h : c.SameInUse d) : c.generate = d.generate := by
  have hsettings : SettingsSheets.generate c.setup c.settings =
      SettingsSheets.generate d.setup d.settings := by
    rw [SettingsSheets.generate, SettingsSheets.generate,
      SettingsSheets.modules_congr h.setup h.settings]
  have hcheck (names : List String) : UtilitySheets.checkRuleSources c.utilities names =
      UtilitySheets.checkRuleSources d.utilities names := by
    rw [UtilitySheets.checkRuleSources, UtilitySheets.checkRuleSources, h.utilities.active_eq]
  have hutilities : UtilitySheets.generate c.utilities = UtilitySheets.generate d.utilities := by
    rw [UtilitySheets.generate, UtilitySheets.generate, UtilitySheets.modules,
      UtilitySheets.modules, h.utilities.active_eq]
  simp only [Config.generate, hsettings, hcheck, hutilities]

/-- A document whose root variables, colors and first utility are off, with their contents
given. -/
def partlyOffDocument (flags aliases : Table Value) (first : String × Table Value) : Value :=
  .object
    [("setup", .object
       [("prefix", .string "u"), ("separator", .string "-"),
        ("defaultFontSize", .number (.int 16)),
        ("rootVars", .object (("enabled", .bool false) :: flags))]),
     ("settings", .object
       [("breakpoints", .object
          [("enabled", .bool true), ("breakpoints", .object [("sm", .string "40em")])]),
        ("colors", .object [("enabled", .bool false), ("colorAlias", .object aliases)])]),
     ("utilities", .object
       [("enabled", .bool true),
        ("utilities", .object
          [(first.1, .object ([("enabled", .bool false)] ++ first.2)),
           ("opacity", .object
             [("enabled", .bool true), ("initial", .number (.int 1)),
              ("rules", .object [("half", .string "50%")])])])])]

/-- The configuration of such a document. -/
def partlyOff (flags : Table Value) (aliases : Table String) (first : Utility) : Config where
  setup := ⟨"u", "-", .number (.int 16), ⟨false, flags⟩⟩
  settings := ⟨⟨true, "@", [("sm", .text "40em")]⟩, ⟨false, false, [], aliases⟩, .off⟩
  utilities := ⟨true, [first, ⟨"opacity", true, "1", .explicit [("half", .text "50%")]⟩]⟩

/-- An alias without a target, a flag that is on and a utility without its color map do not show
while they are off: nothing changes if they are left out. -/
theorem Config.generate_congr_partlyOff :
    ∃ c d : Config,
      Config.ofValue (partlyOffDocument [("colors", .bool true)] [("main", .string "none")]
        ("textColor", [("initial", .string "inherit")])) = .ok c ∧
      Config.ofValue (partlyOffDocument [] [] ("cursor", [("initial", .string "auto")])) = .ok d ∧
      c.settings.colors ≠ d.settings.colors ∧ c.utilities.entries ≠ d.utilities.entries ∧
      c.generate = d.generate := by
  refine ⟨partlyOff [("colors", .bool true)] [("main", "none")]
      ⟨"textColor", false, "inherit", .colors⟩,
    partlyOff [] [] ⟨"cursor", false, "auto", .custom⟩, rfl, rfl, by decide, by decide, ?_⟩
  refine Config.generate_congr ⟨⟨rfl, rfl, rfl, ?_⟩, ⟨?_, ?_, ?_⟩, ?_⟩
  · exact Or.inr ⟨rfl, rfl⟩
  · exact Or.inl rfl
  · exact Or.inr ⟨rfl, rfl⟩
  · exact Or.inl rfl
  · exact Or.inr ⟨rfl, .left rfl (.right rfl (.both _ .nil))⟩

end TokenSheets
