/-
TokenSheets/Proofs/Fragment/Scope.lean

The generated sheets are scoped.

Each kind of sheet reads few variables from outside: an export reads the
collection of custom properties, a utility reads the registry and the map that
its rules come from.  The core sheet sets the registry always, and the
collection whenever there are capabilities at all; the maps are there because
the rule sources have been checked.  So all reads are covered in the order in
which the sheets are imported.
-/
import TokenSheets.Proofs.Sheet.Scope
import TokenSheets.Proofs.Fragment.Generable

namespace TokenSheets

open Json Outcome

/-! ### Generated sheets -/

theorem allScopedIn_generatedSheet {known : List Ident} {items : List Item} :
    Item.AllScopedIn known (generatedSheet items).items ↔ Item.AllScopedIn known items := by
  simp [generatedSheet, Item.AllScopedIn, Item.ScopedIn, Item.declares]

theorem declared_generatedSheet (items : List Item) :
    (generatedSheet items).declared = Item.declared items := by
  simp [generatedSheet, Sheet.declared, Item.declared, Item.declares]

/-- A generated sheet that names its modules first. -/
theorem usesModules_generatedSheet (modules : List String) {rest : List Item}
    (h : ∀ i ∈ rest, i.CallsOnly modules) :
    (generatedSheet (modules.map .useModule ++ rest)).UsesModules := by
  constructor
  · refine ⟨by simp [Item.exprs], ?_⟩
    apply Item.callsAfterUse_useModule
    simpa [Item.uses] using h
  · refine ⟨.comment banner :: modules.map .useModule, rest, rfl, ?_, fun i hi => (h i hi).1⟩
    intro i hi
    rcases List.mem_cons.mp hi with rfl | hi
    · trivial
    · obtain ⟨m, -, rfl⟩ := List.mem_map.mp hi
      trivial

theorem WritesTexts.scopedIn {t : Table String} {es : List (String × Expr)}
    (h : WritesTexts t es) (known : List Ident) : (Expr.map es).ScopedIn known := by
  rw [Expr.scopedIn_map]
  intro e he
  obtain ⟨l, hl⟩ := h.literal_of_mem he
  rw [hl]
  exact Expr.scopedIn_literal

theorem WritesTexts.callsWithin {t : Table String} {es : List (String × Expr)}
    (h : WritesTexts t es) (used : List String) : (Expr.map es).CallsWithin used := by
  rw [Expr.callsWithin_map]
  intro e he
  obtain ⟨l, hl⟩ := h.literal_of_mem he
  rw [hl]
  exact Expr.callsWithin_literal

/-! ### Settings -/

namespace SettingsSheets

@[simp] theorem module?_mapGet : mapGet.module? = some "map" := by decide

@[simp] theorem module?_mapSet : mapSet.module? = some "map" := by decide

/-- The core sheet sets variables to constants only. -/
theorem constant_of_mem_coreItems {setup : Setup} {l : Literal} {i : Item}
    (hi : i ∈ coreItems setup l) :
    ∃ name value, i = .assign name value ∧ (∀ known, value.ScopedIn known) ∧
      ∀ used, value.CallsWithin used := by
  simp only [coreItems, List.mem_append, List.mem_cons, List.not_mem_nil, or_false] at hi
  rcases hi with (rfl | rfl | rfl | rfl) | hi
  · exact ⟨_, _, rfl, by simp, by simp⟩
  · exact ⟨_, _, rfl, by simp, by simp⟩
  · exact ⟨_, _, rfl, by simp, by simp⟩
  · exact ⟨_, _, rfl, by simp, by simp⟩
  · split at hi
    · obtain rfl := List.mem_singleton.mp hi
      exact ⟨_, _, rfl, by simp, by simp⟩
    · exact absurd hi List.not_mem_nil

theorem scoped_coreItems (known : List Ident) (setup : Setup) (l : Literal) :
    Item.AllScopedIn known (coreItems setup l) := by
  apply Item.allScopedIn_of_forall
  intro i hi
  obtain ⟨name, value, rfl, hscoped, -⟩ := constant_of_mem_coreItems hi
  exact hscoped known

theorem mem_declared_coreItems (setup : Setup) (l : Literal) :
    utilities ∈ Item.declared (coreItems setup l) ∧
      (setup.rootVars.enabled = true → rootVars ∈ Item.declared (coreItems setup l)) := by
  constructor
  · simp [coreItems, Item.declared, Item.declares]
  · intro h
    simp [coreItems, Item.declared, Item.declares, h]

theorem scoped_exportAs {known : List Ident} {key : String} {name : Ident}
    (hroot : rootVars ∈ known) (hname : name ∈ known) : (exportAs key name).ScopedIn known := by
  simp [exportAs, setEntry, Item.ScopedIn, hroot, hname]

theorem scoped_colorItems {known : List Ident} {c : ColorSettings} {capabilities : List String}
    {es : List (String × Expr)} (hes : (Expr.map es).ScopedIn known)
    (hroot : capabilities.contains "colors" = true → rootVars ∈ known) :
    Item.AllScopedIn known (colorItems c capabilities es) := by
  -- from the second statement on, the map is known
  have hrest : Item.AllScopedIn (colors :: known)
      (aliasItemsOf c.aliases ++
        if capabilities.contains "colors" then [exportAs "color" colors] else []) := by
    apply Item.allScopedIn_of_forall
    intro i hi
    rcases List.mem_append.mp hi with hi | hi
    · obtain ⟨a, -, rfl⟩ := List.mem_map.mp hi
      simp [aliasItem, setEntry, Item.ScopedIn]
    · split at hi
      · rename_i hexports
        obtain rfl := List.mem_singleton.mp hi
        exact scoped_exportAs (List.mem_cons_of_mem _ (hroot hexports)) List.mem_cons_self
      · exact absurd hi List.not_mem_nil
  exact ⟨trivial, hes, hrest⟩

theorem scoped_spacingItems {known : List Ident} {exports : Bool} {es : List (String × Expr)}
    (hes : (Expr.map es).ScopedIn known) (hroot : exports = true → rootVars ∈ known) :
    Item.AllScopedIn known (spacingItems exports es) := by
  cases exports with
  | false => exact ⟨hes, trivial⟩
  | true =>
    refine ⟨trivial, hes, ?_, trivial⟩
    exact scoped_exportAs (List.mem_cons_of_mem _ (hroot rfl)) List.mem_cons_self

/-! The modules that the settings sheets use: `sass:map` where something is looked up or added. -/

theorem callsOnly_exportAs {key : String} {name : Ident} :
    (exportAs key name).CallsOnly ["sass:map"] := by
  simp [exportAs, setEntry]

theorem callsOnly_aliasItem {name target : String} :
    (aliasItem name target).CallsOnly ["sass:map"] := by
  simp [aliasItem, setEntry]

theorem usesModules_coreItems (setup : Setup) (l : Literal) :
    (generatedSheet (coreItems setup l)).UsesModules := by
  have hcalls : ∀ i ∈ coreItems setup l, i.CallsOnly [] := by
    intro i hi
    obtain ⟨name, value, rfl, -, hcalls⟩ := constant_of_mem_coreItems hi
    exact Item.callsOnly_assign.mpr (hcalls [])
  exact usesModules_generatedSheet [] hcalls

theorem usesModules_breakpoints {es : List (String × Expr)} {c : Char}
    (hes : (Expr.map es).CallsWithin []) :
    (generatedSheet
      [.assign mqBreakpoints (.map es), .assign breakpointSeparator (.escaped c)]).UsesModules := by
  apply usesModules_generatedSheet []
  intro i hi
  simp only [List.mem_cons, List.not_mem_nil, or_false] at hi
  rcases hi with rfl | rfl
  · exact Item.callsOnly_assign.mpr hes
  · simp

theorem usesModules_colorItems {c : ColorSettings} {capabilities : List String}
    {es : List (String × Expr)} (hes : (Expr.map es).CallsWithin ["sass:map"]) :
    (generatedSheet (colorItems c capabilities es)).UsesModules := by
  apply usesModules_generatedSheet ["sass:map"]
  intro i hi
  rcases List.mem_cons.mp hi with rfl | hi
  · exact Item.callsOnly_assign.mpr hes
  · rcases List.mem_append.mp hi with hi | hi
    · obtain ⟨a, -, rfl⟩ := List.mem_map.mp hi
      exact callsOnly_aliasItem
    · split at hi
      · obtain rfl := List.mem_singleton.mp hi
        exact callsOnly_exportAs
      · exact absurd hi List.not_mem_nil

theorem usesModules_spacingItems {exports : Bool} {es : List (String × Expr)}
    (hes : ∀ used, (Expr.map es).CallsWithin used) :
    (generatedSheet (spacingItems exports es)).UsesModules := by
  cases exports with
  | false =>
    apply usesModules_generatedSheet []
    intro i hi
    obtain rfl := List.mem_singleton.mp hi
    exact Item.callsOnly_assign.mpr (hes _)
  | true =>
    apply usesModules_generatedSheet ["sass:map"]
    intro i hi
    rcases List.mem_cons.mp hi with rfl | hi
    · exact Item.callsOnly_assign.mpr (hes _)
    · obtain rfl := List.mem_singleton.mp hi
      exact callsOnly_exportAs

/-! All settings sheets. -/

/-- A settings sheet reads nothing from outside but the collection of custom properties, and that
only where there is one. -/
structure Fits (setup : Setup) (s : Sheet) : Prop where
  inScope : ∀ known, (setup.rootVars.enabled = true → rootVars ∈ known) →
    Item.AllScopedIn known s.items
  modules : s.UsesModules

theorem fits_of_breakpoints {setup : Setup} {b : BreakpointSettings} {s : Sheet}
    (h : breakpoints b = .ok s) : Fits setup s := by
  obtain ⟨es, c, hes, rfl⟩ := sheet_of_breakpoints h
  refine ⟨fun known _ => ?_, usesModules_breakpoints (hes.callsWithin [])⟩
  rw [allScopedIn_generatedSheet]
  exact ⟨hes.scopedIn known, Expr.scopedIn_escaped, trivial⟩

theorem fits_of_colorsSheet {setup : Setup} {c : ColorSettings} {s : Sheet}
    (h : colorsSheet c setup.rootVars.capabilities = .ok s) : Fits setup s := by
  obtain ⟨es, hes, -, rfl⟩ := sheet_of_colorsSheet h
  refine ⟨fun known hroot => ?_, usesModules_colorItems (hes.callsWithin _)⟩
  rw [allScopedIn_generatedSheet]
  apply scoped_colorItems (hes.scopedIn known)
  exact fun hexports => hroot (enabled_of_mem_capabilities hexports)

theorem fits_of_spacingSheet {setup : Setup} {p : SpacingSettings} {s : Sheet}
    (h : spacingSheet p setup.rootVars.capabilities = .ok s) : Fits setup s := by
  obtain ⟨raw, base, es, -, -, hes, rfl⟩ := sheet_of_spacingSheet h
  refine ⟨fun known hroot => ?_, usesModules_spacingItems hes.callsWithin⟩
  rw [allScopedIn_generatedSheet]
  apply scoped_spacingItems (hes.scopedIn known)
  exact fun hexports => hroot (enabled_of_mem_capabilities hexports)

/-- A step passes on what holds of its sheet. -/
theorem forall_of_step {enabled : Bool} {name : String} {sheet : Except GenerateError Sheet}
    {ms : List Module} (h : step enabled name sheet = .ok ms) {P : Sheet → Prop}
    (hP : ∀ s, sheet = .ok s → P s) :
    (∀ m ∈ ms, P m.sheet) ∧ (enabled = true → ∃ m ∈ ms, P m.sheet) := by
  rcases step_eq_ok.mp h with ⟨-, s, hs, rfl⟩ | ⟨hoff, rfl⟩
  · have hsheet : P s := hP s hs
    exact ⟨by simpa using hsheet, fun _ => ⟨_, List.mem_cons_self, hsheet⟩⟩
  · exact ⟨by simp, fun hon => by simp [hoff] at hon⟩

theorem colors_mem_declared {c : ColorSettings} {capabilities : List String} {s : Sheet}
    (h : colorsSheet c capabilities = .ok s) : colors ∈ s.declared := by
  obtain ⟨es, -, -, rfl⟩ := sheet_of_colorsSheet h
  simp [declared_generatedSheet, colorItems, Item.declared, Item.declares]

theorem spacing_mem_declared {p : SpacingSettings} {capabilities : List String} {s : Sheet}
    (h : spacingSheet p capabilities = .ok s) : spacing ∈ s.declared := by
  obtain ⟨raw, base, es, -, -, -, rfl⟩ := sheet_of_spacingSheet h
  simp [declared_generatedSheet, spacingItems, Item.declared, Item.declares]

/-- What the settings sheets set, as far as the utilities read it. -/
structure Sets (c : Config) (known : List Ident) : Prop where
  registry : utilities ∈ known
  colors : c.settings.colors.enabled = true → colors ∈ known
  spacing : c.settings.spacing.enabled = true → spacing ∈ known

/-- The settings sheets are scoped on their own, and they set what the utilities need. -/
theorem scoped_modules {c : Config} {ms : List Module}
    (h : modules c.setup c.settings = .ok ms) :
    SheetsScopedIn [] (ms.map (·.sheet)) ∧
      Sets c ((ms.map (·.sheet)).flatMap Sheet.declared) ∧ ∀ m ∈ ms, m.sheet.UsesModules := by
  obtain ⟨root, bs, cs, ps, hroot, hbs, hcs, hps, rfl⟩ := modules_eq_ok.mp h
  obtain ⟨l, rfl⟩ := sheet_of_core hroot
  obtain ⟨hregistry, hcollection⟩ := mem_declared_coreItems c.setup l
  rw [← declared_generatedSheet] at hregistry hcollection
  -- after the core sheet, no settings sheet reads from another one
  have hrest : ∀ m ∈ bs ++ cs ++ ps, Fits c.setup m.sheet := by
    intro m hm
    rcases List.mem_append.mp hm with hm | hm
    · rcases List.mem_append.mp hm with hm | hm
      · exact (forall_of_step hbs fun _ => fits_of_breakpoints).1 m hm
      · exact (forall_of_step hcs fun _ => fits_of_colorsSheet).1 m hm
    · exact (forall_of_step hps fun _ => fits_of_spacingSheet).1 m hm
  -- a variable that one of the sheets sets is set by all of them together
  have hset {name : Ident} {m : Module} (hm : m ∈ bs ++ cs ++ ps)
      (hname : name ∈ m.sheet.declared) :
      name ∈ ((⟨"core", generatedSheet (coreItems c.setup l)⟩ :: bs ++ cs ++ ps).map
        (·.sheet)).flatMap Sheet.declared := by
    refine List.mem_flatMap.mpr ⟨m.sheet, List.mem_map_of_mem ?_, hname⟩
    exact List.mem_cons_of_mem _ hm
  refine ⟨⟨?_, ?_⟩, ⟨?_, ?_, ?_⟩, ?_⟩
  · exact allScopedIn_generatedSheet.mpr (scoped_coreItems [] c.setup l)
  · apply sheetsScopedIn_of_forall
    intro s hs
    obtain ⟨m, hm, rfl⟩ := List.mem_map.mp hs
    exact (hrest m hm).inScope _ fun hon => List.mem_append_left _ (hcollection hon)
  · exact List.mem_append_left _ hregistry
  · intro hon
    obtain ⟨m, hm, hcolors⟩ := (forall_of_step hcs fun _ => colors_mem_declared).2 hon
    exact hset (List.mem_append_left _ (List.mem_append_right _ hm)) hcolors
  · intro hon
    obtain ⟨m, hm, hspacing⟩ := (forall_of_step hps fun _ => spacing_mem_declared).2 hon
    exact hset (List.mem_append_right _ hm) hspacing
  · intro m hm
    rcases List.mem_cons.mp hm with rfl | hm
    · exact usesModules_coreItems c.setup l
    · exact (hrest m hm).modules

end SettingsSheets

/-! ### Utilities -/

namespace UtilitySheets

@[simp] theorem module?_getMixin : getMixin.module? = some "meta" := by decide

@[simp] theorem module?_convertSpaceList : convertSpaceList.module? = none := by decide

theorem IsRules.scopedIn {source : RuleSource} {e : Expr} (h : IsRules source (some e))
    {known : List Ident} (hcolors : source = .colors → SettingsSheets.colors ∈ known)
    (hspacing : ∀ unit, source = .spacing unit → SettingsSheets.spacing ∈ known) :
    e.ScopedIn known := by
  cases h with
  | explicit writes => exact writes.scopedIn known
  | colors => exact Expr.scopedIn_var.mpr (hcolors rfl)
  | spacing unit => simp [convertedSpacing, hspacing unit rfl]

theorem IsRules.callsWithin {source : RuleSource} {e : Expr} (h : IsRules source (some e)) :
    e.CallsWithin ["sass:map", "sass:meta"] := by
  cases h with
  | explicit writes => exact writes.callsWithin _
  | colors => exact Expr.callsWithin_var
  | spacing unit => simp [convertedSpacing]

theorem scoped_mixinBody {u : Utility} {rules : Option Expr} {known : List Ident}
    (hbreakpoint : breakpoint ∈ known) (hrules : ∀ e, rules = some e → e.ScopedIn known) :
    Item.AllScopedIn known (mixinBody u rules) := by
  cases rules with
  | none => simp [mixinBody, Item.AllScopedIn, Item.ScopedIn, hbreakpoint]
  | some e =>
    refine ⟨hrules e rfl, ?_, trivial⟩
    simp [Item.ScopedIn, Item.declares, hbreakpoint]

theorem scoped_utilityItems {u : Utility} {name : Ident} {rules : Option Expr}
    {known : List Ident} (hregistry : SettingsSheets.utilities ∈ known)
    (hrules : ∀ e, rules = some e → e.ScopedIn known) :
    Item.AllScopedIn known (utilityItems u name rules) := by
  -- in the body, the parameter is known in addition
  have hbody : Item.AllScopedIn (breakpoint :: known) (mixinBody u rules) :=
    scoped_mixinBody List.mem_cons_self fun e he =>
      (hrules e he).mono (List.subset_cons_self _ _)
  refine ⟨trivial, trivial, ⟨?_, hbody⟩, ?_, trivial⟩
  · exact ⟨fun e he => Option.some.inj he ▸ Expr.scopedIn_null, trivial⟩
  · simp [Item.ScopedIn, SettingsSheets.setEntry, Item.declares, hregistry]

theorem callsWithin_of_mem_exprs_mixinBody {u : Utility} {rules : Option Expr}
    {used : List String} (hrules : ∀ e, rules = some e → e.CallsWithin used) :
    ∀ e ∈ Item.allExprs (mixinBody u rules), e.CallsWithin used := by
  cases rules with
  | none => simp [mixinBody, Item.allExprs, Item.exprs]
  | some e => simp [mixinBody, Item.allExprs, Item.exprs, hrules e rfl]

theorem usesModules_utilityItems {u : Utility} {name : Ident} {rules : Option Expr}
    (hrules : ∀ e, rules = some e → e.CallsWithin ["sass:map", "sass:meta"]) :
    (generatedSheet (utilityItems u name rules)).UsesModules := by
  apply usesModules_generatedSheet ["sass:map", "sass:meta"]
  intro i hi
  simp only [List.mem_cons, List.not_mem_nil, or_false] at hi
  rcases hi with rfl | rfl
  · refine ⟨rfl, fun e he => ?_⟩
    rcases List.mem_cons.mp he with rfl | he
    · exact Expr.callsWithin_null
    · exact callsWithin_of_mem_exprs_mixinBody hrules e he
  · simp [SettingsSheets.setEntry]

/-- A utility sheet is scoped once its registry and the map of its rules are known. -/
theorem scoped_of_sheet {u : Utility} {s : Sheet} (h : sheet u = .ok s) {known : List Ident}
    (hregistry : SettingsSheets.utilities ∈ known)
    (hcolors : u.source = .colors → SettingsSheets.colors ∈ known)
    (hspacing : ∀ unit, u.source = .spacing unit → SettingsSheets.spacing ∈ known) :
    Item.AllScopedIn known s.items ∧ s.UsesModules := by
  obtain ⟨name, rules, -, hrules, rfl⟩ := sheet_of_sheet h
  constructor
  · rw [allScopedIn_generatedSheet]
    apply scoped_utilityItems hregistry
    rintro e rfl
    exact hrules.scopedIn hcolors hspacing
  · apply usesModules_utilityItems
    rintro e rfl
    exact hrules.callsWithin

end UtilitySheets

/-! ### Everything -/

/-- **The sheets are scoped.**  Whatever a configuration generates, no sheet reads a variable that
has not been set before it is read, and none calls a function of a module that it has not taken
into use. -/
theorem Config.generate_scoped {c : Config} {s : Sources} (h : c.generate = .ok s) :
    ∃ ms us, SettingsSheets.modules c.setup c.settings = .ok ms ∧
      UtilitySheets.modules c.utilities = .ok us ∧
      s = ⟨.ofModules SettingsSheets.directory SettingsSheets.aggregatorName ms,
        .ofModules UtilitySheets.directory UtilitySheets.aggregatorName us⟩ ∧
      SheetsScopedIn [] ((ms ++ us).map (·.sheet)) ∧
      ∀ m ∈ ms ++ us, m.sheet.UsesModules := by
  obtain ⟨ms, us, hms, hcheck, hus, rfl⟩ := Config.generate_eq_ok.mp h
  obtain ⟨hscoped, hsets, huses⟩ := SettingsSheets.scoped_modules hms
  -- the check of the rule sources is what makes the maps known that the rules read
  have hutility : ∀ m ∈ us,
      Item.AllScopedIn ((ms.map (·.sheet)).flatMap Sheet.declared) m.sheet.items ∧
        m.sheet.UsesModules := by
    intro m hm
    obtain ⟨u, hu, hsheet⟩ := UtilitySheets.sheet_of_mem_modulesOf hus hm
    obtain ⟨hcolors, hspacing⟩ :=
      (UtilitySheets.sourceKnown_iff hms).mp (UtilitySheets.checkSources_eq_ok.mp hcheck u hu)
    apply UtilitySheets.scoped_of_sheet hsheet hsets.registry
    · exact fun hsource => hsets.colors (hcolors hsource)
    · exact fun unit hsource => hsets.spacing (hspacing unit hsource)
  refine ⟨ms, us, hms, hus, rfl, ?_, ?_⟩
  · rw [List.map_append, sheetsScopedIn_append, List.append_nil]
    refine ⟨hscoped, sheetsScopedIn_of_forall fun s hs => ?_⟩
    obtain ⟨m, hm, rfl⟩ := List.mem_map.mp hs
    exact (hutility m hm).1
  · intro m hm
    rcases List.mem_append.mp hm with hm | hm
    · exact huses m hm
    · exact (hutility m hm).2

/-- The sheets of the small document are scoped, in particular. -/
theorem Config.generate_scoped_sample :
    ∃ ms us, SettingsSheets.modules sample.setup sample.settings = .ok ms ∧
      UtilitySheets.modules sample.utilities = .ok us ∧
      SheetsScopedIn [] ((ms ++ us).map (·.sheet)) ∧ ∀ m ∈ ms ++ us, m.sheet.UsesModules := by
  obtain ⟨s, hs⟩ := exists_generate_sample
  obtain ⟨ms, us, hms, hus, -, hscoped, huses⟩ := Config.generate_scoped hs
  exact ⟨ms, us, hms, hus, hscoped, huses⟩

end TokenSheets
