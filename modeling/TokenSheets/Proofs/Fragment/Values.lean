/-
TokenSheets/Proofs/Fragment/Values.lean

What the settings sheets compute.

Run in import order, the settings sheets leave three maps behind that all later
sheets read: the colors, the spacing and the collection of custom properties.
Each step is described by what it does to these three (`Shared`): the core
sheet sets up the collection, the colors sheet builds the palette and folds the
aliases into it, the spacing sheet scales its factors, and both may export
their map.  The alias loop carries the invariant that the names it takes for
known are keys of the map built so far, so that no look-up fails.
-/
import TokenSheets.Proofs.Sheet.Evaluation
import TokenSheets.Proofs.Fragment.Generable

namespace TokenSheets

open Json Outcome

/-! ### Flags -/

/-- Whether the flag of a domain is there and on. -/
def RootVars.isOn (r : RootVars) (domain : String) : Bool :=
  (r.domains.get? domain).any Value.isTruthy

/-- A domain has the capability exactly if the main switch and its own flag are on. -/
theorem RootVars.contains_capabilities {r : RootVars} (hr : r.domains.keys.Nodup)
    (domain : String) : r.capabilities.contains domain = (r.enabled && r.isOn domain) := by
  have hflag : domain ∈ r.flagged ↔ r.isOn domain = true := by
    simp only [flagged, isOn, List.mem_map, List.mem_filter, Option.any_eq_true]
    constructor
    · rintro ⟨e, ⟨he, hon⟩, rfl⟩
      exact ⟨e.2, Table.get?_eq_some_of_mem hr he, hon⟩
    · rintro ⟨v, hv, hon⟩
      exact ⟨(domain, v), ⟨Table.mem_of_get?_eq_some hv, hon⟩, rfl⟩
  cases henabled : r.enabled with
  | false => simp [capabilities, henabled]
  | true =>
    rw [Bool.true_and, Bool.eq_iff_iff, List.contains_iff_mem, capabilities, henabled]
    exact hflag

namespace SettingsSheets

/-! ### Reference values -/

/-- The values that texts are written for. -/
def plainValues (t : Table String) : Table StyleValue :=
  t.map fun e => (e.1, .plain (trimmed e.2))

/-- The configured colors in order, then the named ones that are not configured. -/
def paletteValues (c : ColorSettings) : Table StyleValue :=
  (c.colors.map fun e => (e.1, .plain (trimmed e.2.show))) ++
    if c.includesNamed then
      (namedColors.filter fun e => e.1 ∉ c.colors.keys).map fun e => (e.1, .plain e.2)
    else []

/-- Binds a name to the value that its target has at the moment. -/
def bindAlias (colors : Table StyleValue) (a : String × String) : Table StyleValue :=
  match colors.get? a.2 with
  | some v => colors.insert a.1 v
  | none => colors

/-- The palette with the aliases folded into it in order. -/
def finalColors (c : ColorSettings) : Table StyleValue :=
  c.aliases.foldl bindAlias (paletteValues c)

/-- The scaled lengths in order. -/
def spacingValues (base : Length) (factors : Table Double) : Table StyleValue :=
  factors.map fun f => (f.1, .plain (base.scale f.2))

/-- The entry of an exported map. -/
def exportOf (on : Bool) (key : String) (value : Option StyleValue) : Table StyleValue :=
  if on then (value.map fun v => (key, v)).toList else []

/-- What a configuration exports, given the final values of the variables. -/
def exported (c : Config) (env : StyleEnv) : Table StyleValue :=
  exportOf (c.settings.colors.enabled && c.setup.rootVars.isOn "colors") "color"
      (env.get? "colors") ++
    exportOf (c.settings.spacing.enabled && c.setup.rootVars.isOn "spacements") "space"
      (env.get? "spacing")

/-- What the settings sheets are to leave behind. -/
structure Settled (c : Config) (env : StyleEnv) : Prop where
  colors : c.settings.colors.enabled = true →
    env.get? "colors" = some (.map (finalColors c.settings.colors))
  spacing : c.settings.spacing.enabled = true →
    ∃ raw base, c.settings.spacing.base = some raw ∧ Length.ofString? raw = .ok base ∧
      env.get? "spacing" = some (.map (spacingValues base c.settings.spacing.factors))
  rootVars : env.get? "rootVars" =
    if c.setup.rootVars.enabled then some (.map (exported c env)) else none

/-! ### Maps of literals -/

theorem keys_plainValues (t : Table String) : (plainValues t).keys = t.keys :=
  Table.keys_map_snd t fun e => StyleValue.plain (trimmed e.2)

/-- A map that writes texts has their values. -/
theorem eval_map_of_writesTexts {t : Table String} {es : List (String × Expr)}
    (h : WritesTexts t es) (ht : t.keys.Nodup) (env : StyleEnv) :
    Expr.eval env (.map es) = .ok (.map (plainValues t)) := by
  have hentries : Expr.evalEntries env es = .ok (plainValues t) := by
    clear ht
    induction h with
    | nil => rw [Expr.evalEntries]; rfl
    | @cons e x t es hx _ ih =>
      obtain ⟨name, x⟩ := x
      obtain ⟨hname, l, hl, htext⟩ := hx
      simp only at hname hl
      subst hname hl
      refine Expr.evalEntries_cons ?_ ih
      rw [Expr.eval_literal, htext]
  exact Expr.eval_map hentries (by rwa [keys_plainValues])

/-- The reference palette is what the palette of the sheet is written for. -/
theorem plainValues_palette (c : ColorSettings) : plainValues (palette c) = paletteValues c := by
  -- the configured colors agree by definition; what is to show is about the named ones
  have hnamed : plainValues (addedColors c) = if c.includesNamed then
      (namedColors.filter fun e => e.1 ∉ c.colors.keys).map fun e => (e.1, .plain e.2)
      else [] := by
    unfold addedColors
    split
    · have hfilter : (namedColors.filter fun e => !(shownTokens c.colors).has e.1) =
          namedColors.filter fun e => e.1 ∉ c.colors.keys := by
        refine List.filter_congr fun e _ => ?_
        rw [Bool.eq_iff_iff, Bool.not_eq_true', Table.has_eq_false_iff, keys_shownTokens]
        simp
      rw [hfilter]
      refine List.map_congr_left fun e he => ?_
      rw [trimmed_of_mem_namedColors (List.mem_of_mem_filter he)]
    · rfl
  rw [palette_eq, plainValues, List.map_append]
  refine congrArg₂ _ ?_ hnamed
  rw [shownTokens, List.map_map]
  rfl

/-- Scaled lengths have no blanks to trim. -/
theorem plainValues_scaled {raw : String} {base : Length} (h : Length.ofString? raw = .ok base)
    (t : Table Double) : plainValues (scaled base t) = spacingValues base t := by
  rw [plainValues, scaled, List.map_map]
  refine List.map_congr_left fun f _ => ?_
  have htrim : trimmed (base.scale f.2) = base.scale f.2 := by
    rw [trimmed, trim_of_plain (Length.plain_scale h f.2), String.ofList_toList]
  simp only [Function.comp_apply, htrim]

/-! ### Changing a map -/

section
variable {env : StyleEnv} {name : Ident} {t : Table StyleValue}

theorem eval_setEntry (ht : env.get? name.text = some (.map t)) {key : String} {value : Expr}
    {v : StyleValue} (hv : value.eval env = .ok v) :
    (setEntry name key value).eval env = .ok (.map (t.insert key v)) := by
  have hargs : Expr.evalArgs env [.var name, .str key, value] = .ok [.map t, .quoted key, v] :=
    Expr.evalArgs_cons (Expr.eval_var ht)
      (Expr.evalArgs_cons (Expr.eval_str env key) (Expr.evalArgs_cons hv Expr.evalArgs_nil))
  rw [setEntry, Expr.eval_call hargs]
  rfl

theorem eval_mapGet (ht : env.get? name.text = some (.map t)) {key : String} {v : StyleValue}
    (hv : t.get? key = some v) :
    Expr.eval env (.call mapGet [.var name, .str key]) = .ok v := by
  have hargs : Expr.evalArgs env [.var name, .str key] = .ok [.map t, .quoted key] :=
    Expr.evalArgs_cons (Expr.eval_var ht)
      (Expr.evalArgs_cons (Expr.eval_str env key) Expr.evalArgs_nil)
  rw [Expr.eval_call hargs]
  simp [FunctionName.apply, mapGet, hv]

/-- An export adds the map of a variable to the collection. -/
theorem exec_exportAs (ht : env.get? rootVars.text = some (.map t)) {key : String}
    {v : StyleValue} (hv : env.get? name.text = some v) :
    (exportAs key name).exec env = .ok (env.insert rootVars.text (.map (t.insert key v))) :=
  Item.exec_assign (eval_setEntry ht (Expr.eval_var hv))

end

/-! ### The alias loop -/

/-- One alias: its target is found, and the map gets one entry more. -/
theorem exec_aliasItem {env : StyleEnv} {t : Table StyleValue} {name target : String}
    (ht : target ∈ t.keys) :
    (aliasItem name target).exec (env.insert colors.text (.map t)) =
      .ok (env.insert colors.text (.map (bindAlias t (name, target)))) := by
  have hget : (env.insert colors.text (.map t)).get? colors.text = some (.map t) :=
    Table.get?_insert_self env colors.text (.map t)
  obtain ⟨v, hv⟩ := Table.exists_get?_of_mem_keys ht
  have hbind : bindAlias t (name, target) = t.insert name v := by
    rw [bindAlias, hv]
  rw [aliasItem, Item.exec_assign (eval_setEntry hget (eval_mapGet hget hv)), Table.insert_insert,
    hbind]

theorem mem_keys_bindAlias {t : Table StyleValue} {name target : String} (ht : target ∈ t.keys)
    {k : String} : k ∈ (bindAlias t (name, target)).keys ↔ k = name ∨ k ∈ t.keys := by
  obtain ⟨v, hv⟩ := Table.exists_get?_of_mem_keys ht
  rw [bindAlias, hv]
  exact Table.mem_keys_insert

/-- All aliases in order, as long as the known names are keys of the map. -/
theorem execAll_aliasItemsOf {env : StyleEnv} {known : List String} {aliases : Table String}
    (hknown : AliasesKnown known aliases) {t : Table StyleValue} (ht : ∀ k ∈ known, k ∈ t.keys) :
    Item.execAll (env.insert colors.text (.map t)) (aliasItemsOf aliases) =
      .ok (env.insert colors.text (.map (aliases.foldl bindAlias t))) := by
  induction aliases generalizing known t with
  | nil => rfl
  | cons a rest ih =>
    obtain ⟨name, target⟩ := a
    obtain ⟨htarget, hrest⟩ := aliasesKnown_cons_iff.mp hknown
    -- a known name is a key, so the look-up of this alias succeeds
    have hkey : target ∈ t.keys := ht target htarget
    rw [aliasItemsOf, List.map_cons, Item.execAll_cons (exec_aliasItem hkey), List.foldl_cons]
    apply ih hrest
    -- and the new name is known and a key at the same time
    intro k hk
    rw [mem_keys_bindAlias hkey]
    exact (List.mem_cons.mp hk).imp_right (ht k)

/-! ### Steps -/

/-- The maps that the settings share, as far as they are set. -/
structure Shared where
  colors : Option (Table StyleValue)
  spacing : Option (Table StyleValue)
  rootVars : Option (Table StyleValue)

/-- The start: an empty collection, if there is to be one. -/
def startShared (setup : Setup) : Shared :=
  ⟨none, none, if setup.rootVars.enabled then some [] else none⟩

/-- The variables hold the shared maps. -/
structure Holds (env : StyleEnv) (s : Shared) : Prop where
  colors : env.get? "colors" = s.colors.map .map
  spacing : env.get? "spacing" = s.spacing.map .map
  rootVars : env.get? "rootVars" = s.rootVars.map .map

/-- Adds an entry to the collection if the domain is exported. -/
def addExport (exports : Bool) (key : String) (map : Table StyleValue) (s : Shared) : Shared :=
  { s with rootVars := s.rootVars.map fun t => if exports then t.insert key (.map map) else t }

/-- A sheet runs wherever the collection is set if it is wanted, and it changes the shared maps in
a given way. -/
def Changes (setup : Setup) (f : Shared → Shared) (s : Sheet) : Prop :=
  ∀ env shared, Holds env shared → (setup.rootVars.enabled = true → shared.rootVars ≠ none) →
    ∃ env', Item.execAll env s.items = .ok env' ∧ Holds env' (f shared)

theorem execAll_generatedSheet {env : StyleEnv} (items : List Item) :
    Item.execAll env (generatedSheet items).items = Item.execAll env items :=
  Item.execAll_cons rfl

/-- A statement that sets a variable which is not shared, to a value that it always has. -/
def SetsOther (i : Item) : Prop :=
  ∃ name value, i = .assign name value ∧ name.text ∉ ["colors", "spacing", "rootVars"] ∧
    ∀ env, ∃ v, value.eval env = .ok v

theorem setsOther_assign {name : Ident} {value : Expr} {v : StyleValue}
    (hname : name.text ∉ ["colors", "spacing", "rootVars"])
    (hv : ∀ env, value.eval env = .ok v) : SetsOther (.assign name value) :=
  ⟨name, value, rfl, hname, fun env => ⟨v, hv env⟩⟩

/-- Such statements leave the shared maps alone. -/
theorem run_setsOther {items : List Item} (hitems : ∀ i ∈ items, SetsOther i) {env : StyleEnv}
    {s : Shared} (h : Holds env s) :
    ∃ env', Item.execAll env items = .ok env' ∧ Holds env' s := by
  induction items generalizing env with
  | nil => exact ⟨env, rfl, h⟩
  | cons i is ih =>
    rw [List.forall_mem_cons] at hitems
    obtain ⟨⟨name, value, rfl, hname, hvalue⟩, his⟩ := hitems
    obtain ⟨v, hv⟩ := hvalue env
    rw [Item.execAll_cons (Item.exec_assign hv)]
    apply ih his
    simp only [List.mem_cons, List.not_mem_nil, or_false, not_or] at hname
    obtain ⟨hcolors, hspacing, hroot⟩ := hname
    constructor
    · rw [Table.get?_insert, if_neg hcolors, h.colors]
    · rw [Table.get?_insert, if_neg hspacing, h.spacing]
    · rw [Table.get?_insert, if_neg hroot, h.rootVars]

theorem holds_insert_rootVars {env : StyleEnv} {s : Shared} (h : Holds env s)
    (t : Table StyleValue) :
    Holds (env.insert rootVars.text (.map t)) { s with rootVars := some t } := by
  constructor
  · rw [Table.get?_insert, if_neg (by decide), h.colors]
  · rw [Table.get?_insert, if_neg (by decide), h.spacing]
  · exact Table.get?_insert_self env rootVars.text (.map t)

theorem eval_emptyMap (env : StyleEnv) : Expr.eval env (.map []) = .ok (.map []) :=
  Expr.eval_map (by rw [Expr.evalEntries]) List.nodup_nil

/-- The core sheet makes the start. -/
theorem run_coreItems (setup : Setup) (l : Literal) :
    ∃ env, Item.execAll [] (generatedSheet (coreItems setup l)).items = .ok env ∧
      Holds env (startShared setup) := by
  have hstart : Holds [] ⟨none, none, none⟩ := ⟨rfl, rfl, rfl⟩
  have hothers : ∀ i ∈ [Item.assign utilityPrefix (.str setup.classPrefix),
      .assign utilitySeparator (.str setup.separator), .assign defaultFontSize (.literal l),
      .assign utilities (.map [])], SetsOther i := by
    simp only [List.forall_mem_cons]
    refine ⟨?_, ?_, ?_, ?_, by simp⟩
    · exact setsOther_assign (by decide) fun env => Expr.eval_str env setup.classPrefix
    · exact setsOther_assign (by decide) fun env => Expr.eval_str env setup.separator
    · exact setsOther_assign (by decide) fun env => Expr.eval_literal env l
    · exact setsOther_assign (by decide) eval_emptyMap
  obtain ⟨env, hrun, hholds⟩ := run_setsOther hothers hstart
  rw [execAll_generatedSheet, coreItems, Item.execAll_append hrun, startShared]
  cases setup.rootVars.enabled with
  | false => exact ⟨env, rfl, hholds⟩
  | true =>
    refine ⟨_, Item.execAll_cons (Item.exec_assign (eval_emptyMap env)), ?_⟩
    exact holds_insert_rootVars hholds []

/-- An export, if the domain is exported. -/
theorem run_export {env : StyleEnv} {s : Shared} (h : Holds env s) {exports : Bool}
    (hroot : exports = true → s.rootVars ≠ none) {name : Ident} {t : Table StyleValue}
    (ht : env.get? name.text = some (.map t)) (key : String) :
    ∃ env', Item.execAll env (if exports then [exportAs key name] else []) = .ok env' ∧
      Holds env' (addExport exports key t s) := by
  cases exports with
  | false =>
    refine ⟨env, rfl, ?_⟩
    simpa [addExport] using h
  | true =>
    -- whoever exports has been told that there is a collection
    obtain ⟨collection, hcollection⟩ := Option.ne_none_iff_exists'.mp (hroot rfl)
    have hget : env.get? rootVars.text = some (.map collection) := by
      rw [rootVars, h.rootVars, hcollection]
      rfl
    refine ⟨_, Item.execAll_cons (exec_exportAs hget ht), ?_⟩
    have hholds := holds_insert_rootVars h (collection.insert key (.map t))
    simpa [addExport, hcollection] using hholds

/-- The breakpoints sheet leaves the shared maps alone. -/
theorem changes_breakpoints {setup : Setup} {b : BreakpointSettings}
    (hb : b.breakpoints.keys.Nodup) {s : Sheet} (h : breakpoints b = .ok s) :
    Changes setup id s := by
  obtain ⟨es, c, hes, rfl⟩ := sheet_of_breakpoints h
  intro env shared hholds _
  rw [execAll_generatedSheet]
  refine run_setsOther ?_ hholds
  simp only [List.forall_mem_cons]
  refine ⟨?_, ?_, by simp⟩
  · have hkeys : (shownTokens b.breakpoints).keys.Nodup := by rwa [keys_shownTokens]
    exact setsOther_assign (by decide) (eval_map_of_writesTexts hes hkeys)
  · exact setsOther_assign (by decide) fun env => Expr.eval_escaped env c

/-- What the colors sheet does: it sets the colors with all aliases, and may export them. -/
def withColors (setup : Setup) (c : ColorSettings) (s : Shared) : Shared :=
  addExport (setup.rootVars.capabilities.contains "colors") "color" (finalColors c)
    { s with colors := some (finalColors c) }

theorem changes_colorsSheet {setup : Setup} {c : ColorSettings} (hc : c.colors.keys.Nodup)
    {s : Sheet} (h : colorsSheet c setup.rootVars.capabilities = .ok s) :
    Changes setup (withColors setup c) s := by
  obtain ⟨es, hes, hknown, rfl⟩ := sheet_of_colorsSheet h
  intro env shared hholds hroot
  have hpalette : Expr.eval env (.map es) = .ok (.map (paletteValues c)) := by
    rw [← plainValues_palette]
    exact eval_map_of_writesTexts hes (nodup_keys_palette hc) env
  have haliases : Item.execAll (env.insert colors.text (.map (paletteValues c)))
      (aliasItemsOf c.aliases) = .ok (env.insert colors.text (.map (finalColors c))) := by
    refine execAll_aliasItemsOf hknown fun k hk => ?_
    rwa [← plainValues_palette, keys_plainValues]
  -- all the assignments so far have set one variable, so only the last one counts
  have hset : Holds (env.insert colors.text (.map (finalColors c)))
      { shared with colors := some (finalColors c) } := by
    constructor
    · exact Table.get?_insert_self env colors.text _
    · rw [Table.get?_insert, if_neg (by decide), hholds.spacing]
    · rw [Table.get?_insert, if_neg (by decide), hholds.rootVars]
  obtain ⟨env', hrun, hholds'⟩ := run_export hset
    (fun hexports => hroot (enabled_of_mem_capabilities hexports))
    (Table.get?_insert_self env colors.text (.map (finalColors c))) "color"
  refine ⟨env', ?_, hholds'⟩
  rw [execAll_generatedSheet, colorItems, List.append_assoc, List.cons_append,
    Item.execAll_cons rfl, List.cons_append, Item.execAll_cons (Item.exec_assign hpalette),
    List.nil_append, Item.execAll_append haliases]
  exact hrun

/-- What the spacing sheet does: it sets the scaled lengths, and may export them. -/
def withSpacing (setup : Setup) (lengths : Table StyleValue) (s : Shared) : Shared :=
  addExport (setup.rootVars.capabilities.contains "spacements") "space" lengths
    { s with spacing := some lengths }

theorem changes_spacingSheet {setup : Setup} {p : SpacingSettings} (hp : p.factors.keys.Nodup)
    {s : Sheet} (h : spacingSheet p setup.rootVars.capabilities = .ok s) :
    ∃ raw base, p.base = some raw ∧ Length.ofString? raw = .ok base ∧
      Changes setup (withSpacing setup (spacingValues base p.factors)) s := by
  obtain ⟨raw, base, es, hraw, hbase, hes, rfl⟩ := sheet_of_spacingSheet h
  refine ⟨raw, base, hraw, hbase, ?_⟩
  intro env shared hholds hroot
  have hlengths : Expr.eval env (.map es) = .ok (.map (spacingValues base p.factors)) := by
    have hkeys : (scaled base p.factors).keys.Nodup := by
      rwa [scaled, Table.keys_map_snd p.factors fun f => base.scale f.2]
    rw [← plainValues_scaled hbase]
    exact eval_map_of_writesTexts hes hkeys env
  have hset : Holds (env.insert spacing.text (.map (spacingValues base p.factors)))
      { shared with spacing := some (spacingValues base p.factors) } := by
    constructor
    · rw [Table.get?_insert, if_neg (by decide), hholds.colors]
    · exact Table.get?_insert_self env spacing.text _
    · rw [Table.get?_insert, if_neg (by decide), hholds.rootVars]
  obtain ⟨env', hrun, hholds'⟩ := run_export hset
    (fun hexports => hroot (enabled_of_mem_capabilities hexports))
    (Table.get?_insert_self env spacing.text (.map (spacingValues base p.factors))) "space"
  refine ⟨env', ?_, hholds'⟩
  have huse {exports : Bool} :
      Item.execAll env (if exports then [.useModule "sass:map"] else []) = .ok env := by
    cases exports <;> rfl
  rw [execAll_generatedSheet, spacingItems, List.append_assoc, Item.execAll_append huse,
    List.cons_append, Item.execAll_cons (Item.exec_assign hlengths), List.nil_append]
  exact hrun

/-! ### All steps -/

/-- An enabled step does what its sheet does, and another one nothing. -/
theorem run_step {setup : Setup} {enabled : Bool} {name : String}
    {sheet : Except GenerateError Sheet} {ms : List Module} (h : step enabled name sheet = .ok ms)
    {f : Shared → Shared} (hf : ∀ s, sheet = .ok s → Changes setup f s) {env : StyleEnv}
    {shared : Shared} (hholds : Holds env shared)
    (hroot : setup.rootVars.enabled = true → shared.rootVars ≠ none) :
    ∃ env', Sheet.runAll env (ms.map (·.sheet)) = .ok env' ∧
      Holds env' (if enabled then f shared else shared) := by
  rcases step_eq_ok.mp h with ⟨rfl, s, hs, rfl⟩ | ⟨rfl, rfl⟩
  · obtain ⟨env', hrun, hholds'⟩ := hf s hs env shared hholds hroot
    exact ⟨env', Sheet.runAll_singleton hrun, hholds'⟩
  · exact ⟨env, rfl, hholds⟩

/-- The shared maps after the colors. -/
def coloredShared (c : Config) : Shared :=
  if c.settings.colors.enabled then withColors c.setup c.settings.colors (startShared c.setup)
  else startShared c.setup

/-- The shared maps at the end, given the scaled lengths. -/
def finalShared (c : Config) (lengths : Table StyleValue) : Shared :=
  if c.settings.spacing.enabled then withSpacing c.setup lengths (coloredShared c)
  else coloredShared c

theorem rootVars_startShared_ne_none {setup : Setup} (h : setup.rootVars.enabled = true) :
    (startShared setup).rootVars ≠ none := by
  simp [startShared, h]

theorem rootVars_coloredShared_ne_none {c : Config} (h : c.setup.rootVars.enabled = true) :
    (coloredShared c).rootVars ≠ none := by
  have hstart := rootVars_startShared_ne_none h
  unfold coloredShared
  split
  · simpa [withColors, addExport] using hstart
  · exact hstart

/-- The spacing step is last.  Its lengths depend on the base that its sheet has read. -/
theorem run_spacing {c : Config} (hc : c.Accepted) {ps : List Module}
    (h : step c.settings.spacing.enabled "spacing"
      (spacingSheet c.settings.spacing c.setup.rootVars.capabilities) = .ok ps)
    {env : StyleEnv} (hholds : Holds env (coloredShared c)) :
    ∃ env' lengths, Sheet.runAll env (ps.map (·.sheet)) = .ok env' ∧
      Holds env' (finalShared c lengths) ∧
      (c.settings.spacing.enabled = true → ∃ raw base, c.settings.spacing.base = some raw ∧
        Length.ofString? raw = .ok base ∧
        lengths = spacingValues base c.settings.spacing.factors) := by
  rcases step_eq_ok.mp h with ⟨hon, s, hs, rfl⟩ | ⟨hoff, rfl⟩
  · obtain ⟨raw, base, hraw, hbase, hchanges⟩ := changes_spacingSheet hc.settings.factors hs
    obtain ⟨env', hrun, hholds'⟩ := hchanges env _ hholds rootVars_coloredShared_ne_none
    refine ⟨env', spacingValues base c.settings.spacing.factors, Sheet.runAll_singleton hrun, ?_,
      fun _ => ⟨raw, base, hraw, hbase, rfl⟩⟩
    rw [finalShared, if_pos hon]
    exact hholds'
  · refine ⟨env, [], rfl, ?_, fun hon => by simp [hoff] at hon⟩
    rw [finalShared, hoff]
    exact hholds

/-- All settings sheets, one after the other. -/
theorem run_modules {c : Config} (hc : c.Accepted) {ms : List Module}
    (h : modules c.setup c.settings = .ok ms) :
    ∃ env lengths, Sheet.runAll [] (ms.map (·.sheet)) = .ok env ∧
      Holds env (finalShared c lengths) ∧
      (c.settings.spacing.enabled = true → ∃ raw base, c.settings.spacing.base = some raw ∧
        Length.ofString? raw = .ok base ∧
        lengths = spacingValues base c.settings.spacing.factors) := by
  obtain ⟨root, bs, cs, ps, hroot, hbs, hcs, hps, rfl⟩ := modules_eq_ok.mp h
  obtain ⟨l, rfl⟩ := sheet_of_core hroot
  obtain ⟨env₀, hcore, hholds₀⟩ := run_coreItems c.setup l
  obtain ⟨env₁, hrun₁, hholds₁⟩ := run_step hbs
    (fun _ => changes_breakpoints hc.settings.breakpoints) hholds₀ rootVars_startShared_ne_none
  rw [id_eq, ite_self] at hholds₁
  obtain ⟨env₂, hrun₂, hholds₂⟩ := run_step hcs
    (fun _ => changes_colorsSheet hc.settings.colors) hholds₁ rootVars_startShared_ne_none
  obtain ⟨env, lengths, hrun, hholds, hlengths⟩ := run_spacing hc hps hholds₂
  refine ⟨env, lengths, ?_, hholds, hlengths⟩
  -- the four runs, put together in import order
  have hrun₀ : Sheet.runAll [] [generatedSheet (coreItems c.setup l)] = .ok env₀ :=
    Sheet.runAll_singleton hcore
  have hbegin : Sheet.runAll [] ((⟨"core", generatedSheet (coreItems c.setup l)⟩ :: bs).map
      (·.sheet)) = .ok env₁ := by
    rw [List.map_cons, ← List.singleton_append, Sheet.runAll_append hrun₀]
    exact hrun₁
  rw [List.map_append, List.map_append, List.append_assoc, Sheet.runAll_append hbegin,
    Sheet.runAll_append hrun₂]
  exact hrun

/-! ### The values at the end -/

section
variable {c : Config} {lengths : Table StyleValue}

theorem colors_finalShared :
    (finalShared c lengths).colors =
      if c.settings.colors.enabled then some (finalColors c.settings.colors) else none := by
  cases hs : c.settings.spacing.enabled <;> cases hc : c.settings.colors.enabled <;>
    simp [finalShared, coloredShared, startShared, withColors, withSpacing, addExport, hs, hc]

theorem spacing_finalShared :
    (finalShared c lengths).spacing =
      if c.settings.spacing.enabled then some lengths else none := by
  cases hs : c.settings.spacing.enabled <;> cases hc : c.settings.colors.enabled <;>
    simp [finalShared, coloredShared, startShared, withColors, withSpacing, addExport, hs, hc]

/-- The collection has an entry for each map that is there and exported, and no other. -/
theorem rootVars_finalShared (hr : c.setup.rootVars.domains.keys.Nodup) {env : StyleEnv}
    (h : Holds env (finalShared c lengths)) :
    (finalShared c lengths).rootVars =
      if c.setup.rootVars.enabled then some (exported c env) else none := by
  rw [exported, h.colors, h.spacing, colors_finalShared, spacing_finalShared]
  simp only [finalShared, coloredShared, startShared, withColors, withSpacing, addExport,
    RootVars.contains_capabilities hr "colors", RootVars.contains_capabilities hr "spacements"]
  cases c.setup.rootVars.enabled with
  | false => cases c.settings.spacing.enabled <;> cases c.settings.colors.enabled <;> simp
  | true =>
    cases c.settings.spacing.enabled <;> cases c.settings.colors.enabled <;>
      cases c.setup.rootVars.isOn "colors" <;> cases c.setup.rootVars.isOn "spacements" <;>
        simp [exportOf, Table.insert]

end

end SettingsSheets

/-- **What the settings sheets compute.**  For every configuration of a document that has settings
sheets, running them in import order succeeds, and it leaves the colors with all aliases, the
scaled lengths, and a collection of exactly the exported maps. -/
theorem SettingsSheets.run_settled {v : Value} {c : Config} (hc : Config.ofValue v = .ok c)
    {m : Modules} (h : SettingsSheets.generate c.setup c.settings = .ok m) :
    ∃ ms env, SettingsSheets.modules c.setup c.settings = .ok ms ∧
      m = .ofModules SettingsSheets.directory SettingsSheets.aggregatorName ms ∧
      Sheet.runAll [] (ms.map (·.sheet)) = .ok env ∧ Settled c env := by
  have haccepted := Config.accepted_of_ofValue hc
  obtain ⟨ms, hms, rfl⟩ := SettingsSheets.generate_eq_ok.mp h
  obtain ⟨env, lengths, hrun, hholds, hlengths⟩ := SettingsSheets.run_modules haccepted hms
  refine ⟨ms, env, hms, rfl, hrun, ?_, ?_, ?_⟩
  · intro hon
    rw [hholds.colors, colors_finalShared, if_pos hon]
    rfl
  · intro hon
    obtain ⟨raw, base, hraw, hbase, rfl⟩ := hlengths hon
    refine ⟨raw, base, hraw, hbase, ?_⟩
    rw [hholds.spacing, spacing_finalShared, if_pos hon]
    rfl
  · rw [hholds.rootVars, rootVars_finalShared haccepted.rootVars hholds]
    split <;> rfl

/-- In the small document both aliases have the value of the color that they come from. -/
theorem SettingsSheets.run_settled_sample :
    ∃ ms env, SettingsSheets.modules sample.setup sample.settings = .ok ms ∧
      Sheet.runAll [] (ms.map (·.sheet)) = .ok env ∧
      env.get? "colors" = some (.map
        [("red", .plain "#f00"), ("main", .plain "#f00"), ("link", .plain "#f00")]) := by
  have hc : Config.ofValue sampleDocument = .ok sample := ofValue_sampleDocument
  obtain ⟨s, hs⟩ := exists_generate_sample
  obtain ⟨ms, us, hms, -⟩ := Config.generate_eq_ok.mp hs
  obtain ⟨ms, env, hms, -, hrun, hsettled⟩ :=
    SettingsSheets.run_settled hc (SettingsSheets.generate_eq_ok.mpr ⟨ms, hms, rfl⟩)
  exact ⟨ms, env, hms, hrun, hsettled.colors rfl⟩

end TokenSheets
