/-
TokenSheets/Proofs/Fragment/Settings.lean

The settings sheets, step by step.

For each of the four steps: which sheet it gives when it succeeds, when it
succeeds, and which errors it can have.  Everything later, whether it is about
scopes, about values or about failure, speaks of these sheets and does not open
the steps again.  The checks of names have no error left here, because the
names are fixed; what remains are the texts of tokens, the aliases and the
spacing base.
-/
import TokenSheets.Proofs.Fragment.Entries

namespace TokenSheets

open Outcome

namespace SettingsSheets

/-! ### Core -/

/-- The core sheet with a given font size. -/
def coreItems (setup : Setup) (fontSize : Literal) : List Item :=
  [.assign utilityPrefix (.str setup.classPrefix),
   .assign utilitySeparator (.str setup.separator),
   .assign defaultFontSize (.literal fontSize),
   .assign utilities (.map [])] ++
    if setup.rootVars.enabled then [.assign rootVars (.map [])] else []

theorem sheet_of_core {setup : Setup} {s : Sheet} (h : core setup = .ok s) :
    ∃ l : Literal, s = generatedSheet (coreItems setup l) := by
  simp only [core, bind_eq_ok, pure_eq_ok, inContext_eq_ok, literal?_eq_ok] at h
  obtain ⟨x, ⟨-, l, rfl, -⟩, rfl⟩ := h
  exact ⟨l, rfl⟩

theorem exists_core_iff {setup : Setup} :
    (∃ s, core setup = .ok s) ↔ isUsable setup.defaultFontSize.show.toList = true := by
  simp only [core, bind_eq_ok, pure_eq_ok, inContext_eq_ok, literal?_eq_ok]
  constructor
  · rintro ⟨-, x, ⟨h, -⟩, -⟩
    exact h
  · intro h
    exact ⟨_, _, ⟨h, ⟨_, isUsable_trimmed h⟩, rfl, rfl⟩, rfl⟩

theorem error_of_core {setup : Setup} {e : GenerateError} (h : core setup = .error e) :
    ∃ text, e = .sheet .defaultFontSize (.invalidLiteral text) := by
  simp only [core, bind_eq_error, pure_ne_error, and_false, exists_false, or_false,
    inContext_eq_error, literal?_eq_error] at h
  obtain ⟨-, ⟨-, rfl⟩, rfl⟩ := h
  exact ⟨_, rfl⟩

/-! ### Tokens -/

theorem writesTexts_of_tokenEntries {ctx : String → SheetContext} {t : Table String}
    {es : List (String × Expr)} (h : tokenEntries ctx t = .ok es) : WritesTexts t es := by
  rw [tokenEntries_eq] at h
  have hw : WritesTexts (t.map fun e => (e.1, id e.2)) es :=
    writesTexts_of_mapM h fun _ _ hx => inContext_eq_ok.mp hx
  simpa using hw

theorem exists_tokenEntries_iff (ctx : String → SheetContext) {t : Table String} :
    (∃ es, tokenEntries ctx t = .ok es) ↔ ∀ e ∈ t, isUsable e.2.toList = true := by
  simp only [tokenEntries_eq, exists_mapM_iff, exists_named_iff, inContext_eq_ok,
    exists_literal?_iff]

theorem error_of_tokenEntries {ctx : String → SheetContext} {t : Table String}
    {e : GenerateError} (h : tokenEntries ctx t = .error e) :
    ∃ name text, e = .sheet (ctx name) (.invalidLiteral text) := by
  rw [tokenEntries_eq] at h
  obtain ⟨a, -, ha⟩ := exists_error_of_mapM h
  obtain ⟨s, hs, rfl⟩ := inContext_eq_error.mp (named_eq_error.mp ha)
  rw [(literal?_eq_error.mp hs).2]
  exact ⟨a.1, a.2, rfl⟩

theorem forall_mem_shownTokens_iff {t : Table Token} {p : String → Prop} :
    (∀ e ∈ shownTokens t, p e.2) ↔ ∀ e ∈ t, p e.2.show := by
  simp only [shownTokens, List.forall_mem_map]

@[simp] theorem keys_shownTokens (t : Table Token) : (shownTokens t).keys = t.keys :=
  Table.keys_map_snd t fun e => e.2.show

/-! ### Breakpoints -/

theorem sheet_of_breakpoints {b : BreakpointSettings} {s : Sheet} (h : breakpoints b = .ok s) :
    ∃ es c, WritesTexts (shownTokens b.breakpoints) es ∧
      s = generatedSheet
        [.assign mqBreakpoints (.map es), .assign breakpointSeparator (.escaped c)] := by
  simp only [breakpoints, bind_eq_ok] at h
  obtain ⟨es, hes, h⟩ := h
  split at h
  · exact absurd h throw_ne_ok
  · obtain rfl := pure_eq_ok.mp h
    exact ⟨es, _, writesTexts_of_tokenEntries hes, rfl⟩

theorem exists_breakpoints_iff {b : BreakpointSettings} (hb : b.separator.toList ≠ []) :
    (∃ s, breakpoints b = .ok s) ↔ ∀ e ∈ b.breakpoints, isUsable e.2.show.toList = true := by
  rw [← forall_mem_shownTokens_iff (p := fun s => isUsable s.toList = true),
    ← exists_tokenEntries_iff .breakpoint]
  simp only [breakpoints, bind_eq_ok]
  obtain ⟨c, cs, hc⟩ := List.exists_cons_of_ne_nil hb
  constructor
  · rintro ⟨-, es, hes, -⟩
    exact ⟨es, hes⟩
  · rintro ⟨es, hes⟩
    refine ⟨generatedSheet
      [.assign mqBreakpoints (.map es), .assign breakpointSeparator (.escaped c)], es, hes, ?_⟩
    rw [hc]
    rfl

theorem error_of_breakpoints {b : BreakpointSettings} (hb : b.separator.toList ≠ [])
    {e : GenerateError} (h : breakpoints b = .error e) :
    ∃ name text, e = .sheet (.breakpoint name) (.invalidLiteral text) := by
  simp only [breakpoints, bind_eq_error] at h
  rcases h with h | ⟨es, -, h⟩
  · exact error_of_tokenEntries h
  · split at h
    · rename_i hnil
      exact absurd hnil hb
    · exact absurd h pure_ne_error

/-! ### Colors -/

/-- Every alias in order has a target that is known before it. -/
def AliasesKnown (known : List String) (aliases : Table String) : Prop :=
  ∀ before name target after, aliases = before ++ (name, target) :: after →
    target ∈ known ∨ target ∈ Table.keys before

theorem aliasesKnown_nil {known : List String} : AliasesKnown known [] := by
  intro before name target after h
  simp at h

theorem aliasesKnown_cons_iff {known : List String} {name target : String}
    {rest : Table String} :
    AliasesKnown known ((name, target) :: rest) ↔
      target ∈ known ∧ AliasesKnown (name :: known) rest := by
  constructor
  · intro h
    constructor
    -- nothing stands before the first alias
    · exact (h [] name target rest rfl).resolve_right (by simp)
    · rintro before name' target' after rfl
      rcases h ((name, target) :: before) name' target' after rfl with hk | hb
      · exact Or.inl (List.mem_cons_of_mem _ hk)
      · rcases List.mem_cons.mp hb with rfl | hb
        · exact Or.inl List.mem_cons_self
        · exact Or.inr hb
  · rintro ⟨ht, h⟩ before name' target' after heq
    cases before with
    | nil =>
      obtain ⟨he, -⟩ := List.cons.inj heq
      obtain ⟨-, rfl⟩ := Prod.mk.inj he
      exact Or.inl ht
    | cons e before =>
      obtain ⟨rfl, hrest⟩ := List.cons.inj heq
      rcases h before name' target' after hrest with hk | hb
      · rcases List.mem_cons.mp hk with rfl | hk
        · exact Or.inr List.mem_cons_self
        · exact Or.inl hk
      · exact Or.inr (List.mem_cons_of_mem _ hb)

/-- One item for each alias. -/
def aliasItemsOf (aliases : Table String) : List Item := aliases.map fun a => aliasItem a.1 a.2

theorem aliasItems_eq_ok {known : List String} {aliases : Table String} {items : List Item} :
    aliasItems known aliases = .ok items ↔
      AliasesKnown known aliases ∧ items = aliasItemsOf aliases := by
  induction aliases generalizing known items with
  | nil => simp [aliasItems, aliasItemsOf, aliasesKnown_nil, eq_comm]
  | cons a rest ih =>
    obtain ⟨name, target⟩ := a
    rw [aliasItems, aliasesKnown_cons_iff]
    by_cases ht : target ∈ known
    · simp only [List.contains_iff_mem.mpr ht, Bool.not_true, Bool.false_eq_true, if_false,
        bind_eq_ok, pure_eq_ok, ih]
      constructor
      · rintro ⟨is, ⟨hk, rfl⟩, rfl⟩
        exact ⟨⟨ht, hk⟩, rfl⟩
      · rintro ⟨⟨-, hk⟩, rfl⟩
        exact ⟨_, ⟨hk, rfl⟩, rfl⟩
    · simp [ht, bind_eq_ok, throw_ne_ok]

theorem error_of_aliasItems {known : List String} {aliases : Table String} {e : GenerateError}
    (h : aliasItems known aliases = .error e) :
    ∃ name target, e = .unknownColorAlias name target := by
  induction aliases generalizing known with
  | nil => simp [aliasItems] at h
  | cons a rest ih =>
    obtain ⟨name, target⟩ := a
    rw [aliasItems] at h
    split at h
    · simp only [bind_eq_error, throw_eq_error, throw_ne_ok, false_and, exists_false,
        or_false] at h
      exact ⟨name, target, h.symm⟩
    · simp only [bind_eq_error, pure_ne_error, and_false, exists_false, or_false] at h
      exact ih h

/-- The colors sheet with given entries. -/
def colorItems (c : ColorSettings) (capabilities : List String) (es : List (String × Expr)) :
    List Item :=
  [.useModule "sass:map", .assign colors (.map es)] ++ aliasItemsOf c.aliases ++
    if capabilities.contains "colors" then [exportAs "color" colors] else []

theorem sheet_of_colorsSheet {c : ColorSettings} {capabilities : List String} {s : Sheet}
    (h : colorsSheet c capabilities = .ok s) :
    ∃ es, WritesTexts (palette c) es ∧ AliasesKnown (palette c).keys c.aliases ∧
      s = generatedSheet (colorItems c capabilities es) := by
  simp only [colorsSheet, bind_eq_ok, pure_eq_ok, aliasItems_eq_ok] at h
  obtain ⟨es, hes, -, ⟨hk, rfl⟩, rfl⟩ := h
  exact ⟨es, writesTexts_of_tokenEntries hes, hk, rfl⟩

theorem exists_colorsSheet_iff {c : ColorSettings} (capabilities : List String) :
    (∃ s, colorsSheet c capabilities = .ok s) ↔
      (∀ e ∈ palette c, isUsable e.2.toList = true) ∧
        AliasesKnown (palette c).keys c.aliases := by
  rw [← exists_tokenEntries_iff .color]
  simp only [colorsSheet, bind_eq_ok, pure_eq_ok, aliasItems_eq_ok]
  constructor
  · rintro ⟨-, es, hes, -, ⟨hk, -⟩, -⟩
    exact ⟨⟨es, hes⟩, hk⟩
  · rintro ⟨⟨es, hes⟩, hk⟩
    exact ⟨_, es, hes, _, ⟨hk, rfl⟩, rfl⟩

theorem error_of_colorsSheet {c : ColorSettings} {capabilities : List String}
    {e : GenerateError} (h : colorsSheet c capabilities = .error e) :
    (∃ name text, e = .sheet (.color name) (.invalidLiteral text)) ∨
      ∃ name target, e = .unknownColorAlias name target := by
  simp only [colorsSheet, bind_eq_error, pure_ne_error, and_false, exists_false, or_false] at h
  rcases h with h | ⟨-, -, h⟩
  · exact Or.inl (error_of_tokenEntries h)
  · exact Or.inr (error_of_aliasItems h)

/-- Whatever is exported, there is a collection to export it to. -/
theorem enabled_of_mem_capabilities {r : RootVars} {domain : String}
    (h : r.capabilities.contains domain = true) : r.enabled = true := by
  unfold RootVars.capabilities at h
  split at h
  · assumption
  · simp at h

/-! ### Spacing -/

/-- The factors as texts of lengths. -/
def scaled (base : Length) (t : Table Double) : Table String :=
  t.map fun f => (f.1, base.scale f.2)

theorem writesTexts_of_lengthEntries {base : Length} {t : Table Double}
    {es : List (String × Expr)} (h : lengthEntries base t = .ok es) :
    WritesTexts (scaled base t) es := by
  rw [lengthEntries_eq] at h
  refine writesTexts_of_mapM h ?_
  intro a x hx
  unfold lengthEntry at hx
  split at hx
  · exact absurd hx throw_ne_ok
  · exact inContext_eq_ok.mp hx

/-- Multiples of a length that was read are always usable, so only the factors matter. -/
theorem exists_lengthEntries {raw : String} {base : Length}
    (hbase : Length.ofString? raw = .ok base) {t : Table Double}
    (ht : ∀ f ∈ t, f.2.isFinite = true) : ∃ es, lengthEntries base t = .ok es := by
  rw [lengthEntries_eq, exists_mapM_iff]
  intro f hf
  rw [exists_named_iff]
  simp only [lengthEntry, ht f hf, Bool.not_true, Bool.false_eq_true, if_false, inContext_eq_ok]
  exact exists_literal?_iff.mpr (Length.isUsable_scale hbase f.2)

/-- The spacing sheet with given entries. -/
def spacingItems (exports : Bool) (es : List (String × Expr)) : List Item :=
  (if exports then [.useModule "sass:map"] else []) ++ [.assign spacing (.map es)] ++
    if exports then [exportAs "space" spacing] else []

theorem sheet_of_spacingSheet {p : SpacingSettings} {capabilities : List String} {s : Sheet}
    (h : spacingSheet p capabilities = .ok s) :
    ∃ raw base es, p.base = some raw ∧ Length.ofString? raw = .ok base ∧
      WritesTexts (scaled base p.factors) es ∧
      s = generatedSheet (spacingItems (capabilities.contains "spacements") es) := by
  unfold spacingSheet at h
  cases hraw : p.base with
  | none => simp [hraw, bind_eq_ok, throw_ne_ok] at h
  | some raw =>
    simp only [hraw, baseLength, bind_eq_ok, pure_eq_ok, mapError_eq_ok, exists_eq_left'] at h
    obtain ⟨base, hbase, es, hes, rfl⟩ := h
    exact ⟨raw, base, es, rfl, hbase, writesTexts_of_lengthEntries hes, rfl⟩

theorem exists_spacingSheet_iff {p : SpacingSettings} (capabilities : List String)
    (hp : ∀ f ∈ p.factors, f.2.isFinite = true) :
    (∃ s, spacingSheet p capabilities = .ok s) ↔
      ∃ raw base, p.base = some raw ∧ Length.ofString? raw = .ok base := by
  constructor
  · rintro ⟨s, h⟩
    obtain ⟨raw, base, -, hraw, hbase, -, -⟩ := sheet_of_spacingSheet h
    exact ⟨raw, base, hraw, hbase⟩
  · rintro ⟨raw, base, hraw, hbase⟩
    obtain ⟨es, hes⟩ := exists_lengthEntries hbase hp
    unfold spacingSheet
    simp only [hraw, baseLength, bind_eq_ok, pure_eq_ok, mapError_eq_ok, exists_eq_left']
    exact ⟨_, base, hbase, es, hes, rfl⟩

theorem error_of_spacingSheet {p : SpacingSettings} {capabilities : List String}
    (hp : ∀ f ∈ p.factors, f.2.isFinite = true) {e : GenerateError}
    (h : spacingSheet p capabilities = .error e) :
    e = .missingSpacingValue ∨ ∃ value reason, e = .invalidSpacingValue value reason := by
  unfold spacingSheet at h
  cases hraw : p.base with
  | none =>
    simp only [hraw, bind_eq_error, throw_eq_error, throw_ne_ok, false_and, exists_false,
      or_false] at h
    exact Or.inl h.symm
  | some raw =>
    simp only [hraw, baseLength, bind_eq_error, pure_ne_error, pure_eq_ok, mapError_eq_error,
      mapError_eq_ok, false_or, exists_eq_left', and_false, exists_false, or_false] at h
    rcases h with ⟨reason, -, rfl⟩ | ⟨base, hbase, herr⟩
    · exact Or.inr ⟨raw, reason, rfl⟩
    · obtain ⟨es, hes⟩ := exists_lengthEntries hbase hp
      rw [hes] at herr
      cases herr

/-! ### All steps -/

theorem step_eq_ok {enabled : Bool} {name : String} {sheet : Except GenerateError Sheet}
    {ms : List Module} :
    step enabled name sheet = .ok ms ↔
      (enabled = true ∧ ∃ s, sheet = .ok s ∧ ms = [⟨name, s⟩]) ∨ (enabled = false ∧ ms = []) := by
  cases enabled with
  | false => simp [step, eq_comm]
  | true =>
    rw [step, if_pos rfl, map_eq_ok]
    simp [eq_comm]

theorem exists_step_iff {enabled : Bool} (name : String) {sheet : Except GenerateError Sheet} :
    (∃ ms, step enabled name sheet = .ok ms) ↔ (enabled = true → ∃ s, sheet = .ok s) := by
  cases enabled <;> simp [step, map_eq_ok]

theorem step_eq_error {enabled : Bool} {name : String} {sheet : Except GenerateError Sheet}
    {e : GenerateError} :
    step enabled name sheet = .error e ↔ enabled = true ∧ sheet = .error e := by
  cases enabled <;> simp [step, map_eq_error]

/-- The modules are those of the four steps. -/
theorem modules_eq_ok {setup : Setup} {s : Settings} {ms : List Module} :
    modules setup s = .ok ms ↔
      ∃ root bs cs ps, core setup = .ok root ∧
        step s.breakpoints.enabled "breakpoints" (breakpoints s.breakpoints) = .ok bs ∧
        step s.colors.enabled "colors" (colorsSheet s.colors setup.rootVars.capabilities) = .ok cs ∧
        step s.spacing.enabled "spacing" (spacingSheet s.spacing setup.rootVars.capabilities) =
          .ok ps ∧
        ms = ⟨"core", root⟩ :: bs ++ cs ++ ps := by
  simp only [modules, bind_eq_ok, pure_eq_ok]
  constructor
  · rintro ⟨root, hroot, bs, hbs, cs, hcs, ps, hps, rfl⟩
    obtain ⟨-, sheet, hsheet, rfl⟩ | ⟨h, -⟩ := step_eq_ok.mp hroot
    · exact ⟨sheet, bs, cs, ps, hsheet, hbs, hcs, hps, rfl⟩
    · cases h
  · rintro ⟨sheet, bs, cs, ps, hsheet, hbs, hcs, hps, rfl⟩
    have hroot : step true "core" (core setup) = .ok [⟨"core", sheet⟩] :=
      step_eq_ok.mpr (Or.inl ⟨rfl, sheet, hsheet, rfl⟩)
    exact ⟨_, hroot, bs, hbs, cs, hcs, ps, hps, rfl⟩

theorem generate_eq_ok {setup : Setup} {s : Settings} {m : Modules} :
    generate setup s = .ok m ↔
      ∃ ms, modules setup s = .ok ms ∧ m = Modules.ofModules directory aggregatorName ms := by
  rw [generate, map_eq_ok]
  simp only [eq_comm]

/-- A domain has a module exactly if it is enabled. -/
theorem contains_domain_iff {setup : Setup} {s : Settings} {ms : List Module}
    (h : modules setup s = .ok ms) :
    ("colors" ∈ ms.map (·.name) ↔ s.colors.enabled = true) ∧
      ("spacing" ∈ ms.map (·.name) ↔ s.spacing.enabled = true) := by
  obtain ⟨root, bs, cs, ps, -, hbs, hcs, hps, rfl⟩ := modules_eq_ok.mp h
  rcases step_eq_ok.mp hbs with ⟨-, b, -, rfl⟩ | ⟨-, rfl⟩ <;>
    rcases step_eq_ok.mp hcs with ⟨hc, c, -, rfl⟩ | ⟨hc, rfl⟩ <;>
      rcases step_eq_ok.mp hps with ⟨hp, p, -, rfl⟩ | ⟨hp, rfl⟩ <;>
        simp [hc, hp]

end SettingsSheets

end TokenSheets
