/-
TokenSheets/Proofs/Fragment/Mixins.lean

The mixins of the utility sheets.

All mixins share one space of names: those that the utility sheets define, and
the shared routine that each of them includes.  A utility sheet defines one
mixin, called after its utility, and the names of the utilities are keys of the
document; so no two sheets define the same mixin.  The name of the shared
routine, though, has the form of such a name, and nothing reserves it.  The
utility `create` has a mixin `createUtility`, which takes the place of the
routine and includes itself.
-/
import TokenSheets.Proofs.Fragment.Paths

namespace TokenSheets

open Json Outcome

theorem Ident.eq_iff_text_eq {a b : Ident} : a = b ↔ a.text = b.text := by
  cases a
  cases b
  simp

/-! ### Mixins of sheets -/

namespace Item

mutual

/-- A statement with all statements inside of it. -/
def parts : Item → List Item
  | .defineMixin name params body => .defineMixin name params body :: allParts body
  | .assign name value => [.assign name value]
  | .includeMixin name args => [.includeMixin name args]
  | .useModule name => [.useModule name]
  | .importSheet path => [.importSheet path]
  | .comment text => [.comment text]

def allParts : List Item → List Item
  | [] => []
  | i :: is => i.parts ++ allParts is

end

/-- The mixin that a statement defines. -/
def definedMixin? : Item → Option Ident
  | .defineMixin name _ _ => some name
  | _ => none

/-- The mixin that a statement includes. -/
def includedMixin? : Item → Option Ident
  | .includeMixin name _ => some name
  | _ => none

end Item

/-- All statements of a sheet, at any depth. -/
def Sheet.parts (s : Sheet) : List Item := Item.allParts s.items

/-- The mixins that sheets define. -/
def definedMixins (ss : List Sheet) : List Ident :=
  ss.flatMap fun s => s.parts.filterMap Item.definedMixin?

/-- The mixins that sheets include. -/
def includedMixins (ss : List Sheet) : List Ident :=
  ss.flatMap fun s => s.parts.filterMap Item.includedMixin?

/-! ### Modules and what imports them -/

namespace Modules

/-- The sheets of modules, and the one that imports them. -/
def sheets (ms : List Module) : List Sheet :=
  ms.map (·.sheet) ++ [aggregator (ms.map (·.name))]

/-- The fragments hold the texts of the sheets. -/
theorem contents_ofModules (directory main : String) (ms : List Module) :
    (ofModules directory main ms).fragments.map (·.contents) = (sheets ms).map (·.text) := by
  simp [ofModules, sheets, Fragment.ofSheet, Function.comp_def]

theorem parts_aggregator (names : List String) :
    (aggregator names).parts =
      .comment banner :: names.map fun name => .importSheet ("./" ++ name) := by
  have himports : ∀ names : List String,
      Item.allParts (names.map fun name => .importSheet ("./" ++ name)) =
        names.map fun name => .importSheet ("./" ++ name) := by
    intro names
    induction names with
    | nil => rfl
    | cons name rest ih =>
      rw [List.map_cons, Item.allParts, ih]
      rfl
  rw [Sheet.parts, aggregator, generatedSheet, Item.allParts, himports]
  rfl

/-- The importing sheet defines no mixins. -/
theorem definedMixins_sheets (ms : List Module) :
    definedMixins (sheets ms) = definedMixins (ms.map (·.sheet)) := by
  simp [definedMixins, sheets, parts_aggregator, Item.definedMixin?]

/-- The importing sheet includes no mixins. -/
theorem includedMixins_sheets (ms : List Module) :
    includedMixins (sheets ms) = includedMixins (ms.map (·.sheet)) := by
  simp [includedMixins, sheets, parts_aggregator, Item.includedMixin?]

end Modules

/-! ### Utilities -/

namespace UtilitySheets

/-- A utility sheet defines one mixin, and that includes the shared routine only. -/
theorem mixins_of_sheet {u : Utility} {s : Sheet} (h : sheet u = .ok s) :
    (s.parts.filterMap Item.definedMixin?).map (·.text) = [mixinName u] ∧
      s.parts.filterMap Item.includedMixin? = [createUtility] := by
  obtain ⟨name, rules, hname, -, rfl⟩ := sheet_of_sheet h
  -- with rules the body sets up a map first, and defines nothing either way
  have hbody : (Item.allParts (mixinBody u rules)).filterMap Item.definedMixin? = [] ∧
      (Item.allParts (mixinBody u rules)).filterMap Item.includedMixin? = [createUtility] := by
    cases rules <;> simp [mixinBody, Item.allParts, Item.parts, List.filterMap_cons,
      Item.definedMixin?, Item.includedMixin?]
  simp [Sheet.parts, generatedSheet, utilityItems, Item.allParts, Item.parts,
    List.filterMap_cons, Item.definedMixin?, Item.includedMixin?, hbody, hname]

/-- The sheets of utilities define the mixin of each utility, in order, and include the shared
routine once for each. -/
theorem mixins_of_modulesOf {us : List Utility} {ms : List Module} (h : modulesOf us = .ok ms) :
    (definedMixins (ms.map (·.sheet))).map (·.text) = us.map mixinName ∧
      includedMixins (ms.map (·.sheet)) = us.map fun _ => createUtility := by
  rw [modulesOf_eq, mapM_eq_ok] at h
  induction h with
  | nil => exact ⟨rfl, rfl⟩
  | @cons u m us ms hu _ ih =>
    obtain ⟨s, hs, rfl⟩ := map_eq_ok.mp hu
    obtain ⟨hdefined, hincluded⟩ := mixins_of_sheet hs
    obtain ⟨ihdefined, ihincluded⟩ := ih
    constructor
    · rw [List.map_cons, List.map_cons, ← ihdefined, definedMixins, List.flatMap_cons,
        List.map_append, hdefined]
      rfl
    · rw [List.map_cons, List.map_cons, ← ihincluded, includedMixins, List.flatMap_cons,
        hincluded]
      rfl

theorem mixinName_inj {u w : Utility} : mixinName u = mixinName w ↔ u.name = w.name := by
  rw [mixinName, mixinName, ← String.toList_inj]
  simp [String.toList_inj]

/-- One name of a utility leads to the name of the shared routine. -/
theorem mixinName_eq_createUtility_iff {u : Utility} :
    mixinName u = createUtility.text ↔ u.name = "create" := by
  -- the routine is called as the mixin of a utility `create` would be
  have hcreate : createUtility.text = mixinName ⟨"create", true, "", .custom⟩ := rfl
  rw [hcreate, mixinName_inj]

/-- Utilities with distinct names have distinct mixins. -/
theorem nodup_definedMixins {us : List Utility} {ms : List Module} (h : modulesOf us = .ok ms)
    (hus : (us.map (·.name)).Nodup) : (definedMixins (ms.map (·.sheet))).Nodup := by
  -- the same suffix behind distinct names leaves them distinct
  have hmixins : (us.map mixinName).Nodup := by
    have hmap : us.map mixinName = (us.map (·.name)).map (· ++ "Utility") := by
      rw [List.map_map]
      rfl
    rw [hmap]
    refine hus.map fun a b hab => ?_
    simpa [← String.toList_inj] using hab
  rw [← (mixins_of_modulesOf h).1] at hmixins
  exact hmixins.of_map _

/-- The shared routine is among the mixins of utilities exactly if one of them is called
`create`. -/
theorem createUtility_mem_definedMixins_iff {us : List Utility} {ms : List Module}
    (h : modulesOf us = .ok ms) :
    createUtility ∈ definedMixins (ms.map (·.sheet)) ↔ ∃ u ∈ us, u.name = "create" := by
  have htext : createUtility ∈ definedMixins (ms.map (·.sheet)) ↔
      createUtility.text ∈ (definedMixins (ms.map (·.sheet))).map (·.text) := by
    simp only [List.mem_map, ← Ident.eq_iff_text_eq, exists_eq_right]
  rw [htext, (mixins_of_modulesOf h).1, List.mem_map]
  simp only [mixinName_eq_createUtility_iff]

/-- What is included is the shared routine, so no mixin is both defined and included exactly if no
utility is called `create`. -/
theorem disjoint_mixins_iff {us : List Utility} {ms : List Module} (h : modulesOf us = .ok ms) :
    List.Disjoint (definedMixins (ms.map (·.sheet))) (includedMixins (ms.map (·.sheet))) ↔
      ∀ u ∈ us, u.name ≠ "create" := by
  have hdefined := createUtility_mem_definedMixins_iff h
  rw [(mixins_of_modulesOf h).2]
  constructor
  · intro hapart u hu hname
    exact hapart (hdefined.mpr ⟨u, hu, hname⟩) (List.mem_map_of_mem hu)
  · intro hnames name hname hincluded
    obtain ⟨-, -, rfl⟩ := List.mem_map.mp hincluded
    obtain ⟨u, hu, hcreate⟩ := hdefined.mp hname
    exact hnames u hu hcreate

/-- **When a mixin takes the place of the shared routine.**  The mixins of an accepted
configuration have distinct names.  Its sheets include the shared routine only, and they define it
exactly if a utility that is generated is called `create`. -/
theorem mixins_of_generate {v : Value} {c : Config} (hv : Config.ofValue v = .ok c) {m : Modules}
    (hm : generate c.utilities = .ok m) :
    ∃ us, modules c.utilities = .ok us ∧ m = .ofModules directory aggregatorName us ∧
      m.fragments.map (·.contents) = (Modules.sheets us).map (·.text) ∧
      (definedMixins (Modules.sheets us)).Nodup ∧
      (∀ name ∈ includedMixins (Modules.sheets us), name = createUtility) ∧
      (List.Disjoint (definedMixins (Modules.sheets us)) (includedMixins (Modules.sheets us)) ↔
        ∀ u ∈ c.utilities.active, u.name ≠ "create") := by
  obtain ⟨us, hus, rfl⟩ := map_eq_ok.mp hm
  have hactive := (Config.accepted_of_ofValue hv).nodup_active
  refine ⟨us, hus, rfl, Modules.contents_ofModules _ _ us, ?_⟩
  rw [Modules.definedMixins_sheets, Modules.includedMixins_sheets]
  refine ⟨nodup_definedMixins hus hactive, ?_, disjoint_mixins_iff hus⟩
  rw [(mixins_of_modulesOf hus).2]
  intro name hname
  obtain ⟨-, -, rfl⟩ := List.mem_map.mp hname
  rfl

/-- The small document has no such utility, so its mixins and the shared routine stay apart. -/
theorem mixins_of_generate_sample :
    ∃ us, modules sample.utilities = .ok us ∧ (definedMixins (Modules.sheets us)).Nodup ∧
      List.Disjoint (definedMixins (Modules.sheets us)) (includedMixins (Modules.sheets us)) := by
  obtain ⟨s, hs⟩ := exists_generate_sample
  obtain ⟨-, ms, -, -, hms, -⟩ := Config.generate_eq_ok.mp hs
  obtain ⟨us, hus, -, -, hnodup, -, hapart⟩ :=
    mixins_of_generate ofValue_sampleDocument (map_eq_ok.mpr ⟨ms, hms, rfl⟩)
  exact ⟨us, hus, hnodup, hapart.mpr (by decide)⟩

end UtilitySheets

/-! ### A mixin in place of the shared routine -/

/-- A document with a utility whose mixin is called like the shared routine. -/
def capturingDocument : Value :=
  .object
    [("setup", .object
       [("prefix", .string "u"), ("separator", .string "-"),
        ("defaultFontSize", .number (.int 16))]),
     ("utilities", .object
       [("enabled", .bool true),
        ("utilities", .object
          [("create", .object
             [("enabled", .bool true), ("initial", .string "auto")])])])]

/-- It is accepted and its utilities have sheets, and these define the mixin that they include. -/
theorem UtilitySheets.exists_captured_routine :
    ∃ c m us, Config.ofValue capturingDocument = .ok c ∧ generate c.utilities = .ok m ∧
      modules c.utilities = .ok us ∧
      m.fragments.map (·.contents) = (Modules.sheets us).map (·.text) ∧
      ¬ List.Disjoint (definedMixins (Modules.sheets us)) (includedMixins (Modules.sheets us)) :=
  ⟨_, _, _, rfl, rfl, rfl, Modules.contents_ofModules _ _ _,
    fun hapart => hapart (a := createUtility) (by decide) (by decide)⟩

end TokenSheets
