/-
TokenSheets/Proofs/Fragment/Alignment.lean

Fragments, names and imports go together.

A module leaves its name in four places: among the enabled names, in the path of
its fragment, in the module name that is read back from this path, and in the
line that imports it.  All four are made from one list of modules, so they stay
in step (`Modules.aligned_ofModules`) as long as a name comes out of its path
and of its import line unharmed.  Names that are made of letters and digits do
(`moduleName?_ofSheet`, `render_importSheet`), and both the fixed names of the
settings and the names of utilities are such.
-/
import TokenSheets.Proofs.Config.Acceptance
import TokenSheets.Proofs.Fragment.Paths

namespace TokenSheets

open Json Outcome

/-! ### Names of letters and digits -/

namespace Naming

variable {name : String}

theorem exists_of_isUtilityName (h : isUtilityName name.toList = true) :
    ∃ c cs, name.toList = c :: cs ∧ c.isAlpha = true := by
  cases hname : name.toList with
  | nil => simp [hname, isUtilityName] at h
  | cons c cs =>
    rw [hname, isUtilityName, Bool.and_eq_true] at h
    exact ⟨c, cs, rfl, h.1⟩

theorem isAlphanum_of_mem (h : isUtilityName name.toList = true) {c : Char}
    (hc : c ∈ name.toList) : c.isAlphanum = true := by
  cases hname : name.toList with
  | nil => simp [hname] at hc
  | cons d ds =>
    rw [hname, isUtilityName, Bool.and_eq_true, List.all_eq_true] at h
    rcases List.mem_cons.mp (hname ▸ hc) with rfl | hmem
    · simp [Char.isAlphanum, h.1]
    · exact h.2 c hmem

theorem not_mem_of_isUtilityName (h : isUtilityName name.toList = true) {c : Char}
    (hc : c.isAlphanum = false) : c ∉ name.toList := by
  intro hmem
  rw [isAlphanum_of_mem h hmem] at hc
  cases hc

end Naming

/-! ### One fragment -/

namespace Fragment

/-- A fragment for the module with a name: its path ends in the name, the name is read back from
the path, and the text begins with the banner line. -/
structure IsModule (directory name : String) (f : Fragment) : Prop where
  path : f.path = (Path.mk directory).child ("_" ++ name ++ ".scss")
  moduleName : f.moduleName? = some name
  banner : ∃ rest, f.contents = bannerLine ++ "\n" ++ rest

variable {directory name : String}

theorem stem_fileName (h : '.' ∉ name.toList) :
    Path.stem (Modules.fileName name) = "_" ++ name := by
  have hfront : '.' ∉ '_' :: name.toList := by simpa using h
  have htext : (Modules.fileName name).toList = ('_' :: name.toList) ++ '.' :: "scss".toList := by
    simp [Modules.fileName]
  have hsplit :
      splitAt '.' (Modules.fileName name).toList = ['_' :: name.toList, "scss".toList] := by
    rw [htext, splitAt_append, splitAt_of_not_mem hfront, splitAt_of_not_mem (by decide)]
    rfl
  rw [Path.stem, hsplit, ← String.toList_inj]
  simp [joinWith]

/-- The underscore and the ending of the file name are all that a name gains. -/
theorem moduleName?_ofSheet (h : Naming.isUtilityName name.toList = true) (sheet : Sheet) :
    (ofSheet (Modules.pathOf directory name) sheet).moduleName? = some name := by
  have hfile : (Modules.pathOf directory name).fileName? = some (Modules.fileName name) :=
    Path.fileName?_child _
      (Modules.isEntryName_fileName (Naming.not_mem_of_isUtilityName h (by decide)))
  obtain ⟨c, cs, hname, hc⟩ := Naming.exists_of_isUtilityName h
  have hunderscore : c ≠ '_' := by
    rintro rfl
    cases hc
  have hdrop : ("_" ++ name).toList.dropWhile (· = '_') = name.toList := by
    simp [hname, hunderscore]
  rw [moduleName?, ofSheet, hfile, Option.map_some,
    stem_fileName (Naming.not_mem_of_isUtilityName h (by decide)), hdrop, String.ofList_toList]

/-- A generated sheet begins with the banner line. -/
theorem text_generatedSheet (items : List Item) :
    (generatedSheet items).text = bannerLine ++ "\n" ++ String.ofList (Item.renderAll 0 items) := by
  have hbanner : (Item.comment banner).render 0 = (bannerLine ++ "\n").toList := by decide
  rw [Sheet.text, Sheet.render, generatedSheet, Item.renderAll, hbanner, String.ofList_append,
    String.ofList_toList]

theorem isModule_ofSheet (h : Naming.isUtilityName name.toList = true) (items : List Item) :
    IsModule directory name (ofSheet (Modules.pathOf directory name) (generatedSheet items)) where
  path := rfl
  moduleName := moduleName?_ofSheet h _
  banner := ⟨_, text_generatedSheet items⟩

end Fragment

/-! ### The aggregator -/

namespace Modules

/-- The line that imports a module. -/
def importLine (name : String) : String := "@import \"./" ++ name ++ "\";\n"

theorem flatMap_quoteChar {s : List Char} (h : ∀ c ∈ s, c ≠ '"' ∧ c ≠ '\\' ∧ c ≠ '\n') :
    s.flatMap quoteChar = s := by
  induction s with
  | nil => rfl
  | cons c s ih =>
    obtain ⟨⟨hquote, hslash, hfeed⟩, hs⟩ := List.forall_mem_cons.mp h
    simp [quoteChar, hquote, hslash, hfeed, ih hs]

/-- Nothing in a name is escaped, so it is imported as it stands. -/
theorem render_importSheet {name : String} (h : Naming.isUtilityName name.toList = true) :
    (Item.importSheet ("./" ++ name)).render 0 = (importLine name).toList := by
  have hdots : ∀ c ∈ "./".toList, c ≠ '"' ∧ c ≠ '\\' ∧ c ≠ '\n' := by simp
  have hplain : ∀ c ∈ ("./" ++ name).toList, c ≠ '"' ∧ c ≠ '\\' ∧ c ≠ '\n' := by
    intro c hc
    rcases List.mem_append.mp (String.toList_append ▸ hc) with hc | hc
    · exact hdots c hc
    · have halnum := Naming.isAlphanum_of_mem h hc
      refine ⟨?_, ?_, ?_⟩
      all_goals
        rintro rfl
        cases halnum
  rw [Item.render, quote, flatMap_quoteChar hplain]
  simp [indent, importLine]

theorem renderAll_importSheets {names : List String}
    (h : ∀ n ∈ names, Naming.isUtilityName n.toList = true) :
    Item.renderAll 0 (names.map fun n => .importSheet ("./" ++ n)) =
      (String.join (names.map importLine)).toList := by
  induction names with
  | nil => rfl
  | cons n rest ih =>
    obtain ⟨hn, hrest⟩ := List.forall_mem_cons.mp h
    rw [List.map_cons, Item.renderAll, render_importSheet hn, ih hrest, List.map_cons,
      String.join_cons, String.toList_append]

/-! ### The fragments of a directory -/

/-- A fragment for each enabled name, in order, and behind them the aggregator, which imports the
enabled names in the same order and does nothing else. -/
structure Aligned (directory main : String) (m : Modules) (front : List Fragment)
    (last : Fragment) : Prop where
  fragments : m.fragments = front ++ [last]
  modules : List.Forall₂ (Fragment.IsModule directory) m.enabled front
  path : last.path = (Path.mk directory).child ("_" ++ main ++ ".scss")
  contents : last.contents = Fragment.bannerLine ++ "\n" ++ String.join (m.enabled.map importLine)

theorem aligned_ofModules (directory main : String) {ms : List Module}
    (hnames : ∀ m ∈ ms, Naming.isUtilityName m.name.toList = true)
    (hsheets : ∀ m ∈ ms, ∃ items, m.sheet = generatedSheet items) :
    ∃ front last, (ofModules directory main ms).Aligned directory main front last := by
  refine ⟨_, _, rfl, ?_, rfl, ?_⟩
  · rw [ofModules, List.forall₂_map_left_iff, List.forall₂_map_right_iff, List.forall₂_same]
    intro m hm
    obtain ⟨items, hitems⟩ := hsheets m hm
    rw [hitems]
    exact Fragment.isModule_ofSheet (hnames m hm) items
  · have henabled : ∀ n ∈ ms.map (·.name), Naming.isUtilityName n.toList = true :=
      List.forall_mem_map.mpr hnames
    rw [Fragment.ofSheet, aggregator, Fragment.text_generatedSheet, renderAll_importSheets henabled,
      String.ofList_toList]
    rfl

end Modules

/-! ### Settings -/

namespace SettingsSheets

/-- The domains of the settings that are on, in import order. -/
def enabledDomains (s : Settings) : List String :=
  ([("breakpoints", s.breakpoints.enabled), ("colors", s.colors.enabled),
    ("spacing", s.spacing.enabled)].filter (·.2)).map (·.1)

theorem names_of_step {enabled : Bool} {name : String} {sheet : Except GenerateError Sheet}
    {ms : List Module} (h : step enabled name sheet = .ok ms) :
    ms.map (·.name) = if enabled then [name] else [] := by
  rcases step_eq_ok.mp h with ⟨henabled, s, -, rfl⟩ | ⟨henabled, rfl⟩ <;> simp [henabled]

theorem names_of_modules {setup : Setup} {s : Settings} {ms : List Module}
    (h : modules setup s = .ok ms) : ms.map (·.name) = "core" :: enabledDomains s := by
  obtain ⟨root, bs, cs, ps, -, hbs, hcs, hps, rfl⟩ := modules_eq_ok.mp h
  rw [List.map_append, List.map_append, List.map_cons, names_of_step hbs, names_of_step hcs,
    names_of_step hps, enabledDomains]
  cases s.breakpoints.enabled <;> cases s.colors.enabled <;> cases s.spacing.enabled <;> rfl

/-- The sheet of a step is a generated one if those of its domain are. -/
theorem generated_of_step {enabled : Bool} {name : String} {sheet : Except GenerateError Sheet}
    {ms : List Module} (h : step enabled name sheet = .ok ms)
    (hsheet : ∀ s, sheet = .ok s → ∃ items, s = generatedSheet items) :
    ∀ m ∈ ms, ∃ items, m.sheet = generatedSheet items := by
  rcases step_eq_ok.mp h with ⟨-, s, hs, rfl⟩ | ⟨-, rfl⟩
  · simpa using hsheet s hs
  · simp

theorem generated_of_modules {setup : Setup} {s : Settings} {ms : List Module}
    (h : modules setup s = .ok ms) : ∀ m ∈ ms, ∃ items, m.sheet = generatedSheet items := by
  obtain ⟨root, bs, cs, ps, hroot, hbs, hcs, hps, rfl⟩ := modules_eq_ok.mp h
  obtain ⟨l, rfl⟩ := sheet_of_core hroot
  simp only [List.mem_append, List.mem_cons]
  rintro m (((rfl | hm) | hm) | hm)
  · exact ⟨_, rfl⟩
  · refine generated_of_step hbs (fun s hs => ?_) m hm
    obtain ⟨es, c, -, rfl⟩ := sheet_of_breakpoints hs
    exact ⟨_, rfl⟩
  · refine generated_of_step hcs (fun s hs => ?_) m hm
    obtain ⟨es, -, -, rfl⟩ := sheet_of_colorsSheet hs
    exact ⟨_, rfl⟩
  · refine generated_of_step hps (fun s hs => ?_) m hm
    obtain ⟨-, -, es, -, -, -, rfl⟩ := sheet_of_spacingSheet hs
    exact ⟨_, rfl⟩

theorem isUtilityName_of_mem_modules {setup : Setup} {s : Settings} {ms : List Module}
    (h : modules setup s = .ok ms) : ∀ m ∈ ms, Naming.isUtilityName m.name.toList = true := by
  have hnames : ∀ n ∈ ["core", "breakpoints", "colors", "spacing"],
      Naming.isUtilityName n.toList = true := by decide
  exact fun m hm => hnames m.name ((names_sublist h).subset (List.mem_map_of_mem hm))

end SettingsSheets

/-! ### Utilities -/

theorem UtilitySheets.generated_of_modulesOf {us : List Utility} {ms : List Module}
    (h : modulesOf us = .ok ms) : ∀ m ∈ ms, ∃ items, m.sheet = generatedSheet items := by
  intro m hm
  obtain ⟨u, -, hu⟩ := sheet_of_mem_modulesOf h hm
  obtain ⟨name, rules, -, -, hsheet⟩ := sheet_of_sheet hu
  exact ⟨_, hsheet⟩

theorem UtilitySheets.isUtilityName_of_mem_modulesOf {us : List Utility} {ms : List Module}
    (h : modulesOf us = .ok ms) (hus : ∀ u ∈ us, Naming.isUtilityName u.name.toList = true) :
    ∀ m ∈ ms, Naming.isUtilityName m.name.toList = true := by
  intro m hm
  have hname : m.name ∈ us.map (·.name) := names_of_modulesOf h ▸ List.mem_map_of_mem hm
  obtain ⟨u, hu, heq⟩ := List.mem_map.mp hname
  exact heq ▸ hus u hu

/-! ### Document order -/

/-- A value with members is no list. -/
theorem ne_array_of_member? {v w : Value} {key : String} (h : v.member? key = some w)
    (items : List Value) : v ≠ .array items := by
  rintro rfl
  cases h

theorem UtilitiesDocument.keys_of_decode {v : Value} (hv : v.WellFormed) {u : UtilitiesDocument}
    (h : UtilitiesDocument.decode v.outline = .ok u) {definitions : Table Value}
    (hd : v.member? "utilities" = some (.object definitions)) :
    u.utilities.keys = definitions.keys := by
  have hentries (es : Form.Entries) := @Form.entries_outline UtilitiesDocument.form rfl (by decide)
    v hv (ne_array_of_member? hd) es
  simp only [UtilitiesDocument.decode, bind_eq_ok, pure_eq_ok, hentries] at h
  obtain ⟨es, ⟨-, -, rfl⟩, e, -, t, ht, rfl⟩ := h
  rcases Form.Entries.getD_shown.mp ht with ⟨hnone, -⟩ | ⟨w, hw, ht⟩
  · rw [hd] at hnone
    cases hnone
  · obtain rfl := Option.some.inj (hd.symm.trans hw)
    have hnodup := (Value.wellFormed_object.mp (hv.of_member? hd)).1
    have hboth := (Decode.table_outline hnodup).mp ht
    have hkeys : List.Forall₂ (fun k l => k = l) (Table.keys t) definitions.keys :=
      List.forall₂_map_left_iff.mpr
        (List.forall₂_map_right_iff.mpr (hboth.flip.imp fun _ _ he => he.1))
    simpa using hkeys

/-- **Utilities in document order.**  The utilities of a configuration are those that the
document defines, in the order in which it defines them. -/
theorem Config.names_of_ofValue {v : Value} (hv : v.WellFormed) {c : Config}
    (h : Config.ofValue v = .ok c) {definitions : Table Value}
    (hd : Effective.descend v ["utilities", "utilities"] = some (.object definitions)) :
    c.utilities.entries.map (·.name) = definitions.keys := by
  obtain ⟨d, us, hdecode, hus, rfl, -⟩ := Config.parts_of_ofValue h
  simp only [Effective.descend, Option.bind_eq_some_iff, Option.some.injEq] at hd
  obtain ⟨w, hw, w', hw', rfl⟩ := hd
  have hentries (es : Form.Entries) := @Form.entries_outline ConfigDocument.form rfl (by decide)
    v hv (ne_array_of_member? hw) es
  simp only [ConfigDocument.decode, bind_eq_ok, pure_eq_ok, hentries] at hdecode
  obtain ⟨es, ⟨-, -, rfl⟩, s, -, t, -, u, hu, rfl⟩ := hdecode
  rw [(utilities_of_utilitiesOf hus).1]
  rcases Form.Entries.getD_shown.mp hu with ⟨hnone, -⟩ | ⟨w₂, hw₂, hu⟩
  · rw [hw] at hnone
    cases hnone
  · obtain rfl := Option.some.inj (hw.symm.trans hw₂)
    exact UtilitiesDocument.keys_of_decode (hv.of_member? hw) hu hw'

/-! ### Both sets of modules -/

/-- **Fragments, names and imports go together.**  In both sets of modules of an accepted
configuration there is one fragment for each enabled name, in the same order, and behind them the
aggregator, which imports exactly these names in this order.  The enabled names of the settings
are `core` and the domains that are on; those of the utilities are the names of the enabled
utilities in document order, or none if their section is off. -/
theorem Config.aligned_of_generate {v : Value} {c : Config} (hv : Config.ofValue v = .ok c)
    {s : Sources} (hs : c.generate = .ok s) :
    (∃ front last, s.settings.Aligned "1_settings" "mainSettings" front last) ∧
      (∃ front last, s.utilities.Aligned "7_utilities" "mainUtilities" front last) ∧
      s.settings.enabled = "core" :: SettingsSheets.enabledDomains c.settings ∧
      s.utilities.enabled =
        (if c.utilities.enabled then (c.utilities.entries.filter (·.enabled)).map (·.name)
          else []) ∧
      ∀ definitions, v.WellFormed →
        Effective.descend v ["utilities", "utilities"] = some (.object definitions) →
        c.utilities.entries.map (·.name) = Table.keys definitions := by
  have hc := Config.accepted_of_ofValue hv
  obtain ⟨ms, us, hms, -, hus, rfl⟩ := Config.generate_eq_ok.mp hs
  refine ⟨?_, ?_, SettingsSheets.names_of_modules hms, ?_, ?_⟩
  · exact Modules.aligned_ofModules _ _ (SettingsSheets.isUtilityName_of_mem_modules hms)
      (SettingsSheets.generated_of_modules hms)
  · exact Modules.aligned_ofModules _ _
      (UtilitySheets.isUtilityName_of_mem_modulesOf hus hc.isUtilityName_of_mem_active)
      (UtilitySheets.generated_of_modulesOf hus)
  · refine (UtilitySheets.names_of_modulesOf hus).trans ?_
    rw [Utilities.active]
    split <;> rfl
  · exact fun _ hwf hd => Config.names_of_ofValue hwf hv hd

/-- The small document enables all domains and four utilities. -/
theorem Config.aligned_of_generate_sample :
    ∃ s, sample.generate = .ok s ∧
      s.settings.enabled = ["core", "breakpoints", "colors", "spacing"] ∧
      s.utilities.enabled = ["textColor", "margin", "opacity", "cursor"] ∧
      ∃ front last, s.utilities.Aligned "7_utilities" "mainUtilities" front last := by
  obtain ⟨s, hs⟩ := exists_generate_sample
  obtain ⟨-, hutilities, hsettings, hnames, -⟩ :=
    Config.aligned_of_generate ofValue_sampleDocument hs
  exact ⟨s, hs, hsettings, hnames, hutilities⟩

end TokenSheets
