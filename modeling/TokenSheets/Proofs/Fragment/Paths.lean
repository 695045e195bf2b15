/-
TokenSheets/Proofs/Fragment/Paths.lean

Where the fragments go.

Every fragment is a sheet directly in one of the two directories, so its path is
known by the directory and the name of its module (`moves_pathOf`).  Within a
directory the names of the modules are distinct: those of the settings are
fixed, and those of the utilities are keys of the document.  What is left is the
aggregator, whose name is reserved by nothing: a utility may be called like it,
and then both go to the same path.
-/
import TokenSheets.Proofs.Path.Steps
import TokenSheets.Proofs.Fragment.Generable
import TokenSheets.Fragment.Store

namespace TokenSheets

open Json Outcome

/-! ### Modules and their paths -/

namespace Modules

variable {directory name : String}

/-- The file name of a module. -/
def fileName (name : String) : String := "_" ++ name ++ ".scss"

theorem fileName_inj {a b : String} : fileName a = fileName b ↔ a = b := by
  rw [fileName, fileName, ← String.toList_inj]
  simp [String.toList_inj]

theorem isSheetName_fileName (name : String) : Fragment.isSheetName (fileName name) = true := by
  have hsuffix : ".scss".toList <:+ (fileName name).toList :=
    ⟨('_' :: name.toList), by simp [fileName]⟩
  rw [Fragment.isSheetName, Bool.and_eq_true, List.isSuffixOf_iff_suffix]
  exact ⟨by simp [fileName], hsuffix⟩

theorem isEntryName_fileName (h : '/' ∉ name.toList) : IsEntryName (fileName name) := by
  have hfront : IsEntryName "_" := by decide
  rw [fileName, String.append_assoc]
  refine hfront.append ?_ ?_
  · simp
  · simpa using h

/-- A path in one of the directories leads through the directory to the file. -/
theorem moves_pathOf (hd : IsEntryName directory) (hn : '/' ∉ name.toList) :
    (pathOf directory name).moves = [directory, fileName name] := by
  have hdir : (Path.mk directory).moves = [directory] := by
    rw [← Path.child_empty hd, Path.moves_child _ hd]
    rfl
  have hchild : pathOf directory name = (Path.mk directory).child (fileName name) := rfl
  rw [hchild, Path.moves_child _ (isEntryName_fileName hn), hdir, List.singleton_append]

/-- So the path tells both the directory and the name. -/
theorem pathOf_inj {d d' a b : String} (hd : IsEntryName d) (hd' : IsEntryName d')
    (ha : '/' ∉ a.toList) (hb : '/' ∉ b.toList) :
    pathOf d a = pathOf d' b ↔ d = d' ∧ a = b := by
  constructor
  · intro h
    have hmoves := congrArg Path.moves h
    rw [moves_pathOf hd ha, moves_pathOf hd' hb] at hmoves
    simpa [fileName_inj] using hmoves
  · rintro ⟨rfl, rfl⟩
    rfl

theorem paths_ofModules (directory main : String) (ms : List Module) :
    (ofModules directory main ms).fragments.map (·.path) =
      (ms.map (·.name) ++ [main]).map (pathOf directory) := by
  simp [ofModules, Fragment.ofSheet, Function.comp_def]

/-- The paths in a directory are distinct if the names are. -/
theorem nodup_map_pathOf_iff (hd : IsEntryName directory) {names : List String}
    (hnames : ∀ n ∈ names, '/' ∉ n.toList) :
    (names.map (pathOf directory)).Nodup ↔ names.Nodup := by
  constructor
  · exact List.Nodup.of_map _
  · intro h
    refine h.map_on ?_
    intro a ha b hb hab
    exact ((pathOf_inj hd hd (hnames a ha) (hnames b hb)).mp hab).2

end Modules

/-- The fragments go to the modules with these names in a directory. -/
structure Fragment.Named (directory : String) (names : List String) (fs : List Fragment) :
    Prop where
  paths : fs.map (·.path) = names.map (Modules.pathOf directory)
  plain : ∀ n ∈ names, '/' ∉ n.toList

section
variable {directory : String} {names : List String} {fs : List Fragment}

/-- Every fragment is that of a name. -/
theorem Fragment.Named.exists_name (h : Named directory names fs) {f : Fragment} (hf : f ∈ fs) :
    ∃ n ∈ names, '/' ∉ n.toList ∧ f.path = Modules.pathOf directory n := by
  have hmem : f.path ∈ names.map (Modules.pathOf directory) := by
    rw [← h.paths]
    exact List.mem_map_of_mem hf
  obtain ⟨n, hn, hpath⟩ := List.mem_map.mp hmem
  exact ⟨n, hn, h.plain n hn, hpath.symm⟩

/-- The name of a fragment can be told from its path. -/
theorem Fragment.Named.mem_of_path (h : Named directory names fs) (hd : IsEntryName directory)
    {f : Fragment} (hf : f ∈ fs) {n : String} (hpath : f.path = Modules.pathOf directory n)
    (hn : '/' ∉ n.toList) : n ∈ names := by
  obtain ⟨m, hm, hplain, hpath'⟩ := h.exists_name hf
  rw [hpath', Modules.pathOf_inj hd hd hplain hn] at hpath
  exact hpath.2 ▸ hm

/-- Every name has a fragment. -/
theorem Fragment.Named.exists_fragment (h : Named directory names fs) {n : String}
    (hn : n ∈ names) : ∃ f ∈ fs, f.path = Modules.pathOf directory n := by
  have hmem : Modules.pathOf directory n ∈ fs.map (·.path) := by
    rw [h.paths]
    exact List.mem_map_of_mem hn
  exact List.mem_map.mp hmem

theorem Fragment.Named.ne_nil (h : Named directory names fs) (hne : names ≠ []) : fs ≠ [] := by
  rintro rfl
  exact hne (List.map_eq_nil_iff.mp h.paths.symm)

end

theorem Fragment.Named.exists_of_cons {directory : String} {names : List String} {f : Fragment}
    {fs : List Fragment} (h : Named directory names (f :: fs)) :
    ∃ n rest, names = n :: rest ∧ f.path = Modules.pathOf directory n ∧ '/' ∉ n.toList ∧
      Named directory rest fs := by
  obtain ⟨hpaths, hplain⟩ := h
  cases names with
  | nil => cases hpaths
  | cons n rest =>
    rw [List.map_cons, List.map_cons, List.cons.injEq] at hpaths
    rw [List.forall_mem_cons] at hplain
    exact ⟨n, rest, rfl, hpaths.1, hplain.1, hpaths.2, hplain.2⟩

/-! ### The names of the modules -/

/-- The settings modules are some of the four. -/
theorem SettingsSheets.names_sublist {setup : Setup} {s : Settings} {ms : List Module}
    (h : modules setup s = .ok ms) :
    (ms.map (·.name)).Sublist ["core", "breakpoints", "colors", "spacing"] := by
  obtain ⟨root, bs, cs, ps, -, hbs, hcs, hps, rfl⟩ := modules_eq_ok.mp h
  rcases step_eq_ok.mp hbs with ⟨-, b, -, rfl⟩ | ⟨-, rfl⟩ <;>
    rcases step_eq_ok.mp hcs with ⟨-, c, -, rfl⟩ | ⟨-, rfl⟩ <;>
      rcases step_eq_ok.mp hps with ⟨-, p, -, rfl⟩ | ⟨-, rfl⟩ <;>
        simp only [List.map_cons, List.map_nil, List.append_nil, List.cons_append,
          List.nil_append] <;> decide

/-- The utility modules have the names of the utilities. -/
theorem UtilitySheets.names_of_modulesOf {us : List Utility} {ms : List Module}
    (h : modulesOf us = .ok ms) : ms.map (·.name) = us.map (·.name) := by
  rw [modulesOf_eq, mapM_eq_ok] at h
  induction h with
  | nil => rfl
  | cons hu _ ih =>
    obtain ⟨s, -, rfl⟩ := map_eq_ok.mp hu
    rw [List.map_cons, List.map_cons, ih]

theorem not_slash_of_isUtilityName {s : List Char} (h : Naming.isUtilityName s = true) :
    '/' ∉ s := by
  cases s with
  | nil => simp
  | cons c cs =>
    rw [Naming.isUtilityName, Bool.and_eq_true, List.all_eq_true] at h
    obtain ⟨hc, hcs⟩ := h
    intro hmem
    rcases List.mem_cons.mp hmem with rfl | hmem
    · exact absurd hc (by decide)
    · exact absurd (hcs _ hmem) (by decide)

theorem Config.Accepted.nodup_active {c : Config} (hc : c.Accepted) :
    (c.utilities.active.map (·.name)).Nodup := by
  unfold Utilities.active
  split
  · exact hc.utilities.sublist (List.filter_sublist.map _)
  · exact List.nodup_nil

/-! ### All fragments of a configuration -/

/-- The names of the modules in the two directories, each with its aggregator at the end. -/
structure Sources.Named (s : Sources) (settings utilities : List String) : Prop where
  settings : Fragment.Named SettingsSheets.directory settings s.settings.fragments
  utilities : Fragment.Named UtilitySheets.directory utilities s.utilities.fragments

/-- What the modules of a configuration are called. -/
theorem Config.named_of_generate {c : Config} (hc : c.Accepted) {s : Sources}
    (h : c.generate = .ok s) :
    ∃ settings,
      s.Named (settings ++ [SettingsSheets.aggregatorName])
        (c.utilities.active.map (·.name) ++ [UtilitySheets.aggregatorName]) ∧
      (settings ++ [SettingsSheets.aggregatorName]).Nodup := by
  obtain ⟨ms, us, hms, -, hus, rfl⟩ := Config.generate_eq_ok.mp h
  -- with their aggregator, the settings modules are some of five
  have hsub : (ms.map (·.name) ++ [SettingsSheets.aggregatorName]).Sublist
      ["core", "breakpoints", "colors", "spacing", "mainSettings"] :=
    (SettingsSheets.names_sublist hms).append (List.Sublist.refl ["mainSettings"])
  have hplain : ∀ n ∈ ["core", "breakpoints", "colors", "spacing", "mainSettings"],
      '/' ∉ n.toList := by decide
  refine ⟨ms.map (·.name), ⟨⟨Modules.paths_ofModules .., ?_⟩, ⟨?_, ?_⟩⟩, hsub.nodup (by decide)⟩
  · exact fun n hn => hplain n (hsub.subset hn)
  · rw [← UtilitySheets.names_of_modulesOf hus]
    exact Modules.paths_ofModules ..
  · intro n hn
    rcases List.mem_append.mp hn with hn | hn
    · obtain ⟨u, hu, rfl⟩ := List.mem_map.mp hn
      exact not_slash_of_isUtilityName (hc.isUtilityName_of_mem_active u hu)
    · rw [List.mem_singleton.mp hn]
      decide

theorem isEntryName_settings : IsEntryName SettingsSheets.directory := by decide

theorem isEntryName_utilities : IsEntryName UtilitySheets.directory := by decide

/-- The paths are distinct exactly if the names in each directory are. -/
theorem Sources.Named.nodup_iff {s : Sources} {settings utilities : List String}
    (h : s.Named settings utilities) :
    (s.fragments.map (·.path)).Nodup ↔ settings.Nodup ∧ utilities.Nodup := by
  -- the two directories have no path in common
  have hapart : List.Disjoint (settings.map (Modules.pathOf SettingsSheets.directory))
      (utilities.map (Modules.pathOf UtilitySheets.directory)) := by
    intro p hs hu
    obtain ⟨a, ha, rfl⟩ := List.mem_map.mp hs
    obtain ⟨b, hb, heq⟩ := List.mem_map.mp hu
    have hdir := (Modules.pathOf_inj isEntryName_utilities isEntryName_settings
      (h.utilities.plain b hb) (h.settings.plain a ha)).mp heq
    exact absurd hdir.1 (by decide)
  rw [Sources.fragments, List.map_append, h.settings.paths, h.utilities.paths,
    List.nodup_append', Modules.nodup_map_pathOf_iff isEntryName_settings h.settings.plain,
    Modules.nodup_map_pathOf_iff isEntryName_utilities h.utilities.plain]
  constructor
  · rintro ⟨hs, hu, -⟩
    exact ⟨hs, hu⟩
  · rintro ⟨hs, hu⟩
    exact ⟨hs, hu, hapart⟩

/-- **When fragments share a path.**  The fragments of an accepted configuration go to distinct
paths exactly if no utility that is generated has the name of the aggregator of the utilities. -/
theorem Config.nodup_paths_iff {v : Value} {c : Config} (hv : Config.ofValue v = .ok c)
    {s : Sources} (hs : c.generate = .ok s) :
    (s.fragments.map (·.path)).Nodup ↔
      ∀ u ∈ c.utilities.active, u.name ≠ UtilitySheets.aggregatorName := by
  have hc := Config.accepted_of_ofValue hv
  obtain ⟨settings, hnamed, hsettings⟩ := Config.named_of_generate hc hs
  rw [hnamed.nodup_iff, and_iff_right hsettings, List.nodup_append]
  constructor
  · rintro ⟨-, -, hne⟩ u hu
    exact hne _ (List.mem_map_of_mem hu) _ (List.mem_singleton_self _)
  · intro hne
    refine ⟨hc.nodup_active, List.nodup_singleton _, ?_⟩
    intro a ha b hb
    obtain ⟨u, hu, rfl⟩ := List.mem_map.mp ha
    rw [List.mem_singleton.mp hb]
    exact hne u hu

/-- The small document has no such utility. -/
theorem Config.nodup_paths_sample :
    ∃ s, sample.generate = .ok s ∧ (s.fragments.map (·.path)).Nodup := by
  obtain ⟨s, hs⟩ := exists_generate_sample
  refine ⟨s, hs, (Config.nodup_paths_iff ofValue_sampleDocument hs).mpr ?_⟩
  decide

/-! ### Two fragments at one path -/

/-- A document with a utility that is called like the aggregator. -/
def clashingDocument : Value :=
  .object
    [("setup", .object
       [("prefix", .string "u"), ("separator", .string "-"),
        ("defaultFontSize", .number (.int 16))]),
     ("utilities", .object
       [("enabled", .bool true),
        ("utilities", .object
          [("mainUtilities", .object
             [("enabled", .bool true), ("initial", .string "auto")])])])]

/-- It is accepted and has sheets, and the sheet of its utility and the aggregator go to the same
path. -/
theorem Config.exists_clashing_paths :
    ∃ c s, Config.ofValue clashingDocument = .ok c ∧ c.generate = .ok s ∧
      ¬(s.fragments.map (·.path)).Nodup :=
  ⟨_, _, rfl, rfl, by decide⟩

end TokenSheets
