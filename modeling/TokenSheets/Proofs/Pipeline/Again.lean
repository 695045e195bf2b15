/-
TokenSheets/Proofs/Pipeline/Again.lean

Running a second time.

A run that succeeds leaves a project in which it can be repeated.  Both directories
with sheets are up to date, so emitting changes nothing and prunes nothing
(`emit_again`).  The compile finds the source that it had and delivers what it
delivered (`Compile.run_again`).  And saving replaces the summary (`save_again`), in a
project where it can be saved once more (`Resavable`).
The staging directory needs care throughout: a base directory may be given by a path
that leads through it, and then it goes with each compile and comes back when the
summary is saved.
-/
import TokenSheets.Proofs.Pipeline.Rebuild
import TokenSheets.Proofs.Fragment.Again
import TokenSheets.Proofs.Compile.Again
import TokenSheets.Proofs.Layout
import TokenSheets.Proofs.Summary.Saved

namespace TokenSheets

open FileTree Fragment Outcome

/-! ### Emitting again -/

section
variable {root : Path} {directory : String} (hd : IsEntryName directory) {names : List String}
  {fs : List Fragment} (hfs : Named directory names fs) {t t₁ t₂ t' : FileTree} (ht : t.Regular)
  {scope made : Set Place} {outcomes : List WriteOutcome} {gone : List Path}
  (hwrite : (writeAll root fs).on t = (.ok outcomes, t₁)) (hbetween : Edit scope made t₁ t₂)
  (hscope : ∀ name, t.placeOf (root.child directory) ++ [name] ∉ scope)
  (hmade : ∀ name, t.placeOf (root.child directory) ++ [name] ∈ made →
    t₁.find? (t.placeOf (root.child directory) ++ [name]) ≠ none)
  (hprune : (prune root directory fs).on t₂ = (.ok gone, t'))
include hd hfs ht hwrite hbetween hscope hmade hprune

/-- Written and then pruned, a directory is up to date, whatever is done elsewhere in between. -/
theorem upToDate_of_write_prune (hne : fs ≠ []) : UpToDate root directory names fs t' := by
  have hwritten := edit_writeAll hd ht hfs hwrite
  have hpruned := (of_prune hd hfs hbetween.regular hprune).1
  have hhere₂ : t₂.here = t.here := hbetween.here.trans hwritten.here
  have hhere : t'.here = t₁.here := hpruned.here.trans hbetween.here
  have hstill := hbetween.enters (enters_of_writeAll hd hne ht hfs hwrite)
  -- neither the files of the fragments nor their siblings are stale
  have hkept {name : String} (hstale : ¬Stale t₂ (root.child directory) names name) :
      t'.held (t.placeOf (root.child directory) ++ [name]) =
        t₁.held (t.placeOf (root.child directory) ++ [name]) := by
    refine held_congr ((hpruned.same ?_).trans (hbetween.find?_eq (hscope name) (hmade name)))
    rw [← placeOf_congr hhere₂, mem_stalePlaces]
    exact hstale
  constructor
  case enters => exact hpruned.enters hstill
  case rewritable =>
    intro f hf n hpath hn
    have hbefore := rewritable_of_writeAll hd ht hfs hwrite f hf n hpath hn
    refine hbefore.of_held hhere fun m hm => ?_
    rw [placeOf_congr hwritten.here]
    apply hkept
    rcases List.mem_pair.mp hm with rfl | rfl
    · exact not_stale_fileName (hfs.mem_of_path hd hf hpath hn)
    · exact not_stale_temporary
  case final =>
    intro f hf u u' outcomes' hu hhere' hwrite'
    obtain ⟨g, -, -, hlast⟩ := exists_last hd root hfs f hf
    obtain ⟨n, hmem, hn, hpath⟩ := hfs.exists_name hf
    have hhere₁ : t'.here = t.here := hhere.trans hwritten.here
    have hagain := hlast hu hwrite'
    have hfirst := hlast ht hwrite
    rw [placeOf_congr (hhere'.trans hhere₁)] at hagain
    rw [placeOf_congr hhere₁, hagain]
    rw [hpath, placeOf_pathOf hd hn] at hfirst ⊢
    rw [hkept (not_stale_fileName hmem), hfirst]
  case clean => exact not_stale_of_write_prune hd hfs ht hwrite hbetween hprune hne

end

/-- After its round a directory is up to date. -/
theorem Round.upToDate {root : Path} {directory other : String} {names : List String}
    {fs : List Fragment} {t t' : FileTree} {gone : List Path}
    (h : Round root directory other fs t t' gone) (hd : IsEntryName directory)
    (ho : IsEntryName other) (hne : directory ≠ other) (hfs : Named directory names fs)
    (hfull : fs ≠ []) : UpToDate root directory names fs t' := by
  have hapart (name : String) :
      t.placeOf (root.child directory) ++ [name] ∉ inside (t.placeOf (root.child other)) :=
    not_mem_inside hd ho hne name
  obtain ⟨hearlier, hwrite, hbetween, hprune, hlater⟩ := h
  have hwritten := edit_writeAll hd hearlier.regular hfs hwrite
  have hpruned := (of_prune hd hfs hbetween.regular hprune).1
  have hhere₂ := hwritten.here.trans hearlier.here
  -- the root is there once a fragment was written, so nothing is created in this directory
  have hroot := ((enters_child_iff hwritten.regular hd root).mp
    (enters_of_writeAll hd hfull hearlier.regular hfs hwrite)).1
  have hupToDate := upToDate_of_write_prune hd hfs hearlier.regular hwrite hbetween
    (fun name => by rw [placeOf_congr hearlier.here]; exact hapart name) (fun name hmem => by
      rw [placeOf_congr hearlier.here, ← placeOf_congr hhere₂] at hmem ⊢
      rw [← way_congr hhere₂] at hmem
      exact find?_ne_none_of_mem_way hroot hd ho hmem) hprune hfull
  refine hupToDate.of_held hd hfs hlater.here (hlater.enters hupToDate.enters) fun n => ?_
  rw [placeOf_congr ((hpruned.here.trans hbetween.here).trans hhere₂)]
  exact held_congr (hlater.same (hapart n))

namespace Pipeline

section
variable {root : Path} {s : Sources} {settings utilities : List String} {t t' : FileTree}
  (hs : s.Named settings utilities)

/-- Both directories have their fragments and nothing stale. -/
structure UpToDate (root : Path) (s : Sources) (settings utilities : List String) (t : FileTree) :
    Prop where
  settings : Fragment.UpToDate root SettingsSheets.directory settings s.settings.fragments t
  utilities : Fragment.UpToDate root UtilitySheets.directory utilities s.utilities.fragments t

include hs

theorem upToDate_of_emit
    (hne : s.settings.fragments ≠ [] ∧ s.utilities.fragments ≠ []) (ht : t.Regular)
    {pruned : List Path} (h : (emit root s).on t = (.ok pruned, t')) :
    UpToDate root s settings utilities t' := by
  obtain ⟨gone₁, gone₂, -, hround₁, hround₂⟩ := rounds_of_emit hs ht h
  have hd₁ := isEntryName_settings
  have hd₂ := isEntryName_utilities
  have hapart : SettingsSheets.directory ≠ UtilitySheets.directory := by decide
  exact ⟨hround₁.upToDate hd₁ hd₂ hapart hs.settings hne.1,
    hround₂.upToDate hd₂ hd₁ hapart.symm hs.utilities hne.2⟩

/-- **Emitting again** succeeds, changes nothing and prunes nothing. -/
theorem emit_again (h : UpToDate root s settings utilities t) (ht : t.Regular) :
    ∃ t', (emit root s).on t = (.ok [], t') ∧ SameAs t t' := by
  have hd₁ := isEntryName_settings
  have hd₂ := isEntryName_utilities
  obtain ⟨written₁, t₁, hwrite₁, hsame₁⟩ := h.settings.writeAll hd₁ hs.settings ht
  have hutilities₁ := h.utilities.of_same hd₂ hs.utilities hsame₁
  obtain ⟨written₂, t₂, hwrite₂, hsame₂⟩ :=
    hutilities₁.writeAll hd₂ hs.utilities hsame₁.regular
  have hsame := hsame₁.trans hsame₂
  have hprune₁ := (h.settings.of_same hd₁ hs.settings hsame).prune hd₁ hs.settings hsame.regular
  have hprune₂ := (h.utilities.of_same hd₂ hs.utilities hsame).prune hd₂ hs.utilities hsame.regular
  refine ⟨t₂, ?_, hsame⟩
  rw [emit, Task.on_bind_of_ok hwrite₁, Task.on_bind_of_ok hwrite₂, Task.on_bind_of_ok hprune₁,
    Task.on_bind_of_ok hprune₂]
  rfl

end

/-! ### Saving again -/

section
variable {l : Layout} {t t' u : FileTree}

theorem isEntryName_summaryName : IsEntryName Layout.summaryName := by decide

theorem placeOf_summary : t.placeOf l.summary = t.placeOf l.publicDir ++ [Layout.summaryName] :=
  placeOf_child isEntryName_summaryName t _

theorem exists_parent_summary (l : Layout) :
    ∃ q, l.summary.parent? = some q ∧ q.Alike l.publicDir :=
  l.publicDir.parent?_child isEntryName_summaryName

theorem alike_of_parent_summary {q : Path} (h : l.summary.parent? = some q) :
    q.Alike l.publicDir := by
  obtain ⟨q', hq', halike⟩ := exists_parent_summary l
  obtain rfl := Option.some.inj (h.symm.trans hq')
  exact halike

theorem moves_publicDir_ne_nil (l : Layout) : l.publicDir.moves ≠ [] :=
  Path.moves_ne_nil_of_fileName? (fileName?_publicDir l)

/-- Where the parent of the summary was created, the output directory can be entered. -/
theorem publicDir_of_createDirectories (ht : t.Regular) {q : Path} (halike : q.Alike l.publicDir)
    (h : t.createDirectories q = (.ok (), t')) :
    Edit ∅ (t.way l.publicDir) t t' ∧ t'.Enters l.publicDir := by
  have hedit := edit_createDirectories ht q
  have henters := enters_of_createDirectories ht (p := q)
    (by rw [halike.2]; exact moves_publicDir_ne_nil l) (by rw [h])
  rw [h, way_alike halike] at hedit
  rw [h, enters_alike halike] at henters
  exact ⟨hedit, henters⟩

/-- What saving a summary leaves: `t` is the tree before it, `t'` the one after it. -/
structure Saved (l : Layout) (t t' : FileTree) : Prop where
  created : ∀ q, l.summary.parent? = some q → (t.createDirectories q).1 = .ok ()
  edit : Edit {t.placeOf l.publicDir ++ [Layout.summaryName],
    t.placeOf l.publicDir ++ [temporary Layout.summaryName]} (t.way l.publicDir) t t'
  enters : t'.Enters l.publicDir
  file : ∃ contents executable,
    t'.find? (t.placeOf l.publicDir ++ [Layout.summaryName]) = some (.file contents executable)
  free : t'.find? (t.placeOf l.publicDir ++ [temporary Layout.summaryName]) = none

theorem saved_of_save (ht : t.Regular) {summary : Summary}
    (h : (summary.save l.summary).on t = (.ok (), t')) : Saved l t t' := by
  obtain ⟨q, hq, halike⟩ := exists_parent_summary l
  obtain ⟨t₁, hcreate, hreplace⟩ := (Summary.save_eq_ok hq).mp h
  obtain ⟨hcreated, henters⟩ := publicDir_of_createDirectories ht halike hcreate
  have hok : (t₁.replaceFile (l.publicDir.child Layout.summaryName) summary.json.toUTF8).1 =
      .ok () := by rw [← Layout.summary, hreplace]
  have hreplaced := edit_replaceFile hcreated.regular isEntryName_summaryName l.publicDir
    summary.json.toUTF8
  obtain ⟨-, ⟨x, hfile⟩, hfree⟩ :=
    of_replaceFile_ok hcreated.regular isEntryName_summaryName l.publicDir hok
  rw [← Layout.summary, hreplace, placeOf_congr hcreated.here] at hreplaced hfile hfree
  constructor
  case created =>
    intro q' hq'
    obtain rfl := Option.some.inj (hq.symm.trans hq')
    rw [hcreate]
  case edit =>
    exact (hcreated.mono (Set.empty_subset _) subset_rfl).trans
      (hreplaced.mono subset_rfl (Set.empty_subset _))
  case enters => exact hreplaced.enters henters
  case file => exact ⟨_, x, hfile⟩
  case free => exact hfree

/-- A tree `u` in which the summary can be saved again: `t` is the tree before it was saved the
first time, and `t'` the one after it.  Something may be gone since then that was not there before
it either. -/
structure Resavable (l : Layout) (t t' u : FileTree) (lost : Set Place) : Prop where
  regular : u.Regular
  here : u.here = t.here
  creates : ∀ q, l.summary.parent? = some q → (u.createDirectories q).1 = .ok ()
  absent : ∀ x ∈ lost, t.find? x = none ∧ u.find? x = none
  kept : ∀ x ∉ lost, u.held x = t'.held x
  apart : ∀ n, t.placeOf l.publicDir ++ [n] ∉ lost

variable {u₁ : FileTree} {lost : Set Place}

/-- Once the way to the output directory is made again, everything is as it was left. -/
theorem Resavable.held_of_created (h : Resavable l t t' u lost) (hsaved : Saved l t t')
    (hedit : Edit ∅ (u.way l.publicDir) u u₁) (henters : u₁.Enters l.publicDir) (x : Place) :
    u₁.held x = t'.held x := by
  rw [way_congr h.here] at hedit
  by_cases hway : x ∈ t.way l.publicDir
  · -- both times the way was made, as far as it was not there
    have hfirst : t'.find? x = some .directory := by
      rw [← way_congr hsaved.edit.here] at hway
      exact hsaved.enters.1 x hway
    have hsecond : u₁.find? x = some .directory := by
      rw [← way_congr (hedit.here.trans h.here)] at hway
      exact henters.1 x hway
    rw [held_of_find? hfirst, held_of_find? hsecond]
  rw [held_congr (hedit.find?_eq (Set.notMem_empty _) fun hmade => absurd hmade hway)]
  by_cases hmem : x ∈ lost
  · -- saving put nothing there
    obtain ⟨hbefore, hnone⟩ := h.absent x hmem
    have houtside : x ∉ ({t.placeOf l.publicDir ++ [Layout.summaryName],
        t.placeOf l.publicDir ++ [temporary Layout.summaryName]} : Set Place) := by
      rintro (rfl | rfl)
      · exact h.apart _ hmem
      · exact h.apart _ hmem
    rw [held_eq_none_iff.mpr hnone, held_congr
      (hsaved.edit.find?_eq houtside fun hmade => absurd hmade hway), held_eq_none_iff.mpr hbefore]
  · exact h.kept x hmem

/-- **Saving again.** -/
theorem save_again (hsaved : Saved l t t') (h : Resavable l t t' u lost) (summary : Summary) :
    ∃ u', (summary.save l.summary).on u = (.ok (), u') ∧
      ∀ x ≠ t.placeOf l.summary, u'.held x = t'.held x := by
  obtain ⟨q, hq, halike⟩ := exists_parent_summary l
  have hcreate := h.creates q hq
  rcases hcreated : u.createDirectories q with ⟨r, u₁⟩
  rw [hcreated] at hcreate
  obtain rfl : r = .ok () := hcreate
  obtain ⟨hedit, henters⟩ := publicDir_of_createDirectories h.regular halike hcreated
  have hheld := h.held_of_created hsaved hedit henters
  have hplace : u₁.placeOf l.publicDir = t.placeOf l.publicDir :=
    placeOf_congr (hedit.here.trans h.here) _
  -- there is a summary, and its sibling is free
  obtain ⟨contents, executable, hfile⟩ := hsaved.file
  obtain ⟨executable', hfile'⟩ := find?_file_of_held (hheld _) hfile
  have hfree : u₁.held (u₁.placeOf l.publicDir ++ [temporary Layout.summaryName]) = none := by
    rw [hplace, hheld, held_eq_none_iff]
    exact hsaved.free
  rw [← hplace] at hfile'
  obtain ⟨u', hreplace, -, -, hother⟩ := replaceFile_over hedit.regular
    isEntryName_summaryName l.publicDir summary.json.toUTF8 henters hfree (by rw [hfile']; simp)
  refine ⟨u', (Summary.save_eq_ok hq).mpr ⟨u₁, hcreated, hreplace⟩, fun x hx => ?_⟩
  rw [placeOf_summary, ← hplace] at hx
  rw [hother x hx, hheld]

end

/-! ### Compiling again -/

section
variable {p : Pipeline} {compiler : Compiler} {t t₂ t' u : FileTree}
  {artifacts : Option Artifacts}

theorem compile_eq_ok :
    (p.compile compiler).on t = (.ok artifacts, t') ↔
      (p.generateOnly = true ∧ artifacts = none ∧ t' = t) ∨
        p.generateOnly = false ∧ ∃ a, artifacts = some a ∧
          (Compile.run compiler p.layout.entry p.layout.outputCss).on t = (.ok a, t') := by
  rw [compile]
  cases p.generateOnly with
  | true =>
    rw [if_pos rfl, Task.on_pure]
    constructor
    · intro h
      obtain ⟨hok, rfl⟩ := Prod.mk.inj h
      exact Or.inl ⟨rfl, (Except.ok.inj hok).symm, rfl⟩
    · rintro (⟨-, rfl, rfl⟩ | ⟨h, -⟩)
      · rfl
      · cases h
  | false =>
    rw [if_neg Bool.false_ne_true, Task.on_bind_eq_ok]
    constructor
    · rintro ⟨a, t₁, hrun, h⟩
      obtain ⟨hok, rfl⟩ := Prod.mk.inj h
      exact Or.inr ⟨rfl, a, (Except.ok.inj hok).symm, hrun⟩
    · rintro (⟨h, -⟩ | ⟨-, a, rfl, hrun⟩)
      · cases h
      · exact ⟨a, t', hrun, rfl⟩

/-- The staging directory is beside the output directory. -/
theorem exists_staging (l : Layout) :
    ∃ q : Path, Compile.stagingDirectory l.outputCss = q.child (Compile.stagingName "public") ∧
      (q.child "public").Alike l.publicDir ∧ q.Alike l.base := by
  obtain ⟨q, hq, hparts⟩ := l.exists_staging_parts
  have hname : IsEntryName "public" := by decide
  refine ⟨q, hq, Path.alike_of_parts ?_, Path.alike_of_parts hparts⟩
  rw [Layout.publicDir, Path.parts_child _ hname, Path.parts_child _ hname, hparts]

theorem stagingDirectory_apart (n : String) :
    t.placeOf p.layout.publicDir ++ [n] ∉
      below (t.placeOf p.layout.base ++ [Compile.stagingName "public"]) := by
  rw [placeOf_publicDir]
  exact not_mem_below (by decide)

variable (ht : t.Regular) (hbase : t.Enters p.layout.base)
  (hc : compiler.ConfinedTo (Compile.stagingDirectory p.layout.outputCss))

include ht hbase hc in
theorem exists_delivered {a : Artifacts}
    (h : (Compile.run compiler p.layout.entry p.layout.outputCss).on t = (.ok a, t₂)) :
    t.isFile p.layout.entry = true ∧ ∃ cssBytes mapBytes,
      Compile.Delivered t t₂ p.layout.publicDir Layout.cssName
        (t.placeOf p.layout.base ++ [Compile.stagingName "public"]) cssBytes mapBytes := by
  obtain ⟨q, hstaging, houtput, halike⟩ := exists_staging p.layout
  rw [hstaging] at hc
  obtain ⟨-, -, cssBytes, mapBytes, hentry, -, -, -, -, -, -, hdelivered⟩ :=
    Compile.exists_delivered ht (by decide) isEntryName_cssName hstaging houtput
      ((enters_alike halike).mpr hbase) hc h
  rw [placeOf_alike halike] at hdelivered
  exact ⟨hentry, cssBytes, mapBytes, hdelivered⟩

variable
  (hdet : compiler.DeterminedBy p.layout.sassRoot (Compile.stagingDirectory p.layout.outputCss))
  (hframe : Frame (rest t p.layout) (t.way p.layout.base) t t')
  (hsaved : Saved p.layout t₂ t') (hu : SameAs t' u)
include ht hbase hc hdet hframe hsaved hu

omit ht hc hdet hsaved in
/-- The sources are as they were. -/
theorem held_sass_again {x : Place} (hx : x ∈ part t p.layout "sass") : u.held x = t.held x := by
  rw [hu.held]
  exact held_congr (find?_of_frame hbase hframe Set.subset_union_left (not_mem_rest_of_sass hx)
    (Set.notMem_empty x))

omit hc hdet in
theorem isFile_entry_again (hentry : t.isFile p.layout.entry = true) :
    u.isFile p.layout.entry = true := by
  have hsass : IsEntryName "sass" := by decide
  have hmain : IsEntryName "main.scss" := by decide
  have hhere : u.here = t.here := hu.here.trans hframe.here
  have hheld := fun x => held_sass_again (x := x) hbase hframe hu
  obtain ⟨hroot, contents, executable, hfile⟩ := (isFile_child_iff ht hmain).mp hentry
  have hroot' : u.Enters p.layout.sassRoot := by
    refine (enters_child_iff hu.regular hsass _).mpr ⟨((enters_child_iff hu.regular
      (by decide) _).mp (hu.enters hsaved.enters)).1, ?_⟩
    rw [placeOf_congr hhere]
    exact find?_directory_of_held (hheld _ List.prefix_rfl)
      ((enters_child_iff ht hsass _).mp hroot).2
  have hbelow : t.placeOf p.layout.sassRoot ++ ["main.scss"] ∈ part t p.layout "sass" := by
    rw [Layout.sassRoot, placeOf_child hsass]
    exact List.prefix_append _ _
  obtain ⟨executable', hfile'⟩ := find?_file_of_held (hheld _ hbelow) hfile
  rw [← placeOf_congr hhere] at hfile'
  exact (isFile_child_iff hu.regular hmain).mpr ⟨hroot', contents, executable', hfile'⟩

omit hdet in
/-- Saving the summary leaves the outputs of the compile. -/
theorem held_output_again {a : Artifacts}
    (h : (Compile.run compiler p.layout.entry p.layout.outputCss).on t = (.ok a, t₂)) {n : String}
    (hn : n ∈ Compile.written Layout.cssName) :
    u.held (t.placeOf p.layout.publicDir ++ [n]) =
      t₂.held (t.placeOf p.layout.publicDir ++ [n]) := by
  obtain ⟨-, cssBytes, mapBytes, hdelivered⟩ := exists_delivered ht hbase hc h
  have hhere₂ : t₂.here = t.here := by rw [← hsaved.edit.here, hframe.here]
  have hnames : ∀ n ∈ Compile.written Layout.cssName,
      n ≠ Layout.summaryName ∧ n ≠ temporary Layout.summaryName := by decide
  obtain ⟨hsummary, hsibling⟩ := hnames n hn
  rw [hu.held]
  refine held_congr (hsaved.edit.find?_eq ?_ fun hway => ?_)
  · rw [placeOf_congr hhere₂]
    exact Compile.place_not_mem hsummary hsibling
  · rw [way_congr hhere₂] at hway
    rcases way_publicDir_subset hway with hway | hself
    · rw [hdelivered.directories _ (stagingDirectory_apart n) (hbase.1 _ hway)]
      simp
    · simpa using congrArg List.length (Set.mem_singleton_iff.mp hself)

omit hdet in
/-- The compile has removed the staging directory, and if saving has made it again, as a directory
on the way to the summary, then it is one. -/
theorem find?_staging_again {a : Artifacts}
    (h : (Compile.run compiler p.layout.entry p.layout.outputCss).on t = (.ok a, t₂)) :
    u.find? (t.placeOf p.layout.base ++ [Compile.stagingName "public"]) = none ∨
      u.find? (t.placeOf p.layout.base ++ [Compile.stagingName "public"]) =
        some .directory := by
  obtain ⟨-, cssBytes, mapBytes, hdelivered⟩ := exists_delivered ht hbase hc h
  have hhere₂ : t₂.here = t.here := by rw [← hsaved.edit.here, hframe.here]
  have houtside : t.placeOf p.layout.base ++ [Compile.stagingName "public"] ∉
      ({t₂.placeOf p.layout.publicDir ++ [Layout.summaryName],
        t₂.placeOf p.layout.publicDir ++ [temporary Layout.summaryName]} : Set Place) := by
    rw [placeOf_congr hhere₂, placeOf_publicDir]
    rintro (h | h)
    · simpa using congrArg List.length h
    · simpa using congrArg List.length h
  rcases hsaved.edit.outside _ houtside with hsame | ⟨-, hnew, -⟩
  · left
    rw [← held_eq_none_iff, hu.held, held_congr hsame, held_eq_none_iff]
    exact hdelivered.gone _ List.prefix_rfl
  · exact Or.inr (find?_directory_of_held (hu.held _) hnew)

omit hdet in
/-- What a second compile finds, once the summary of the first run was saved. -/
theorem ready_of_saved {a : Artifacts}
    (h : (Compile.run compiler p.layout.entry p.layout.outputCss).on t = (.ok a, t₂)) :
    Compile.Ready p.layout.entry p.layout.sassRoot p.layout.publicDir Layout.cssName
      (t.placeOf p.layout.base ++ [Compile.stagingName "public"]) t t₂ u := by
  constructor
  case regular => exact hu.regular
  case here => exact hu.here.trans hframe.here
  case enters => exact hu.enters hsaved.enters
  case entry =>
    obtain ⟨hentry, -⟩ := exists_delivered ht hbase hc h
    exact isFile_entry_again ht hbase hframe hsaved hu hentry
  case source =>
    intro x hx
    rw [Layout.sassRoot, placeOf_child (by decide)] at hx
    exact held_sass_again hbase hframe hu hx
  case output => exact fun n hn => held_output_again ht hbase hc hframe hsaved hu h hn
  case staging => exact find?_staging_again ht hbase hc hframe hsaved hu h

omit hdet hframe hsaved hu in
/-- But for the staging directory the way to the output directory is there after the compile. -/
theorem entersBut_of_run {a : Artifacts}
    (h : (Compile.run compiler p.layout.entry p.layout.outputCss).on t = (.ok a, t₂))
    {q : Path} (hq : q.Alike p.layout.publicDir) :
    t₂.EntersBut (t.placeOf p.layout.base) (Compile.stagingName "public") q := by
  obtain ⟨hregular, hframe⟩ :=
    Compile.frame_run (fileName?_publicDir _) isEntryName_cssName ht hc h
  obtain ⟨-, cssBytes, mapBytes, hdelivered⟩ := exists_delivered ht hbase hc h
  have hkept {x : Place} (hx : t.find? x = some .directory) :
      x ∈ below (t.placeOf p.layout.base ++ [Compile.stagingName "public"]) ∨
        t₂.find? x = some .directory := by
    by_cases hmem : x ∈ below (t.placeOf p.layout.base ++ [Compile.stagingName "public"])
    · exact Or.inl hmem
    · exact Or.inr (hdelivered.directories x hmem hx)
  -- the stylesheet is in the output directory
  have houtput : t₂.find? (t.placeOf p.layout.publicDir) = some .directory := by
    obtain ⟨executable, hfile⟩ := find?_of_held_eq_file hdelivered.css
    exact hregular.directory_of_isSome hfile
  constructor
  case above => exact (hkept hbase.2).resolve_left (not_mem_below_self _ _)
  case way =>
    intro x hx
    rw [way_alike hq, way_congr hframe.here] at hx
    rcases way_publicDir_subset hx with hx | hself
    · exact hkept (hbase.1 x hx)
    · rw [Set.mem_singleton_iff.mp hself]
      exact Or.inr houtput
  case last =>
    rw [placeOf_alike hq, placeOf_congr hframe.here]
    exact Or.inr houtput

/-- The compile itself has the same result, and but for the staging directory everything is as it
was. -/
theorem exists_run_again {a : Artifacts}
    (h : (Compile.run compiler p.layout.entry p.layout.outputCss).on t = (.ok a, t₂)) :
    ∃ u', (Compile.run compiler p.layout.entry p.layout.outputCss).on u = (.ok a, u') ∧
      u'.Regular ∧ u'.here = u.here ∧
      (∀ x ∈ below (t.placeOf p.layout.base ++ [Compile.stagingName "public"]),
        u'.find? x = none) ∧
      ∀ x ∉ below (t.placeOf p.layout.base ++ [Compile.stagingName "public"]),
        u'.held x = t'.held x := by
  have hready := ready_of_saved ht hbase hc hframe hsaved hu h
  obtain ⟨q, hstaging, houtput, halike⟩ := exists_staging p.layout
  have hplace : t.placeOf q = t.placeOf p.layout.base := placeOf_alike halike t
  have hapart : ∀ x ∈ below (t.placeOf p.layout.sassRoot),
      x ∉ below (t.placeOf q ++ [Compile.stagingName "public"]) := by
    rw [hplace, Layout.sassRoot, placeOf_child (by decide : IsEntryName "sass")]
    rintro x ⟨more, rfl⟩
    exact not_mem_below (by decide)
  rw [hstaging] at hc hdet
  rw [← hplace] at hready ⊢
  obtain ⟨u', hrun, hregular, hhere, hgone, hkept⟩ :=
    Compile.run_again ht (by decide) isEntryName_cssName hstaging houtput
      ((enters_alike halike).mpr hbase) hc h hdet hapart hready
  exact ⟨u', hrun, hregular, hhere, hgone, fun x hx => (hkept x hx).trans (hu.held x)⟩

omit ht hbase hc hdet hframe in
/-- If nothing is compiled, everything is there. -/
theorem resavable_of_saved : Resavable p.layout t₂ t' u ∅ := by
  constructor
  case regular => exact hu.regular
  case here => exact hu.here.trans hsaved.edit.here
  case creates =>
    intro q hq
    have halike := alike_of_parent_summary hq
    rw [createDirectories_of_enters hu.regular ((enters_alike halike).mpr (hu.enters hsaved.enters))
      (by rw [halike.2]; exact moves_publicDir_ne_nil p.layout)]
  case absent => exact fun x hx => absurd hx (Set.notMem_empty x)
  case kept => exact fun x _ => hu.held x
  case apart => exact fun n => Set.notMem_empty _

/-- **Compiling again** has the same result.  Only the staging directory can be lost, and it was
gone after the first compile, too. -/
theorem compile_again (h : (p.compile compiler).on t = (.ok artifacts, t₂)) :
    ∃ (u' : FileTree) (lost : Set Place), (p.compile compiler).on u = (.ok artifacts, u') ∧
      Resavable p.layout t₂ t' u' lost := by
  rcases compile_eq_ok.mp h with ⟨honly, rfl, rfl⟩ | ⟨hfull, a, rfl, hrun⟩
  · exact ⟨u, ∅, compile_eq_ok.mpr (Or.inl ⟨honly, rfl, rfl⟩), resavable_of_saved hsaved hu⟩
  obtain ⟨u', hrun', hregular, hhere, hgone, hkept⟩ :=
    exists_run_again ht hbase hc hdet hframe hsaved hu hrun
  obtain ⟨-, cssBytes, mapBytes, hdelivered⟩ := exists_delivered ht hbase hc hrun
  obtain ⟨ht₂, hframe₂⟩ :=
    Compile.frame_run (fileName?_publicDir _) isEntryName_cssName ht hc hrun
  have hhere' : u'.here = t₂.here := by rw [hhere, hu.here, hsaved.edit.here]
  refine ⟨u', below (t.placeOf p.layout.base ++ [Compile.stagingName "public"]),
    compile_eq_ok.mpr (Or.inr ⟨hfull, a, rfl, hrun'⟩), ?_⟩
  constructor
  case regular => exact hregular
  case here => exact hhere'
  case creates =>
    -- the way is made as it was the first time
    intro q hq
    have hbut := entersBut_of_run ht hbase hc hrun (alike_of_parent_summary hq)
    have hbut' := hbut.mono hhere' fun x hx hdir =>
      find?_directory_of_held (hkept x hx) (hsaved.edit.directories x hdir)
    have hagree := hbut.agreeOn hbut' ht₂ hregular hhere' fun x hx => by
      rw [hgone x hx, hdelivered.gone x hx]
    rw [createDirectories_congr ht₂ hagree]
    exact hsaved.created q hq
  case absent => exact fun x hx => ⟨hdelivered.gone x hx, hgone x hx⟩
  case kept => exact hkept
  case apart =>
    intro n
    rw [placeOf_congr hframe₂.here]
    exact stagingDirectory_apart n

end

/-! ### Reading again -/

section
variable {p : Pipeline} {t t' : FileTree}

/-- A run reads two files. -/
theorem resolve_congr
    (hdefault : t'.fileBytes p.layout.defaultConfig = t.fileBytes p.layout.defaultConfig)
    (hthere : t'.exists? p.userConfigPath = t.exists? p.userConfigPath)
    (huser : t.exists? p.userConfigPath = true →
      t'.fileBytes p.userConfigPath = t.fileBytes p.userConfigPath) :
    p.resolve t' = p.resolve t := by
  have hload {q : Path} (h : t'.fileBytes q = t.fileBytes q) :
      Effective.loadDocument t' q = Effective.loadDocument t q := by
    rw [Effective.loadDocument, Effective.loadDocument, h]
  have hsource : Effective.userSource t' p.userConfigPath =
      Effective.userSource t p.userConfigPath := by
    rw [Effective.userSource, Effective.userSource, hthere]
    by_cases h : t.exists? p.userConfigPath = true
    · rw [hload (huser h), huser h]
    · simp [h]
  rw [resolve, resolve, Effective.resolve, Effective.resolve, hload hdefault]
  simp only [hsource]

/-- **Reading again** gives the same, if the user document and the way to it are as they were. -/
theorem resolve_again (ht : t.Regular) (ht' : t'.Regular) (hhere : t'.here = t.here)
    (hbase : t'.Enters p.layout.base)
    (hkept : ∀ x ∉ part t p.layout "sass", x ∉ rest t p.layout → t'.find? x = t.find? x)
    (huser : ∀ x ∈ t.trailOf p.userConfigPath ++ [t.placeOf p.userConfigPath],
      t'.held x = t.held x)
    {effective : Effective} (h : p.resolve t = .ok effective) : p.resolve t' = .ok effective := by
  rw [← h]
  have hway : ∀ x ∈ t.trailOf p.userConfigPath, t'.held x = t.held x :=
    fun x hx => huser x (List.mem_append_left _ hx)
  have hend := huser (t.placeOf p.userConfigPath) (List.mem_append_right _ (by simp))
  refine resolve_congr ?_ (exists?_of_held ht ht' hhere hway hend)
    (fileBytes_of_held ht ht' hhere hway hend)
  -- the default document is in a directory of its own
  obtain ⟨contents, hbytes⟩ := exists_default h
  have hname : IsEntryName defaultConfigName := by decide
  have hbuild : IsEntryName "build" := by decide
  obtain ⟨henters, executable, hfile⟩ := (fileBytes_child_eq_ok ht hname).mp hbytes
  have hstill (more : Place) : t'.find? (t.placeOf p.layout.base ++ ["build"] ++ more) =
      t.find? (t.placeOf p.layout.base ++ ["build"] ++ more) := by
    apply hkept
    · exact not_mem_below (by decide)
    · rintro (hpublic | hstaging)
      · exact not_mem_below (by decide) hpublic
      · exact not_mem_below (by decide) hstaging
  have hdir := ((enters_child_iff ht hbuild _).mp henters).2
  have henters' : t'.Enters (p.layout.base.child "build") := by
    refine (enters_child_iff ht' hbuild _).mpr ⟨hbase, ?_⟩
    rw [placeOf_congr hhere, ← List.append_nil (t.placeOf p.layout.base ++ ["build"]), hstill,
      List.append_nil]
    exact hdir
  rw [hbytes]
  refine (fileBytes_child_eq_ok ht' hname).mpr ⟨henters', executable, ?_⟩
  rw [placeOf_child hbuild] at hfile ⊢
  rw [placeOf_congr hhere, hstill]
  exact hfile

end

/-! ### The result -/

/-- What follows emitting leaves the sheets up to date. -/
theorem UpToDate.later {l : Layout} {s : Sources} {settings utilities : List String}
    {t t' : FileTree} (h : UpToDate l.sassRoot s settings utilities t)
    (hs : s.Named settings utilities) (ht : t.Regular) (ht' : t'.Regular) (hhere : t'.here = t.here)
    (hbase : t'.Enters l.base) (hsass : ∀ x ∈ part t l "sass", t'.find? x = t.find? x) :
    UpToDate l.sassRoot s settings utilities t' := by
  have hname : IsEntryName "sass" := by decide
  have hplace : t.placeOf l.sassRoot = t.placeOf l.base ++ ["sass"] := placeOf_child hname t _
  have hdirectory {d : String} (hd : IsEntryName d) {names : List String} {fs : List Fragment}
      (hfs : Named d names fs) (h : Fragment.UpToDate l.sassRoot d names fs t) :
      Fragment.UpToDate l.sassRoot d names fs t' := by
    obtain ⟨hroot, hdir⟩ := (enters_child_iff ht hd _).mp h.enters
    refine h.of_held hd hfs hhere ?_ fun n => held_congr (hsass _ ?_)
    · rw [enters_child_iff ht' hd, Layout.sassRoot, enters_child_iff ht' hname, ← Layout.sassRoot,
        placeOf_congr hhere, placeOf_congr hhere, hsass _ List.prefix_rfl, hsass]
      · exact ⟨⟨hbase, ((enters_child_iff ht hname _).mp hroot).2⟩, hdir⟩
      · rw [hplace]
        exact List.prefix_append _ _
    · rw [placeOf_child hd, hplace, List.append_assoc]
      exact List.prefix_append _ _
  exact ⟨hdirectory isEntryName_settings hs.settings h.settings,
    hdirectory isEntryName_utilities hs.utilities h.utilities⟩

/-- **A run that succeeded can be repeated.**  In a tree of files and directories, with a compiler
that stays in the staging directory and follows the stylesheet sources, and if the first run has
left the user document and the way to it as they were: then the second run succeeds with the same
summary, but for the time and for what was pruned, which is nothing, and it leaves everything but
the saved summary as the first one left it. -/
theorem run_twice {p : Pipeline} {compiler : Compiler} {now : Instant} {t t' : FileTree}
    (ht : t.Regular)
    (hc : compiler.ConfinedTo (Compile.stagingDirectory p.layout.outputCss))
    (hdet : compiler.DeterminedBy p.layout.sassRoot
      (Compile.stagingDirectory p.layout.outputCss))
    {summary : Summary} (h : (p.run compiler now).on t = (.ok summary, t'))
    (huser : ∀ x ∈ t.trailOf p.userConfigPath ++ [t.placeOf p.userConfigPath],
      t'.held x = t.held x) (later : Instant) :
    ∃ t'', (p.run compiler later).on t' =
        (.ok { summary with createdAt := later, pruned := [] }, t'') ∧
      ∀ x ≠ t.placeOf p.layout.summary, t''.held x = t'.held x := by
  cases ends_iff.mp h with
  | @finished effective s pruned artifacts digest t₁ t₂ _ hresolve hsources hemit hcompile hdigest
      hsave =>
  obtain ⟨settings, utilities, hnamed, hne⟩ := exists_named hsources
  -- what the first run left
  have hbase := enters_base ht hresolve
  have hemitted := edits_emit hnamed _ t _ _ _ ht rfl hemit
  have hbase₁ := hemitted.enters hbase
  have ht₂ := (frame_compile_rest hemitted.regular hc hcompile).1
  have hsaved := saved_of_save ht₂ hsave
  obtain ⟨ht', hframe⟩ := frame_after_emit hemitted.regular hc hcompile hsave
  have hbase' : t'.Enters p.layout.base :=
    ((enters_child_iff ht' (by decide) _).mp hsaved.enters).1
  have hkept {x : Place} (hx : x ∉ rest t₁ p.layout) : t'.find? x = t₁.find? x :=
    find?_of_frame hbase₁ hframe Set.subset_union_left hx (Set.notMem_empty x)
  have hupToDate := (upToDate_of_emit hnamed hne ht hemit).later hnamed hemitted.regular ht'
    hframe.here hbase' fun x hx => hkept (not_mem_rest_of_sass hx)
  -- what the second run makes of it
  have hhere : t'.here = t.here := hframe.here.trans hemitted.here
  have hresolve' := resolve_again ht ht' hhere hbase' (fun x hsass hrest => by
    rw [hkept (by rwa [rest_congr hemitted.here]), find?_of_emit ht hbase hnamed hemit hsass])
    huser hresolve
  obtain ⟨u, hemit', hsame⟩ := emit_again hnamed hupToDate ht'
  obtain ⟨u₂, lost, hcompile', hresavable⟩ :=
    compile_again hemitted.regular hbase₁ hc hdet hframe hsaved hsame hcompile
  obtain ⟨t'', hsave', hfinal⟩ := save_again hsaved hresavable
    (p.report later effective s [] artifacts digest)
  refine ⟨t'', ends_iff.mpr (.finished hresolve' hsources hemit' hcompile' hdigest hsave'), ?_⟩
  rw [← placeOf_congr (hsaved.edit.here.symm.trans hhere)]
  exact hfinal

/-! ### Sites that are run twice -/

/-- A user document that replaces the prefix. -/
def userDocument (prefixText : String) : ByteArray :=
  ("\x7b\"setup\":\x7b\"prefix\":\"" ++ prefixText ++ "\"\x7d\x7d").toUTF8

/-- A site with a user document and a sheet of an earlier run. -/
def usedSite : FileTree :=
  site
    [(["site", userConfigName], .file (userDocument "tk") false),
     (["site", "sass", "1_settings"], .directory),
     (["site", "sass", "1_settings", "_old.scss"], .file (bannerLine ++ "\n").toUTF8 false)]

/-- Its first run prunes the old sheet, and the second one finds everything done. -/
theorem run_twice_usedSite :
    ∃ summary t' t'', (siteRun.run (Compiler.constant "") .epoch).on usedSite = (.ok summary, t') ∧
      summary.pruned ≠ [] ∧
      (siteRun.run (Compiler.constant "") ⟨60, 0⟩).on t' =
        (.ok { summary with createdAt := ⟨60, 0⟩, pruned := [] }, t'') ∧
      ∀ x ≠ ["site", "public", Layout.summaryName], t''.held x = t'.held x := by
  have hregular : usedSite.Regular := by
    refine .of_entries (by decide) (by decide) ?_
    simp [usedSite, site]
  have hfirst : ((siteRun.run (Compiler.constant "") .epoch).on usedSite).1.toOption.any
        (fun summary => decide (summary.pruned ≠ [])) = true ∧
      ∀ x ∈ usedSite.trailOf siteRun.userConfigPath ++ [usedSite.placeOf siteRun.userConfigPath],
        ((siteRun.run (Compiler.constant "") .epoch).on usedSite).2.held x = usedSite.held x := by
    decide +kernel
  have hplace : usedSite.placeOf siteRun.layout.summary =
      ["site", "public", Layout.summaryName] := by decide +kernel
  rcases hrun : (siteRun.run (Compiler.constant "") .epoch).on usedSite with ⟨e | summary, t'⟩
  · rw [hrun] at hfirst
    cases hfirst.1
  rw [hrun] at hfirst
  obtain ⟨t'', hagain, hkept⟩ := run_twice hregular (Compiler.confinedTo_constant "" _)
    (Compiler.determinedBy_constant "" _ _) hrun hfirst.2 ⟨60, 0⟩
  rw [hplace] at hkept
  exact ⟨summary, t', t'', rfl, of_decide_eq_true hfirst.1, hagain, hkept⟩

/-- The same run twice: the first time it succeeds and leaves the documents that it reads. -/
structure RunsTwice (p : Pipeline) (compiler : Compiler) (t t' t'' : FileTree) (summary : Summary)
    (again : Except PipelineError Summary) : Prop where
  first : (p.run compiler .epoch).on t = (.ok summary, t')
  documents : ∀ q ∈ [p.layout.defaultConfig, p.userConfigPath],
    t'.held (t.placeOf q) = t.held (t.placeOf q)
  second : (p.run compiler .epoch).on t' = (again, t'')

theorem RunsTwice.of_results {p : Pipeline} {compiler : Compiler} {t : FileTree} {summary : Summary}
    {again : Except PipelineError Summary}
    (hfirst : ((p.run compiler .epoch).on t).1 = .ok summary)
    (hdocuments : ∀ q ∈ [p.layout.defaultConfig, p.userConfigPath],
      ((p.run compiler .epoch).on t).2.held (t.placeOf q) = t.held (t.placeOf q))
    (hsecond : ((p.run compiler .epoch).on ((p.run compiler .epoch).on t).2).1 = again) :
    p.RunsTwice compiler t ((p.run compiler .epoch).on t).2
      ((p.run compiler .epoch).on ((p.run compiler .epoch).on t).2).2 summary again :=
  ⟨Prod.ext hfirst rfl, hdocuments, Prod.ext hsecond rfl⟩

/-- A site where links from where two sheets are written lead to one file. -/
def sharedSite : FileTree :=
  site
    [(["site", "sass", "1_settings"], .directory),
     (["site", "sass", "1_settings", "._core.scss.tmp"], .link ⟨"../shared.txt"⟩),
     (["site", "sass", "1_settings", "._mainSettings.scss.tmp"], .link ⟨"../shared.txt"⟩)]

theorem runsTwice_sharedSite :
    ∃ summary t' summary' t'',
      siteRun.RunsTwice (Compiler.constant "") sharedSite t' t'' summary (.ok summary') ∧
      t''.fileBytes ⟨"/site/sass/1_settings/_core.scss"⟩ ≠
        t'.fileBytes ⟨"/site/sass/1_settings/_core.scss"⟩ := by
  obtain ⟨hfirst, hdocuments, hsecond, hchanged⟩ :
      ((siteRun.run (Compiler.constant "") .epoch).on sharedSite).1.isOk = true ∧
      (∀ q ∈ [siteRun.layout.defaultConfig, siteRun.userConfigPath],
        ((siteRun.run (Compiler.constant "") .epoch).on sharedSite).2.held
          (sharedSite.placeOf q) = sharedSite.held (sharedSite.placeOf q)) ∧
      ((siteRun.run (Compiler.constant "") .epoch).on
        ((siteRun.run (Compiler.constant "") .epoch).on sharedSite).2).1.isOk = true ∧
      ((siteRun.run (Compiler.constant "") .epoch).on
        ((siteRun.run (Compiler.constant "") .epoch).on sharedSite).2).2.fileBytes
          ⟨"/site/sass/1_settings/_core.scss"⟩ ≠
        ((siteRun.run (Compiler.constant "") .epoch).on sharedSite).2.fileBytes
          ⟨"/site/sass/1_settings/_core.scss"⟩ := by decide +kernel
  obtain ⟨summary, hsummary⟩ := exists_of_isOk hfirst
  obtain ⟨summary', hsummary'⟩ := exists_of_isOk hsecond
  exact ⟨summary, _, summary', _, .of_results hsummary hdocuments hsummary', hchanged⟩

/-- A site that has a user document without a prefix and no output directory. -/
def freshSite : FileTree :=
  (site [(["site", "tokens.json"], .file (userDocument "") false)]).eraseAll ["site", "public"]

/-- A run that looks for its user document on a way through the output directory. -/
def detourRun : Pipeline :=
  { siteRun with userConfig := some ⟨"/site/public/../tokens.json"⟩ }

theorem exists_error_of_status {r : Except PipelineError Summary} {n : Nat}
    (h : status r = n + 1) : ∃ e, r = .error e ∧ e.exitCode = n + 1 := by
  cases r with
  | ok summary => cases h
  | error e => exact ⟨e, rfl, h⟩

theorem runsTwice_freshSite :
    ∃ summary t' e t'',
      detourRun.RunsTwice (Compiler.constant "") freshSite t' t'' summary (.error e) ∧
      e.exitCode = 2 := by
  obtain ⟨hfirst, hdocuments, hsecond⟩ :
      ((detourRun.run (Compiler.constant "") .epoch).on freshSite).1.isOk = true ∧
      (∀ q ∈ [detourRun.layout.defaultConfig, detourRun.userConfigPath],
        ((detourRun.run (Compiler.constant "") .epoch).on freshSite).2.held
          (freshSite.placeOf q) = freshSite.held (freshSite.placeOf q)) ∧
      status ((detourRun.run (Compiler.constant "") .epoch).on
        ((detourRun.run (Compiler.constant "") .epoch).on freshSite).2).1 = 2 := by
    decide +kernel
  obtain ⟨summary, hsummary⟩ := exists_of_isOk hfirst
  obtain ⟨e, he, hcode⟩ := exists_error_of_status hsecond
  exact ⟨summary, _, e, _, .of_results hsummary hdocuments he, hcode⟩

/-- What links and a user document out of reach change.  With links the second run may change a
sheet.  And now that the output directory is there, it may find a user document that was out of
reach, and fail. -/
theorem exists_run_not_repeated :
    (∃ summary t' summary' t'',
        siteRun.RunsTwice (Compiler.constant "") sharedSite t' t'' summary (.ok summary') ∧
        t''.fileBytes ⟨"/site/sass/1_settings/_core.scss"⟩ ≠
          t'.fileBytes ⟨"/site/sass/1_settings/_core.scss"⟩) ∧
      ∃ summary t' e t'',
        detourRun.RunsTwice (Compiler.constant "") freshSite t' t'' summary (.error e) ∧
        e.exitCode = 2 :=
  ⟨runsTwice_sharedSite, runsTwice_freshSite⟩

end Pipeline

end TokenSheets
