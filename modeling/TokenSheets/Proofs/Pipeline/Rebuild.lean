/-
TokenSheets/Proofs/Pipeline/Rebuild.lean

What a run that succeeds ensures, whatever happened before.

Emitting settles both directories (`settled_of_emit`), and what follows it stays
below `public` and in the staging directory, so they are still settled at the end
(`rebuilt_of_run`).  All that a run needs for this is a tree of files and
directories; every event in the life of a project, runs that fail included, leaves
such a tree (`Event.regular_after`), so by induction each run of a history finds one
(`regular_replay`).
-/
import TokenSheets.Proofs.Pipeline.Run

namespace TokenSheets

open FileTree Fragment Outcome

namespace Pipeline

/-! ### After emitting -/

/-- Where a run works once the sheets are emitted. -/
def rest (t : FileTree) (l : Layout) : Set Place :=
  part t l "public" ∪ part t l (Compile.stagingName "public")

section
variable {t t' : FileTree} {l : Layout}

theorem part_congr (h : t'.here = t.here) (l : Layout) (name : String) :
    part t' l name = part t l name := by
  rw [part, part, placeOf_congr h]

theorem rest_congr (h : t'.here = t.here) (l : Layout) : rest t' l = rest t l := by
  rw [rest, rest, part_congr h, part_congr h]

theorem mem_part_public (n : String) : t.placeOf l.publicDir ++ [n] ∈ part t l "public" := by
  rw [placeOf_publicDir]
  exact List.prefix_append _ _

theorem way_publicDir_subset_part : t.way l.publicDir ⊆ t.way l.base ∪ part t l "public" := by
  refine way_publicDir_subset.trans (Set.union_subset_union_right _ ?_)
  rw [Set.singleton_subset_iff, placeOf_publicDir]
  exact List.prefix_rfl

theorem stagingPlace_publicDir :
    Compile.stagingPlace t l.publicDir Layout.cssName =
      t.placeOf l.base ++ [Compile.stagingName "public"] := by
  obtain ⟨q, -, hstaging, hplace, -⟩ :=
    Compile.exists_beside (fileName?_publicDir l) isEntryName_cssName t
  rw [placeOf_publicDir] at hplace
  rw [hstaging, List.append_cancel_right hplace]

/-- The stylesheet directory is not where a run works then. -/
theorem not_mem_rest_of_sass {x : Place} (hx : x ∈ part t l "sass") : x ∉ rest t l := by
  obtain ⟨more, rfl⟩ := hx
  rintro (hpublic | hstaging)
  · exact not_mem_below (by decide) hpublic
  · exact not_mem_below (by decide) hstaging

/-- So sheets are not. -/
theorem not_mem_rest {d : String} (hd : IsEntryName d) (name : String) :
    t.placeOf (l.sassRoot.child d) ++ [name] ∉ rest t l := by
  apply not_mem_rest_of_sass
  rw [placeOf_child hd, Layout.sassRoot, placeOf_child (by decide : IsEntryName "sass"),
    List.append_assoc]
  exact List.prefix_append _ _

/-- Saving a summary. -/
theorem edit_save (ht : t.Regular) {summary : Summary} {r : Except IoError Unit}
    (h : (summary.save l.summary).on t = (r, t')) :
    Edit (part t l "public") (t.way l.base) t t' := by
  have hname : IsEntryName Layout.summaryName := by decide
  obtain ⟨q, hparent, halike⟩ := l.publicDir.parent?_child hname
  have hcreate := edit_createDirectories ht q
  rw [way_alike halike] at hcreate
  have hfirst : Edit (part t l "public") (t.way l.base) t (t.createDirectories q).2 :=
    (hcreate.mono (Set.empty_subset _) subset_rfl).absorb way_publicDir_subset_part
  have hsecond := edit_replaceFile hfirst.regular hname l.publicDir summary.json.toUTF8
  rw [placeOf_congr hfirst.here] at hsecond
  have hpair : {t.placeOf l.publicDir ++ [Layout.summaryName],
      t.placeOf l.publicDir ++ [temporary Layout.summaryName]} ⊆ part t l "public" := by
    rintro x (rfl | rfl)
    · exact mem_part_public _
    · exact mem_part_public _
  rw [Summary.save, Layout.summary, hparent] at h
  rcases hdir : (t.createDirectories q) with ⟨e | ⟨⟩, t₁⟩
  · rw [hdir] at hfirst
    rw [Task.on_bind_of_error (by rw [Task.on_perform, hdir]; rfl)] at h
    obtain ⟨-, rfl⟩ := Prod.mk.inj h
    exact hfirst
  · rw [hdir] at hfirst hsecond
    rw [Task.on_bind_of_ok (by rw [Task.on_perform, hdir]; rfl), Task.on_perform] at h
    obtain ⟨-, rfl⟩ := Prod.mk.inj h
    exact hfirst.trans (hsecond.mono hpair (Set.empty_subset _))

end

section
variable {p : Pipeline} {compiler : Compiler} {now : Instant} {t t' : FileTree}
  (ht : t.Regular) (hc : compiler.ConfinedTo (Compile.stagingDirectory p.layout.outputCss))
include ht hc

/-- Compiling. -/
theorem frame_compile_rest {r : Except CompileError (Option Artifacts)}
    (h : (p.compile compiler).on t = (r, t')) :
    t'.Regular ∧ Frame (rest t p.layout) (t.way p.layout.base) t t' := by
  obtain ⟨hregular, hframe⟩ := frame_compile ht hc h
  have hscope : Compile.targets t p.layout.publicDir Layout.cssName ∪
      below (Compile.stagingPlace t p.layout.publicDir Layout.cssName) ⊆ rest t p.layout := by
    refine Set.union_subset_union ?_ ?_
    · rintro q ⟨n, -, rfl⟩
      exact mem_part_public n
    · rw [stagingPlace_publicDir]
      exact subset_rfl
  refine ⟨hregular, (hframe.mono hscope subset_rfl).absorb ?_⟩
  refine way_publicDir_subset_part.trans (Set.union_subset_union_right _ ?_)
  exact Set.subset_union_left

/-- Compiling and then saving. -/
theorem frame_after_emit {r : Except CompileError (Option Artifacts)} {t₁ : FileTree}
    (hcompile : (p.compile compiler).on t = (r, t₁)) {summary : Summary}
    {r' : Except IoError Unit} (hsave : (summary.save p.layout.summary).on t₁ = (r', t')) :
    t'.Regular ∧ Frame (rest t p.layout) (t.way p.layout.base) t t' := by
  obtain ⟨hregular, hcompiled⟩ := frame_compile_rest ht hc hcompile
  have hsaved := edit_save hregular hsave
  refine ⟨hsaved.regular, hcompiled.trans ?_⟩
  rw [← rest_congr hcompiled.here, ← way_congr hcompiled.here]
  exact hsaved.toFrame.mono Set.subset_union_left subset_rfl

/-- Whatever becomes of a run, what it leaves is made of files and directories. -/
theorem regular_run {r : Except PipelineError Summary}
    (h : (p.run compiler now).on t = (r, t')) : t'.Regular := by
  have hemitted {effective : Effective} {s : Sources} {r : Except EmitError (List Path)}
      {t₁ : FileTree} (hsources : sources effective = .ok s)
      (hemit : (emit p.layout.sassRoot s).on t = (r, t₁)) : t₁.Regular := by
    obtain ⟨settings, utilities, hnamed, -⟩ := exists_named hsources
    exact (edits_emit hnamed _ t _ _ _ ht rfl hemit).regular
  cases ends_iff.mp h with
  | unresolved => exact ht
  | rejected => exact ht
  | unwritten hresolve hsources hemit => exact hemitted hsources hemit
  | uncompiled hresolve hsources hemit hcompile =>
    exact (frame_compile_rest (hemitted hsources hemit) hc hcompile).1
  | undigested hresolve hsources hemit hcompile hdigest =>
    exact (frame_compile_rest (hemitted hsources hemit) hc hcompile).1
  | unsaved hresolve hsources hemit hcompile hdigest hsave =>
    exact (frame_after_emit (hemitted hsources hemit) hc hcompile hsave).1
  | finished hresolve hsources hemit hcompile hdigest hsave =>
    exact (frame_after_emit (hemitted hsources hemit) hc hcompile hsave).1

end

/-! ### One run -/

/-- What a run ensures: `t` is the tree before it, `t'` the one after it. -/
structure Rebuilt (root : Path) (s : Sources) (summary : Summary) (t t' : FileTree) : Prop where
  /-- Every fragment is on disk with its contents. -/
  written : ∀ f ∈ s.fragments,
    t'.held (t.placeOf (root.join f.path)) = some (.file f.contents.toUTF8 false)
  /-- Every sheet with the banner is one of the fragments. -/
  clean : ∀ d ∈ directories, ∀ name contents executable, isSheetName name = true →
    t'.find? (t.placeOf (root.child d) ++ [name]) = some (.file contents executable) →
    isGenerated contents = true →
    ∃ f ∈ s.fragments, t.placeOf (root.join f.path) = t.placeOf (root.child d) ++ [name]
  /-- Every other sheet is as before. -/
  kept : ∀ d ∈ directories, ∀ name contents executable, isSheetName name = true →
    (∀ f ∈ s.fragments, t.placeOf (root.join f.path) ≠ t.placeOf (root.child d) ++ [name]) →
    isGenerated contents = false →
    (t'.find? (t.placeOf (root.child d) ++ [name]) = some (.file contents executable) ↔
      t.find? (t.placeOf (root.child d) ++ [name]) = some (.file contents executable))
  /-- The records are those of the fragments, with the digests of what is on disk. -/
  recorded : List.Forall₂
    (fun f r => (⟨r.path⟩ : Path) = f.path ∧
      ∃ contents, t'.held (t.placeOf (root.join f.path)) = some (.file contents false) ∧
        r.sha256 = Sha256.hex contents.toList)
    s.fragments summary.fragments
  /-- What is listed as pruned is gone. -/
  pruned : ∀ shown ∈ summary.pruned, t'.find? (t.placeOf (root.join ⟨shown⟩)) = none

/-- A fragment is recorded under its path. -/
theorem mk_record_path {s : Sources} {settings utilities : List String}
    (hs : s.Named settings utilities) {f : Fragment} (hf : f ∈ s.fragments) :
    (⟨(record f).path⟩ : Path) = f.path := by
  have hdirectory {d : String} (hd : IsEntryName d) {names : List String} {fs : List Fragment}
      (hfs : Named d names fs) (hf : f ∈ fs) : (⟨(record f).path⟩ : Path) = f.path := by
    obtain ⟨n, -, hplain, hpath⟩ := hfs.exists_name hf
    have hn := Modules.isEntryName_fileName hplain
    show (⟨Path.showParts f.path.parts⟩ : Path) = f.path
    rw [hpath, Modules.pathOf, ← Modules.fileName, Path.parts_mk_child hd hn,
      Path.mk_showParts hd hn]
  rcases List.mem_append.mp hf with hf | hf
  · exact hdirectory isEntryName_settings hs.settings hf
  · exact hdirectory isEntryName_utilities hs.utilities hf

/-- What was pruned is listed under its path below the root. -/
theorem join_showBelow {d name : String} (hd : IsEntryName d) (hn : IsEntryName name)
    (root : Path) :
    root.join ⟨showBelow root ((root.child d).child name)⟩ = (root.child d).child name := by
  rw [showBelow, Path.partsAfter?_child hd hn, Option.getD_some, Path.mk_showParts hd hn,
    Path.join_child _ hd hn]

/-- Two directories that are settled are rebuilt, if the summary is right. -/
theorem rebuilt_of_settled {root : Path} {s : Sources} {settings utilities : List String}
    (hs : s.Named settings utilities) {summary : Summary} {t t' : FileTree}
    (hhere : t'.here = t.here)
    (hfirst : SettledIn root SettingsSheets.directory settings s.settings.fragments t t')
    (hsecond : SettledIn root UtilitySheets.directory utilities s.utilities.fragments t t')
    (hrecords : summary.fragments = s.fragments.map record)
    (hpruned : ∀ shown ∈ summary.pruned, t'.find? (t.placeOf (root.join ⟨shown⟩)) = none) :
    Rebuilt root s summary t t' := by
  have hsettled : ∀ d ∈ directories, ∃ names fs, Named d names fs ∧ fs ⊆ s.fragments ∧
      SettledIn root d names fs t t' := by
    intro d hd
    rcases List.mem_cons.mp hd with rfl | hd
    · exact ⟨_, _, hs.settings, List.subset_append_left _ _, hfirst⟩
    · obtain rfl := List.mem_singleton.mp hd
      exact ⟨_, _, hs.utilities, List.subset_append_right _ _, hsecond⟩
  have hwritten : ∀ f ∈ s.fragments,
      t'.held (t.placeOf (root.join f.path)) = some (.file f.contents.toUTF8 false) := by
    intro f hf
    rcases List.mem_append.mp hf with hf | hf
    · exact hfirst.written f hf
    · exact hsecond.written f hf
  constructor
  case written => exact hwritten
  case clean =>
    intro d hd name contents executable hsheet hfind hgenerated
    obtain ⟨names, fs, hfs, hsub, hdir⟩ := hsettled d hd
    obtain ⟨f, hf, hplace⟩ := hdir.exists_fragment (isEntryName_of_mem_directories hd) hfs hsheet
      hhere hfind hgenerated
    exact ⟨f, hsub hf, hplace⟩
  case kept =>
    intro d hd name contents executable hsheet hother hplain
    obtain ⟨names, fs, hfs, hsub, hdir⟩ := hsettled d hd
    apply hdir.find?_eq_file_iff (isEntryName_of_mem_directories hd) hfs hsheet ?_ hplain
    intro f hf
    exact hother f (hsub hf)
  case recorded =>
    rw [hrecords, List.forall₂_map_right_iff, List.forall₂_same]
    intro f hf
    exact ⟨mk_record_path hs hf, f.contents.toUTF8, hwritten f hf, rfl⟩
  case pruned => exact hpruned

/-- A run that succeeds has rebuilt both directories if no two of its fragments share a path. -/
theorem rebuilt_of_run {p : Pipeline} {compiler : Compiler} {now : Instant} {t t' : FileTree}
    (ht : t.Regular) (hc : compiler.ConfinedTo (Compile.stagingDirectory p.layout.outputCss))
    {summary : Summary} (h : (p.run compiler now).on t = (.ok summary, t')) :
    ∃ effective s, p.resolve t = .ok effective ∧ sources effective = .ok s ∧
      ((s.fragments.map (·.path)).Nodup → Rebuilt p.layout.sassRoot s summary t t') := by
  cases ends_iff.mp h with
  | @finished effective s pruned artifacts _ t₁ t₂ _ hresolve hsources hemit hcompile _ hsave =>
  refine ⟨effective, s, hresolve, hsources, fun hnodup => ?_⟩
  obtain ⟨settings, utilities, hnamed, hne⟩ := exists_named hsources
  obtain ⟨hsettings, hutilities⟩ := hnamed.nodup_iff.mp hnodup
  have hedit := edits_emit hnamed _ t _ _ _ ht rfl hemit
  obtain ⟨hfirst, hsecond, hpruned⟩ :=
    settled_of_emit hnamed hsettings hutilities hne ht hemit
  -- what follows stays away from the sheets, so that the directories stay settled
  obtain ⟨-, hrest⟩ := frame_after_emit hedit.regular hc hcompile hsave
  rw [rest_congr hedit.here, way_congr hedit.here] at hrest
  apply rebuilt_of_settled hnamed (hrest.here.trans hedit.here)
  case hfirst =>
    exact hfirst.later isEntryName_settings hnamed.settings hedit.here hrest
      (not_mem_rest isEntryName_settings)
  case hsecond =>
    exact hsecond.later isEntryName_utilities hnamed.utilities hedit.here hrest
      (not_mem_rest isEntryName_utilities)
  case hrecords => rfl
  case hpruned =>
    intro shown hshown
    obtain ⟨q, hq, rfl⟩ := List.mem_map.mp hshown
    obtain ⟨d, hd, name, contents, executable, hn, rfl, hbefore, hgone⟩ := hpruned q hq
    have hd' : IsEntryName d := isEntryName_of_mem_directories hd
    rw [join_showBelow hd' hn, placeOf_child hn]
    -- it was a file before, so it is not on the way to the base directory, where nothing was
    -- created
    refine (hrest.find?_eq (not_mem_rest hd' name) fun hway => ?_).trans hgone
    rw [(enters_base ht hresolve).1 _ hway] at hbefore
    cases hbefore

/-! ### Histories -/

/-- What can happen to a project. -/
inductive Event where
  | write (p : Path) (contents : ByteArray)
  | remove (p : Path)
  | makeDirectories (p : Path)
  | run (p : Pipeline) (compiler : Compiler) (now : Instant)

namespace Event

/-- The tree after an event; what fails otherwise than in a run leaves the tree. -/
def after : Event → FileTree → FileTree
  | .write p contents, t => (t.writeFile p contents).toOption.getD t
  | .remove p, t => (t.removeFile p).toOption.getD t
  | .makeDirectories p, t => (t.createDirectories p).2
  | .run p compiler now, t => ((p.run compiler now).on t).2

/-- The compiler of a run stays inside the staging directory. -/
def Confined : Event → Prop
  | .run p compiler _ => compiler.ConfinedTo (Compile.stagingDirectory p.layout.outputCss)
  | _ => True

theorem regular_after {t : FileTree} (ht : t.Regular) {e : Event} (he : e.Confined) :
    (e.after t).Regular := by
  cases e with
  | write p contents =>
    show ((t.writeFile p contents).toOption.getD t).Regular
    cases h : t.writeFile p contents with
    | error e => exact ht
    | ok t' => exact (edit_writeFile ht h).regular
  | remove p =>
    show ((t.removeFile p).toOption.getD t).Regular
    cases h : t.removeFile p with
    | error e => exact ht
    | ok t' => exact (edit_removeFile ht h).regular
  | makeDirectories p => exact (edit_createDirectories ht p).regular
  | run p compiler now => exact regular_run ht he rfl

end Event

/-- The tree after a history. -/
def replay (t : FileTree) : List Event → FileTree
  | [] => t
  | e :: events => replay (e.after t) events

/-- A history leaves a tree of files and directories. -/
theorem regular_replay {t : FileTree} (ht : t.Regular) {events : List Event}
    (hevents : ∀ e ∈ events, e.Confined) : (replay t events).Regular := by
  induction events generalizing t with
  | nil => exact ht
  | cons e events ih =>
    obtain ⟨he, hevents⟩ := List.forall_mem_cons.mp hevents
    exact ih (e.regular_after ht he) hevents

/-! ### The result -/

/-- **What a run that succeeds ensures.**  Whatever has happened to a project of files and
directories before, runs with other documents and runs that failed included, a run that succeeds
has rebuilt both directories with generated sheets if no two of its fragments share a path. -/
theorem rebuilt_of_history {t : FileTree} (ht : t.Regular) {before : List Event}
    (hbefore : ∀ e ∈ before, e.Confined) {p : Pipeline} {compiler : Compiler}
    (hc : compiler.ConfinedTo (Compile.stagingDirectory p.layout.outputCss)) {now : Instant}
    {summary : Summary} {t' : FileTree}
    (h : (p.run compiler now).on (replay t before) = (.ok summary, t')) :
    ∃ effective s, p.resolve (replay t before) = .ok effective ∧ sources effective = .ok s ∧
      ((s.fragments.map (·.path)).Nodup →
        Rebuilt p.layout.sassRoot s summary (replay t before) t') :=
  rebuilt_of_run (regular_replay ht hbefore) hc h

/-- A sheet of an earlier run comes back. -/
def leftover : List Event :=
  [.makeDirectories ⟨"/site/sass/1_settings"⟩,
   .write ⟨"/site/sass/1_settings/_old.scss"⟩ (bannerLine ++ "\n").toUTF8]

/-- The next run succeeds; it lists the sheet as pruned, and the sheet is gone. -/
theorem rebuilt_of_history_leftover :
    ∃ summary t', (siteRun.run (Compiler.constant "") .epoch).on (replay (site []) leftover) =
        (.ok summary, t') ∧
      "1_settings/_old.scss" ∈ summary.pruned ∧
      t'.find? ["site", "sass", "1_settings", "_old.scss"] = none := by
  have hregular : (site []).Regular := by
    refine .of_entries (by decide) (by decide) ?_
    simp [site]
  have hconfined : ∀ e ∈ leftover, e.Confined := by
    simp [leftover, Event.Confined]
  have hlisted : ((siteRun.run (Compiler.constant "") .epoch).on
      (replay (site []) leftover)).1.toOption.any
      (fun summary => decide ("1_settings/_old.scss" ∈ summary.pruned)) = true := by decide +kernel
  have hfragments : ((siteRun.resolve (replay (site []) leftover)).bind sources).toOption.any
      (fun s => decide (s.fragments.map (·.path)).Nodup) = true := by decide +kernel
  have hplace : (replay (site []) leftover).placeOf
      (siteRun.layout.sassRoot.join ⟨"1_settings/_old.scss"⟩) =
        ["site", "sass", "1_settings", "_old.scss"] := by decide +kernel
  rcases hrun : (siteRun.run (Compiler.constant "") .epoch).on (replay (site []) leftover) with
    ⟨e | summary, t'⟩
  · rw [hrun] at hlisted
    cases hlisted
  rw [hrun] at hlisted
  obtain ⟨effective, s, hresolve, hsources, hrebuilt⟩ :=
    rebuilt_of_history hregular hconfined (Compiler.confinedTo_constant "" _) hrun
  have hboth : (siteRun.resolve (replay (site []) leftover)).bind sources = .ok s := by
    rw [hresolve]
    exact hsources
  rw [hboth] at hfragments
  have hpruned := of_decide_eq_true hlisted
  refine ⟨summary, t', rfl, hpruned, ?_⟩
  rw [← hplace]
  exact (hrebuilt (of_decide_eq_true hfragments)).pruned _ hpruned

end Pipeline

end TokenSheets
