/-
TokenSheets/Proofs/Pipeline/Emit.lean

Writing and pruning in both directories.

A run writes the fragments of both directories and then prunes both.  What it
ensures is said of one directory (`SettledIn`): its fragments are on disk, nothing
generated is left beside them, and what somebody wrote by hand is as before.  As
long as the files of a directory are not touched, it stays settled; that carries
it through the work in the other directory, and later through the compile and
the summary.
-/
import TokenSheets.Pipeline
import TokenSheets.Proofs.Fragment.Store

namespace TokenSheets

open FileTree Fragment

/-! ### A settled directory -/

/-- What a run has done in a directory: `t` is the tree before it. -/
structure SettledIn (root : Path) (directory : String) (names : List String) (fs : List Fragment)
    (t t' : FileTree) : Prop where
  /-- Every fragment is on disk with its contents. -/
  written : ∀ f ∈ fs, t'.held (t.placeOf (root.join f.path)) = some (.file f.contents.toUTF8 false)
  /-- Every other sheet with the banner is gone. -/
  clean : ∀ name, ¬Stale t' (root.child directory) names name
  /-- Every other sheet without the banner is as before. -/
  kept : ∀ name contents executable, isSheetName name = true →
    (∀ n ∈ names, name ≠ Modules.fileName n) → isGenerated contents = false →
    (t'.find? (t.placeOf (root.child directory) ++ [name]) = some (.file contents executable) ↔
      t.find? (t.placeOf (root.child directory) ++ [name]) = some (.file contents executable))

namespace SettledIn

variable {root : Path} {directory : String} {names : List String} {fs : List Fragment}
  {t t₁ t' : FileTree} {scope made : Set Place}

/-- Files of the directory that are not touched later stay settled. -/
theorem later (h : SettledIn root directory names fs t t₁) (hd : IsEntryName directory)
    (hfs : Named directory names fs) (hhere : t₁.here = t.here) (hframe : Frame scope made t₁ t')
    (hscope : ∀ name, t.placeOf (root.child directory) ++ [name] ∉ scope) :
    SettledIn root directory names fs t t' := by
  refine ⟨fun f hf => ?_, fun name hstale => ?_, fun name contents x hsheet hother hplain => ?_⟩
  · refine hframe.held_of_eq_some ?_ (h.written f hf)
    obtain ⟨n, hn, hplain, hpath⟩ := hfs.exists_name hf
    rw [hpath, placeOf_pathOf hd hplain]
    exact hscope _
  · obtain ⟨contents, executable, hfind, hgenerated⟩ := hstale.generated
    have hplace := placeOf_congr (hframe.here.trans hhere) (root.child directory)
    refine h.clean name ⟨hstale.sheet, hstale.other, contents, executable, ?_, hgenerated⟩
    rw [hplace] at hfind
    rw [placeOf_congr hhere]
    exact hframe.find?_of_eq_file (hscope name) hfind
  · rw [← h.kept name contents x hsheet hother hplain]
    exact hframe.find?_eq_file_iff (hscope name)

/-- Files of the directory that were not touched earlier are as before. -/
theorem earlier (h : SettledIn root directory names fs t₁ t') (hframe : Frame scope made t t₁)
    (hscope : ∀ name, t.placeOf (root.child directory) ++ [name] ∉ scope) :
    SettledIn root directory names fs t t' := by
  refine ⟨fun f hf => ?_, h.clean, fun name contents x hsheet hother hplain => ?_⟩
  · rw [← placeOf_congr hframe.here]
    exact h.written f hf
  · have hkept := h.kept name contents x hsheet hother hplain
    rw [placeOf_congr hframe.here] at hkept
    rw [hkept]
    exact hframe.find?_eq_file_iff (hscope name)

section
variable (h : SettledIn root directory names fs t t') (hd : IsEntryName directory)
  (hfs : Named directory names fs) {name : String} {contents : ByteArray} {executable : Bool}
  (hsheet : isSheetName name = true)
include h hd hfs hsheet

/-- A sheet with the banner is one of the fragments. -/
theorem exists_fragment (hhere : t'.here = t.here)
    (hfind : t'.find? (t.placeOf (root.child directory) ++ [name]) =
      some (.file contents executable)) (hgenerated : isGenerated contents = true) :
    ∃ f ∈ fs, t.placeOf (root.join f.path) = t.placeOf (root.child directory) ++ [name] := by
  by_contra hnone
  refine h.clean name ⟨hsheet, ?_, contents, executable, ?_, hgenerated⟩
  · rintro n hn rfl
    obtain ⟨f, hf, hpath⟩ := hfs.exists_fragment hn
    refine hnone ⟨f, hf, ?_⟩
    rw [hpath, placeOf_pathOf hd (hfs.plain n hn)]
  · rw [placeOf_congr hhere]
    exact hfind

/-- A sheet without the banner that is no fragment is there exactly if it was there before. -/
theorem find?_eq_file_iff
    (hother : ∀ f ∈ fs, t.placeOf (root.join f.path) ≠
      t.placeOf (root.child directory) ++ [name]) (hplain : isGenerated contents = false) :
    t'.find? (t.placeOf (root.child directory) ++ [name]) = some (.file contents executable) ↔
      t.find? (t.placeOf (root.child directory) ++ [name]) = some (.file contents executable) := by
  refine h.kept name contents executable hsheet ?_ hplain
  rintro n hn rfl
  obtain ⟨f, hf, hpath⟩ := hfs.exists_fragment hn
  apply hother f hf
  rw [hpath, placeOf_pathOf hd (hfs.plain n hn)]

end

end SettledIn

/-! ### One directory -/

section
variable {t : FileTree} {root : Path} {names : List String}

theorem sheetPlaces_subset {directory : String} :
    sheetPlaces t (root.child directory) names ⊆ inside (t.placeOf (root.child directory)) := by
  rintro q ⟨n, -, rfl | rfl⟩
  · exact ⟨List.prefix_append _ _, by simp⟩
  · exact ⟨List.prefix_append _ _, by simp⟩

theorem stalePlaces_subset {directory : String} :
    stalePlaces t (root.child directory) names ⊆ inside (t.placeOf (root.child directory)) := by
  rintro q ⟨name, -, rfl⟩
  exact ⟨List.prefix_append _ _, by simp⟩

/-- Writing stays inside the directory. -/
theorem edit_writeAll_inside {directory : String} (hd : IsEntryName directory) {fs : List Fragment}
    (hfs : Named directory names fs) {t₁ t₂ : FileTree} (ht : t₁.Regular)
    (hhere : t₁.here = t.here) {r : Except EmitError (List WriteOutcome)}
    (h : (writeAll root fs).on t₁ = (r, t₂)) :
    Edit (inside (t.placeOf (root.child directory))) (t.way (root.child directory)) t₁ t₂ := by
  have hedit := edit_writeAll hd ht hfs h
  rw [way_congr hhere] at hedit
  rw [← placeOf_congr hhere]
  exact hedit.mono sheetPlaces_subset subset_rfl

/-- Pruning stays inside the directory. -/
theorem edit_prune_inside {directory : String} (hd : IsEntryName directory) {fs : List Fragment}
    (hfs : Named directory names fs) {t₁ t₂ : FileTree} (ht : t₁.Regular)
    (hhere : t₁.here = t.here) {r : Except EmitError (List Path)}
    (h : (prune root directory fs).on t₁ = (r, t₂)) :
    Edit (inside (t.placeOf (root.child directory))) ∅ t₁ t₂ := by
  rw [← placeOf_congr hhere]
  exact (of_prune hd hfs ht h).1.mono stalePlaces_subset subset_rfl

/-- What is in one directory is not inside of another one. -/
theorem not_mem_inside {a b : String} (ha : IsEntryName a) (hb : IsEntryName b) (h : a ≠ b)
    (name : String) :
    t.placeOf (root.child a) ++ [name] ∉ inside (t.placeOf (root.child b)) := by
  rw [placeOf_child ha, placeOf_child hb]
  exact fun hmem => not_mem_below h (inside_subset_below _ hmem)

end

section
variable {root : Path} {directory : String} (hd : IsEntryName directory) {names : List String}
  {fs : List Fragment} (hfs : Named directory names fs) {t t₁ t₂ t' : FileTree} (ht : t.Regular)
  {scope made : Set Place} {outcomes : List WriteOutcome} {gone : List Path}
  (hwrite : (writeAll root fs).on t = (.ok outcomes, t₁)) (hbetween : Edit scope made t₁ t₂)
  (hscope : ∀ name, t.placeOf (root.child directory) ++ [name] ∉ scope)
  (hprune : (prune root directory fs).on t₂ = (.ok gone, t'))
include hd hfs ht hwrite hbetween hscope hprune

omit hscope in
/-- After writing and then pruning nothing stale is left: what is stale now was stale before
pruning, so it has been removed. -/
theorem not_stale_of_write_prune (hne : fs ≠ []) (name : String) :
    ¬Stale t' (root.child directory) names name := by
  intro hstale
  have hwritten := edit_writeAll hd ht hfs hwrite
  obtain ⟨hpruned, hok⟩ := of_prune hd hfs hbetween.regular hprune
  have hgone := (hok gone rfl).1 (hbetween.enters (enters_of_writeAll hd hne ht hfs hwrite))
  obtain ⟨contents, x, hfind, hgenerated⟩ := hstale.generated
  rw [placeOf_congr hpruned.here] at hfind
  by_cases hbefore : Stale t₂ (root.child directory) names name
  · rw [hgone name hbefore] at hfind
    cases hfind
  · refine hbefore ⟨hstale.sheet, hstale.other, contents, x, ?_, hgenerated⟩
    exact hpruned.find?_of_eq_file (mt mem_stalePlaces.mp hbefore) hfind

/-- Written and then pruned, a directory is settled, whatever is done elsewhere in between. -/
theorem settledIn_of_write_prune (hnodup : names.Nodup) (hne : fs ≠ []) :
    SettledIn root directory names fs t t' := by
  have hwritten := edit_writeAll hd ht hfs hwrite
  obtain ⟨hpruned, hok⟩ := of_prune hd hfs hbetween.regular hprune
  have hhere : t₂.here = t.here := hbetween.here.trans hwritten.here
  have hgone := (hok gone rfl).1 (hbetween.enters (enters_of_writeAll hd hne ht hfs hwrite))
  constructor
  case written =>
    intro f hf
    have hheld := held_of_writeAll hd ht hfs hnodup hwrite f hf
    obtain ⟨n, hn, hplain, hpath⟩ := hfs.exists_name hf
    rw [hpath, placeOf_pathOf hd hplain] at hheld ⊢
    refine hpruned.held_of_eq_some ?_ (hbetween.held_of_eq_some (hscope _) hheld)
    rw [← placeOf_congr hhere, mem_stalePlaces]
    exact not_stale_fileName hn
  case clean => exact not_stale_of_write_prune hd hfs ht hwrite hbetween hprune hne
  case kept =>
    intro name contents x hsheet hother hplain
    -- a file without the banner is not stale, before pruning or after
    have hbefore : t₂.find? (t.placeOf (root.child directory) ++ [name]) =
          some (.file contents x) ↔
        t.find? (t.placeOf (root.child directory) ++ [name]) = some (.file contents x) :=
      (hbetween.find?_eq_file_iff (hscope name)).trans
        (hwritten.find?_eq_file_iff (not_mem_sheetPlaces hsheet hother))
    rw [← hbefore, ← placeOf_congr hhere]
    constructor
    · intro hfind
      refine hpruned.find?_of_eq_file (fun hmem => ?_) hfind
      rw [hgone name (mem_stalePlaces.mp hmem)] at hfind
      cases hfind
    · intro hfind
      refine hpruned.find?_of_eq_some (fun hmem => ?_) hfind
      obtain ⟨stale, y, hgenerated, hbanner⟩ := (mem_stalePlaces.mp hmem).generated
      rw [hfind, Option.some.injEq, Entry.file.injEq] at hgenerated
      rw [← hgenerated.1, hplain] at hbanner
      cases hbanner

/-- What was pruned was a file before, and is gone. -/
theorem of_mem_pruned {q : Path} (hq : q ∈ gone) :
    ∃ name contents executable, IsEntryName name ∧ q = (root.child directory).child name ∧
      t.find? (t.placeOf (root.child directory) ++ [name]) = some (.file contents executable) ∧
      t'.find? (t.placeOf (root.child directory) ++ [name]) = none := by
  have hwritten := edit_writeAll hd ht hfs hwrite
  obtain ⟨-, hok⟩ := of_prune hd hfs hbetween.regular hprune
  have hhere : t₂.here = t.here := hbetween.here.trans hwritten.here
  obtain ⟨name, hstale, rfl, hnone⟩ := (hok gone rfl).2 q hq
  obtain ⟨contents, executable, hfind, -⟩ := hstale.generated
  have hn := hbetween.regular.isEntryName_of_isSome hfind
  rw [placeOf_child hn, placeOf_congr hhere] at hnone
  rw [placeOf_congr hhere] at hfind
  refine ⟨name, contents, executable, hn, rfl, ?_, hnone⟩
  exact hwritten.find?_of_eq_file (not_mem_sheetPlaces hstale.sheet hstale.other)
    (hbetween.find?_of_eq_file (hscope name) hfind)

end

/-- What a run does about one directory: it writes the fragments and it prunes.  Before, in between
and after that it works in the other directory. -/
inductive Round (root : Path) (directory other : String) (fs : List Fragment) (t t' : FileTree)
    (gone : List Path) : Prop where
  | intro {t₁ t₂ t₃ t₄ : FileTree} {outcomes : List WriteOutcome}
      (earlier : Edit (inside (t.placeOf (root.child other))) (t.way (root.child other)) t t₁)
      (write : (writeAll root fs).on t₁ = (.ok outcomes, t₂))
      (between : Edit (inside (t.placeOf (root.child other))) (t.way (root.child other)) t₂ t₃)
      (prune : (prune root directory fs).on t₃ = (.ok gone, t₄))
      (later : Edit (inside (t.placeOf (root.child other))) ∅ t₄ t')

namespace Round

variable {root : Path} {directory other : String} {names : List String} {fs : List Fragment}
  {t t' : FileTree} {gone : List Path} (h : Round root directory other fs t t' gone)
  (hd : IsEntryName directory) (ho : IsEntryName other) (hne : directory ≠ other)
  (hfs : Named directory names fs)
include h hd ho hne hfs

theorem settledIn (hnodup : names.Nodup) (hfull : fs ≠ []) :
    SettledIn root directory names fs t t' := by
  have hapart (name : String) :
      t.placeOf (root.child directory) ++ [name] ∉ inside (t.placeOf (root.child other)) :=
    not_mem_inside hd ho hne name
  obtain ⟨hearlier, hwrite, hbetween, hprune, hlater⟩ := h
  have hhere := (edit_writeAll hd hearlier.regular hfs hwrite).here
  have hpruned := (of_prune hd hfs hbetween.regular hprune).1
  have hsettled := settledIn_of_write_prune hd hfs hearlier.regular hwrite hbetween
    (fun name => by rw [placeOf_congr hearlier.here]; exact hapart name) hprune hnodup hfull
  refine (hsettled.later hd hfs ((hpruned.here.trans hbetween.here).trans hhere) hlater.toFrame
    fun name => ?_).earlier hearlier.toFrame hapart
  rw [placeOf_congr hearlier.here]
  exact hapart name

/-- What was pruned was a file before, and is gone. -/
theorem of_mem_gone {q : Path} (hq : q ∈ gone) :
    ∃ name contents executable, IsEntryName name ∧ q = (root.child directory).child name ∧
      t.find? (t.placeOf (root.child directory) ++ [name]) = some (.file contents executable) ∧
      t'.find? (t.placeOf (root.child directory) ++ [name]) = none := by
  have hapart (name : String) :
      t.placeOf (root.child directory) ++ [name] ∉ inside (t.placeOf (root.child other)) :=
    not_mem_inside hd ho hne name
  obtain ⟨hearlier, hwrite, hbetween, hprune, hlater⟩ := h
  obtain ⟨name, contents, executable, hn, hpath, hfile, hnone⟩ :=
    of_mem_pruned hd hfs hearlier.regular hwrite hbetween
      (fun name => by rw [placeOf_congr hearlier.here]; exact hapart name) hprune hq
  rw [placeOf_congr hearlier.here] at hfile hnone
  exact ⟨name, contents, executable, hn, hpath, hearlier.find?_of_eq_file (hapart name) hfile,
    (hlater.same (hapart name)).trans hnone⟩

end Round

/-! ### Both directories -/

namespace Pipeline

variable {root : Path} {s : Sources} {settings utilities : List String} {t t' : FileTree}

/-- The directories that fragments are written to. -/
def directories : List String := [SettingsSheets.directory, UtilitySheets.directory]

theorem isEntryName_of_mem_directories {d : String} (h : d ∈ directories) : IsEntryName d := by
  have hall : ∀ d ∈ directories, IsEntryName d := by decide
  exact hall d h

/-- What is inside one of the two directories. -/
def sheets (t : FileTree) (root : Path) : Set Place :=
  {q | ∃ d ∈ directories, q ∈ inside (t.placeOf (root.child d))}

/-- The ways to the two directories. -/
def ways (t : FileTree) (root : Path) : Set Place :=
  {q | ∃ d ∈ directories, q ∈ t.way (root.child d)}

/-- Writing and pruning touch the two directories only. -/
theorem edits_emit (hs : s.Named settings utilities) (root : Path) (t : FileTree) :
    (emit root s).Edits t.here (sheets t root) (ways t root) := by
  have hwrite {d : String} (hmem : d ∈ directories) (hd : IsEntryName d) {names : List String}
      {fs : List Fragment} (hfs : Named d names fs) :
      (writeAll root fs).Edits t.here (sheets t root) (ways t root) := by
    intro t₁ t₂ r ht hhere h
    exact (edit_writeAll_inside hd hfs ht hhere h).mono (fun q hq => ⟨d, hmem, hq⟩)
      (fun q hq => ⟨d, hmem, hq⟩)
  have hprune {d : String} (hmem : d ∈ directories) (hd : IsEntryName d) {names : List String}
      {fs : List Fragment} (hfs : Named d names fs) :
      (prune root d fs).Edits t.here (sheets t root) (ways t root) := by
    intro t₁ t₂ r ht hhere h
    exact (edit_prune_inside hd hfs ht hhere h).mono (fun q hq => ⟨d, hmem, hq⟩)
      (Set.empty_subset _)
  have hset : SettingsSheets.directory ∈ directories := List.mem_cons_self
  have hutil : UtilitySheets.directory ∈ directories := List.mem_cons_of_mem _ List.mem_cons_self
  refine (hwrite hset isEntryName_settings hs.settings).bind fun _ => ?_
  refine (hwrite hutil isEntryName_utilities hs.utilities).bind fun _ => ?_
  refine (hprune hset isEntryName_settings hs.settings).bind fun _ => ?_
  refine (hprune hutil isEntryName_utilities hs.utilities).bind fun _ => ?_
  exact Task.edits_pure _

/-- The four steps of a run that succeeds. -/
theorem emit_eq_ok {pruned : List Path} (h : (emit root s).on t = (.ok pruned, t')) :
    ∃ t₁ t₂ t₃ written₁ written₂ gone₁ gone₂,
      (writeAll root s.settings.fragments).on t = (.ok written₁, t₁) ∧
      (writeAll root s.utilities.fragments).on t₁ = (.ok written₂, t₂) ∧
      (prune root SettingsSheets.directory s.settings.fragments).on t₂ = (.ok gone₁, t₃) ∧
      (prune root UtilitySheets.directory s.utilities.fragments).on t₃ = (.ok gone₂, t') ∧
      pruned = gone₁ ++ gone₂ := by
  obtain ⟨written₁, t₁, hwrite₁, h⟩ := Task.on_bind_eq_ok.mp h
  obtain ⟨written₂, t₂, hwrite₂, h⟩ := Task.on_bind_eq_ok.mp h
  obtain ⟨gone₁, t₃, hprune₁, h⟩ := Task.on_bind_eq_ok.mp h
  obtain ⟨gone₂, t₄, hprune₂, h⟩ := Task.on_bind_eq_ok.mp h
  obtain ⟨hok, rfl⟩ := Prod.mk.inj h
  exact ⟨t₁, t₂, t₃, written₁, written₂, gone₁, gone₂, hwrite₁, hwrite₂, hprune₁, hprune₂,
    (Except.ok.inj hok).symm⟩

/-- A run that succeeds is a round in each of the directories. -/
theorem rounds_of_emit (hs : s.Named settings utilities) (ht : t.Regular) {pruned : List Path}
    (h : (emit root s).on t = (.ok pruned, t')) :
    ∃ gone₁ gone₂, pruned = gone₁ ++ gone₂ ∧
      Round root SettingsSheets.directory UtilitySheets.directory s.settings.fragments t t' gone₁ ∧
      Round root UtilitySheets.directory SettingsSheets.directory s.utilities.fragments t t'
        gone₂ := by
  obtain ⟨t₁, t₂, t₃, written₁, written₂, gone₁, gone₂, hwrite₁, hwrite₂, hprune₁, hprune₂,
    rfl⟩ := emit_eq_ok h
  have hd₁ := isEntryName_settings
  have hd₂ := isEntryName_utilities
  have hedit₁ := edit_writeAll_inside hd₁ hs.settings ht rfl hwrite₁
  have hedit₂ := edit_writeAll_inside hd₂ hs.utilities hedit₁.regular hedit₁.here hwrite₂
  have hhere₂ := hedit₂.here.trans hedit₁.here
  have hedit₃ := edit_prune_inside hd₁ hs.settings hedit₂.regular hhere₂ hprune₁
  have hhere₃ := hedit₃.here.trans hhere₂
  have hedit₄ := edit_prune_inside hd₂ hs.utilities hedit₃.regular hhere₃ hprune₂
  exact ⟨gone₁, gone₂, rfl, .intro (Edit.refl ht) hwrite₁ hedit₂ hprune₁ hedit₄,
    .intro hedit₁ hwrite₂ (hedit₃.mono subset_rfl (Set.empty_subset _)) hprune₂
      (Edit.refl hedit₄.regular)⟩

/-- Once both directories were written and pruned, both are settled, and what was pruned is
gone. -/
theorem settled_of_emit (hs : s.Named settings utilities) (hsettings : settings.Nodup)
    (hutilities : utilities.Nodup) (hne : s.settings.fragments ≠ [] ∧ s.utilities.fragments ≠ [])
    (ht : t.Regular) {pruned : List Path} (h : (emit root s).on t = (.ok pruned, t')) :
    SettledIn root SettingsSheets.directory settings s.settings.fragments t t' ∧
      SettledIn root UtilitySheets.directory utilities s.utilities.fragments t t' ∧
      ∀ q ∈ pruned, ∃ d ∈ directories, ∃ name contents executable, IsEntryName name ∧
        q = (root.child d).child name ∧
        t.find? (t.placeOf (root.child d) ++ [name]) = some (.file contents executable) ∧
        t'.find? (t.placeOf (root.child d) ++ [name]) = none := by
  obtain ⟨gone₁, gone₂, rfl, hround₁, hround₂⟩ := rounds_of_emit hs ht h
  have hd₁ := isEntryName_settings
  have hd₂ := isEntryName_utilities
  have hapart : SettingsSheets.directory ≠ UtilitySheets.directory := by decide
  refine ⟨hround₁.settledIn hd₁ hd₂ hapart hs.settings hsettings hne.1,
    hround₂.settledIn hd₂ hd₁ hapart.symm hs.utilities hutilities hne.2, fun q hq => ?_⟩
  rcases List.mem_append.mp hq with hq | hq
  · exact ⟨_, List.mem_cons_self, hround₁.of_mem_gone hd₁ hd₂ hapart hs.settings hq⟩
  · exact ⟨_, List.mem_cons_of_mem _ List.mem_cons_self,
      hround₂.of_mem_gone hd₂ hd₁ hapart.symm hs.utilities hq⟩

end Pipeline

end TokenSheets
