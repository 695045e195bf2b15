/-
TokenSheets/Proofs/Fragment/Stop.lean

Writing that stops at a fragment.

The list of fragments falls into those that were written, the one that could not be,
and those whose turn did not come.  The failing one touches its temporary sibling
only, and that is gone or as it was, so no file is new but those of the fragments
before it, and these keep their contents.

What the paths of the others hold is as before too, with one exception.  On the way to
a fragment the missing directories are created, and these stay.  Below a root that can
be entered, or that leads down only, no path comes to lead elsewhere by that
(`Straight`); but a root that leads by double dots through a missing directory can be
entered from then on, and a path that led nowhere leads to what was at its place all
along (`exists_file_appears`).
-/
import TokenSheets.Proofs.Fragment.Write

namespace TokenSheets

open FileTree

namespace Fragment

/-! ### One fragment that cannot be written -/

section
variable {root p : Path} {f : Fragment} {name : String} {t t' : FileTree} (ht : t.Regular)
  (hn : IsEntryName name) (hf : root.join f.path = p.child name)
include ht hn hf

/-- The error names the path.  Directories may have been created, and the sibling may be gone. -/
theorem of_write_error {e : EmitError} (h : (f.write root).on t = (.error e, t')) :
    (∃ source, e = .write (p.child name) source) ∧
      Edit {t.placeOf p ++ [temporary name]} (t.way p) t t' ∧
      ∀ q contents executable, t'.find? q = some (.file contents executable) →
        t.find? q = some (.file contents executable) := by
  rcases write_cases hn hf t with ⟨-, heq⟩ | ⟨q, halike, hcases⟩
  · rw [heq] at h
    cases h
  have hdir := edit_createDirectories ht q
  rw [way_alike halike] at hdir
  have hold (x : Place) (contents : ByteArray) (executable : Bool)
      (hfind : (t.createDirectories q).2.find? x = some (.file contents executable)) :
      t.find? x = some (.file contents executable) :=
    hdir.find?_of_eq_file (Set.notMem_empty x) hfind
  rcases hcases with ⟨source, heq⟩ | ⟨-, r, heq, -, herror⟩
  · rw [heq] at h
    obtain ⟨he, rfl⟩ := Prod.mk.inj h
    exact ⟨⟨source, (Except.error.inj he).symm⟩,
      hdir.mono (Set.empty_subset _) subset_rfl, hold⟩
  · rw [heq] at h
    obtain ⟨rfl, rfl⟩ := Prod.mk.inj h
    obtain ⟨source, rfl, hreplace⟩ := herror e rfl
    have hedit := edit_replaceFile_of_error hdir.regular hn p hreplace
    have hsibling := sibling_of_replaceFile_error hdir.regular hn p hreplace
    rw [placeOf_congr hdir.here] at hedit hsibling
    refine ⟨⟨source, rfl⟩, (hdir.mono (Set.empty_subset _) subset_rfl).trans
      (hedit.mono subset_rfl (Set.empty_subset _)), fun x contents executable hfind => ?_⟩
    rcases hsibling with hsame | ⟨-, -, hgone⟩
    · rw [hsame] at hfind
      exact hold x contents executable hfind
    · have hx : x ∉ ({t.placeOf p ++ [temporary name]} : Set Place) := by
        rintro rfl
        rw [hgone] at hfind
        cases hfind
      exact hold x contents executable (hedit.find?_of_eq_file hx hfind)

/-- A success makes no file but the one of the fragment. -/
theorem find?_file_of_write_ok {outcome : WriteOutcome}
    (h : (f.write root).on t = (.ok outcome, t')) {q : Place} {contents : ByteArray}
    {executable : Bool} (hfind : t'.find? q = some (.file contents executable)) :
    t.find? q = some (.file contents executable) ∨ q = t.placeOf p ++ [name] := by
  by_cases hq : q = t.placeOf p ++ [name]
  · exact .inr hq
  left
  rcases sibling_of_write ht hn hf h with rfl | hgone
  · exact hfind
  · refine (edit_write ht hn hf h).find?_of_eq_file ?_ hfind
    rintro (heq | rfl)
    · exact hq heq
    · rw [held_eq_none_iff.mp hgone] at hfind
      cases hfind

end

/-! ### Where the list stops -/

/-- The list falls into the fragments that were written, the one that failed, and the rest. -/
theorem exists_stop {root : Path} {fs : List Fragment} {t t' : FileTree} {e : EmitError}
    (h : (writeAll root fs).on t = (.error e, t')) :
    ∃ done f rest outcomes t₁, fs = done ++ f :: rest ∧
      (writeAll root done).on t = (.ok outcomes, t₁) ∧ (f.write root).on t₁ = (.error e, t') := by
  induction fs generalizing t with
  | nil =>
    rw [writeAll] at h
    cases h
  | cons f fs ih =>
    rw [writeAll] at h
    rcases Task.on_bind_cases h with ⟨e', hwrite, he⟩ | ⟨outcome, t₁, hwrite, h⟩
    · obtain rfl := Except.error.inj he
      exact ⟨[], f, fs, [], t, rfl, rfl, hwrite⟩
    rcases Task.on_bind_cases h with ⟨e', hrest, he⟩ | ⟨outcomes, t₂, -, h⟩
    · obtain rfl := Except.error.inj he
      obtain ⟨done, g, rest, outcomes, t₃, rfl, hdone, hg⟩ := ih hrest
      exact ⟨f :: done, g, rest, _, t₃, rfl,
        writeAll_cons_eq_ok.mpr ⟨outcome, outcomes, t₁, hwrite, hdone, rfl⟩, hg⟩
    · cases h

/-- Writing a list makes no files but those of its fragments. -/
theorem find?_file_of_writeAll {root : Path} {fs : List Fragment} {t t' : FileTree}
    {outcomes : List WriteOutcome} (hfs : ∀ f ∈ fs, ∃ directory name, f.Sits directory name)
    (ht : t.Regular) (h : (writeAll root fs).on t = (.ok outcomes, t')) {q : Place}
    {contents : ByteArray} {executable : Bool}
    (hfind : t'.find? q = some (.file contents executable)) :
    t.find? q = some (.file contents executable) ∨
      ∃ f ∈ fs, q = t.placeOf (root.join f.path) := by
  induction fs generalizing t outcomes with
  | nil =>
    rw [writeAll] at h
    obtain ⟨-, rfl⟩ := Prod.mk.inj h
    exact .inl hfind
  | cons f fs ih =>
    obtain ⟨⟨directory, name, hf⟩, hfs⟩ := List.forall_mem_cons.mp hfs
    obtain ⟨outcome, rest, t₁, hwrite, hwrites, -⟩ := writeAll_cons_eq_ok.mp h
    obtain ⟨-, -, ht₁, hhere⟩ := hf.fileBytes_of_write ht hwrite
    rcases ih hfs ht₁ hwrites with hfind₁ | ⟨g, hg, hq⟩
    · rcases find?_file_of_write_ok ht hf.isName (hf.join root) hwrite hfind₁ with hold | hq
      · exact .inl hold
      · exact .inr ⟨f, List.mem_cons_self, by rw [hq, hf.placeOf]⟩
    · exact .inr ⟨g, List.mem_cons_of_mem _ hg, by rw [hq, placeOf_congr hhere]⟩

/-! ### Roots below which paths stay what they are -/

/-- A root that can be entered, or that leads down only. -/
def Straight (t : FileTree) (root : Path) : Prop := t.Enters root ∨ ".." ∉ root.moves

section
variable {root : Path} {f : Fragment} {directory name : String} {t t' : FileTree}

/-- Below such a root a path holds what is at its place. -/
theorem Sits.stat_of_straight (hf : f.Sits directory name) (ht : t.Regular)
    (hroot : Straight t root) :
    (t.stat (root.join f.path)).toOption = t.find? (t.placeOf (root.join f.path)) := by
  have hstat {e : Entry} : t.stat (root.join f.path) = .ok e ↔
      t.Enters root ∧ t.find? (t.placeOf (root.join f.path)) = some e := by
    rw [hf.placeOf, hf.join, stat_child_eq_ok ht hf.isName, enters_child_iff ht hf.isDirectory]
    constructor
    · rintro ⟨⟨henters, -⟩, hfind⟩
      exact ⟨henters, hfind⟩
    · rintro ⟨henters, hfind⟩
      refine ⟨⟨henters, ?_⟩, hfind⟩
      rw [← placeOf_child hf.isDirectory]
      exact ht.directory_of_isSome hfind
  refine Option.ext fun e => ?_
  rw [Outcome.toOption_eq_some_iff, hstat]
  refine ⟨And.right, fun hfind => ⟨?_, hfind⟩⟩
  -- what is there has directories above it
  rcases hroot with henters | hdots
  · exact henters
  · rw [hf.placeOf] at hfind
    have hdirectory := ht.directory_of_isSome hfind
    rw [placeOf_child hf.isDirectory] at hdirectory
    exact enters_of_directory ht hdots (ht.directory_of_isSome hdirectory)

/-- Below such a root no directory is created where a fragment goes. -/
theorem find?_ne_none_of_straight (hroot : Straight t root) {fs : List Fragment}
    (hd : IsEntryName directory)
    (hmade : t.placeOf (root.child directory) ++ [name] ∈ madePlaces t root fs) :
    t.find? (t.placeOf (root.child directory) ++ [name]) ≠ none := by
  rcases hroot with henters | hdots
  · exact find?_ne_none_of_mem_madePlaces henters hd hmade
  · obtain ⟨g, -, directory', name', hg, hway⟩ := hmade
    have hmoves : ".." ∉ (root.child directory').moves := by
      rw [root.moves_child hg.isDirectory, List.mem_append, List.mem_singleton]
      exact not_or.mpr ⟨hdots, hg.isDirectory.2.2.1.symm⟩
    -- the place would be above the directory of another fragment
    have habove := (Place.isPrefix_of_mem_trail hmoves hway).length_le
    change _ ≤ (t.placeOf (root.child directory')).length at habove
    rw [placeOf_child hg.isDirectory, placeOf_child hd] at habove
    simp at habove

end

/-! ### Those that were written, and the one that was not -/

section
variable {root : Path} {done : List Fragment} {f : Fragment} {directory name : String}
  {t t₁ t' : FileTree} {outcomes : List WriteOutcome} {e : EmitError} (ht : t.Regular)
  (hdone : ∀ g ∈ done, ∃ directory name, g.Sits directory name) (hf : f.Sits directory name)

/-- Neither a fragment that was written nor the sibling of the one that was not has the place of a
fragment with a path of its own. -/
theorem Sits.not_mem_writtenPlaces_union {g : Fragment} {directory' name' : String}
    (hg : g.Sits directory' name') (hf : f.Sits directory name)
    (hother : ∀ k ∈ done, k.path ≠ g.path) (t : FileTree) (root : Path) :
    t.placeOf (root.join g.path) ∉ writtenPlaces t root done ∪
      {t.placeOf (root.child directory) ++ [temporary name]} := by
  rw [hg.placeOf]
  rintro (hwritten | hsibling)
  · exact (hg.not_mem_writtenPlaces hother t root).1 hwritten
  · exact hg.ne_temporary name (hg.place_inj hf hsibling).2

include ht hdone hf

/-- All together touches the places of those that were written, and one sibling. -/
theorem edit_of_stop (hwrites : (writeAll root done).on t = (.ok outcomes, t₁))
    (hwrite : (f.write root).on t₁ = (.error e, t')) :
    Edit (writtenPlaces t root done ∪ {t.placeOf (root.child directory) ++ [temporary name]})
      (madePlaces t root (done ++ [f])) t t' := by
  have hfirst := edit_writeAll_of_sits hdone ht hwrites
  obtain ⟨-, hlast, -⟩ := of_write_error hfirst.regular hf.isName (hf.join root) hwrite
  rw [placeOf_congr hfirst.here, way_congr hfirst.here] at hlast
  refine (hfirst.mono Set.subset_union_left ?_).trans (hlast.mono Set.subset_union_right ?_)
  · exact madePlaces_mono (List.subset_append_left _ _) t root
  · exact fun q hq => ⟨f, by simp, directory, name, hf, hq⟩

/-- The failing write leaves the contents of those that were written. -/
theorem fileBytes_of_stop (hpaths : (done.map (·.path)).Nodup)
    (hwrites : (writeAll root done).on t = (.ok outcomes, t₁))
    (hwrite : (f.write root).on t₁ = (.error e, t')) :
    ∀ g ∈ done, t'.fileBytes (root.join g.path) = .ok g.contents.toUTF8 := by
  intro g hg
  have ht₁ := (edit_writeAll_of_sits hdone ht hwrites).regular
  obtain ⟨-, hlast, -⟩ := of_write_error ht₁ hf.isName (hf.join root) hwrite
  obtain ⟨directory', name', hsits⟩ := hdone g hg
  have hbytes := fileBytes_of_writeAll hdone hpaths ht hwrites g hg
  rw [hsits.fileBytes_eq_ok_iff ht₁] at hbytes
  rw [hsits.fileBytes_eq_ok_iff hlast.regular, placeOf_congr hlast.here]
  refine ⟨hlast.enters hbytes.1, hlast.held_of_eq_some ?_ hbytes.2⟩
  rw [hsits.placeOf]
  exact fun hsibling => hsits.ne_temporary name (hsits.place_inj hf hsibling).2

/-- Every file is an old one or that of a fragment that was written. -/
theorem find?_file_of_stop (hwrites : (writeAll root done).on t = (.ok outcomes, t₁))
    (hwrite : (f.write root).on t₁ = (.error e, t')) {q : Place} {contents : ByteArray}
    {executable : Bool} (hfind : t'.find? q = some (.file contents executable)) :
    t.find? q = some (.file contents executable) ∨
      ∃ g ∈ done, q = t.placeOf (root.join g.path) := by
  have ht₁ := (edit_writeAll_of_sits hdone ht hwrites).regular
  obtain ⟨-, -, hold⟩ := of_write_error ht₁ hf.isName (hf.join root) hwrite
  exact find?_file_of_writeAll hdone ht hwrites (hold q contents executable hfind)

end

/-! ### What is left -/

/-- What writing a list of fragments leaves that stops at one of them. -/
structure StopsAt (root : Path) (done : List Fragment) (f : Fragment) (rest : List Fragment)
    (t : FileTree) (e : EmitError) (t' : FileTree) : Prop where
  /-- The error names the path of the fragment. -/
  names : ∃ source, e = .write (root.join f.path) source
  /-- It is the first one that cannot be written. -/
  first : ∃ outcomes t₁, (writeAll root done).on t = (.ok outcomes, t₁) ∧
    (f.write root).on t₁ = (.error e, t')
  /-- The fragments before it are on disk. -/
  written : ∀ g ∈ done, t'.fileBytes (root.join g.path) = .ok g.contents.toUTF8
  /-- Its path and the later ones hold what they held. -/
  kept : Straight t root → ∀ g ∈ f :: rest,
    (t'.stat (root.join g.path)).toOption = (t.stat (root.join g.path)).toOption
  /-- Below any root nothing happens at their places, but that there may be a new directory. -/
  places : ∀ g ∈ f :: rest,
    t'.find? (t.placeOf (root.join g.path)) = t.find? (t.placeOf (root.join g.path)) ∨
      (t.find? (t.placeOf (root.join g.path)) = none ∧
        t'.find? (t.placeOf (root.join g.path)) = some .directory)
  /-- No file is new or has other contents but those of the fragments before it. -/
  files : ∀ q contents executable, t'.find? q = some (.file contents executable) →
    t.find? q = some (.file contents executable) ∨ ∃ g ∈ done, q = t.placeOf (root.join g.path)
  /-- Elsewhere nothing changes but that directories are created on the way. -/
  others : Frame (writtenPlaces t root (done ++ [f])) (madePlaces t root (done ++ [f])) t t'

/-- **Writing that fails.**  In a regular tree, if fragments with different paths, each a file in a
directory, are written and this fails, then the error names the path of one of them, those before
it are on disk, its path and the later ones are left as they were, and no other file is new. -/
theorem exists_stopsAt_of_error {root : Path} {fs : List Fragment} {t t' : FileTree}
    {e : EmitError} (ht : t.Regular)
    (hfs : ∀ f ∈ fs, ∃ directory name, f.Sits directory name)
    (hpaths : (fs.map (·.path)).Nodup)
    (h : (writeAll root fs).on t = (.error e, t')) :
    ∃ done f rest, fs = done ++ f :: rest ∧ StopsAt root done f rest t e t' := by
  obtain ⟨done, f, rest, outcomes, t₁, rfl, hwrites, hwrite⟩ := exists_stop h
  refine ⟨done, f, rest, rfl, ?_⟩
  obtain ⟨hdone, hrest⟩ := List.forall_mem_append.mp hfs
  obtain ⟨directory, name, hf⟩ := hrest f List.mem_cons_self
  rw [List.map_append, List.nodup_append] at hpaths
  obtain ⟨hdonePaths, -, hapart⟩ := hpaths
  have hedit := edit_of_stop ht hdone hf hwrites hwrite
  -- the fragments from the failing one on have other places than those that are touched
  have houtside {g : Fragment} (hg : g ∈ f :: rest) {directory' name' : String}
      (hsits : g.Sits directory' name') := hsits.not_mem_writtenPlaces_union hf
    (fun k hk => hapart _ (List.mem_map_of_mem hk) _ (List.mem_map_of_mem hg)) t root
  constructor
  case names =>
    have ht₁ := (edit_writeAll_of_sits hdone ht hwrites).regular
    rw [hf.join]
    exact (of_write_error ht₁ hf.isName (hf.join root) hwrite).1
  case first => exact ⟨outcomes, t₁, hwrites, hwrite⟩
  case written => exact fileBytes_of_stop ht hdone hf hdonePaths hwrites hwrite
  case kept =>
    intro hroot g hg
    obtain ⟨directory', name', hsits⟩ := hrest g hg
    have hroot' : Straight t' root := hroot.imp_left hedit.enters
    rw [hsits.stat_of_straight hedit.regular hroot', hsits.stat_of_straight ht hroot,
      placeOf_congr hedit.here]
    refine hedit.find?_eq (houtside hg hsits) ?_
    rw [hsits.placeOf]
    exact find?_ne_none_of_straight hroot hsits.isDirectory
  case places =>
    intro g hg
    obtain ⟨directory', name', hsits⟩ := hrest g hg
    exact (hedit.outside _ (houtside hg hsits)).imp_right fun hmade => ⟨hmade.1, hmade.2.1⟩
  case files =>
    exact fun q contents executable => find?_file_of_stop ht hdone hf hwrites hwrite
  case others =>
    refine hedit.toFrame.mono (Set.union_subset ?_ ?_) subset_rfl
    · exact writtenPlaces_mono (List.subset_append_left _ _) t root
    · exact Set.singleton_subset_iff.mpr ⟨f, by simp, directory, name, hf, .inr rfl⟩

/-- A directory with two files under the names of fragments, and a directory between them. -/
def crate : FileTree where
  entries :=
    [(["d"], .directory), (["d", "_a"], .file "x".toUTF8 false), (["d", "_b"], .directory),
     (["d", "_c"], .file "y".toUTF8 false)]
  here := []

theorem regular_crate : crate.Regular := by
  refine .of_entries (by decide) (by decide) ?_
  simp [crate]

/-- One fragment for each name. -/
def bundle : List Fragment := [⟨⟨"d/_a"⟩, "w"⟩, ⟨⟨"d/_b"⟩, "z"⟩, ⟨⟨"d/_c"⟩, "v"⟩]

theorem sits_of_mem_bundle : ∀ f ∈ bundle, ∃ directory name, f.Sits directory name := by
  simp only [bundle, List.forall_mem_cons]
  exact ⟨⟨"d", "_a", by decide, by decide, by decide, rfl⟩,
    ⟨"d", "_b", by decide, by decide, by decide, rfl⟩,
    ⟨"d", "_c", by decide, by decide, by decide, rfl⟩, by simp⟩

/-- The second fragment fails at the directory. -/
theorem exists_stopsAt_of_error_crate :
    crate.Regular ∧ (∀ f ∈ bundle, ∃ directory name, f.Sits directory name) ∧
    (bundle.map (·.path)).Nodup ∧ Straight crate ⟨"/"⟩ ∧
    ∃ t', (writeAll ⟨"/"⟩ bundle).on crate =
        (.error (.write ⟨"/d/_b"⟩ (.os .isDirectory)), t') ∧
      ∃ done f rest, bundle = done ++ f :: rest ∧
        StopsAt ⟨"/"⟩ done f rest crate (.write ⟨"/d/_b"⟩ (.os .isDirectory)) t' := by
  have herror : ((writeAll ⟨"/"⟩ bundle).on crate).1 =
      .error (.write ⟨"/d/_b"⟩ (.os .isDirectory)) := by
    decide +kernel
  have hpaths : (bundle.map (·.path)).Nodup := by decide
  rcases hrun : (writeAll ⟨"/"⟩ bundle).on crate with ⟨r, t'⟩
  rw [hrun] at herror
  obtain rfl : r = .error (.write ⟨"/d/_b"⟩ (.os .isDirectory)) := herror
  exact ⟨regular_crate, sits_of_mem_bundle, hpaths, .inr (by decide), t', rfl,
    exists_stopsAt_of_error regular_crate sits_of_mem_bundle hpaths hrun⟩

/-- Below a root that leads through a missing directory and back, the path of the last fragment
holds nothing before.  The first fragment creates that directory, the second one fails, and the
path of the last one, whose turn did not come, then holds the file that was at its place. -/
theorem exists_file_appears :
    crate.Regular ∧ (∀ f ∈ bundle, ∃ directory name, f.Sits directory name) ∧
    (bundle.map (·.path)).Nodup ∧
    ((writeAll ⟨"/zz/.."⟩ bundle).on crate).1 =
      .error (.write ⟨"/zz/../d/_b"⟩ (.os .isDirectory)) ∧
    (crate.fileBytes (Path.join ⟨"/zz/.."⟩ ⟨"d/_c"⟩)).toOption = none ∧
    (((writeAll ⟨"/zz/.."⟩ bundle).on crate).2.fileBytes
      (Path.join ⟨"/zz/.."⟩ ⟨"d/_c"⟩)).toOption = some "y".toUTF8 := by
  refine ⟨regular_crate, sits_of_mem_bundle, by decide, ?_, ?_, ?_⟩
  · decide +kernel
  · decide +kernel
  · decide +kernel

end Fragment

end TokenSheets
