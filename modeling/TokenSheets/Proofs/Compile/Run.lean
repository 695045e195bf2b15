/-
TokenSheets/Proofs/Compile/Run.lean

Compiling into a staging directory.

The compiler is any task that is *confined* to the staging directory: whatever it
does, and however it ends, it changes only what is inside.  Around it a compile
prepares the staging directory, commits what was made there, and discards it.
So it ends in one of three ways (`Ends`): nothing could be prepared, or the compiler
did not make both files, or they were committed.  Each step has a frame, and the
frames compose: what a compile touches are the two files with their temporary
siblings and what is in the staging directory.
-/
import TokenSheets.Proofs.Compile.Commit

namespace TokenSheets

open FileTree Outcome

/-! ### Confined compilers -/

/-- Asked for an output in a directory, the compiler changes nothing but what is inside of it, and
what it leaves is still made of files and directories. -/
structure Compiler.ConfinedTo (compiler : Compiler) (directory : Path) : Prop where
  regular : ∀ {entry name t r t'}, IsEntryName name → t.Regular →
    (compiler entry (directory.child name)).on t = (r, t') → t'.Regular
  frame : ∀ {entry name t r t'}, IsEntryName name → t.Regular →
    (compiler entry (directory.child name)).on t = (r, t') →
      Frame (inside (t.placeOf directory)) ∅ t t'

namespace Compile

/-! ### The staging directory -/

/-- The name of the staging directory beside a directory. -/
def stagingName (d : String) : String := "." ++ d ++ "-staging"

theorem isEntryName_stagingName {d : String} (hd : IsEntryName d) :
    IsEntryName (stagingName d) := by
  refine isEntryName_of_length ?_ ?_
  · simp [stagingName]
  · simpa [stagingName] using hd.2.2.2

theorem stagingName_ne (d : String) : stagingName d ≠ d := by
  intro h
  have hlen := congrArg (fun s => s.toList.length) h
  simp [stagingName] at hlen
  omega

/-- The staging directory is beside the output directory, part by part. -/
theorem exists_parts_stagingDirectory {dir : Path} {d name : String} (hd : dir.fileName? = some d)
    (hn : IsEntryName name) :
    ∃ q : Path, stagingDirectory (dir.child name) = q.child (stagingName d) ∧
      dir.parts = q.parts ++ [.name d] := by
  obtain ⟨out, hout, hcss⟩ := Path.exists_parts_parent? (Path.fileName?_child dir hn)
  rw [Path.parts_child dir hn] at hcss
  have hsame : dir.parts = out.parts := List.append_inj_left' hcss rfl
  have hname : out.fileName? = some d := by
    rw [Path.fileName?_eq_some_iff_parts, ← hsame, ← Path.fileName?_eq_some_iff_parts, hd]
  obtain ⟨q, hq, hparts⟩ := Path.exists_parts_parent? hname
  refine ⟨q, ?_, hsame.trans hparts⟩
  rw [stagingDirectory, outputDirectory, hout, Option.getD_some, Path.withFileName, hname, hq]
  rfl

theorem stagingDirectory_child {dir : Path} {d name : String} (hd : dir.fileName? = some d)
    (hn : IsEntryName name) :
    ∃ q : Path, stagingDirectory (dir.child name) = q.child (stagingName d) ∧
      (q.child d).Alike dir := by
  obtain ⟨q, hq, hparts⟩ := exists_parts_stagingDirectory hd hn
  refine ⟨q, hq, Path.alike_of_parts ?_⟩
  rw [q.parts_child (Path.isEntryName_of_fileName? hd), hparts]

/-- A compile stops before it has changed anything, or it creates the staging directory in a tree
without the old one. -/
theorem prepare_cases (t : FileTree) (entry staging : Path) :
    (∃ e, (prepare entry staging).on t = (.error e, t)) ∨
      ∃ t₁, (t₁ = t ∨ t.removeDirectory staging = .ok t₁) ∧
        (prepare entry staging).on t =
          ((t₁.createDirectories staging).1.mapError (ioError staging),
            (t₁.createDirectories staging).2) := by
  rw [prepare]
  simp only [Task.on_look_bind, Task.on_ite, Task.on_throw_bind]
  by_cases hentry : t.isFile entry = true
  · rw [hentry]
    simp only [Bool.not_true, Bool.false_eq_true, if_false]
    by_cases hthere : t.exists? staging = true
    · rw [if_pos hthere, Task.on_bind, Task.on_change]
      cases hremove : t.removeDirectory staging with
      | error e =>
        left
        exact ⟨_, rfl⟩
      | ok t₁ =>
        right
        exact ⟨t₁, Or.inr rfl, Task.on_perform ..⟩
    · right
      rw [if_neg hthere]
      exact ⟨t, Or.inl rfl, Task.on_perform ..⟩
  · left
    rw [Bool.not_eq_true] at hentry
    rw [hentry]
    exact ⟨_, rfl⟩

/-- Preparing touches the staging directory only, and after a success it can be entered. -/
theorem of_prepare {t t' : FileTree} (ht : t.Regular) {s : String} (hs : IsEntryName s)
    {q entry : Path} {r : Except CompileError Unit}
    (h : (prepare entry (q.child s)).on t = (r, t')) :
    t'.Regular ∧ Frame (below (t.placeOf q ++ [s])) (t.way q) t t' ∧
      (r = .ok () → t'.Enters (q.child s)) := by
  rcases prepare_cases t entry (q.child s) with ⟨e, heq⟩ | ⟨t₁, hold, heq⟩
  · rw [heq] at h
    obtain ⟨rfl, rfl⟩ := Prod.mk.inj h
    exact ⟨ht, Frame.refl t, by simp⟩
  -- the old staging directory is gone, if there was one
  have hbefore : t₁.Regular ∧ Frame (below (t.placeOf q ++ [s])) (t.way q) t t₁ := by
    rcases hold with rfl | hremove
    · exact ⟨ht, Frame.refl _⟩
    · obtain ⟨-, rfl⟩ := (removeDirectory_child_eq_ok ht hs).mp hremove
      exact ⟨ht.eraseAll _, (frame_eraseAll t _).mono subset_rfl (Set.empty_subset _)⟩
  obtain ⟨ht₁, hframe⟩ := hbefore
  have hcreated := edit_createDirectories ht₁ (q.child s)
  have hway : t₁.way (q.child s) ⊆ t.way q ∪ below (t.placeOf q ++ [s]) := by
    intro x hx
    rw [mem_way, trailOf_child hs, trailOf_congr hframe.here, placeOf_congr hframe.here] at hx
    rcases List.mem_append.mp hx with hx | hx
    · exact Or.inl hx
    · right
      rw [List.mem_singleton.mp hx]
      exact List.prefix_rfl
  rw [heq] at h
  obtain ⟨rfl, rfl⟩ := Prod.mk.inj h
  refine ⟨hcreated.regular, ?_, fun hok => ?_⟩
  · exact hframe.trans ((hcreated.toFrame.mono (Set.empty_subset _) subset_rfl).absorb hway)
  · exact enters_of_createDirectories ht₁ (by simp [Path.moves_child q hs])
      (mapError_eq_ok.mp hok)

/-! ### Discarding -/

section
variable {t : FileTree} (ht : t.Regular) {s : String} (hs : IsEntryName s) {q : Path}
include ht hs

theorem frame_discard :
    (discard (q.child s) t).Regular ∧
      Frame (below (t.placeOf q ++ [s])) ∅ t (discard (q.child s) t) := by
  rw [discard]
  split
  · rename_i t₁ hremove
    obtain ⟨-, rfl⟩ := (removeDirectory_child_eq_ok ht hs).mp hremove
    exact ⟨ht.eraseAll _, frame_eraseAll t _⟩
  · exact ⟨ht, Frame.refl t⟩

/-- What can be entered is discarded with everything in it. -/
theorem find?_discard (h : t.Enters (q.child s)) {x : Place}
    (hx : x ∈ below (t.placeOf q ++ [s])) : (discard (q.child s) t).find? x = none := by
  rw [discard, (removeDirectory_child_eq_ok ht hs).mpr ⟨h, rfl⟩]
  exact find?_eraseAll_of_mem_below t hx

end

/-! ### Staging -/

theorem on_requireOutput (p : Path) (t : FileTree) :
    (requireOutput p).on t =
      (if t.isFile p = true then .ok () else .error (.missingOutput p), t) := by
  rw [requireOutput]
  cases h : t.isFile p <;> simp [h]

/-- A compile ends with the compiler, or what the compiler made is committed. -/
theorem stage_cases (t : FileTree) (compiler : Compiler) (entry dir staging : Path)
    {name : String} (hn : IsEntryName name) :
    (∃ e, (stage compiler entry (dir.child name) staging).on t =
        (.error e, ((compiler entry (staging.child name)).on t).2)) ∨
      ∃ t₁ cssBytes mapBytes, (compiler entry (staging.child name)).on t = (.ok (), t₁) ∧
        t₁.fileBytes (staging.child name) = .ok cssBytes ∧
        t₁.fileBytes (staging.child (name ++ ".map")) = .ok mapBytes ∧
        (stage compiler entry (dir.child name) staging).on t =
          (commit (dir.child name) cssBytes mapBytes).on t₁ := by
  rw [stage, Path.fileName?_child dir hn]
  simp only [mapPath_child hn]
  rcases hrun : (compiler entry (staging.child name)).on t with ⟨e | ⟨⟩, t₁⟩
  · left
    exact ⟨e, Task.on_bind_of_error hrun _⟩
  rw [Task.on_bind_of_ok hrun]
  by_cases hcss : t₁.isFile (staging.child name) = true
  · rw [Task.on_bind_of_ok (by rw [on_requireOutput, if_pos hcss])]
    by_cases hmap : t₁.isFile (staging.child (name ++ ".map")) = true
    · rw [Task.on_bind_of_ok (by rw [on_requireOutput, if_pos hmap])]
      cases hcssBytes : t₁.fileBytes (staging.child name) with
      | error e =>
        left
        exact ⟨_, Task.on_bind_of_error (by rw [Task.on_tryLook, hcssBytes]; rfl) _⟩
      | ok cssBytes =>
        rw [Task.on_bind_of_ok (by rw [Task.on_tryLook, hcssBytes]; rfl)]
        cases hmapBytes : t₁.fileBytes (staging.child (name ++ ".map")) with
        | error e =>
          left
          exact ⟨_, Task.on_bind_of_error (by rw [Task.on_tryLook, hmapBytes]; rfl) _⟩
        | ok mapBytes =>
          rw [Task.on_bind_of_ok (by rw [Task.on_tryLook, hmapBytes]; rfl)]
          right
          exact ⟨t₁, cssBytes, mapBytes, rfl, hcssBytes, hmapBytes, rfl⟩
    · left
      exact ⟨_, Task.on_bind_of_error (by rw [on_requireOutput, if_neg hmap]) _⟩
  · left
    exact ⟨_, Task.on_bind_of_error (by rw [on_requireOutput, if_neg hcss]) _⟩

/-- A compile that could be prepared is staged, and then its staging directory is discarded. -/
theorem run_cases (t : FileTree) (compiler : Compiler) (entry css : Path) :
    (∃ e t₁, (prepare entry (stagingDirectory css)).on t = (.error e, t₁) ∧
        (run compiler entry css).on t = (.error e, t₁)) ∨
      ∃ t₁, (prepare entry (stagingDirectory css)).on t = (.ok (), t₁) ∧
        (run compiler entry css).on t =
          (((stage compiler entry css (stagingDirectory css)).on t₁).1,
            discard (stagingDirectory css)
              ((stage compiler entry css (stagingDirectory css)).on t₁).2) := by
  rw [run]
  rcases hprepare : (prepare entry (stagingDirectory css)).on t with ⟨e | ⟨⟩, t₁⟩
  · left
    exact ⟨e, t₁, rfl, Task.on_bind_of_error hprepare _⟩
  · right
    refine ⟨t₁, rfl, ?_⟩
    rw [Task.on_bind_of_ok hprepare, Task.on_get_bind]
    rcases (stage compiler entry css (stagingDirectory css)).on t₁ with ⟨e | a, t₂⟩
    · rw [Task.on_set_bind, Task.on_throw]
    · rw [Task.on_set_bind, Task.on_pure]

/-- How a compile of a tree can end, with the tree that it leaves. -/
inductive Ends (compiler : Compiler) (entry dir : Path) (name : String) (t : FileTree) :
    Except CompileError Artifacts → FileTree → Prop
  | unprepared {e t₁}
      (hprepare : (prepare entry (stagingDirectory (dir.child name))).on t = (.error e, t₁)) :
      Ends compiler entry dir name t (.error e) t₁
  | uncompiled {r e t₁ t₂}
      (hprepare : (prepare entry (stagingDirectory (dir.child name))).on t = (.ok (), t₁))
      (hrun : (compiler entry ((stagingDirectory (dir.child name)).child name)).on t₁ = (r, t₂)) :
      Ends compiler entry dir name t (.error e) (discard (stagingDirectory (dir.child name)) t₂)
  | committed {r t₁ t₂ t₃ cssBytes mapBytes}
      (hprepare : (prepare entry (stagingDirectory (dir.child name))).on t = (.ok (), t₁))
      (hrun : (compiler entry ((stagingDirectory (dir.child name)).child name)).on t₁ =
        (.ok (), t₂))
      (hcss : t₂.fileBytes ((stagingDirectory (dir.child name)).child name) = .ok cssBytes)
      (hmap : t₂.fileBytes ((stagingDirectory (dir.child name)).child (name ++ ".map")) =
        .ok mapBytes)
      (hcommit : (commit (dir.child name) cssBytes mapBytes).on t₂ = (r, t₃)) :
      Ends compiler entry dir name t r (discard (stagingDirectory (dir.child name)) t₃)

theorem ends_of_run {t t' : FileTree} {compiler : Compiler} {entry dir : Path} {name : String}
    (hn : IsEntryName name) {r : Except CompileError Artifacts}
    (h : (run compiler entry (dir.child name)).on t = (r, t')) :
    Ends compiler entry dir name t r t' := by
  rcases run_cases t compiler entry (dir.child name) with
    ⟨e, t₁, hprepare, heq⟩ | ⟨t₁, hprepare, heq⟩
  · obtain ⟨rfl, rfl⟩ := Prod.mk.inj (heq.symm.trans h)
    exact .unprepared hprepare
  rcases stage_cases t₁ compiler entry dir (stagingDirectory (dir.child name)) hn with
    ⟨e, hstage⟩ | ⟨t₂, cssBytes, mapBytes, hrun, hcss, hmap, hstage⟩
  · rcases hrun : (compiler entry ((stagingDirectory (dir.child name)).child name)).on t₁
      with ⟨r', t₂⟩
    rw [hstage, hrun] at heq
    obtain ⟨rfl, rfl⟩ := Prod.mk.inj (heq.symm.trans h)
    exact .uncompiled hprepare hrun
  · rcases hcommit : (commit (dir.child name) cssBytes mapBytes).on t₂ with ⟨r', t₃⟩
    rw [hstage, hcommit] at heq
    obtain ⟨rfl, rfl⟩ := Prod.mk.inj (heq.symm.trans h)
    exact .committed hprepare hrun hcss hmap hcommit

/-! ### The parts of a compile -/

/-- The place of the staging directory of an output directory. -/
def stagingPlace (t : FileTree) (dir : Path) (name : String) : Place :=
  t.placeOf (stagingDirectory (dir.child name))

theorem stagingPlace_congr {t t' : FileTree} (h : t'.here = t.here) (dir : Path) (name : String) :
    stagingPlace t' dir name = stagingPlace t dir name := placeOf_congr h _

section
variable {dir : Path} {d name : String} (hd : dir.fileName? = some d) (hn : IsEntryName name)
include hd hn

/-- The staging directory and the output directory are two names in the same directory. -/
theorem exists_beside (t : FileTree) :
    ∃ q : Path, stagingDirectory (dir.child name) = q.child (stagingName d) ∧
      stagingPlace t dir name = t.placeOf q ++ [stagingName d] ∧
      t.placeOf dir = t.placeOf q ++ [d] ∧ t.way q ⊆ t.way dir := by
  obtain ⟨q, hq, halike⟩ := stagingDirectory_child hd hn
  have hd' := Path.isEntryName_of_fileName? hd
  refine ⟨q, hq, ?_, ?_, ?_⟩
  · rw [stagingPlace, hq, placeOf_child (isEntryName_stagingName hd')]
  · rw [← placeOf_alike halike, placeOf_child hd']
  · rw [← way_alike halike]
    intro x hx
    rw [mem_way, trailOf_child hd']
    exact List.mem_append_left _ hx

/-- The way to the staging directory is that to the output directory, but for its end. -/
theorem of_mem_trailOf_staging {t : FileTree} {x : Place}
    (h : x ∈ t.trailOf (stagingDirectory (dir.child name))) :
    x ∈ t.way dir ∨ x = stagingPlace t dir name := by
  obtain ⟨q, hq, hstaging, -, hway⟩ := exists_beside hd hn t
  rw [hq, trailOf_child (isEntryName_stagingName (Path.isEntryName_of_fileName? hd))] at h
  rcases List.mem_append.mp h with h | h
  · exact Or.inl (hway h)
  · right
    rw [hstaging]
    exact List.mem_singleton.mp h

/-- What is in the output directory is not in the staging directory. -/
theorem not_mem_staging (t : FileTree) (n : String) :
    t.placeOf dir ++ [n] ∉ below (stagingPlace t dir name) := by
  obtain ⟨q, -, hstaging, hplace, -⟩ := exists_beside hd hn t
  rw [hstaging, hplace]
  exact not_mem_below (stagingName_ne d).symm

variable {t t' : FileTree} (ht : t.Regular) {entry : Path}
include ht

theorem frame_prepare {r : Except CompileError Unit}
    (h : (prepare entry (stagingDirectory (dir.child name))).on t = (r, t')) :
    t'.Regular ∧ Frame (below (stagingPlace t dir name)) (t.way dir) t t' ∧
      (r = .ok () → t'.Enters (stagingDirectory (dir.child name))) := by
  obtain ⟨q, hq, hstaging, -, hway⟩ := exists_beside hd hn t
  rw [hq] at h ⊢
  obtain ⟨hregular, hframe, henters⟩ :=
    of_prepare ht (isEntryName_stagingName (Path.isEntryName_of_fileName? hd)) h
  rw [hstaging]
  exact ⟨hregular, hframe.mono subset_rfl hway, henters⟩

theorem frame_discardStaging :
    (discard (stagingDirectory (dir.child name)) t).Regular ∧
      Frame (below (stagingPlace t dir name)) ∅ t
        (discard (stagingDirectory (dir.child name)) t) := by
  obtain ⟨q, hq, hstaging, -, -⟩ := exists_beside hd hn t
  rw [hq, hstaging]
  exact frame_discard ht (isEntryName_stagingName (Path.isEntryName_of_fileName? hd))

/-- Discarding leaves the files in the output directory alone. -/
theorem held_discardStaging {t₀ : FileTree} (hhere : t.here = t₀.here) (n : String) :
    (discard (stagingDirectory (dir.child name)) t).held (t₀.placeOf dir ++ [n]) =
      t.held (t₀.placeOf dir ++ [n]) := by
  obtain ⟨-, hframe⟩ := frame_discardStaging hd hn ht
  refine held_congr (hframe.same ?_)
  rw [← placeOf_congr hhere]
  exact not_mem_staging hd hn t n

theorem find?_discardStaging (h : t.Enters (stagingDirectory (dir.child name))) {x : Place}
    (hx : x ∈ below (stagingPlace t dir name)) :
    (discard (stagingDirectory (dir.child name)) t).find? x = none := by
  obtain ⟨q, hq, hstaging, -, -⟩ := exists_beside hd hn t
  rw [hq] at h ⊢
  rw [hstaging] at hx
  exact find?_discard ht (isEntryName_stagingName (Path.isEntryName_of_fileName? hd)) h hx

/-! ### The whole compile -/

variable {compiler : Compiler} (hc : compiler.ConfinedTo (stagingDirectory (dir.child name)))
include hc

section
variable {t₁ t₂ : FileTree}
  (hprepare : (prepare entry (stagingDirectory (dir.child name))).on t = (.ok (), t₁))
  {r : Except CompileError Unit}
  (hrun : (compiler entry ((stagingDirectory (dir.child name)).child name)).on t₁ = (r, t₂))
include hprepare hrun

/-- Up to the end of the compiler only the staging directory is touched. -/
theorem frame_compiled :
    t₂.Regular ∧ Frame (below (stagingPlace t dir name)) (t.way dir) t t₂ := by
  obtain ⟨hregular, hframe, -⟩ := frame_prepare hd hn ht hprepare
  have hinside := hc.frame hn hregular hrun
  refine ⟨hc.regular hn hregular hrun, ?_⟩
  rw [← stagingPlace_congr hframe.here] at hframe ⊢
  exact hframe.trans (hinside.mono (inside_subset_below _) (Set.empty_subset _))

/-- Then it can still be entered, unless the output directory leads through it. -/
theorem enters_compiled (hway : ∀ x ∈ t.way dir, x ∉ inside (stagingPlace t dir name)) :
    t₂.Enters (stagingDirectory (dir.child name)) := by
  obtain ⟨hregular, hframe, henters⟩ := frame_prepare hd hn ht hprepare
  have hinside := hc.frame hn hregular hrun
  refine (henters rfl).mono hinside.here (fun x hx hfind => ?_) (fun hfind => ?_)
  · -- the compiler changes nothing on the way
    refine hinside.find?_of_eq_some ?_ hfind
    rw [placeOf_congr hframe.here]
    rw [trailOf_congr hframe.here] at hx
    rcases of_mem_trailOf_staging hd hn hx with hmem | hself
    · exact hway x hmem
    · exact fun h => h.2 hself
  · exact hinside.find?_of_eq_some (fun h => h.2 rfl) hfind

end

variable {r : Except CompileError Artifacts}

/-- A compile touches the two files with their siblings, and the staging directory. -/
theorem frame_run (h : (run compiler entry (dir.child name)).on t = (r, t')) :
    t'.Regular ∧
      Frame (targets t dir name ∪ below (stagingPlace t dir name)) (t.way dir) t t' := by
  have hdiscard {u : FileTree} (hu : u.Regular)
      (hframe : Frame (targets t dir name ∪ below (stagingPlace t dir name)) (t.way dir) t u) :
      (discard (stagingDirectory (dir.child name)) u).Regular ∧
        Frame (targets t dir name ∪ below (stagingPlace t dir name)) (t.way dir) t
          (discard (stagingDirectory (dir.child name)) u) := by
    obtain ⟨hregular, hgone⟩ := frame_discardStaging hd hn hu
    rw [stagingPlace_congr hframe.here] at hgone
    exact ⟨hregular, hframe.trans (hgone.mono Set.subset_union_right (Set.empty_subset _))⟩
  cases ends_of_run hn h with
  | unprepared hprepare =>
    obtain ⟨hregular, hframe, -⟩ := frame_prepare hd hn ht hprepare
    exact ⟨hregular, hframe.mono Set.subset_union_right subset_rfl⟩
  | uncompiled hprepare hrun =>
    obtain ⟨hregular, hframe⟩ := frame_compiled hd hn ht hc hprepare hrun
    exact hdiscard hregular (hframe.mono Set.subset_union_right subset_rfl)
  | committed hprepare hrun _ _ hcommit =>
    obtain ⟨hregular, hframe⟩ := frame_compiled hd hn ht hc hprepare hrun
    have hedit := edit_commit hregular hn hcommit
    rw [targets_congr hframe.here, way_congr hframe.here] at hedit
    exact hdiscard hedit.regular ((hframe.mono Set.subset_union_right subset_rfl).trans
      (hedit.toFrame.mono Set.subset_union_left subset_rfl))

/-- A compile that succeeds has put what the compiler made in the places of the two files. -/
theorem of_run_ok {artifacts : Artifacts}
    (h : (run compiler entry (dir.child name)).on t = (.ok artifacts, t')) :
    ∃ t₁ t₂ cssBytes mapBytes,
      (prepare entry (stagingDirectory (dir.child name))).on t = (.ok (), t₁) ∧
      (compiler entry ((stagingDirectory (dir.child name)).child name)).on t₁ = (.ok (), t₂) ∧
      t₂.fileBytes ((stagingDirectory (dir.child name)).child name) = .ok cssBytes ∧
      t₂.fileBytes ((stagingDirectory (dir.child name)).child (name ++ ".map")) = .ok mapBytes ∧
      artifacts = ⟨dir.child name, dir.child (name ++ ".map"), Sha256.hex cssBytes.toList,
        cssBytes.size⟩ ∧
      t'.held (t.placeOf dir ++ [name]) = some (.file cssBytes false) ∧
      t'.held (t.placeOf dir ++ [name ++ ".map"]) = some (.file mapBytes false) := by
  cases ends_of_run hn h with
  | committed hprepare hrun hcss hmap hcommit =>
    obtain ⟨hregular, hframe⟩ := frame_compiled hd hn ht hc hprepare hrun
    obtain ⟨hartifacts, hcssHeld, hmapHeld⟩ := files_of_commit hregular hn hcommit
    have hedit := edit_commit hregular hn hcommit
    rw [← placeOf_congr hframe.here]
    refine ⟨_, _, _, _, hprepare, hrun, hcss, hmap, hartifacts, ?_, ?_⟩
    · rw [← hcssHeld]
      exact held_discardStaging hd hn hedit.regular hedit.here name
    · rw [← hmapHeld]
      exact held_discardStaging hd hn hedit.regular hedit.here (name ++ ".map")

/-- A compile that fails has left both files as they were, unless the output directory itself
leads through one that was not there. -/
theorem held_run_of_error {e : CompileError}
    (hway : ∀ n ∈ [name, name ++ ".map"], t.placeOf dir ++ [n] ∈ t.way dir →
      t.find? (t.placeOf dir ++ [n]) ≠ none)
    (h : (run compiler entry (dir.child name)).on t = (.error e, t')) :
    ∀ n ∈ [name, name ++ ".map"],
      t'.held (t.placeOf dir ++ [n]) = t.held (t.placeOf dir ++ [n]) := by
  have hkept {t₁ : FileTree} (hframe : Frame (below (stagingPlace t dir name)) (t.way dir) t t₁) :
      ∀ n ∈ [name, name ++ ".map"],
        t₁.find? (t.placeOf dir ++ [n]) = t.find? (t.placeOf dir ++ [n]) :=
    fun n hmem => hframe.find?_eq (not_mem_staging hd hn t n) (hway n hmem)
  intro n hmem
  cases ends_of_run hn h with
  | unprepared hprepare =>
    obtain ⟨-, hframe, -⟩ := frame_prepare hd hn ht hprepare
    exact held_congr (hkept hframe n hmem)
  | uncompiled hprepare hrun =>
    obtain ⟨hregular, hframe⟩ := frame_compiled hd hn ht hc hprepare hrun
    rw [held_discardStaging hd hn hregular hframe.here]
    exact held_congr (hkept hframe n hmem)
  | committed hprepare hrun _ _ hcommit =>
    obtain ⟨hregular, hframe⟩ := frame_compiled hd hn ht hc hprepare hrun
    have hedit := edit_commit hregular hn hcommit
    have hback := held_commit_of_error hregular hn (Path.moves_ne_nil_of_fileName? hd) (by
      rw [placeOf_congr hframe.here, way_congr hframe.here]
      intro n hmem
      rw [hkept hframe n hmem]
      exact hway n hmem) hcommit
    rw [placeOf_congr hframe.here] at hback
    rw [held_discardStaging hd hn hedit.regular (hedit.here.trans hframe.here), hback n hmem]
    exact held_congr (hkept hframe n hmem)

/-- Once it was prepared, the staging directory is gone after the compile, unless the output
directory leads through it. -/
theorem find?_staging_of_run (hway : ∀ x ∈ t.way dir, x ∉ inside (stagingPlace t dir name))
    {t₁ : FileTree}
    (hprepare : (prepare entry (stagingDirectory (dir.child name))).on t = (.ok (), t₁))
    (h : (run compiler entry (dir.child name)).on t = (r, t')) :
    ∀ x ∈ below (stagingPlace t dir name), t'.find? x = none := by
  intro x hx
  cases ends_of_run hn h with
  | unprepared hfail =>
    rw [hprepare] at hfail
    cases hfail
  | uncompiled hprepare hrun =>
    obtain ⟨hregular, hframe⟩ := frame_compiled hd hn ht hc hprepare hrun
    rw [← stagingPlace_congr hframe.here] at hx
    exact find?_discardStaging hd hn hregular
      (enters_compiled hd hn ht hc hprepare hrun hway) hx
  | committed hprepare hrun _ _ hcommit =>
    obtain ⟨hregular, hframe⟩ := frame_compiled hd hn ht hc hprepare hrun
    have hedit := edit_commit hregular hn hcommit
    rw [← stagingPlace_congr (hedit.here.trans hframe.here)] at hx
    exact find?_discardStaging hd hn hedit.regular
      (hedit.enters (enters_compiled hd hn ht hc hprepare hrun hway)) hx

end

end Compile

end TokenSheets
