/-
TokenSheets/Proofs/Compile/Guarantee.lean

What a compile guarantees.

A compile either puts both files in their places or neither, and takes its staging
directory away.  A compiler that only writes the two files it is asked for is confined
(`Compiler.confinedTo_constant`).  What is not promised shows in output paths that lead
through the files of the compile themselves, or through its staging directory.
-/
import TokenSheets.Proofs.Compile.Run

namespace TokenSheets

open FileTree Outcome

/-! ### Compilers -/

namespace Compiler

variable {directory : Path} {name text : String} {t t' : FileTree} {r : Except CompileError Unit}

/-- Writing into a directory is an edit inside of it. -/
theorem edit_write (ht : t.Regular) (hn : IsEntryName name)
    (h : (write (directory.child name) text).on t = (r, t')) :
    Edit (inside (t.placeOf directory)) ∅ t t' := by
  rw [write, Task.on_change] at h
  cases hwrite : t.writeFile (directory.child name) text.toUTF8 with
  | error e =>
    rw [hwrite] at h
    obtain ⟨-, rfl⟩ := Prod.mk.inj h
    exact Edit.refl ht
  | ok t₁ =>
    rw [hwrite] at h
    obtain ⟨-, rfl⟩ := Prod.mk.inj h
    have hedit := edit_writeFile ht hwrite
    rw [placeOf_child hn] at hedit
    refine hedit.mono (Set.singleton_subset_iff.mpr ⟨List.prefix_append _ _, ?_⟩) subset_rfl
    simp

theorem confinedTo_constant (text : String) (directory : Path) :
    (constant text).ConfinedTo directory := by
  have hedit {entry : Path} {name : String} {t t' : FileTree} {r : Except CompileError Unit}
      (hn : IsEntryName name) (ht : t.Regular)
      (h : (constant text entry (directory.child name)).on t = (r, t')) :
      Edit (inside (t.placeOf directory)) ∅ t t' := by
    rw [constant, Compile.mapPath_child hn] at h
    rcases Task.on_bind_cases h with ⟨e, hcss, -⟩ | ⟨⟨⟩, t₁, hcss, hmap⟩
    · exact edit_write ht hn hcss
    · have hfirst := edit_write ht hn hcss
      have hsecond := edit_write hfirst.regular (Compile.isEntryName_map hn) hmap
      rw [placeOf_congr hfirst.here] at hsecond
      exact hfirst.trans hsecond
  exact ⟨fun hn ht h => (hedit hn ht h).regular, fun hn ht h => (hedit hn ht h).toFrame⟩

/-- A compiler that gives up does nothing. -/
theorem confinedTo_failing (status : Int) (stderr : String) (directory : Path) :
    (failing status stderr).ConfinedTo directory := by
  have hsame {entry out : Path} {t t' : FileTree} {r : Except CompileError Unit}
      (h : (failing status stderr entry out).on t = (r, t')) : t' = t :=
    (Prod.mk.inj h).2.symm
  constructor
  case regular =>
    intro entry name t r t' _ ht h
    rw [hsame h]
    exact ht
  case frame =>
    intro entry name t r t' _ _ h
    rw [hsame h]
    exact Frame.refl t

/-- A compiler that only removes a directory. -/
def removing (p : Path) : Compiler := fun _ _ =>
  Task.change fun t => (t.removeDirectory p).mapError (Compile.ioError p)

theorem confinedTo_removing {p : Path} (hn : IsEntryName name)
    (hp : ∀ t : FileTree, t.placeOf p = t.placeOf directory) :
    (removing (p.child name)).ConfinedTo directory := by
  have hframe {entry out : Path} {t t' : FileTree} {r : Except CompileError Unit}
      (ht : t.Regular) (h : (removing (p.child name) entry out).on t = (r, t')) :
      t'.Regular ∧ Frame (inside (t.placeOf directory)) ∅ t t' := by
    rw [removing, Task.on_change] at h
    cases hremove : t.removeDirectory (p.child name) with
    | error e =>
      rw [hremove] at h
      obtain ⟨-, rfl⟩ := Prod.mk.inj h
      exact ⟨ht, Frame.refl t⟩
    | ok t₁ =>
      rw [hremove] at h
      obtain ⟨-, rfl⟩ := Prod.mk.inj h
      obtain ⟨-, rfl⟩ := (removeDirectory_child_eq_ok ht hn).mp hremove
      refine ⟨ht.eraseAll _, (frame_eraseAll t _).mono ?_ subset_rfl⟩
      rintro x ⟨rest, rfl⟩
      rw [← hp]
      exact ⟨⟨name :: rest, by simp⟩, by simp⟩
  exact ⟨fun _ ht h => (hframe ht h).1, fun _ ht h => (hframe ht h).2⟩

end Compiler

namespace Compile

/-! ### The result -/

/-- The compiler, started once the staging directory was prepared, made these two files there. -/
def Makes (compiler : Compiler) (entry dir : Path) (name : String) (t : FileTree)
    (cssBytes mapBytes : ByteArray) : Prop :=
  ∃ t₁ t₂, (prepare entry (stagingDirectory (dir.child name))).on t = (.ok (), t₁) ∧
    (compiler entry ((stagingDirectory (dir.child name)).child name)).on t₁ = (.ok (), t₂) ∧
    t₂.fileBytes ((stagingDirectory (dir.child name)).child name) = .ok cssBytes ∧
    t₂.fileBytes (mapPath ((stagingDirectory (dir.child name)).child name)) = .ok mapBytes

/-- **Both files or none.**  In a tree of files and directories, a compile by a confined compiler
either succeeds, and then the stylesheet and its map are what the compiler made, or fails, and
then both are what they were.  Once it was created, the staging directory is gone in either case,
and nothing else is touched but the temporary siblings of the two files and directories that are
missing on the way.  The directory of the output may be given with double dots in it.  For the
second part it must not lead through one of the two files that is not there, since that would
create a directory in its place; for the third part, not through the staging directory. -/
theorem run_all_or_nothing {t : FileTree} (ht : t.Regular) {compiler : Compiler}
    {entry dir : Path} {d name : String} (hd : dir.fileName? = some d) (hn : IsEntryName name)
    (hc : compiler.ConfinedTo (stagingDirectory (dir.child name)))
    {r : Except CompileError Artifacts} {t' : FileTree}
    (h : (run compiler entry (dir.child name)).on t = (r, t')) :
    (∀ artifacts, r = .ok artifacts → ∃ cssBytes mapBytes,
        Makes compiler entry dir name t cssBytes mapBytes ∧
        artifacts = ⟨dir.child name, mapPath (dir.child name), Sha256.hex cssBytes.toList,
          cssBytes.size⟩ ∧
        t'.held (t.placeOf (dir.child name)) = some (.file cssBytes false) ∧
        t'.held (t.placeOf (mapPath (dir.child name))) = some (.file mapBytes false)) ∧
      ((∀ n ∈ [name, name ++ ".map"], t.placeOf dir ++ [n] ∈ t.trailOf dir →
          t.find? (t.placeOf dir ++ [n]) ≠ none) → ∀ e, r = .error e →
        t'.held (t.placeOf (dir.child name)) = t.held (t.placeOf (dir.child name)) ∧
        t'.held (t.placeOf (mapPath (dir.child name))) =
          t.held (t.placeOf (mapPath (dir.child name)))) ∧
      ((∀ x ∈ t.trailOf dir, x ∉ inside (stagingPlace t dir name)) →
        (∃ t₁, (prepare entry (stagingDirectory (dir.child name))).on t = (.ok (), t₁)) →
        ∀ x ∈ below (stagingPlace t dir name), t'.find? x = none) ∧
      Frame (targets t dir name ∪ below (stagingPlace t dir name)) (t.way dir) t t' := by
  rw [mapPath_child hn, placeOf_child hn, placeOf_child (isEntryName_map hn)]
  refine ⟨?_, ?_, ?_, (frame_run hd hn ht hc h).2⟩
  · rintro artifacts rfl
    obtain ⟨t₁, t₂, cssBytes, mapBytes, hprepare, hrun, hcss, hmap, hartifacts, hheld⟩ :=
      of_run_ok hd hn ht hc h
    refine ⟨cssBytes, mapBytes, ⟨t₁, t₂, hprepare, hrun, hcss, ?_⟩, hartifacts, hheld⟩
    rw [mapPath_child hn]
    exact hmap
  · rintro hfiles e rfl
    have hheld := held_run_of_error hd hn ht hc hfiles h
    exact ⟨hheld name (by simp), hheld (name ++ ".map") (by simp)⟩
  · rintro hstaging ⟨t₁, hprepare⟩
    exact find?_staging_of_run hd hn ht hc hstaging hprepare h

/-! ### A small project -/

/-- A project with an entry sheet and nothing else. -/
def bareProject : FileTree where
  entries := [(["sass"], .directory), (["sass", "main.scss"], .file .empty false)]
  here := []

theorem regular_bareProject : bareProject.Regular := by
  refine .of_entries (by decide) (by decide) ?_
  simp [bareProject]

/-- In the small project a compile succeeds, and then what was made is in both places.  With a
compiler that gives up it fails, and both places are as empty as before.  Either way the staging
directory is gone. -/
theorem run_all_or_nothing_bare :
    (∃ artifacts t' cssBytes mapBytes,
        (run (Compiler.constant "") ⟨"sass/main.scss"⟩ ((Path.mk "public").child "main.css")).on
          bareProject = (.ok artifacts, t') ∧
        Makes (Compiler.constant "") ⟨"sass/main.scss"⟩ ⟨"public"⟩ "main.css" bareProject cssBytes
          mapBytes ∧
        t'.held ["public", "main.css"] = some (.file cssBytes false) ∧
        t'.held ["public", "main.css.map"] = some (.file mapBytes false) ∧
        ∀ x ∈ below [".public-staging"], t'.find? x = none) ∧
      ∃ e t',
        (run (Compiler.failing 1 "") ⟨"sass/main.scss"⟩ ((Path.mk "public").child "main.css")).on
          bareProject = (.error e, t') ∧
        t'.held ["public", "main.css"] = none ∧ t'.held ["public", "main.css.map"] = none ∧
        ∀ x ∈ below [".public-staging"], t'.find? x = none := by
  have hd : (Path.mk "public").fileName? = some "public" := by decide +kernel
  have hn : IsEntryName "main.css" := by decide
  have hway : bareProject.trailOf ⟨"public"⟩ = [["public"]] := by decide +kernel
  have hplace : stagingPlace bareProject ⟨"public"⟩ "main.css" = [".public-staging"] := by
    decide +kernel
  have hinside : ∀ x ∈ bareProject.trailOf ⟨"public"⟩,
      x ∉ inside (stagingPlace bareProject ⟨"public"⟩ "main.css") := by
    intro x hx hin
    rw [hway, List.mem_singleton] at hx
    rw [hplace, hx] at hin
    exact absurd hin.1 (by decide)
  have hprepare : ((prepare ⟨"sass/main.scss"⟩
      (stagingDirectory ((Path.mk "public").child "main.css"))).on bareProject).1 = .ok () := by
    decide +kernel
  have hcss : bareProject.placeOf ((Path.mk "public").child "main.css") =
      ["public", "main.css"] := by decide +kernel
  have hmap : bareProject.placeOf (mapPath ((Path.mk "public").child "main.css")) =
      ["public", "main.css.map"] := by decide +kernel
  constructor
  · have hsucceeds : ((run (Compiler.constant "") ⟨"sass/main.scss"⟩
        ((Path.mk "public").child "main.css")).on bareProject).1.isOk = true := by decide +kernel
    rcases hrun : (run (Compiler.constant "") ⟨"sass/main.scss"⟩
      ((Path.mk "public").child "main.css")).on bareProject with ⟨e | artifacts, t'⟩
    · rw [hrun] at hsucceeds
      cases hsucceeds
    obtain ⟨hsuccess, -, hgone, -⟩ := run_all_or_nothing regular_bareProject hd hn
      (Compiler.confinedTo_constant "" _) hrun
    obtain ⟨cssBytes, mapBytes, hmakes, -, hheld⟩ := hsuccess artifacts rfl
    rw [hcss, hmap] at hheld
    rw [hplace] at hgone hinside
    exact ⟨artifacts, t', cssBytes, mapBytes, rfl, hmakes, hheld.1, hheld.2,
      hgone hinside ⟨_, Prod.ext hprepare rfl⟩⟩
  · have hfails : ((run (Compiler.failing 1 "") ⟨"sass/main.scss"⟩
        ((Path.mk "public").child "main.css")).on bareProject).1.isOk = false := by decide +kernel
    rcases hrun : (run (Compiler.failing 1 "") ⟨"sass/main.scss"⟩
      ((Path.mk "public").child "main.css")).on bareProject with ⟨e | artifacts, t'⟩
    swap
    · rw [hrun] at hfails
      cases hfails
    obtain ⟨-, hfailure, hgone, -⟩ := run_all_or_nothing regular_bareProject hd hn
      (Compiler.confinedTo_failing 1 "" _) hrun
    have hsame := hfailure (by decide +kernel) e rfl
    rw [hcss, hmap] at hsame
    rw [hplace] at hgone hinside
    exact ⟨e, t', rfl, hsame.1, hsame.2, hgone hinside ⟨_, Prod.ext hprepare rfl⟩⟩

/-- An output directory that leads through the output. -/
def throughOutput : Path := ⟨"public/main.css/../../public"⟩

/-- An output directory that leads through the staging directory. -/
def throughStaging : Path := ⟨".public-staging/in/../../public"⟩

/-- A compiler that removes the way of `throughStaging`. -/
def removingWay : Compiler := Compiler.removing ((Path.mk ".public-staging").child "in")

theorem confinedTo_removingWay :
    removingWay.ConfinedTo (stagingDirectory (throughStaging.child "main.css")) := by
  refine Compiler.confinedTo_removing (by decide) fun t => ?_
  have hstaging : stagingDirectory (throughStaging.child "main.css") =
      ⟨".public-staging/in/../../.public-staging"⟩ := by decide +kernel
  have hshort : (Path.mk ".public-staging").isAbsolute = false ∧
      (Path.mk ".public-staging").moves = [".public-staging"] := by decide +kernel
  have hlong : (Path.mk ".public-staging/in/../../.public-staging").isAbsolute = false ∧
      (Path.mk ".public-staging/in/../../.public-staging").moves =
        [".public-staging", "in", "..", "..", ".public-staging"] := by decide +kernel
  rw [hstaging, placeOf, placeOf, start, start, hshort.1, hshort.2, hlong.1, hlong.2]
  simp [Place.along]

/-- The way to the output may lead through the output: then a failed compile leaves a directory in
its place.  And it may lead into the staging directory: then a compiler that removes the way leaves
the staging directory behind. -/
theorem exists_not_all_or_nothing :
    (∃ e t', throughOutput.fileName? = some "public" ∧
        (Compiler.constant "").ConfinedTo (stagingDirectory (throughOutput.child "main.css")) ∧
        (run (Compiler.constant "") ⟨"sass/main.scss"⟩ (throughOutput.child "main.css")).on
          bareProject = (.error e, t') ∧
        bareProject.held ["public", "main.css"] = none ∧
        t'.held ["public", "main.css"] = some .directory) ∧
      ∃ t₁ r t', throughStaging.fileName? = some "public" ∧
        removingWay.ConfinedTo (stagingDirectory (throughStaging.child "main.css")) ∧
        (prepare ⟨"sass/main.scss"⟩ (stagingDirectory (throughStaging.child "main.css"))).on
          bareProject = (.ok (), t₁) ∧
        (run removingWay ⟨"sass/main.scss"⟩ (throughStaging.child "main.css")).on bareProject =
          (r, t') ∧
        t'.held [".public-staging"] = some .directory := by
  constructor
  · have hfails : ((run (Compiler.constant "") ⟨"sass/main.scss"⟩
        (throughOutput.child "main.css")).on bareProject).1.isOk = false ∧
        ((run (Compiler.constant "") ⟨"sass/main.scss"⟩
          (throughOutput.child "main.css")).on bareProject).2.held
            ["public", "main.css"] = some .directory := by decide +kernel
    rcases hrun : (run (Compiler.constant "") ⟨"sass/main.scss"⟩
      (throughOutput.child "main.css")).on bareProject with ⟨e | a, t'⟩
    · rw [hrun] at hfails
      exact ⟨e, t', by decide +kernel, Compiler.confinedTo_constant "" _, rfl, rfl, hfails.2⟩
    · rw [hrun] at hfails
      cases hfails.1
  · have hprepare : ((prepare ⟨"sass/main.scss"⟩
        (stagingDirectory (throughStaging.child "main.css"))).on bareProject).1 = .ok () := by
      decide +kernel
    have hleft : ((run removingWay ⟨"sass/main.scss"⟩ (throughStaging.child "main.css")).on
        bareProject).2.held [".public-staging"] = some .directory := by decide +kernel
    rcases hfirst : (prepare ⟨"sass/main.scss"⟩
      (stagingDirectory (throughStaging.child "main.css"))).on bareProject with ⟨r₁, t₁⟩
    rcases hrun : (run removingWay ⟨"sass/main.scss"⟩ (throughStaging.child "main.css")).on
      bareProject with ⟨r, t'⟩
    rw [hfirst] at hprepare
    rw [hrun] at hleft
    exact ⟨t₁, r, t', by decide +kernel, confinedTo_removingWay, Prod.ext hprepare rfl, rfl,
      hleft⟩

end Compile

end TokenSheets
