/-
TokenSheets/Proofs/Compile/Again.lean

Compiling a second time.

A compile that succeeded is repeated in a tree that has the same source, and the
outputs of the first one where they were put.  What it does to the staging
directory does not depend on what was in there before: everything else on the way
is there (`FileTree.EntersBut`), so the directory is made from nothing both times.
The compiler finds the same source and the same staging directory, so if that
determines what it does (`Compiler.DeterminedBy`), then it makes the same two files;
and committing files that have been committed changes nothing (`commit_again`).
-/
import TokenSheets.Proofs.Compile.Guarantee
import TokenSheets.Proofs.FileTree.Agreement

namespace TokenSheets

open FileTree Outcome

/-! ### Compilers that follow their source -/

/-- Two trees in which the same source is to be compiled into the same staging directory. -/
structure SameSource (source staging : Path) (t u : FileTree) : Prop where
  regular : t.Regular ∧ u.Regular
  here : u.here = t.here
  enters : t.Enters staging ∧ u.Enters staging
  source : ∀ x ∈ below (t.placeOf source), u.held x = t.held x
  staging : ∀ x ∈ inside (t.placeOf staging), u.held x = t.held x

/-- What the compiler does follows from the source and from what is in the staging directory. -/
structure Compiler.DeterminedBy (compiler : Compiler) (source staging : Path) : Prop where
  result : ∀ {entry name t u}, IsEntryName name → SameSource source staging t u →
    ((compiler entry (staging.child name)).on u).1 =
      ((compiler entry (staging.child name)).on t).1
  made : ∀ {entry name t u}, IsEntryName name → SameSource source staging t u →
    ∀ x ∈ inside (t.placeOf staging),
      ((compiler entry (staging.child name)).on u).2.held x =
        ((compiler entry (staging.child name)).on t).2.held x

namespace Compiler

section
variable {source staging : Path} {t u : FileTree} (h : SameSource source staging t u)
  {name : String}
include h

/-- A file can be put into the staging directory of one tree exactly if it can in the other one. -/
theorem directory_sameSource :
    u.find? (u.placeOf staging ++ [name]) = some .directory ↔
      t.find? (t.placeOf staging ++ [name]) = some .directory := by
  have hheld := h.staging (t.placeOf staging ++ [name]) ⟨List.prefix_append _ _, by simp⟩
  rw [placeOf_congr h.here]
  exact ⟨find?_directory_of_held hheld.symm, find?_directory_of_held hheld⟩

variable (hn : IsEntryName name)
include hn

/-- The same file in both trees. -/
theorem writeFile_sameSource (hdir : t.find? (t.placeOf staging ++ [name]) ≠ some .directory)
    (contents : ByteArray) :
    ∃ t' u', t.writeFile (staging.child name) contents = .ok t' ∧
      u.writeFile (staging.child name) contents = .ok u' ∧ t'.here = t.here ∧
      SameSource source staging t' u' := by
  obtain ⟨ht, hu⟩ := h.regular
  have hplace : u.placeOf staging = t.placeOf staging := placeOf_congr h.here staging
  have hwrite : t.writeFile (staging.child name) contents = .ok _ :=
    (writeFile_child_eq_ok ht hn).mpr ⟨h.enters.1, hdir, rfl⟩
  have hwrite' : u.writeFile (staging.child name) contents = .ok _ :=
    (writeFile_child_eq_ok hu hn).mpr ⟨h.enters.2, mt (directory_sameSource h).mp hdir, rfl⟩
  have hedit := edit_writeFile ht hwrite
  have hedit' := edit_writeFile hu hwrite'
  have hboth {x : Place} (hx : u.held x = t.held x) :
      (u.put (u.placeOf staging ++ [name]) (.file contents
          (u.isExecutable (u.placeOf staging ++ [name])))).held x =
        (t.put (t.placeOf staging ++ [name]) (.file contents
          (t.isExecutable (t.placeOf staging ++ [name])))).held x := by
    rw [hplace]
    by_cases heq : x = t.placeOf staging ++ [name]
    · rw [heq, held, held, find?_put_self u (by simp), find?_put_self t (by simp)]
      rfl
    · rw [held_congr (find?_put_of_ne u heq _), held_congr (find?_put_of_ne t heq _), hx]
  refine ⟨_, _, hwrite, hwrite', rfl, ?_⟩
  constructor
  case regular => exact ⟨hedit.regular, hedit'.regular⟩
  case here => exact h.here
  case enters => exact ⟨hedit.enters h.enters.1, hedit'.enters h.enters.2⟩
  case source => exact fun x hx => hboth (h.source x hx)
  case staging => exact fun x hx => hboth (h.staging x hx)

/-- The same text written in both trees. -/
theorem write_sameSource (text : String) :
    (∃ e, (write (staging.child name) text).on t = (.error e, t) ∧
        (write (staging.child name) text).on u = (.error e, u)) ∨
      ∃ t' u', (write (staging.child name) text).on t = (.ok (), t') ∧
        (write (staging.child name) text).on u = (.ok (), u') ∧ t'.here = t.here ∧
        SameSource source staging t' u' := by
  obtain ⟨ht, hu⟩ := h.regular
  by_cases hdir : t.find? (t.placeOf staging ++ [name]) = some .directory
  · left
    have hdir' := (directory_sameSource h).mpr hdir
    refine ⟨Compile.ioError (staging.child name) .isDirectory, ?_, ?_⟩
    · rw [write, Task.on_change, writeFile_child_of_directory ht hn h.enters.1 hdir]
      rfl
    · rw [write, Task.on_change, writeFile_child_of_directory hu hn h.enters.2 hdir']
      rfl
  · right
    obtain ⟨t', u', hwrite, hwrite', hsame⟩ := writeFile_sameSource h hn hdir text.toUTF8
    exact ⟨t', u', Task.on_change_eq_ok.mpr (mapError_eq_ok.mpr hwrite),
      Task.on_change_eq_ok.mpr (mapError_eq_ok.mpr hwrite'), hsame⟩

end

theorem determinedBy_constant (css : String) (source staging : Path) :
    (constant css).DeterminedBy source staging := by
  have hsame {entry : Path} {name : String} {t u : FileTree} (hn : IsEntryName name)
      (h : SameSource source staging t u) :
      ((constant css entry (staging.child name)).on u).1 =
          ((constant css entry (staging.child name)).on t).1 ∧
        ∀ x ∈ inside (t.placeOf staging),
          ((constant css entry (staging.child name)).on u).2.held x =
            ((constant css entry (staging.child name)).on t).2.held x := by
    rw [constant, Compile.mapPath_child hn]
    rcases write_sameSource h hn css with ⟨e, ht, hu⟩ | ⟨t₁, u₁, ht, hu, hhere, h₁⟩
    · rw [Task.on_bind_of_error ht, Task.on_bind_of_error hu]
      exact ⟨rfl, h.staging⟩
    rw [Task.on_bind_of_ok ht, Task.on_bind_of_ok hu]
    rw [← placeOf_congr hhere]
    rcases write_sameSource h₁ (Compile.isEntryName_map hn) emptyMap with
      ⟨e, ht, hu⟩ | ⟨t₂, u₂, ht, hu, hhere', h₂⟩
    · rw [ht, hu]
      exact ⟨rfl, h₁.staging⟩
    · rw [ht, hu, ← placeOf_congr hhere']
      exact ⟨rfl, h₂.staging⟩
  exact ⟨fun hn h => (hsame hn h).1, fun hn h => (hsame hn h).2⟩

end Compiler

namespace Compile

/-! ### Committing again -/

section
variable {t t' : FileTree} (ht : t.Regular) {name : String} (hn : IsEntryName name) {p : Path}
  {cssBytes mapBytes : ByteArray}
include ht hn

/-- After a success both temporary siblings are gone. -/
theorem free_of_commit {artifacts : Artifacts}
    (h : (commit (p.child name) cssBytes mapBytes).on t = (.ok artifacts, t')) :
    ∀ n ∈ [name, name ++ ".map"], t'.find? (t.placeOf p ++ [temporary n]) = none := by
  obtain ⟨⟨-, -, hnameTemp⟩, ⟨-, htemps⟩, -⟩ := written_apart name
  cases ends_of_commit h with
  | done hmap hcss =>
    have hmapped := edit_mapped ht hn mapBytes (p := p)
    intro n hmem
    rcases List.mem_pair.mp hmem with rfl | rfl
    · rw [finished, ← placeOf_mapped ht hn mapBytes]
      exact (of_replaceFile_ok hmapped.regular hn p hcss).2.2
    · -- writing the stylesheet leaves the sibling of the map alone
      rw [(edit_finished ht hn cssBytes mapBytes).same
        (place_not_mem (Ne.symm hnameTemp) (Ne.symm htemps))]
      exact (of_mapped ht hn hmap).2

/-- Committing the files that are there succeeds and changes nothing. -/
theorem commit_again (hp : t.Enters p) (hmoves : p.moves ≠ [])
    (hcss : t.held (t.placeOf p ++ [name]) = some (.file cssBytes false))
    (hmap : t.held (t.placeOf p ++ [name ++ ".map"]) = some (.file mapBytes false))
    (hfree : ∀ n ∈ [name, name ++ ".map"], t.held (t.placeOf p ++ [temporary n]) = none) :
    ∃ t', (commit (p.child name) cssBytes mapBytes).on t =
        (.ok ⟨p.child name, p.child (name ++ ".map"), Sha256.hex cssBytes.toList,
          cssBytes.size⟩, t') ∧ SameAs t t' := by
  -- the output directory is there, and so is the map
  have hopen : t.createDirectories (outputDirectory (p.child name)) = (.ok (), t) := by
    have halike := outputDirectory_alike hn p
    exact createDirectories_of_enters ht ((enters_alike halike).mpr hp)
      (by rw [halike.2]; exact hmoves)
  have hprevious : previousMap t (p.child (name ++ ".map")) = .ok (some mapBytes) := by
    obtain ⟨executable, hfind⟩ := find?_of_held_eq_file hmap
    rw [previousMap, fileBytes_child ht (isEntryName_map hn) hp, hfind]
  -- both files are replaced by what they are
  obtain ⟨t₁, hreplaceMap, hsame₁⟩ :=
    replaceFile_again ht (isEntryName_map hn) hp hmap (hfree _ (by simp))
  have hplace : t₁.placeOf p = t.placeOf p := placeOf_congr hsame₁.here p
  obtain ⟨t₂, hreplaceCss, hsame₂⟩ :=
    replaceFile_again hsame₁.regular hn (hsame₁.enters hp) (by rw [hplace, hsame₁.held, hcss])
      (by rw [hplace, hsame₁.held, hfree _ (by simp)])
  refine ⟨t₂, ?_, hsame₁.trans hsame₂⟩
  rw [commit, mapPath_child hn, Task.on_bind_of_ok (by rw [Task.on_perform, hopen]; rfl),
    Task.on_bind_of_ok (by rw [Task.on_tryLook, hprevious]),
    Task.on_bind_of_ok (by rw [Task.on_perform, hreplaceMap]; rfl),
    Task.on_bind_of_ok (by rw [Task.on_perform, hreplaceCss]; rfl)]
  rfl

end

/-! ### The steps of a compile that succeeds -/

section
variable {t t' : FileTree} (ht : t.Regular) {q entry : Path} {s : String} (hs : IsEntryName s)
  (hq : t.Enters q)
include ht hs hq

/-- An old staging directory makes no difference. -/
theorem prepare_eq_ok :
    (prepare entry (q.child s)).on t = (.ok (), t') ↔
      t.isFile entry = true ∧
        (t.find? (t.placeOf q ++ [s]) = none ∨ t.find? (t.placeOf q ++ [s]) = some .directory) ∧
        (t.eraseAll (t.placeOf q ++ [s])).createDirectories (q.child s) = (.ok (), t') := by
  rw [prepare, Task.on_look_bind]
  by_cases hentry : t.isFile entry = true
  · simp only [hentry, Bool.not_true, Bool.false_eq_true, if_false, true_and, Task.on_look_bind,
      Task.on_ite]
    by_cases hthere : t.exists? (q.child s) = true
    · have hsome := ((exists?_child_iff ht hs).mp hthere).2
      rw [if_pos hthere, or_iff_right hsome, Task.on_bind_eq_ok]
      constructor
      · rintro ⟨⟨⟩, t₁, hremove, hcreate⟩
        rw [Task.on_change_eq_ok, mapError_eq_ok, removeDirectory_child_eq_ok ht hs,
          enters_child_iff ht hs] at hremove
        obtain ⟨⟨-, hdir⟩, rfl⟩ := hremove
        exact ⟨hdir, Task.on_perform_eq_ok.mp hcreate⟩
      · rintro ⟨hdir, hcreate⟩
        refine ⟨(), _, ?_, Task.on_perform_eq_ok.mpr hcreate⟩
        rw [Task.on_change_eq_ok, mapError_eq_ok, removeDirectory_child_eq_ok ht hs,
          enters_child_iff ht hs]
        exact ⟨⟨hq, hdir⟩, rfl⟩
    · have hnone : t.find? (t.placeOf q ++ [s]) = none := by
        by_contra hsome
        exact hthere ((exists?_child_iff ht hs).mpr ⟨hq, hsome⟩)
      rw [if_neg hthere, Task.on_perform_eq_ok, ht.eraseAll_of_free hnone,
        and_iff_right (Or.inl hnone)]
  · simp [hentry]

end

/-- The tree with an empty staging directory: on the way to it new directories were made only where
the old one had been. -/
structure Staged (t w : FileTree) (q : Path) (s : String) : Prop where
  regular : w.Regular
  here : w.here = t.here
  enters : w.Enters (q.child s)
  outside : ∀ x ∉ below (t.placeOf q ++ [s]), w.find? x = t.find? x
  inside : ∀ x ∈ inside (t.placeOf q ++ [s]), x ∉ t.way (q.child s) → w.find? x = none

section
variable {t t' : FileTree} (ht : t.Regular) {q entry : Path} {s : String} (hs : IsEntryName s)
  (hq : t.Enters q)
include ht hs hq

theorem staged_of_createDirectories
    (h : (t.eraseAll (t.placeOf q ++ [s])).createDirectories (q.child s) = (.ok (), t')) :
    Staged t t' q s := by
  have herased := ht.eraseAll (t.placeOf q ++ [s])
  have hedit := edit_createDirectories herased (q.child s)
  have henters := enters_of_createDirectories herased (p := q.child s)
    (by simp [Path.moves_child q hs]) (by rw [h])
  have hsameWay : (t.eraseAll (t.placeOf q ++ [s])).way (q.child s) = t.way (q.child s) :=
    way_congr rfl _
  rw [h] at henters hedit
  rw [hsameWay] at hedit
  refine ⟨hedit.regular, hedit.here, henters, fun x hx => ?_, fun x hx hway => ?_⟩
  · rw [← find?_eraseAll_of_not_isPrefix t hx]
    refine hedit.find?_eq (Set.notMem_empty x) fun hway => ?_
    rw [mem_way, trailOf_child hs] at hway
    rcases List.mem_append.mp hway with hway | hself
    · rw [find?_eraseAll_of_not_isPrefix t hx, hq.1 x hway]
      simp
    · rw [List.mem_singleton.mp hself] at hx
      exact absurd List.prefix_rfl hx
  · rw [hedit.find?_eq (Set.notMem_empty x) fun hmem => absurd hmem hway]
    exact find?_eraseAll_of_mem_below t hx.1

end

/-- Two trees with the same source are still so once an empty staging directory was made in
both. -/
theorem Staged.sameSource {t u w v : FileTree} {q source : Path} {s : String}
    (hs : IsEntryName s) (h : Staged t w q s) (h' : Staged u v q s) (hhere : u.here = t.here)
    (hapart : ∀ x ∈ below (t.placeOf source), x ∉ below (t.placeOf q ++ [s]))
    (hsource : ∀ x ∈ below (t.placeOf source), u.held x = t.held x) :
    SameSource source (q.child s) w v := by
  have houtside := h'.outside
  have hinside := h'.inside
  rw [placeOf_congr hhere] at houtside hinside
  rw [way_congr hhere] at hinside
  have hhere' : v.here = w.here := by rw [h'.here, h.here, hhere]
  constructor
  case regular => exact ⟨h.regular, h'.regular⟩
  case here => exact hhere'
  case enters => exact ⟨h.enters, h'.enters⟩
  case source =>
    intro x hx
    rw [placeOf_congr h.here] at hx
    rw [held, held, houtside x (hapart x hx), h.outside x (hapart x hx)]
    exact hsource x hx
  case staging =>
    intro x hx
    rw [placeOf_congr h.here, placeOf_child hs] at hx
    apply held_congr
    by_cases hway : x ∈ t.way (q.child s)
    · rw [h.enters.1 x (by rwa [trailOf_congr h.here]),
        h'.enters.1 x (by rwa [trailOf_congr (h'.here.trans hhere)])]
    · rw [h.inside x hx hway, hinside x hx hway]

section
variable {t t' : FileTree} {compiler : Compiler} {entry dir staging css : Path} {name : String}
  {artifacts : Artifacts}

theorem isFile_of_fileBytes {p : Path} {contents : ByteArray} (h : t.fileBytes p = .ok contents) :
    t.isFile p = true := by
  rw [fileBytes, bind_eq_ok] at h
  obtain ⟨e, hstat, he⟩ := h
  rw [isFile, hstat]
  cases e with
  | file contents executable => rfl
  | directory => cases he
  | link target => cases he

/-- Staging succeeds exactly if the compiler makes two files that can be committed. -/
theorem stage_eq_ok (hn : IsEntryName name) :
    (stage compiler entry (dir.child name) staging).on t = (.ok artifacts, t') ↔
      ∃ t₁ cssBytes mapBytes, (compiler entry (staging.child name)).on t = (.ok (), t₁) ∧
        t₁.fileBytes (staging.child name) = .ok cssBytes ∧
        t₁.fileBytes (staging.child (name ++ ".map")) = .ok mapBytes ∧
        (commit (dir.child name) cssBytes mapBytes).on t₁ = (.ok artifacts, t') := by
  constructor
  · intro h
    rcases stage_cases t compiler entry dir staging hn with
      ⟨e, heq⟩ | ⟨t₁, cssBytes, mapBytes, hrun, hcss, hmap, heq⟩
    · rw [heq] at h
      cases h
    · exact ⟨t₁, cssBytes, mapBytes, hrun, hcss, hmap, heq.symm.trans h⟩
  · rintro ⟨t₁, cssBytes, mapBytes, hrun, hcss, hmap, hcommit⟩
    rw [stage, Path.fileName?_child dir hn]
    simp only [mapPath_child hn]
    rw [Task.on_bind_of_ok hrun,
      Task.on_bind_of_ok (by rw [on_requireOutput, if_pos (isFile_of_fileBytes hcss)]),
      Task.on_bind_of_ok (by rw [on_requireOutput, if_pos (isFile_of_fileBytes hmap)]),
      Task.on_bind_of_ok (by rw [Task.on_tryLook, hcss]; rfl),
      Task.on_bind_of_ok (by rw [Task.on_tryLook, hmap]; rfl)]
    exact hcommit

/-- A compile succeeds exactly if it can be prepared and staged. -/
theorem run_eq_ok :
    (run compiler entry css).on t = (.ok artifacts, t') ↔
      ∃ t₁ t₂, (prepare entry (stagingDirectory css)).on t = (.ok (), t₁) ∧
        (stage compiler entry css (stagingDirectory css)).on t₁ = (.ok artifacts, t₂) ∧
        t' = discard (stagingDirectory css) t₂ := by
  constructor
  · intro h
    rcases run_cases t compiler entry css with ⟨e, t₁, -, heq⟩ | ⟨t₁, hprepare, heq⟩
    · rw [heq] at h
      cases h
    · rcases hstage : (stage compiler entry css (stagingDirectory css)).on t₁ with ⟨r, t₂⟩
      rw [heq, hstage] at h
      obtain ⟨rfl, rfl⟩ := Prod.mk.inj h
      exact ⟨t₁, t₂, hprepare, hstage, rfl⟩
  · rintro ⟨t₁, t₂, hprepare, hstage, hdiscard⟩
    rw [run, Task.on_bind_of_ok hprepare, Task.on_get_bind, hstage, Task.on_set_bind, hdiscard]
    exact Task.on_pure _ _

end

/-! ### What is delivered -/

/-- What a compile that succeeds leaves: `t` is the tree before it, `t'` the one after it, and the
staging directory was at the place. -/
structure Delivered (t t' : FileTree) (dir : Path) (name : String) (place : Place)
    (cssBytes mapBytes : ByteArray) : Prop where
  css : t'.held (t.placeOf dir ++ [name]) = some (.file cssBytes false)
  map : t'.held (t.placeOf dir ++ [name ++ ".map"]) = some (.file mapBytes false)
  free : ∀ n ∈ [name, name ++ ".map"], t'.find? (t.placeOf dir ++ [temporary n]) = none
  gone : ∀ x ∈ below place, t'.find? x = none
  directories : ∀ x ∉ below place, t.find? x = some .directory → t'.find? x = some .directory

theorem discard_eq {t : FileTree} (ht : t.Regular) {q : Path} {s : String} (hs : IsEntryName s)
    (h : t.Enters (q.child s)) : discard (q.child s) t = t.eraseAll (t.placeOf q ++ [s]) := by
  rw [discard, (removeDirectory_child_eq_ok ht hs).mpr ⟨h, rfl⟩]

section
variable {dir q entry : Path} {d name : String} (hd : IsEntryName d) (hn : IsEntryName name)
  (hstaging : stagingDirectory (dir.child name) = q.child (stagingName d))
  (houtput : (q.child d).Alike dir)

include hd houtput in
/-- The outputs are not in the staging directory. -/
theorem output_not_below (t : FileTree) (n : String) :
    t.placeOf dir ++ [n] ∉ below (t.placeOf q ++ [stagingName d]) := by
  rw [← placeOf_alike houtput, placeOf_child hd]
  exact not_mem_below (stagingName_ne d).symm

variable {t w c m : FileTree} {compiler : Compiler} {cssBytes mapBytes : ByteArray}
  {artifacts : Artifacts} (hc : compiler.ConfinedTo (q.child (stagingName d)))
  (hw : Staged t w q (stagingName d))
  (hrun : (compiler entry ((q.child (stagingName d)).child name)).on w = (.ok (), c))
  (hcss : c.fileBytes ((q.child (stagingName d)).child name) = .ok cssBytes)
include hd hn hc hw hrun

/-- The compiler leaves everything outside of the staging directory, and the directory itself. -/
theorem find?_compiled {x : Place} (hx : x ∉ inside (t.placeOf q ++ [stagingName d])) :
    c.find? x = w.find? x := by
  have hframe := hc.frame hn hw.regular hrun
  rw [placeOf_child (isEntryName_stagingName hd), placeOf_congr hw.here] at hframe
  exact hframe.same hx

omit hd in
theorem here_compiled : c.here = t.here := (hc.frame hn hw.regular hrun).here.trans hw.here

include hcss houtput

theorem delivered_of_commit
    (hcommit : (commit (dir.child name) cssBytes mapBytes).on c = (.ok artifacts, m)) :
    Delivered t (discard (q.child (stagingName d)) m) dir name (t.placeOf q ++ [stagingName d])
      cssBytes mapBytes := by
  have hs := isEntryName_stagingName hd
  have hregular := hc.regular hn hw.regular hrun
  have hhere := here_compiled hn hc hw hrun
  have hedit := edit_commit hregular hn hcommit
  have henters : m.Enters (q.child (stagingName d)) :=
    hedit.enters ((fileBytes_child_eq_ok hregular hn).mp hcss).1
  have hsame {x : Place} (hx : x ∉ below (t.placeOf q ++ [stagingName d])) :
      (discard (q.child (stagingName d)) m).find? x = m.find? x := by
    rw [discard_eq hedit.regular hs henters, placeOf_congr (hedit.here.trans hhere)]
    exact find?_eraseAll_of_not_isPrefix m hx
  have hfile (n : String) : (discard (q.child (stagingName d)) m).find? (t.placeOf dir ++ [n]) =
      m.find? (t.placeOf dir ++ [n]) := hsame (output_not_below hd houtput t n)
  obtain ⟨-, hcssHeld, hmapHeld⟩ := files_of_commit hregular hn hcommit
  have hfree := free_of_commit hregular hn hcommit
  rw [placeOf_congr hhere] at hcssHeld hmapHeld hfree
  constructor
  case css => rw [held_congr (hfile name), hcssHeld]
  case map => rw [held_congr (hfile _), hmapHeld]
  case free =>
    intro n hmem
    rw [hfile, hfree n hmem]
  case gone =>
    intro x hx
    rw [discard_eq hedit.regular hs henters, placeOf_congr (hedit.here.trans hhere)]
    exact find?_eraseAll_of_mem_below m hx
  case directories =>
    intro x hx hdir
    rw [hsame hx]
    apply hedit.directories
    rw [find?_compiled hd hn hc hw hrun fun hin => hx (inside_subset_below _ hin),
      hw.outside x hx]
    exact hdir

end

/-! ### The second compile -/

/-- Without the staging directory its path can be followed up to there. -/
theorem entersBut_eraseAll {t : FileTree} {q : Path} {s : String} (hs : IsEntryName s)
    (hq : t.Enters q) :
    (t.eraseAll (t.placeOf q ++ [s])).EntersBut (t.placeOf q) s (q.child s) := by
  have hkept {x : Place} (hx : t.find? x = some .directory) :
      x ∈ below (t.placeOf q ++ [s]) ∨
        (t.eraseAll (t.placeOf q ++ [s])).find? x = some .directory := by
    by_cases hmem : x ∈ below (t.placeOf q ++ [s])
    · exact Or.inl hmem
    · right
      rw [find?_eraseAll_of_not_isPrefix t hmem]
      exact hx
  have hplace : (t.eraseAll (t.placeOf q ++ [s])).placeOf (q.child s) = t.placeOf q ++ [s] :=
    placeOf_child hs t q
  constructor
  case above => exact (hkept hq.2).resolve_left (not_mem_below_self _ s)
  case way =>
    intro x hx
    have hx : x ∈ t.trailOf (q.child s) := hx
    rw [trailOf_child hs] at hx
    rcases List.mem_append.mp hx with hx | hself
    · exact hkept (hq.1 x hx)
    · left
      rw [List.mem_singleton.mp hself]
      exact List.prefix_rfl
  case last =>
    left
    rw [hplace]
    exact List.prefix_rfl

/-- An empty staging directory that can be made in one tree can be made in the other one. -/
theorem exists_staged_again {t u w : FileTree} (ht : t.Regular) (hu : u.Regular) {q : Path}
    {s : String} (hs : IsEntryName s) (hq : t.Enters q) (hq' : u.Enters q) (hhere : u.here = t.here)
    (h : (t.eraseAll (t.placeOf q ++ [s])).createDirectories (q.child s) = (.ok (), w)) :
    ∃ v, (u.eraseAll (u.placeOf q ++ [s])).createDirectories (q.child s) = (.ok (), v) ∧
      Staged u v q s := by
  have hplace : u.placeOf q = t.placeOf q := placeOf_congr hhere q
  have hagree := (entersBut_eraseAll hs hq).agreeOn
    (u := u.eraseAll (t.placeOf q ++ [s])) ?_ (ht.eraseAll _) (hu.eraseAll _) hhere ?_
  · have hresult := createDirectories_congr (ht.eraseAll _) hagree
    rw [h, ← hplace] at hresult
    rcases hcreate : (u.eraseAll (u.placeOf q ++ [s])).createDirectories (q.child s) with ⟨r, v⟩
    rw [hcreate] at hresult
    obtain rfl : r = .ok () := hresult
    exact ⟨v, rfl, staged_of_createDirectories hu hs hq' hcreate⟩
  · rw [← hplace]
    exact entersBut_eraseAll hs hq'
  · intro x hx
    rw [find?_eraseAll_of_mem_below t hx, find?_eraseAll_of_mem_below u hx]

/-- The tree `u` that a second compile starts from: it has the source of the first one, which went
from `t` to `t'`, and what that delivered. -/
structure Ready (entry source dir : Path) (name : String) (place : Place) (t t' u : FileTree) :
    Prop where
  regular : u.Regular
  here : u.here = t.here
  enters : u.Enters dir
  entry : u.isFile entry = true
  source : ∀ x ∈ below (t.placeOf source), u.held x = t.held x
  output : ∀ n ∈ written name, u.held (t.placeOf dir ++ [n]) = t'.held (t.placeOf dir ++ [n])
  staging : u.find? place = none ∨ u.find? place = some .directory

/-- As long as nothing happens outside of the staging directory, the outputs are there as the first
compile left them. -/
theorem Ready.output_of_outside {entry source dir q : Path} {d name : String} {t t' u c : FileTree}
    (hu : Ready entry source dir name (t.placeOf q ++ [stagingName d]) t t' u)
    (hd : IsEntryName d) (houtput : (q.child d).Alike dir) (hregular : c.Regular)
    (hhere : c.here = t.here) (hq : c.Enters q)
    (houtside : ∀ x ∉ below (t.placeOf q ++ [stagingName d]), c.find? x = u.find? x) :
    c.Enters dir ∧
      ∀ n ∈ written name, c.held (c.placeOf dir ++ [n]) = t'.held (t.placeOf dir ++ [n]) := by
  obtain ⟨-, hudir⟩ := (enters_child_iff hu.regular hd q).mp ((enters_alike houtput).mpr hu.enters)
  constructor
  · rw [← enters_alike houtput, enters_child_iff hregular hd]
    refine ⟨hq, ?_⟩
    rw [placeOf_congr hhere, houtside _ (self_not_mem_below (stagingName_ne d).symm),
      ← placeOf_congr hu.here]
    exact hudir
  · intro n hn
    rw [placeOf_congr hhere, held_congr (houtside _ (output_not_below hd houtput t n))]
    exact hu.output n hn

/-- So committing the files that were delivered changes nothing. -/
theorem Ready.commit {entry source dir q : Path} {d name : String} {t t' u c : FileTree}
    (hu : Ready entry source dir name (t.placeOf q ++ [stagingName d]) t t' u)
    (hd : IsEntryName d) (hn : IsEntryName name) (houtput : (q.child d).Alike dir)
    {cssBytes mapBytes : ByteArray}
    (hdelivered : Delivered t t' dir name (t.placeOf q ++ [stagingName d]) cssBytes mapBytes)
    (hregular : c.Regular) (hhere : c.here = t.here) (hq : c.Enters q)
    (houtside : ∀ x ∉ below (t.placeOf q ++ [stagingName d]), c.find? x = u.find? x) :
    ∃ m, (Compile.commit (dir.child name) cssBytes mapBytes).on c =
        (.ok ⟨dir.child name, dir.child (name ++ ".map"), Sha256.hex cssBytes.toList,
          cssBytes.size⟩, m) ∧ SameAs c m := by
  obtain ⟨hdir, hfile⟩ := hu.output_of_outside hd houtput hregular hhere hq houtside
  have hmoves : dir.moves ≠ [] := by
    rw [← houtput.2, Path.moves_child q hd]
    simp
  apply commit_again hregular hn hdir hmoves
  · exact (hfile name (by simp [written])).trans hdelivered.css
  · exact (hfile (name ++ ".map") (by simp [written])).trans hdelivered.map
  · intro n hmem
    rw [hfile _ (by rcases List.mem_pair.mp hmem with rfl | rfl <;> simp [written]),
      held_eq_none_iff]
    exact hdelivered.free n hmem

section
variable {entry source staging : Path} {name : String} (hn : IsEntryName name) {compiler : Compiler}
  (hc : compiler.ConfinedTo staging) (hdet : compiler.DeterminedBy source staging)
  {w v c : FileTree} (hsame : SameSource source staging w v)
  (hrun : (compiler entry (staging.child name)).on w = (.ok (), c))
include hn hc hdet hsame hrun

/-- Where the source and the staging directory are the same, the compiler makes the same files. -/
theorem compiled_again {cssBytes mapBytes : ByteArray}
    (hcss : c.fileBytes (staging.child name) = .ok cssBytes)
    (hmap : c.fileBytes (staging.child (name ++ ".map")) = .ok mapBytes) :
    ∃ c', (compiler entry (staging.child name)).on v = (.ok (), c') ∧
      c'.fileBytes (staging.child name) = .ok cssBytes ∧
      c'.fileBytes (staging.child (name ++ ".map")) = .ok mapBytes := by
  rcases hrun' : (compiler entry (staging.child name)).on v with ⟨r, c'⟩
  have hresult : ((compiler entry (staging.child name)).on v).1 =
      ((compiler entry (staging.child name)).on w).1 := hdet.result hn hsame
  have hmade : ∀ x ∈ inside (w.placeOf staging),
      ((compiler entry (staging.child name)).on v).2.held x =
        ((compiler entry (staging.child name)).on w).2.held x := hdet.made hn hsame
  rw [hrun, hrun'] at hresult hmade
  obtain rfl : r = .ok () := hresult
  have hframe := hc.frame hn hsame.regular.1 hrun
  have hframe' := hc.frame hn hsame.regular.2 hrun'
  have hregular := hc.regular hn hsame.regular.1 hrun
  have hregular' := hc.regular hn hsame.regular.2 hrun'
  have hhere : c'.here = c.here := by rw [hframe'.here, hframe.here, hsame.here]
  have henters := ((fileBytes_child_eq_ok hregular hn).mp hcss).1
  rw [placeOf_congr hsame.here] at hframe'
  -- the way to the staging directory is as it was, and what is inside is what was made
  have henters' : c'.Enters staging := by
    refine henters.mono hhere (fun x hx hdir => ?_) (fun _ => ?_)
    · by_cases hin : x ∈ inside (w.placeOf staging)
      · exact find?_directory_of_held (hmade x hin) hdir
      · rw [hframe'.same hin]
        apply hsame.enters.2.1
        rw [trailOf_congr hsame.here, ← trailOf_congr hframe.here]
        exact hx
    · rw [placeOf_congr hframe.here, hframe'.same fun hin => hin.2 rfl,
        ← placeOf_congr hsame.here]
      exact hsame.enters.2.2
  have hfile {n : String} (hmem : IsEntryName n) {contents : ByteArray}
      (h : c.fileBytes (staging.child n) = .ok contents) :
      c'.fileBytes (staging.child n) = .ok contents := by
    obtain ⟨-, x, hfind⟩ := (fileBytes_child_eq_ok hregular hmem).mp h
    rw [placeOf_congr hframe.here] at hfind
    obtain ⟨x', hfind'⟩ := find?_file_of_held (hmade _ ⟨List.prefix_append _ _, by simp⟩) hfind
    refine (fileBytes_child_eq_ok hregular' hmem).mpr ⟨henters', x', ?_⟩
    rw [placeOf_congr (hframe'.here.trans hsame.here)]
    exact hfind'
  exact ⟨c', rfl, hfile hn hcss, hfile (isEntryName_map hn) hmap⟩

end

section
variable {t t' u : FileTree} (ht : t.Regular) {dir q entry source : Path} {d name : String}
  (hd : IsEntryName d) (hn : IsEntryName name)
  (hstaging : stagingDirectory (dir.child name) = q.child (stagingName d))
  (houtput : (q.child d).Alike dir) (hq : t.Enters q)
  {compiler : Compiler} (hc : compiler.ConfinedTo (q.child (stagingName d)))
  {artifacts : Artifacts} (h : (run compiler entry (dir.child name)).on t = (.ok artifacts, t'))
include ht hd hn hstaging houtput hq hc h

/-- A compile that succeeds has delivered what the compiler made. -/
theorem exists_delivered :
    ∃ w c cssBytes mapBytes, t.isFile entry = true ∧
      (t.eraseAll (t.placeOf q ++ [stagingName d])).createDirectories (q.child (stagingName d)) =
        (.ok (), w) ∧ Staged t w q (stagingName d) ∧
      (compiler entry ((q.child (stagingName d)).child name)).on w = (.ok (), c) ∧
      c.fileBytes ((q.child (stagingName d)).child name) = .ok cssBytes ∧
      c.fileBytes ((q.child (stagingName d)).child (name ++ ".map")) = .ok mapBytes ∧
      artifacts = ⟨dir.child name, dir.child (name ++ ".map"), Sha256.hex cssBytes.toList,
        cssBytes.size⟩ ∧
      Delivered t t' dir name (t.placeOf q ++ [stagingName d]) cssBytes mapBytes := by
  have hs := isEntryName_stagingName hd
  obtain ⟨w, m, hprepare, hstage, hend⟩ := run_eq_ok.mp h
  rw [hstaging] at hprepare hstage hend
  obtain ⟨hentry, -, hcreate⟩ := (prepare_eq_ok ht hs hq).mp hprepare
  have hw := staged_of_createDirectories ht hs hq hcreate
  obtain ⟨c, cssBytes, mapBytes, hrun, hcss, hmap, hcommit⟩ := (stage_eq_ok hn).mp hstage
  have hartifacts := (files_of_commit (hc.regular hn hw.regular hrun) hn hcommit).1
  have hdelivered := delivered_of_commit hd hn houtput hc hw hrun hcss hcommit
  rw [← hend] at hdelivered
  exact ⟨w, c, cssBytes, mapBytes, hentry, hcreate, hw, hrun, hcss, hmap, hartifacts, hdelivered⟩

/-- **Compiling again** succeeds with the same result.  The staging directory is gone then, and
everything else is as before. -/
theorem run_again (hdet : compiler.DeterminedBy source (q.child (stagingName d)))
    (hapart : ∀ x ∈ below (t.placeOf source), x ∉ below (t.placeOf q ++ [stagingName d]))
    (hu : Ready entry source dir name (t.placeOf q ++ [stagingName d]) t t' u) :
    ∃ u', (run compiler entry (dir.child name)).on u = (.ok artifacts, u') ∧ u'.Regular ∧
      u'.here = u.here ∧ (∀ x ∈ below (t.placeOf q ++ [stagingName d]), u'.find? x = none) ∧
      ∀ x ∉ below (t.placeOf q ++ [stagingName d]), u'.held x = u.held x := by
  have hs := isEntryName_stagingName hd
  obtain ⟨w, c, cssBytes, mapBytes, -, hcreate, hw, hrun, hcss, hmap, rfl, hdelivered⟩ :=
    exists_delivered ht hd hn hstaging houtput hq hc h
  have huq := ((enters_child_iff hu.regular hd q).mp ((enters_alike houtput).mpr hu.enters)).1
  obtain ⟨v, hcreate', hv⟩ := exists_staged_again ht hu.regular hs hq huq hu.here hcreate
  have hsame := hw.sameSource hs hv hu.here hapart hu.source
  obtain ⟨c', hrun', hcss', hmap'⟩ := compiled_again hn hc hdet hsame hrun hcss hmap
  have hregular' := hc.regular hn hv.regular hrun'
  have hhere' : c'.here = t.here := (here_compiled hn hc hv hrun').trans hu.here
  have henters' := ((fileBytes_child_eq_ok hregular' hn).mp hcss').1
  -- so far nothing has happened outside of the staging directory
  have hplace : u.placeOf q = t.placeOf q := placeOf_congr hu.here q
  have houtside : ∀ x ∉ below (t.placeOf q ++ [stagingName d]), c'.find? x = u.find? x := by
    intro x hx
    rw [← hplace] at hx
    rw [find?_compiled hd hn hc hv hrun' fun hin => hx (inside_subset_below _ hin),
      hv.outside x hx]
  obtain ⟨m, hcommit, hm⟩ := hu.commit hd hn houtput hdelivered hregular' hhere'
    ((enters_child_iff hregular' hs q).mp henters').1 houtside
  have hdiscard := discard_eq hm.regular hs (hm.enters henters')
  rw [placeOf_congr (hm.here.trans hhere')] at hdiscard
  refine ⟨discard (q.child (stagingName d)) m, run_eq_ok.mpr ⟨v, m, ?_, ?_, ?_⟩, ?_, ?_, ?_, ?_⟩
  · rw [hstaging, prepare_eq_ok hu.regular hs huq, hplace]
    rw [hplace] at hcreate'
    exact ⟨hu.entry, hu.staging, hcreate'⟩
  · rw [hstaging, stage_eq_ok hn]
    exact ⟨c', cssBytes, mapBytes, hrun', hcss', hmap', hcommit⟩
  · rw [hstaging]
  · rw [hdiscard]
    exact hm.regular.eraseAll _
  · rw [hdiscard]
    exact (hm.here.trans hhere').trans hu.here.symm
  · intro x hx
    rw [hdiscard]
    exact find?_eraseAll_of_mem_below m hx
  · intro x hx
    rw [hdiscard, held_congr (find?_eraseAll_of_not_isPrefix m hx), hm.held,
      held_congr (houtside x hx)]

end

end Compile

end TokenSheets
