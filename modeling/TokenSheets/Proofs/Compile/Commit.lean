/-
TokenSheets/Proofs/Compile/Commit.lean

Committing a stylesheet and its map.

A commit goes through four steps: it creates the output directory, looks at the
map that is there, replaces the map, and replaces the stylesheet.  Wherever it
stops, both files are as before or both are new (`held_commit_of_error`,
`files_of_commit`).  Only the last step has something to undo, and there the undoing
cannot fail: the output directory can be entered, the map is a file, and its
temporary sibling has just been moved away.
-/
import TokenSheets.Compile
import TokenSheets.Proofs.FileTree.Task

namespace TokenSheets

open FileTree Outcome

namespace Compile

/-! ### Names -/

section
variable {name : String} (hn : IsEntryName name)
include hn

/-- The source map is a name in the directory of the stylesheet. -/
theorem mapPath_child (p : Path) : mapPath (p.child name) = p.child (name ++ ".map") :=
  p.append_child hn ".map"

theorem isEntryName_map : IsEntryName (name ++ ".map") := hn.append (by decide) (by decide)

theorem outputDirectory_alike (p : Path) : (outputDirectory (p.child name)).Alike p := by
  obtain ⟨q, hq, halike⟩ := p.parent?_child hn
  rw [outputDirectory, hq]
  exact halike

end

/-- The names that a commit may write in its directory: the files and their temporary siblings. -/
def written (name : String) : List String :=
  [name, temporary name, name ++ ".map", temporary (name ++ ".map")]

/-- The places that a commit may write. -/
def targets (t : FileTree) (p : Path) (name : String) : Set Place :=
  {q | ∃ n ∈ written name, q = t.placeOf p ++ [n]}

theorem targets_congr {t t' : FileTree} (h : t'.here = t.here) (p : Path) (name : String) :
    targets t' p name = targets t p name := by
  rw [targets, targets, placeOf_congr h]

/-- All four names are different, since none is as long as another. -/
theorem written_apart (name : String) :
    (name ≠ temporary name ∧ name ≠ name ++ ".map" ∧ name ≠ temporary (name ++ ".map")) ∧
      (temporary name ≠ name ++ ".map" ∧ temporary name ≠ temporary (name ++ ".map")) ∧
      name ++ ".map" ≠ temporary (name ++ ".map") := by
  have hnodup : (written name).Nodup := by
    refine List.Nodup.of_map (fun s => s.toList.length) ?_
    simp [written, temporary]
    omega
  simpa only [written, List.nodup_cons, List.mem_cons, List.not_mem_nil, or_false, not_or,
    List.nodup_nil, and_true, not_false_eq_true] using hnodup

/-- In a directory the places of different names are different. -/
theorem place_not_mem {front : Place} {a b c : String} (hb : a ≠ b) (hc : a ≠ c) :
    front ++ [a] ∉ ({front ++ [b], front ++ [c]} : Set Place) := by
  rintro (h | h)
  · exact hb (by simpa using h)
  · exact hc (by simpa using h)

/-! ### The map that was there before -/

section
variable {t : FileTree} (ht : t.Regular) {name : String} (hn : IsEntryName name) {p : Path}
include ht hn

/-- What is remembered of the map is what there is. -/
theorem held_of_previousMap (hp : t.Enters p) {previous : Option ByteArray}
    (h : previousMap t (p.child name) = .ok previous) :
    t.held (t.placeOf p ++ [name]) = previous.map fun contents => .file contents false := by
  rw [previousMap, fileBytes_child ht hn hp] at h
  rw [held]
  cases hfind : t.find? (t.placeOf p ++ [name]) with
  | none =>
    rw [hfind] at h
    rw [← Except.ok.inj h]
    rfl
  | some e =>
    rw [hfind] at h
    cases e with
    | file contents executable =>
      rw [← Except.ok.inj h]
      rfl
    | directory => cases h
    | link target => cases h

theorem edit_restoreMap (previous : Option ByteArray) :
    Edit {t.placeOf p ++ [name], t.placeOf p ++ [temporary name]} ∅ t
      (restoreMap (p.child name) previous t) := by
  cases previous with
  | some contents => exact edit_replaceFile ht hn p contents
  | none =>
    rw [restoreMap]
    split
    · rename_i t' hremove
      have hedit := edit_removeFile ht hremove
      rw [placeOf_child hn] at hedit
      exact hedit.mono (Set.singleton_subset_iff.mpr (Set.mem_insert _ _)) subset_rfl
    · exact Edit.refl ht

/-- A new map can always be taken back. -/
theorem held_restoreMap (hp : t.Enters p) {contents : ByteArray} {executable : Bool}
    (hmap : t.find? (t.placeOf p ++ [name]) = some (.file contents executable))
    (hfree : t.find? (t.placeOf p ++ [temporary name]) ≠ some .directory)
    (previous : Option ByteArray) :
    (restoreMap (p.child name) previous t).held (t.placeOf p ++ [name]) =
      previous.map fun contents => .file contents false := by
  have hdir : t.find? (t.placeOf p ++ [name]) ≠ some .directory := by
    rw [hmap]
    simp
  cases previous with
  | some old =>
    have hreplace : (t.replaceFile (p.child name) old).1 = .ok () :=
      replaceFile_eq_ok ht hn p hp hfree hdir
    obtain ⟨-, ⟨x, hx⟩, -⟩ := of_replaceFile_ok ht hn p hreplace
    exact held_of_find? hx
  | none =>
    have hremove := (removeFile_child_eq_ok ht hn).mpr ⟨hp, ⟨_, _, hmap⟩, rfl⟩
    rw [restoreMap, hremove, held, find?_erase_self t (by simp)]
    rfl

end

/-! ### The ways a commit can end -/

/-- The tree with the output directory. -/
def opened (t : FileTree) (css : Path) : FileTree := (t.createDirectories (outputDirectory css)).2

/-- The tree with the output directory and the new map. -/
def mapped (t : FileTree) (css : Path) (mapBytes : ByteArray) : FileTree :=
  ((opened t css).replaceFile (mapPath css) mapBytes).2

/-- The tree with the output directory, the new map and the new stylesheet. -/
def finished (t : FileTree) (css : Path) (cssBytes mapBytes : ByteArray) : FileTree :=
  ((mapped t css mapBytes).replaceFile css cssBytes).2

/-- A commit stops before it writes, or at the map, or at the stylesheet and takes the map back, or
it gets to its end. -/
inductive CommitEnds (t : FileTree) (css : Path) (cssBytes mapBytes : ByteArray) :
    Except CompileError Artifacts → FileTree → Prop
  | unopened {e} : CommitEnds t css cssBytes mapBytes (.error e) (opened t css)
  | unmapped {e e'}
      (hfail : ((opened t css).replaceFile (mapPath css) mapBytes).1 = .error e') :
      CommitEnds t css cssBytes mapBytes (.error e) (mapped t css mapBytes)
  | undone {e e' previous} (hdir : (t.createDirectories (outputDirectory css)).1 = .ok ())
      (hprevious : previousMap (opened t css) (mapPath css) = .ok previous)
      (hmap : ((opened t css).replaceFile (mapPath css) mapBytes).1 = .ok ())
      (hfail : ((mapped t css mapBytes).replaceFile css cssBytes).1 = .error e') :
      CommitEnds t css cssBytes mapBytes (.error e)
        (restoreMap (mapPath css) previous (finished t css cssBytes mapBytes))
  | done (hmap : ((opened t css).replaceFile (mapPath css) mapBytes).1 = .ok ())
      (hcss : ((mapped t css mapBytes).replaceFile css cssBytes).1 = .ok ()) :
      CommitEnds t css cssBytes mapBytes
        (.ok ⟨css, mapPath css, Sha256.hex cssBytes.toList, cssBytes.size⟩)
        (finished t css cssBytes mapBytes)

theorem ends_of_commit {t t' : FileTree} {css : Path} {cssBytes mapBytes : ByteArray}
    {r : Except CompileError Artifacts} (h : (commit css cssBytes mapBytes).on t = (r, t')) :
    CommitEnds t css cssBytes mapBytes r t' := by
  rcases Task.on_bind_cases h with ⟨e, hdir, rfl⟩ | ⟨⟨⟩, t₁, hdir, h⟩
  · obtain ⟨d, hdir, -⟩ := Task.on_perform_eq_error.mp hdir
    obtain rfl : opened t css = t' := congrArg Prod.snd hdir
    exact .unopened
  rw [Task.on_perform_eq_ok] at hdir
  obtain rfl : opened t css = t₁ := congrArg Prod.snd hdir
  rcases Task.on_bind_cases h with ⟨e, hlook, rfl⟩ | ⟨previous, t₂, hlook, h⟩
  · obtain ⟨-, rfl⟩ := Prod.mk.inj (Task.on_tryLook .. ▸ hlook)
    exact .unopened
  obtain ⟨hprevious, rfl⟩ := Prod.mk.inj (Task.on_tryLook .. ▸ hlook)
  rcases Task.on_bind_cases h with ⟨e, hmap, rfl⟩ | ⟨⟨⟩, t₂, hmap, h⟩
  · obtain ⟨d, hmap, -⟩ := Task.on_perform_eq_error.mp hmap
    obtain rfl : mapped t css mapBytes = t' := congrArg Prod.snd hmap
    exact .unmapped (congrArg Prod.fst hmap)
  rw [Task.on_perform_eq_ok] at hmap
  obtain rfl : mapped t css mapBytes = t₂ := congrArg Prod.snd hmap
  rw [Task.on_bind, Task.on_perform] at h
  rcases hcss : (mapped t css mapBytes).replaceFile css cssBytes with ⟨e | ⟨⟩, t₃⟩
  · have hfinished : finished t css cssBytes mapBytes = t₃ := by rw [finished, hcss]
    rw [hcss] at h
    obtain ⟨rfl, rfl⟩ := Prod.mk.inj h
    rw [← hfinished]
    exact .undone (congrArg Prod.fst hdir) hprevious (congrArg Prod.fst hmap) (by rw [hcss])
  · have hfinished : finished t css cssBytes mapBytes = t₃ := by rw [finished, hcss]
    rw [hcss] at h
    obtain ⟨rfl, rfl⟩ := Prod.mk.inj h
    rw [← hfinished]
    exact .done (congrArg Prod.fst hmap) (by rw [hcss])

/-! ### What is touched -/

section
variable {t : FileTree} (ht : t.Regular) {name : String} (hn : IsEntryName name) {p : Path}
  {cssBytes mapBytes : ByteArray}
include ht hn

theorem edit_opened : Edit ∅ (t.way p) t (opened t (p.child name)) := by
  rw [← way_alike (outputDirectory_alike hn p)]
  exact edit_createDirectories ht _

theorem enters_opened (hp : p.moves ≠ [])
    (h : (t.createDirectories (outputDirectory (p.child name))).1 = .ok ()) :
    (opened t (p.child name)).Enters p := by
  have halike := outputDirectory_alike hn p
  rw [← enters_alike halike]
  exact enters_of_createDirectories ht (by rw [halike.2]; exact hp) h

/-! #### The map -/

theorem edit_mapped (mapBytes : ByteArray) :
    Edit {t.placeOf p ++ [name ++ ".map"], t.placeOf p ++ [temporary (name ++ ".map")]} ∅
      (opened t (p.child name)) (mapped t (p.child name) mapBytes) := by
  have hopened := edit_opened ht hn (p := p)
  rw [mapped, mapPath_child hn, ← placeOf_congr hopened.here]
  exact edit_replaceFile hopened.regular (isEntryName_map hn) p mapBytes

theorem edit_mapped_of_error {e : IoError}
    (h : ((opened t (p.child name)).replaceFile (mapPath (p.child name)) mapBytes).1 = .error e) :
    Edit {t.placeOf p ++ [temporary (name ++ ".map")]} ∅
      (opened t (p.child name)) (mapped t (p.child name) mapBytes) := by
  have hopened := edit_opened ht hn (p := p)
  rw [mapped, mapPath_child hn, ← placeOf_congr hopened.here]
  rw [mapPath_child hn] at h
  exact edit_replaceFile_of_error hopened.regular (isEntryName_map hn) p h

theorem of_mapped
    (h : ((opened t (p.child name)).replaceFile (mapPath (p.child name)) mapBytes).1 = .ok ()) :
    (∃ x, (mapped t (p.child name) mapBytes).find? (t.placeOf p ++ [name ++ ".map"]) =
        some (.file mapBytes x)) ∧
      (mapped t (p.child name) mapBytes).find? (t.placeOf p ++ [temporary (name ++ ".map")]) =
        none := by
  have hopened := edit_opened ht hn (p := p)
  rw [mapped, mapPath_child hn, ← placeOf_congr hopened.here]
  rw [mapPath_child hn] at h
  exact (of_replaceFile_ok hopened.regular (isEntryName_map hn) p h).2

/-! #### The stylesheet -/

theorem placeOf_mapped (mapBytes : ByteArray) :
    (mapped t (p.child name) mapBytes).placeOf p = t.placeOf p :=
  placeOf_congr ((edit_mapped ht hn mapBytes).here.trans (edit_opened ht hn).here) p

theorem edit_finished (cssBytes mapBytes : ByteArray) :
    Edit {t.placeOf p ++ [name], t.placeOf p ++ [temporary name]} ∅
      (mapped t (p.child name) mapBytes) (finished t (p.child name) cssBytes mapBytes) := by
  rw [finished, ← placeOf_mapped ht hn mapBytes]
  exact edit_replaceFile (edit_mapped ht hn mapBytes).regular hn p cssBytes

theorem edit_finished_of_error {e : IoError}
    (h : ((mapped t (p.child name) mapBytes).replaceFile (p.child name) cssBytes).1 = .error e) :
    Edit {t.placeOf p ++ [temporary name]} ∅
      (mapped t (p.child name) mapBytes) (finished t (p.child name) cssBytes mapBytes) := by
  rw [finished, ← placeOf_mapped ht hn mapBytes]
  exact edit_replaceFile_of_error (edit_mapped ht hn mapBytes).regular hn p h

theorem of_finished
    (h : ((mapped t (p.child name) mapBytes).replaceFile (p.child name) cssBytes).1 = .ok ()) :
    ∃ x, (finished t (p.child name) cssBytes mapBytes).find? (t.placeOf p ++ [name]) =
      some (.file cssBytes x) := by
  rw [finished, ← placeOf_mapped ht hn mapBytes]
  exact (of_replaceFile_ok (edit_mapped ht hn mapBytes).regular hn p h).2.1

/-! #### The whole commit -/

theorem edit_commit {t' : FileTree} {r : Except CompileError Artifacts}
    (h : (commit (p.child name) cssBytes mapBytes).on t = (r, t')) :
    Edit (targets t p name) (t.way p) t t' := by
  have hpair {n : String} (hfile : n ∈ written name) (hsibling : temporary n ∈ written name) :
      {t.placeOf p ++ [n], t.placeOf p ++ [temporary n]} ⊆ targets t p name := by
    rintro q (rfl | rfl)
    · exact ⟨n, hfile, rfl⟩
    · exact ⟨temporary n, hsibling, rfl⟩
  have hcss := hpair (n := name) (by simp [written]) (by simp [written])
  have hmap := hpair (n := name ++ ".map") (by simp [written]) (by simp [written])
  have hopened : Edit (targets t p name) (t.way p) t (opened t (p.child name)) :=
    (edit_opened ht hn).mono (Set.empty_subset _) subset_rfl
  have hmapped := hopened.trans
    ((edit_mapped ht hn mapBytes).mono hmap (Set.empty_subset _))
  have hfinished := hmapped.trans
    ((edit_finished ht hn cssBytes mapBytes).mono hcss (Set.empty_subset _))
  cases ends_of_commit h with
  | unopened => exact hopened
  | unmapped => exact hmapped
  | @undone _ _ previous =>
    have hrestored := edit_restoreMap hfinished.regular (isEntryName_map hn) (p := p) previous
    rw [placeOf_congr hfinished.here] at hrestored
    rw [mapPath_child hn]
    exact hfinished.trans (hrestored.mono hmap (Set.empty_subset _))
  | done => exact hfinished

end

/-! ### Both files or none -/

section
variable {t t' : FileTree} (ht : t.Regular) {name : String} (hn : IsEntryName name) {p : Path}
  {cssBytes mapBytes : ByteArray}
include ht hn

/-- After a success both files have their new contents. -/
theorem files_of_commit {artifacts : Artifacts}
    (h : (commit (p.child name) cssBytes mapBytes).on t = (.ok artifacts, t')) :
    artifacts = ⟨p.child name, p.child (name ++ ".map"), Sha256.hex cssBytes.toList,
        cssBytes.size⟩ ∧
      t'.held (t.placeOf p ++ [name]) = some (.file cssBytes false) ∧
      t'.held (t.placeOf p ++ [name ++ ".map"]) = some (.file mapBytes false) := by
  obtain ⟨⟨-, hmapName, -⟩, ⟨hmapTemp, -⟩, -⟩ := written_apart name
  cases ends_of_commit h with
  | done hmap hcss =>
    obtain ⟨x, hx⟩ := of_finished ht hn hcss
    obtain ⟨⟨y, hy⟩, -⟩ := of_mapped ht hn hmap
    refine ⟨?_, held_of_find? hx, held_of_find? (e := .file mapBytes y) ?_⟩
    · rw [mapPath_child hn]
    · -- writing the stylesheet leaves the map alone
      refine (edit_finished ht hn cssBytes mapBytes).find?_of_eq_some ?_ hy
      exact place_not_mem (Ne.symm hmapName) (Ne.symm hmapTemp)

/-- If the stylesheet cannot take its place, undoing gives both files back as they were when the
output directory was there. -/
theorem held_undone (henters : (opened t (p.child name)).Enters p) {previous : Option ByteArray}
    (hprevious : previousMap (opened t (p.child name)) (mapPath (p.child name)) = .ok previous)
    (hmapped : ((opened t (p.child name)).replaceFile (mapPath (p.child name)) mapBytes).1 =
      .ok ()) {e : IoError}
    (hfailed : ((mapped t (p.child name) mapBytes).replaceFile (p.child name) cssBytes).1 =
      .error e) :
    ∀ n ∈ [name, name ++ ".map"],
      (restoreMap (p.child (name ++ ".map")) previous
          (finished t (p.child name) cssBytes mapBytes)).held (t.placeOf p ++ [n]) =
        (opened t (p.child name)).held (t.placeOf p ++ [n]) := by
  obtain ⟨⟨hname, hnameMap, hnameTemp⟩, ⟨hmapTemp, htemps⟩, -⟩ := written_apart name
  have hopened := edit_opened ht hn (p := p)
  have hmap := edit_mapped ht hn mapBytes (p := p)
  have hcss := edit_finished_of_error ht hn hfailed
  have hplace := placeOf_congr (hcss.here.trans (hmap.here.trans hopened.here)) p
  intro n hmem
  rcases List.mem_pair.mp hmem with rfl | rfl
  · -- the stylesheet is no part of the undoing, and its attempt touched a sibling only
    have hrestored := edit_restoreMap hcss.regular (isEntryName_map hn) (p := p) previous
    rw [hplace] at hrestored
    apply held_congr
    rw [hrestored.same (place_not_mem hnameMap hnameTemp), hcss.same (by simpa using hname),
      hmap.same (place_not_mem hnameMap hnameTemp)]
  · -- the new map is still there and its sibling is gone, so the undoing works
    obtain ⟨⟨x, hx⟩, hfree⟩ := of_mapped ht hn hmapped
    have hstill := hcss.find?_of_eq_some (q := t.placeOf p ++ [name ++ ".map"])
      (by simpa using Ne.symm hmapTemp) hx
    have hgone := hcss.same (q := t.placeOf p ++ [temporary (name ++ ".map")])
      (by simpa using Ne.symm htemps)
    have hback := held_restoreMap hcss.regular (isEntryName_map hn)
      (hcss.enters (hmap.enters henters)) (by rw [hplace]; exact hstill)
      (by rw [hplace, hgone, hfree]; simp) previous
    have hbefore := held_of_previousMap hopened.regular (isEntryName_map hn) henters
      (by rw [← mapPath_child hn]; exact hprevious)
    rw [hplace] at hback
    rw [placeOf_congr hopened.here] at hbefore
    rw [hback, ← hbefore]

/-- After a failure both files are as before, unless the output directory itself leads through
one that was not there. -/
theorem held_commit_of_error (hp : p.moves ≠ [])
    (hway : ∀ n ∈ [name, name ++ ".map"], t.placeOf p ++ [n] ∈ t.way p →
      t.find? (t.placeOf p ++ [n]) ≠ none) {e : CompileError}
    (h : (commit (p.child name) cssBytes mapBytes).on t = (.error e, t')) :
    ∀ n ∈ [name, name ++ ".map"], t'.held (t.placeOf p ++ [n]) = t.held (t.placeOf p ++ [n]) := by
  have hopened := edit_opened ht hn (p := p)
  -- creating the output directory changes neither file
  have hsame : ∀ n ∈ [name, name ++ ".map"],
      (opened t (p.child name)).find? (t.placeOf p ++ [n]) = t.find? (t.placeOf p ++ [n]) :=
    fun n hn => hopened.find?_eq (Set.notMem_empty _) (hway n hn)
  intro n hmem
  cases ends_of_commit h with
  | unopened => exact held_congr (hsame n hmem)
  | unmapped hfail =>
    have hne : n ≠ temporary (name ++ ".map") := by
      obtain ⟨⟨-, -, hname⟩, -, hmap⟩ := written_apart name
      rcases List.mem_pair.mp hmem with rfl | rfl
      · exact hname
      · exact hmap
    have hedit := edit_mapped_of_error ht hn hfail
    exact held_congr ((hedit.same (by simpa using hne)).trans (hsame n hmem))
  | undone hdir hprevious hmap hfail =>
    have henters := enters_opened ht hn hp hdir
    rw [mapPath_child hn, held_undone ht hn henters hprevious hmap hfail n hmem]
    exact held_congr (hsame n hmem)

end

end Compile

end TokenSheets
