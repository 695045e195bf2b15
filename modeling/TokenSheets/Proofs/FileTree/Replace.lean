/-
TokenSheets/Proofs/FileTree/Replace.lean

Replacing a file at any path with a last name.

A path need not end in its last name: separators and dots may follow.  Such a path
asks for a directory, so a file can never be given that name, and the sibling that was
written is removed again.  A path that is spelled to its end (`Path.EndsInName`) is
treated like the name in its parent by every operation (`Path.Stands`), and so is the
replacement of its file.

Either way one of two things happens.  If the name is free (`Free`), the path
has the new contents and the sibling is gone (`Replaces`); if not, nothing is as much as
touched but the sibling, and that is gone or as it was (`Keeps`).
-/
import TokenSheets.Proofs.FileTree.Links
import TokenSheets.Proofs.FileTree.Agreement

namespace TokenSheets

open Outcome

/-! ### A path and its last name -/

namespace Path

/-- The path is spelled with this name at its end. -/
def EndsInName (p : Path) (name : String) : Prop :=
  p.endsInSlash = false ∧ p.steps.getLast? = some name

instance (p : Path) (name : String) : Decidable (p.EndsInName name) :=
  inferInstanceAs (Decidable (p.endsInSlash = false ∧ p.steps.getLast? = some name))

section
variable {p q : Path} {name : String} (hname : p.fileName? = some name)
include hname

/-- A path with a last name has a parent. -/
theorem exists_parent?_of_fileName? : ∃ q, p.parent? = some q := by
  obtain ⟨q, hq, -, -⟩ := parent?_of_getLast? (fileName?_eq_some_iff.mp hname).1
  exact ⟨q, hq⟩

variable (hq : p.parent? = some q)
include hq

/-- It leads where that name in its parent leads. -/
theorem alike_child_of_parent? : (q.child name).Alike p := by
  have hn := isEntryName_of_fileName? hname
  obtain ⟨q', hq', habsolute, hmoves⟩ := parent?_of_getLast? (fileName?_eq_some_iff.mp hname).1
  obtain rfl : q' = q := Option.some.inj (hq'.symm.trans hq)
  constructor
  · rw [q'.isAbsolute_child hn, habsolute]
  · rw [q'.moves_child hn, hmoves]

/-- Its siblings are names in its parent. -/
theorem withFileName_eq_child (other : String) : p.withFileName other = q.child other := by
  rw [withFileName, hname, hq]
  rfl

end

/-- Every operation on files treats the two paths alike. -/
structure Stands (p q : Path) : Prop where
  locate : ∀ (t : FileTree) (follow : Bool), t.locate follow p = t.locate follow q
  slash : p.endsInSlash = q.endsInSlash

/-- The same name in directories that are spelled otherwise. -/
theorem stands_child {p q : Path} (h : p.Alike q) {name : String} (hn : IsEntryName name) :
    (p.child name).Stands (q.child name) where
  locate t follow := by
    rw [FileTree.locate_child_eq_walk hn, FileTree.locate_child_eq_walk hn, FileTree.start,
      FileTree.start, h.1, h.2]
  slash := by rw [p.endsInSlash_child hn, q.endsInSlash_child hn]

theorem EndsInName.stands {p q : Path} {name : String} (h : p.EndsInName name)
    (hname : p.fileName? = some name) (hq : p.parent? = some q) : p.Stands (q.child name) where
  locate t follow := FileTree.locate_of_getLast?_steps hname hq h.1 h.2 t follow
  slash := by rw [h.1, q.endsInSlash_child (isEntryName_of_fileName? hname)]

namespace Stands

variable {p q : Path} (h : p.Stands q) (t : FileTree)
include h

theorem writeFile (contents : ByteArray) : t.writeFile p contents = t.writeFile q contents := by
  rw [FileTree.writeFile, FileTree.writeFile, h.locate, h.slash]

theorem removeFile : t.removeFile p = t.removeFile q := by
  rw [FileTree.removeFile, FileTree.removeFile, h.locate, h.slash]

theorem rename {p' q' : Path} (h' : p'.Stands q') : t.rename p p' = t.rename q q' := by
  rw [FileTree.rename, FileTree.rename, h.locate, h.slash, h'.locate, h'.slash]

theorem fileBytes : t.fileBytes p = t.fileBytes q := by
  rw [FileTree.fileBytes, FileTree.fileBytes, FileTree.stat, FileTree.stat, h.locate, h.slash]

end Stands

end Path

namespace FileTree

/-! ### Both kinds of paths -/

section
variable {t : FileTree} {p q : Path} {name : String} (hname : p.fileName? = some name)
  (hq : p.parent? = some q)
include hname hq

/-- The file of a path that ends in its name is replaced like that name in its directory. -/
theorem replaceFile_of_endsInName (hend : p.EndsInName name) (t : FileTree)
    (contents : ByteArray) : t.replaceFile p contents = t.replaceFile (q.child name) contents := by
  have hn := Path.isEntryName_of_fileName? hname
  have hs := isEntryName_temporary hn
  obtain ⟨parent, halike, hsibling, -⟩ := q.withFileName_child hn (temporary name)
  have hstands : (q.child (temporary name)).Stands (parent.child (temporary name)) :=
    Path.stands_child ⟨halike.1.symm, halike.2.symm⟩ hs
  rw [replaceFile, replaceFile, hname, Path.fileName?_child q hn]
  simp only [Path.withFileName_eq_child hname hq, hsibling, hstands.writeFile, hstands.removeFile,
    fun u => hstands.rename u (hend.stands hname hq)]

omit hq in
/-- A file can take the name of a path only if the path ends in that name. -/
theorem endsInName_of_rename {old : Path} {t' : FileTree} (h : t.rename old p = .ok t') :
    p.EndsInName name := by
  obtain ⟨source, target, e, -, htarget, -, hdir, hslash, -⟩ := exists_of_rename h
  refine ⟨hslash, ?_⟩
  rcases steps_of_fileName? hname with hdot | ⟨front, hsteps⟩
  · rw [locate, hslash] at htarget
    split at htarget
    · cases htarget
    · exact absurd (find?_of_walk_dot hdot htarget) hdir
  · rw [hsteps, List.getLast?_concat]

/-- If it does not, the sibling is not even written, or it is written and removed. -/
theorem replaceFile_of_not_endsInName (ht : t.Regular) (hend : ¬ p.EndsInName name)
    (contents : ByteArray) :
    ∃ e, t.replaceFile p contents = (.error e, t) ∨
      (t.Enters q ∧ t.find? (t.placeOf q ++ [temporary name]) ≠ some .directory ∧
        t.replaceFile p contents =
          (.error e, (t.written (t.placeOf q ++ [temporary name]) contents).erase
            (t.placeOf q ++ [temporary name]))) := by
  have hs := isEntryName_temporary (Path.isEntryName_of_fileName? hname)
  rw [replaceFile, hname]
  simp only [Path.withFileName_eq_child hname hq]
  cases hwrite : t.writeFile (q.child (temporary name)) contents with
  | error e => exact ⟨.os e, .inl rfl⟩
  | ok written =>
    obtain ⟨hp, hfree, rfl⟩ := (writeFile_child_eq_ok ht hs).mp hwrite
    have hedit := edit_putFile ht hs hp.2 hfree contents
      (t.isExecutable (t.placeOf q ++ [temporary name]))
    have hplace := placeOf_congr hedit.here q
    have hremove := (removeFile_child_eq_ok hedit.regular hs).mpr
      ⟨hedit.enters hp, ⟨_, _, by rw [hplace]; exact find?_put_self t (by simp) _⟩, rfl⟩
    rw [hplace] at hremove
    cases hrename : (t.put (t.placeOf q ++ [temporary name]) (.file contents
        (t.isExecutable (t.placeOf q ++ [temporary name])))).rename
        (q.child (temporary name)) p with
    | ok renamed => exact absurd (endsInName_of_rename hname hrename) hend
    | error e =>
      refine ⟨.os e, .inr ⟨hp, hfree, ?_⟩⟩
      simp only [hrename, hremove]
      rfl

end

/-! ### What is left -/

/-- Nothing is in the way of a file that is to be replaced: the path ends in its name, its directory
can be entered, and there is no directory where the file or its sibling goes. -/
structure Free (t : FileTree) (p : Path) (name : String) : Prop where
  ends : p.EndsInName name
  enters : ∃ q, p.parent? = some q ∧ t.Enters q
  file : t.find? (t.placeOf p) ≠ some .directory
  sibling : t.find? (t.placeOf (p.withFileName (temporary name))) ≠ some .directory

/-- The path has the contents, its sibling is gone, and the rest is as it was. -/
structure Replaces (p sibling : Path) (contents : ByteArray) (t t' : FileTree) : Prop where
  holds : t'.fileBytes p = .ok contents
  gone : t'.exists? sibling = false ∧ t'.find? (t.placeOf sibling) = none
  here : t'.here = t.here
  others : ∀ x, x ≠ t.placeOf p → x ≠ t.placeOf sibling → t'.find? x = t.find? x

/-- All but the sibling is as it was, and the sibling is no other than it was, if it is there. -/
structure Keeps (p sibling : Path) (t t' : FileTree) : Prop where
  path : t'.stat p = t.stat p
  here : t'.here = t.here
  others : ∀ x, x ≠ t.placeOf sibling → t'.find? x = t.find? x
  nothingNew : t'.find? (t.placeOf sibling) = none ∨
    t'.find? (t.placeOf sibling) = t.find? (t.placeOf sibling)

section
variable {t t' : FileTree} (ht : t.Regular) {p q : Path} {name : String}
  (hname : p.fileName? = some name) (hq : p.parent? = some q)

include hname hq

theorem placeOf_of_parent? (t : FileTree) : t.placeOf p = t.placeOf q ++ [name] := by
  rw [← placeOf_alike (Path.alike_child_of_parent? hname hq),
    placeOf_child (Path.isEntryName_of_fileName? hname)]

/-- A path passes directories only, if its parent can be entered, up to where it leads. -/
theorem directory_of_mem_passes (ht : t.Regular) (hp : t.Enters q) {x : Place}
    (hx : x ∈ t.passes p) : x = t.placeOf p ∨ t.find? x = some .directory := by
  have habove {y : Place} (hxy : x <+: y) (hy : t.find? y = some .directory) :
      t.find? x = some .directory := by
    by_cases heq : x = y
    · rw [heq, hy]
    · exact ht.directory_of_isPrefix hxy heq hy
  rcases Place.isPrefix_of_mem_seen hx with heq | ⟨y, hy, hxy⟩
  · exact .inl heq
  change y ∈ t.trailOf p at hy
  rw [← trailOf_alike (Path.alike_child_of_parent? hname hq),
    trailOf_child (Path.isEntryName_of_fileName? hname), List.mem_append,
    List.mem_singleton] at hy
  rcases hy with hy | rfl
  · exact .inr (habove hxy (hp.1 y hy))
  · rcases List.prefix_concat_iff.mp hxy with heq | hxq
    · exact .inl (heq.trans (placeOf_of_parent? hname hq t).symm)
    · exact .inr (habove hxq hp.2)

/-- If the sibling was written and is gone, or nothing happened, all is kept. -/
theorem Keeps.of_edit (hedit : Edit {t.placeOf q ++ [temporary name]} ∅ t t')
    (hcases : t' = t ∨ t.Enters q ∧ t.find? (t.placeOf q ++ [temporary name]) ≠ some .directory ∧
      t'.find? (t.placeOf q ++ [temporary name]) = none) (ht : t.Regular) :
    Keeps p (p.withFileName (temporary name)) t t' := by
  have hn := Path.isEntryName_of_fileName? hname
  have hne : t.placeOf p ≠ t.placeOf q ++ [temporary name] := by
    rw [placeOf_of_parent? hname hq]
    simpa using (temporary_ne name).symm
  rw [Path.withFileName_eq_child hname hq]
  constructor
  case path =>
    rcases hcases with rfl | ⟨hp, hfree, -⟩
    · rfl
    · -- the way leads through directories, and the sibling is none
      refine stat_congr ht ⟨hedit.here, fun x hx => hedit.same ?_⟩
      rintro rfl
      rcases directory_of_mem_passes hname hq ht hp hx with heq | hdir
      · exact hne heq.symm
      · exact hfree hdir
  case here => exact hedit.here
  case others =>
    rw [placeOf_child (isEntryName_temporary hn)]
    exact fun x hx => hedit.same hx
  case nothingNew =>
    rw [placeOf_child (isEntryName_temporary hn)]
    rcases hcases with rfl | ⟨-, -, hgone⟩
    · exact .inr rfl
    · exact .inl hgone

include ht

/-- Where nothing is in the way, the file is replaced. -/
theorem exists_replaces (contents : ByteArray) (hfree : t.Free p name) :
    ∃ t', t.replaceFile p contents = (.ok (), t') ∧
      Replaces p (p.withFileName (temporary name)) contents t t' := by
  obtain ⟨hend, ⟨q', hq', hp⟩, hfile, htemp⟩ := hfree
  obtain rfl : q' = q := Option.some.inj (hq'.symm.trans hq)
  have hn := Path.isEntryName_of_fileName? hname
  have hs := isEntryName_temporary hn
  rw [placeOf_of_parent? hname hq'] at hfile
  rw [Path.withFileName_eq_child hname hq', placeOf_child hs] at htemp
  have hedit := edit_replaceFile ht hn q' contents
  have hok : (t.replaceFile (q'.child name) contents).1 = .ok () :=
    replaceFile_eq_ok ht hn q' hp htemp hfile
  obtain ⟨-, ⟨executable, hfind⟩, hgone⟩ := of_replaceFile_ok ht hn q' hok
  rw [replaceFile_of_endsInName hname hq' hend, Path.withFileName_eq_child hname hq']
  rcases hreplace : t.replaceFile (q'.child name) contents with ⟨r, t'⟩
  rw [hreplace] at hedit hok hfind hgone
  obtain rfl : r = .ok () := hok
  have hhere := placeOf_congr hedit.here q'
  refine ⟨t', rfl, ?_⟩
  constructor
  case holds =>
    rw [(hend.stands hname hq').fileBytes, fileBytes_child_eq_ok hedit.regular hn, hhere]
    exact ⟨hedit.enters hp, executable, hfind⟩
  case gone =>
    rw [placeOf_child hs, Bool.eq_false_iff, ne_eq, exists?_child_iff hedit.regular hs, hhere]
    exact ⟨fun h => h.2 hgone, hgone⟩
  case here => exact hedit.here
  case others =>
    rw [placeOf_of_parent? hname hq', placeOf_child hs]
    intro x hfile htemp
    refine hedit.same ?_
    rintro (h | h)
    · exact hfile h
    · exact htemp h

/-- Where something is, nothing happens to it. -/
theorem exists_keeps (contents : ByteArray) (hfree : ¬ t.Free p name) :
    ∃ e t', t.replaceFile p contents = (.error e, t') ∧
      Keeps p (p.withFileName (temporary name)) t t' := by
  have hn := Path.isEntryName_of_fileName? hname
  have hs := isEntryName_temporary hn
  by_cases hend : p.EndsInName name
  · rw [replaceFile_of_endsInName hname hq hend]
    rcases hreplace : t.replaceFile (q.child name) contents with ⟨e | ⟨⟩, t'⟩
    · have herror : (t.replaceFile (q.child name) contents).1 = .error e := by rw [hreplace]
      have hedit := edit_replaceFile_of_error ht hn q herror
      have hcases := sibling_of_replaceFile_error ht hn q herror
      rw [hreplace] at hedit hcases
      exact ⟨e, t', rfl, .of_edit hname hq hedit hcases ht⟩
    · -- it would have been free
      rcases replaceFile_cases ht hn q contents with
        ⟨hp, htemp, hfile, -⟩ | ⟨-, -, -, e, heq⟩ | ⟨-, e, heq⟩
      · refine absurd ⟨hend, ⟨q, hq, hp⟩, ?_, ?_⟩ hfree
        · rw [placeOf_of_parent? hname hq]
          exact hfile
        · rw [Path.withFileName_eq_child hname hq, placeOf_child hs]
          exact htemp
      · rw [heq] at hreplace
        cases hreplace
      · rw [heq] at hreplace
        cases hreplace
  · obtain ⟨e, heq | ⟨hp, htemp, heq⟩⟩ := replaceFile_of_not_endsInName hname hq ht hend contents
    · exact ⟨e, t, heq, .of_edit hname hq (Edit.refl ht) (.inl rfl) ht⟩
    · have hwrite := edit_putFile ht hs hp.2 htemp contents
        (t.isExecutable (t.placeOf q ++ [temporary name]))
      have herase := edit_erase hwrite.regular (q := t.placeOf q ++ [temporary name])
        (by rw [find?_put_self t (by simp)]; simp)
      exact ⟨e, _, heq, .of_edit hname hq (hwrite.trans herase)
        (.inr ⟨hp, htemp, find?_erase_self _ (by simp)⟩) ht⟩

end

/-- **Replacing a file is all or nothing.**  In a regular tree and for any path with a last name,
either nothing is in the way, and then the path has the contents, its sibling is gone and all else
is as it was; or it fails, and all but the sibling is as it was, which is not there unless it was
there before. -/
theorem replaceFile_replaces_or_keeps {t : FileTree} (ht : t.Regular) {p : Path} {name : String}
    (hname : p.fileName? = some name) (contents : ByteArray) :
    (t.Free p name ∧ ∃ t', t.replaceFile p contents = (.ok (), t') ∧
        Replaces p (p.withFileName (temporary name)) contents t t') ∨
      (¬ t.Free p name ∧ ∃ e t', t.replaceFile p contents = (.error e, t') ∧
        Keeps p (p.withFileName (temporary name)) t t') := by
  obtain ⟨q, hq⟩ := Path.exists_parent?_of_fileName? hname
  by_cases hfree : t.Free p name
  · exact .inl ⟨hfree, exists_replaces ht hname hq contents hfree⟩
  · exact .inr ⟨hfree, exists_keeps ht hname hq contents hfree⟩

/-- A directory with a file, and with what an earlier attempt left beside it. -/
def desk : FileTree where
  entries :=
    [(["d"], .directory), (["d", "_a"], .file "x".toUTF8 false),
     (["d", "._a.tmp"], .file "y".toUTF8 false)]
  here := []

theorem regular_desk : desk.Regular := by
  refine .of_entries (by decide) (by decide) ?_
  simp [desk]

/-- The file is replaced, unless it is asked for as a directory. -/
theorem replaceFile_replaces_or_keeps_desk :
    desk.Regular ∧ Path.fileName? ⟨"/d//_a"⟩ = some "_a" ∧ Path.fileName? ⟨"/d/_a/"⟩ = some "_a" ∧
    (∃ t', desk.replaceFile ⟨"/d//_a"⟩ "z".toUTF8 = (.ok (), t') ∧
      Replaces ⟨"/d//_a"⟩ ⟨"/d/._a.tmp"⟩ "z".toUTF8 desk t') ∧
    ∃ e t', desk.replaceFile ⟨"/d/_a/"⟩ "z".toUTF8 = (.error e, t') ∧
      Keeps ⟨"/d/_a/"⟩ ⟨"/d/._a.tmp"⟩ desk t' := by
  have hplain : Path.fileName? ⟨"/d//_a"⟩ = some "_a" := by decide
  have hslash : Path.fileName? ⟨"/d/_a/"⟩ = some "_a" := by decide
  refine ⟨regular_desk, hplain, hslash, ?_, ?_⟩
  · rcases replaceFile_replaces_or_keeps regular_desk hplain "z".toUTF8 with
      ⟨-, hreplaces⟩ | ⟨-, e, t', herror, -⟩
    · exact hreplaces
    · have hok : (desk.replaceFile ⟨"/d//_a"⟩ "z".toUTF8).1 = .ok () := by decide +kernel
      rw [herror] at hok
      cases hok
  · rcases replaceFile_replaces_or_keeps regular_desk hslash "z".toUTF8 with
      ⟨hfree, -⟩ | ⟨-, hkeeps⟩
    · exact absurd hfree.ends (by decide)
    · exact hkeeps

end FileTree

end TokenSheets
