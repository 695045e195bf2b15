/-
TokenSheets/Proofs/FileTree/Operations.lean

The operations at a name in a directory.

Every file that is read or written here is a name in a directory, `p.child name`.
In a regular tree each operation succeeds there exactly if the directory can be
entered and the right kind of thing is at the place, and then it is one change
of one entry.  Replacing a file is the only one with more than one step: it goes
through a sibling, and there are three ways it can end (`replaceFile_cases`).
-/
import TokenSheets.Proofs.FileTree.Changes

namespace TokenSheets

open Outcome

/-- The temporary sibling of a file has a proper name. -/
theorem isEntryName_temporary {name : String} (hn : IsEntryName name) :
    IsEntryName (FileTree.temporary name) := by
  refine isEntryName_of_length ?_ ?_
  · simp [FileTree.temporary]
  · simpa [FileTree.temporary] using hn.2.2.2

theorem temporary_ne (name : String) : FileTree.temporary name ≠ name := by
  intro h
  have hlen := congrArg (fun s => s.toList.length) h
  simp [FileTree.temporary] at hlen
  omega

theorem temporary_inj {a b : String} (h : FileTree.temporary a = FileTree.temporary b) : a = b := by
  have hlist := congrArg String.toList h
  apply String.toList_injective
  simpa [FileTree.temporary] using hlist

/-! ### Texts as bytes -/

theorem toUTF8_of_fromUTF8? {contents : ByteArray} {text : String}
    (h : String.fromUTF8? contents = some text) : text.toUTF8 = contents := by
  unfold String.fromUTF8? at h
  split at h
  · rw [← Option.some.inj h]
    rfl
  · cases h

theorem fromUTF8?_toUTF8 (text : String) : String.fromUTF8? text.toUTF8 = some text := by
  have hvalid : text.toUTF8.IsValidUTF8 := text.isValidUTF8
  unfold String.fromUTF8?
  rw [dif_pos hvalid]
  rfl

namespace FileTree

variable {t t' : FileTree} {scope made : Set Place}

/-- Whether what is at a place is an executable file. -/
def isExecutable (t : FileTree) (q : Place) : Bool :=
  match t.find? q with
  | some (.file _ executable) => executable
  | _ => false

section
variable (ht : t.Regular) {name : String} (hn : IsEntryName name) {p : Path}
include ht hn

/-! ### Reading -/

theorem stat_child (hp : t.Enters p) :
    t.stat (p.child name) =
      match t.find? (t.placeOf p ++ [name]) with
      | none => .error .notFound
      | some e => .ok e := by
  rw [stat, (locate_child ht hn).mpr ⟨hp, rfl⟩, p.endsInSlash_child hn, ok_bind]
  cases t.find? (t.placeOf p ++ [name]) with
  | none => rfl
  | some e => cases e <;> rfl

theorem stat_child_eq_ok {e : Entry} :
    t.stat (p.child name) = .ok e ↔
      t.Enters p ∧ t.find? (t.placeOf p ++ [name]) = some e := by
  constructor
  · intro h
    obtain ⟨hq, hfind⟩ := of_stat ht h
    rw [placeOf_child hn] at hfind
    exact ⟨((locate_child ht hn).mp hq).1, hfind⟩
  · rintro ⟨hp, hfind⟩
    rw [stat_child ht hn hp, hfind]

theorem isFile_child_iff :
    t.isFile (p.child name) = true ↔
      t.Enters p ∧ ∃ contents executable,
        t.find? (t.placeOf p ++ [name]) = some (.file contents executable) := by
  rw [isFile]
  constructor
  · intro h
    split at h
    · rename_i contents executable hstat
      obtain ⟨hp, hfind⟩ := (stat_child_eq_ok ht hn).mp hstat
      exact ⟨hp, contents, executable, hfind⟩
    · cases h
  · rintro ⟨hp, contents, executable, hfind⟩
    rw [(stat_child_eq_ok ht hn).mpr ⟨hp, hfind⟩]

theorem isDirectory_child_iff : t.isDirectory (p.child name) = true ↔ t.Enters (p.child name) := by
  constructor
  · exact enters_of_isDirectory ht
  · intro h
    rw [isDirectory, (stat_child_eq_ok ht hn).mpr ((enters_child_iff ht hn p).mp h)]

theorem exists?_child_iff :
    t.exists? (p.child name) = true ↔
      t.Enters p ∧ t.find? (t.placeOf p ++ [name]) ≠ none := by
  rw [exists?, Option.ne_none_iff_exists']
  constructor
  · intro h
    split at h
    · rename_i e hstat
      obtain ⟨hp, hfind⟩ := (stat_child_eq_ok ht hn).mp hstat
      exact ⟨hp, e, hfind⟩
    · cases h
  · rintro ⟨hp, e, hfind⟩
    rw [(stat_child_eq_ok ht hn).mpr ⟨hp, hfind⟩]

theorem fileBytes_child (hp : t.Enters p) :
    t.fileBytes (p.child name) =
      match t.find? (t.placeOf p ++ [name]) with
      | none => .error .notFound
      | some (.file contents _) => .ok contents
      | some _ => .error .isDirectory := by
  rw [fileBytes, stat_child ht hn hp]
  cases t.find? (t.placeOf p ++ [name]) with
  | none => rfl
  | some e => cases e <;> rfl

theorem fileBytes_child_eq_ok {contents : ByteArray} :
    t.fileBytes (p.child name) = .ok contents ↔
      t.Enters p ∧ ∃ executable,
        t.find? (t.placeOf p ++ [name]) = some (.file contents executable) := by
  constructor
  · intro h
    have hp : t.Enters p := by
      rw [fileBytes, bind_eq_ok] at h
      obtain ⟨e, hstat, -⟩ := h
      exact ((stat_child_eq_ok ht hn).mp hstat).1
    rw [fileBytes_child ht hn hp] at h
    split at h
    · cases h
    · rename_i executable hfind
      rw [← Except.ok.inj h]
      exact ⟨hp, executable, hfind⟩
    · cases h
  · rintro ⟨hp, executable, hfind⟩
    rw [fileBytes_child ht hn hp, hfind]

theorem readText_child_eq_ok {text : String} :
    t.readText (p.child name) = .ok text ↔
      t.Enters p ∧ ∃ contents executable,
        t.find? (t.placeOf p ++ [name]) = some (.file contents executable) ∧
          String.fromUTF8? contents = some text := by
  rw [readText, bind_eq_ok]
  simp only [mapError_eq_ok, fileBytes_child_eq_ok ht hn]
  constructor
  · rintro ⟨contents, ⟨hp, executable, hfind⟩, htext⟩
    refine ⟨hp, contents, executable, hfind, ?_⟩
    split at htext
    · rename_i hdecode
      rw [hdecode, pure_eq_ok.mp htext]
    · exact absurd htext throw_ne_ok
  · rintro ⟨hp, contents, executable, hfind, hdecode⟩
    refine ⟨contents, ⟨hp, executable, hfind⟩, ?_⟩
    rw [hdecode]
    rfl

theorem list_child (h : t.Enters (p.child name)) :
    t.list (p.child name) = .ok (t.children (t.placeOf p ++ [name])) := by
  obtain ⟨hp, hdir⟩ := (enters_child_iff ht hn p).mp h
  rw [list, (locate_child ht hn).mpr ⟨hp, rfl⟩, ok_bind, hdir]
  rfl

/-! ### Writing, removing and renaming -/

theorem writeFile_child_eq_ok {contents : ByteArray} :
    t.writeFile (p.child name) contents = .ok t' ↔
      t.Enters p ∧ t.find? (t.placeOf p ++ [name]) ≠ some .directory ∧
        t' = t.put (t.placeOf p ++ [name])
          (.file contents (t.isExecutable (t.placeOf p ++ [name]))) := by
  rw [writeFile, bind_eq_ok]
  simp only [locate_child ht hn, p.endsInSlash_child hn, Bool.false_eq_true, if_false]
  constructor
  · rintro ⟨-, ⟨hp, rfl⟩, h⟩
    refine ⟨hp, ?_⟩
    split at h
    · rename_i hfind
      rw [isExecutable, hfind]
      exact ⟨by simp, (pure_eq_ok.mp h).symm⟩
    · rename_i hfind
      rw [isExecutable, hfind]
      exact ⟨by simp, (pure_eq_ok.mp h).symm⟩
    · exact absurd h throw_ne_ok
  · rintro ⟨hp, hne, rfl⟩
    refine ⟨_, ⟨hp, rfl⟩, ?_⟩
    cases hfind : t.find? (t.placeOf p ++ [name]) with
    | none => simp only [isExecutable, hfind]; rfl
    | some e =>
      cases e with
      | file old executable => simp only [isExecutable, hfind]; rfl
      | directory => exact absurd hfind hne
      | link target => exact absurd hfind (ht.linkless _ target)

theorem writeFile_child_of_directory (hp : t.Enters p)
    (hdir : t.find? (t.placeOf p ++ [name]) = some .directory) (contents : ByteArray) :
    t.writeFile (p.child name) contents = .error .isDirectory := by
  rw [writeFile, (locate_child ht hn).mpr ⟨hp, rfl⟩, ok_bind, hdir]
  rfl

theorem removeFile_child_eq_ok :
    t.removeFile (p.child name) = .ok t' ↔
      t.Enters p ∧
        (∃ contents executable,
          t.find? (t.placeOf p ++ [name]) = some (.file contents executable)) ∧
        t' = t.erase (t.placeOf p ++ [name]) := by
  rw [removeFile, bind_eq_ok]
  simp only [locate_child ht hn, p.endsInSlash_child hn, Bool.false_eq_true, if_false]
  constructor
  · rintro ⟨-, ⟨hp, rfl⟩, h⟩
    split at h
    · exact absurd h throw_ne_ok
    · exact absurd h throw_ne_ok
    · rename_i contents executable hfind
      exact ⟨hp, ⟨contents, executable, hfind⟩, (pure_eq_ok.mp h).symm⟩
    · rename_i target hfind
      exact absurd hfind (ht.linkless _ target)
  · rintro ⟨hp, ⟨contents, executable, hfind⟩, rfl⟩
    refine ⟨_, ⟨hp, rfl⟩, ?_⟩
    rw [hfind]
    rfl

/-- A file takes the name of a sibling. -/
theorem rename_child_eq_ok {old : String} (ho : IsEntryName old) (hne : old ≠ name) {q : Path}
    (hq : q.Alike p) {contents : ByteArray} {executable : Bool}
    (hold : t.find? (t.placeOf p ++ [old]) = some (.file contents executable)) :
    t.rename (q.child old) (p.child name) = .ok t' ↔
      t.Enters p ∧ t.find? (t.placeOf p ++ [name]) ≠ some .directory ∧
        t' = (t.erase (t.placeOf p ++ [old])).put (t.placeOf p ++ [name])
          (.file contents executable) := by
  have hplaces : t.placeOf p ++ [old] ≠ t.placeOf p ++ [name] := by simpa using hne
  simp only [rename, bind_eq_ok, locate_child ht hn, locate_child ht ho, enters_alike hq,
    placeOf_alike hq, q.endsInSlash_child ho, p.endsInSlash_child hn, Bool.or_self,
    Bool.false_eq_true, if_false]
  constructor
  · rintro ⟨-, ⟨hp, rfl⟩, -, ⟨-, rfl⟩, h⟩
    rw [hold] at h
    simp only [hplaces, if_false] at h
    split at h
    · exact absurd h throw_ne_ok
    · rename_i hdir
      exact ⟨hp, hdir, (pure_eq_ok.mp h).symm⟩
  · rintro ⟨hp, hdir, rfl⟩
    refine ⟨_, ⟨hp, rfl⟩, _, ⟨hp, rfl⟩, ?_⟩
    rw [hold]
    simp only [hplaces, if_false, hdir]
    rfl

/-- Removes a directory with everything below it. -/
theorem removeDirectory_child_eq_ok :
    t.removeDirectory (p.child name) = .ok t' ↔
      t.Enters (p.child name) ∧ t' = t.eraseAll (t.placeOf p ++ [name]) := by
  rw [removeDirectory, bind_eq_ok, enters_child_iff ht hn]
  simp only [locate_child ht hn]
  constructor
  · rintro ⟨-, ⟨hp, rfl⟩, h⟩
    split at h
    · exact absurd h throw_ne_ok
    · rename_i hfind
      exact ⟨⟨hp, hfind⟩, (pure_eq_ok.mp h).symm⟩
    · exact absurd h throw_ne_ok
    · rename_i target hfind
      exact absurd hfind (ht.linkless _ target)
  · rintro ⟨⟨hp, hfind⟩, rfl⟩
    refine ⟨_, ⟨hp, rfl⟩, ?_⟩
    rw [hfind]
    rfl

end

/-! ### Replacing a file -/

/-- The tree with new contents at a place; a file there keeps its permission. -/
def written (t : FileTree) (q : Place) (contents : ByteArray) : FileTree :=
  t.put q (.file contents (t.isExecutable q))

/-- The tree after a sibling has taken the name of a file. -/
def replaced (t : FileTree) (sibling target : Place) (contents : ByteArray) : FileTree :=
  ((t.written sibling contents).erase sibling).put target
    (.file contents (t.isExecutable sibling))

section
variable (ht : t.Regular) {name : String} (hn : IsEntryName name) (p : Path)
include ht hn

/-- A sibling takes the name of a file unless that is a directory, and then it can be removed. -/
theorem rename_or_remove {q : Path} (hq : q.Alike p) (hp : t.Enters p) {contents : ByteArray}
    {executable : Bool}
    (hs : t.find? (t.placeOf p ++ [temporary name]) = some (.file contents executable)) :
    (t.find? (t.placeOf p ++ [name]) ≠ some .directory ∧
        t.rename (q.child (temporary name)) (p.child name) =
          .ok ((t.erase (t.placeOf p ++ [temporary name])).put (t.placeOf p ++ [name])
            (.file contents executable))) ∨
      (t.find? (t.placeOf p ++ [name]) = some .directory ∧
        (∃ e, t.rename (q.child (temporary name)) (p.child name) = .error e) ∧
        t.removeFile (q.child (temporary name)) =
          .ok (t.erase (t.placeOf p ++ [temporary name]))) := by
  have hsn := isEntryName_temporary hn
  have hrename (t' : FileTree) :
      t.rename (q.child (temporary name)) (p.child name) = .ok t' ↔
        t.Enters p ∧ t.find? (t.placeOf p ++ [name]) ≠ some .directory ∧
          t' = (t.erase (t.placeOf p ++ [temporary name])).put (t.placeOf p ++ [name])
            (.file contents executable) :=
    rename_child_eq_ok ht hn hsn (temporary_ne name) hq hs
  by_cases hdir : t.find? (t.placeOf p ++ [name]) = some .directory
  · right
    refine ⟨hdir, ?_, ?_⟩
    · cases h : t.rename (q.child (temporary name)) (p.child name) with
      | error e => exact ⟨e, rfl⟩
      | ok t' => exact absurd hdir ((hrename t').mp h).2.1
    · have hplace := placeOf_alike hq t
      rw [← hplace] at hs ⊢
      exact (removeFile_child_eq_ok ht hsn).mpr ⟨(enters_alike hq).mpr hp, ⟨_, _, hs⟩, rfl⟩
  · left
    exact ⟨hdir, (hrename _).mpr ⟨hp, hdir, rfl⟩⟩

/-- Replacing a file takes place, or is taken back because there is a directory, or does not
begin. -/
theorem replaceFile_cases (contents : ByteArray) :
    (t.Enters p ∧ t.find? (t.placeOf p ++ [temporary name]) ≠ some .directory ∧
        t.find? (t.placeOf p ++ [name]) ≠ some .directory ∧
        t.replaceFile (p.child name) contents =
          (.ok (), t.replaced (t.placeOf p ++ [temporary name]) (t.placeOf p ++ [name])
            contents)) ∨
      (t.Enters p ∧ t.find? (t.placeOf p ++ [temporary name]) ≠ some .directory ∧
        t.find? (t.placeOf p ++ [name]) = some .directory ∧
        ∃ e, t.replaceFile (p.child name) contents =
          (.error e, (t.written (t.placeOf p ++ [temporary name]) contents).erase
            (t.placeOf p ++ [temporary name]))) ∨
      ((t.Enters p → t.find? (t.placeOf p ++ [temporary name]) = some .directory) ∧
        ∃ e, t.replaceFile (p.child name) contents = (.error e, t)) := by
  have hsn := isEntryName_temporary hn
  obtain ⟨q, hq, hsibling, -⟩ := p.withFileName_child hn (temporary name)
  unfold replaceFile
  rw [Path.fileName?_child p hn]
  simp only [hsibling]
  cases hwrite : t.writeFile (q.child (temporary name)) contents with
  | error e =>
    right
    right
    refine ⟨fun hp => ?_, .os e, rfl⟩
    by_contra hfree
    rw [← enters_alike hq] at hp
    rw [← placeOf_alike hq] at hfree
    rw [(writeFile_child_eq_ok ht hsn).mpr ⟨hp, hfree, rfl⟩] at hwrite
    cases hwrite
  | ok t₁ =>
    obtain ⟨hp, hfree, rfl⟩ := (writeFile_child_eq_ok ht hsn).mp hwrite
    rw [enters_alike hq] at hp
    rw [placeOf_alike hq] at hfree ⊢
    -- the written sibling is there, and the name is as it was
    have hne : t.placeOf p ++ [name] ≠ t.placeOf p ++ [temporary name] := by
      simpa using (temporary_ne name).symm
    have hedit := edit_putFile ht hsn hp.2 hfree contents
      (t.isExecutable (t.placeOf p ++ [temporary name]))
    have hself := find?_put_self t (List.append_ne_nil_of_right_ne_nil (t.placeOf p)
      (List.cons_ne_nil (temporary name) []))
      (.file contents (t.isExecutable (t.placeOf p ++ [temporary name])))
    have hsteps := rename_or_remove hedit.regular hn p hq (hedit.enters hp) hself
    rw [placeOf_congr hedit.here, find?_put_of_ne t hne] at hsteps
    rcases hsteps with ⟨hdir, hrename⟩ | ⟨hdir, ⟨e, hrename⟩, hremove⟩
    · left
      refine ⟨hp, hfree, hdir, ?_⟩
      simp only [hrename]
      rfl
    · right
      left
      refine ⟨hp, hfree, hdir, .os e, ?_⟩
      simp only [hrename, hremove]
      rfl

/-- An attempt touches the sibling only, unless the file is replaced. -/
theorem edit_replaceFile_of_error {contents : ByteArray} {e : IoError}
    (h : (t.replaceFile (p.child name) contents).1 = .error e) :
    Edit {t.placeOf p ++ [temporary name]} ∅ t (t.replaceFile (p.child name) contents).2 := by
  rcases replaceFile_cases ht hn p contents with
    ⟨-, -, -, heq⟩ | ⟨hp, hfree, -, e', heq⟩ | ⟨-, e', heq⟩
  · rw [heq] at h
    cases h
  · have hwrite := edit_putFile ht (isEntryName_temporary hn) hp.2 hfree contents
      (t.isExecutable (t.placeOf p ++ [temporary name]))
    rw [heq]
    refine hwrite.trans (edit_erase hwrite.regular ?_)
    rw [find?_put_self t (by simp)]
    simp
  · rw [heq]
    exact Edit.refl ht

/-- After a failure the tree is as it was, or the sibling was written and is gone. -/
theorem sibling_of_replaceFile_error {contents : ByteArray} {e : IoError}
    (h : (t.replaceFile (p.child name) contents).1 = .error e) :
    (t.replaceFile (p.child name) contents).2 = t ∨
      (t.Enters p ∧ t.find? (t.placeOf p ++ [temporary name]) ≠ some .directory ∧
        (t.replaceFile (p.child name) contents).2.find? (t.placeOf p ++ [temporary name]) =
          none) := by
  rcases replaceFile_cases ht hn p contents with
    ⟨-, -, -, heq⟩ | ⟨hp, hfree, -, e', heq⟩ | ⟨-, e', heq⟩
  · rw [heq] at h
    cases h
  · right
    rw [heq]
    exact ⟨hp, hfree, find?_erase_self _ (by simp)⟩
  · left
    rw [heq]

theorem edit_replaceFile (contents : ByteArray) :
    Edit {t.placeOf p ++ [name], t.placeOf p ++ [temporary name]} ∅ t
      (t.replaceFile (p.child name) contents).2 := by
  rcases hresult : (t.replaceFile (p.child name) contents).1 with e | ⟨⟩
  · refine (edit_replaceFile_of_error ht hn p hresult).mono ?_ subset_rfl
    exact Set.singleton_subset_iff.mpr (Set.mem_insert_of_mem _ rfl)
  · rcases replaceFile_cases ht hn p contents with
      ⟨hp, hfree, hdir, heq⟩ | ⟨-, -, -, e, heq⟩ | ⟨-, e, heq⟩
    · have hne : t.placeOf p ++ [name] ≠ t.placeOf p ++ [temporary name] := by
        simpa using (temporary_ne name).symm
      -- the sibling is written, goes, and the file is written
      have hwrite := edit_putFile ht (isEntryName_temporary hn) hp.2 hfree contents
        (t.isExecutable (t.placeOf p ++ [temporary name]))
      have herase := edit_erase hwrite.regular (q := t.placeOf p ++ [temporary name])
        (by rw [find?_put_self t (by simp)]; simp)
      have hboth := hwrite.trans herase
      have hname := hboth.same hne
      have hput := edit_putFile hboth.regular hn (hboth.directories _ hp.2)
        (by rw [hname]; exact hdir) contents (t.isExecutable (t.placeOf p ++ [temporary name]))
      rw [heq]
      refine (hboth.mono ?_ subset_rfl).trans (hput.mono ?_ subset_rfl)
      · exact Set.singleton_subset_iff.mpr (Set.mem_insert_of_mem _ rfl)
      · exact Set.singleton_subset_iff.mpr (Set.mem_insert _ _)
    · rw [heq] at hresult
      cases hresult
    · rw [heq] at hresult
      cases hresult

/-- After a success the file has its contents, and the sibling is gone. -/
theorem of_replaceFile_ok {contents : ByteArray}
    (h : (t.replaceFile (p.child name) contents).1 = .ok ()) :
    t.Enters p ∧
      (∃ executable, (t.replaceFile (p.child name) contents).2.find? (t.placeOf p ++ [name]) =
        some (.file contents executable)) ∧
      (t.replaceFile (p.child name) contents).2.find? (t.placeOf p ++ [temporary name]) =
        none := by
  rcases replaceFile_cases ht hn p contents with
    ⟨hp, -, -, heq⟩ | ⟨-, -, -, e, heq⟩ | ⟨-, e, heq⟩
  · have hne : t.placeOf p ++ [temporary name] ≠ t.placeOf p ++ [name] := by
      simpa using temporary_ne name
    rw [heq]
    refine ⟨hp, ⟨_, find?_put_self _ (by simp) _⟩, ?_⟩
    rw [replaced, find?_put_of_ne _ hne]
    exact find?_erase_self _ (by simp)
  · rw [heq] at h
    cases h
  · rw [heq] at h
    cases h

/-- Nothing but a directory in the way keeps a file from being replaced. -/
theorem replaceFile_eq_ok {contents : ByteArray} (hp : t.Enters p)
    (hfree : t.find? (t.placeOf p ++ [temporary name]) ≠ some .directory)
    (hdir : t.find? (t.placeOf p ++ [name]) ≠ some .directory) :
    (t.replaceFile (p.child name) contents).1 = .ok () := by
  rcases replaceFile_cases ht hn p contents with
    ⟨-, -, -, heq⟩ | ⟨-, -, hdir', -⟩ | ⟨hfree', -⟩
  · rw [heq]
  · exact absurd hdir' hdir
  · exact absurd (hfree' hp) hfree

/-- If also nothing is at the sibling, then nothing else changes. -/
theorem replaceFile_over (contents : ByteArray) (hp : t.Enters p)
    (hfree : t.held (t.placeOf p ++ [temporary name]) = none)
    (hdir : t.find? (t.placeOf p ++ [name]) ≠ some .directory) :
    ∃ t', t.replaceFile (p.child name) contents = (.ok (), t') ∧
      Edit {t.placeOf p ++ [name], t.placeOf p ++ [temporary name]} ∅ t t' ∧
      t'.held (t.placeOf p ++ [name]) = some (.file contents false) ∧
      ∀ x ≠ t.placeOf p ++ [name], t'.held x = t.held x := by
  have hedit := edit_replaceFile ht hn p contents
  have hok : (t.replaceFile (p.child name) contents).1 = .ok () :=
    replaceFile_eq_ok ht hn p hp (by rw [held_eq_none_iff.mp hfree]; simp) hdir
  obtain ⟨-, ⟨executable, hfile⟩, hgone⟩ := of_replaceFile_ok ht hn p hok
  rcases hreplace : t.replaceFile (p.child name) contents with ⟨r, t'⟩
  rw [hreplace] at hedit hok hfile hgone
  obtain rfl : r = .ok () := hok
  refine ⟨t', rfl, hedit, held_of_find? hfile, fun x hx => ?_⟩
  by_cases hsibling : x = t.placeOf p ++ [temporary name]
  · rw [hsibling, hfree]
    exact held_eq_none_iff.mpr hgone
  · apply held_congr
    refine hedit.same ?_
    rintro (h | h)
    · exact hx h
    · exact hsibling h

end

end FileTree

end TokenSheets
