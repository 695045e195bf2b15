/-
TokenSheets/Proofs/Fragment/Write.lean

Writing any list of fragments.

The paths of the fragments are a directory and a file each (`Sits`), and no two
are the same.  Then the file of one fragment is neither the file nor the
temporary sibling of another one, so each write leaves alone what the others are
about.  A write is reported as unchanged exactly if the path held the contents
when its turn came; and as soon as one fragment is written the root can be
entered, so for all others it is the place that counts.  If the root could be
entered before, that is the same as what the path held before.  A root that
leads by double dots through a missing directory makes the difference
(`exists_unchanged_not_held`).
-/
import TokenSheets.Proofs.Fragment.Again

namespace TokenSheets

open FileTree

namespace Fragment

/-! ### Fragments of a directory -/

/-- The path of a fragment is a file name that begins with an underscore, in a directory. -/
structure Sits (f : Fragment) (directory name : String) : Prop where
  isDirectory : IsEntryName directory
  isName : IsEntryName name
  underscore : name.toList.head? = some '_'
  path : f.path = ⟨directory ++ "/" ++ name⟩

section
variable {f g : Fragment} {directory name directory' name' : String}

theorem Sits.join (h : f.Sits directory name) (root : Path) :
    root.join f.path = (root.child directory).child name := by
  have hopen : Path.endsInSlash ⟨directory⟩ = false := by
    simpa [Path.endsInSlash] using h.isDirectory.getLast?_ne_slash
  rw [h.path, ← Path.child_of_open (p := ⟨directory⟩) h.isDirectory.1 hopen h.isName,
    root.join_child h.isDirectory h.isName]

theorem Sits.placeOf (h : f.Sits directory name) (root : Path) (t : FileTree) :
    t.placeOf (root.join f.path) = t.placeOf (root.child directory) ++ [name] := by
  rw [h.join, placeOf_child h.isName]

/-- A temporary sibling does not begin with an underscore. -/
theorem Sits.ne_temporary (h : f.Sits directory name) (other : String) :
    name ≠ temporary other := by
  rintro rfl
  have hhead := h.underscore
  simp [temporary] at hhead

/-- The places that writing a list of fragments goes through: their files and the temporary
siblings of these. -/
def writtenPlaces (t : FileTree) (root : Path) (fs : List Fragment) : Set Place :=
  {q | ∃ f ∈ fs, ∃ directory name, f.Sits directory name ∧
    (q = t.placeOf (root.child directory) ++ [name] ∨
      q = t.placeOf (root.child directory) ++ [temporary name])}

/-- The places where writing a list of fragments may create directories. -/
def madePlaces (t : FileTree) (root : Path) (fs : List Fragment) : Set Place :=
  {q | ∃ f ∈ fs, ∃ directory name, f.Sits directory name ∧ q ∈ t.way (root.child directory)}

theorem writtenPlaces_congr {t t' : FileTree} (h : t'.here = t.here) (root : Path)
    (fs : List Fragment) : writtenPlaces t' root fs = writtenPlaces t root fs := by
  simp only [writtenPlaces, placeOf_congr h]

theorem madePlaces_congr {t t' : FileTree} (h : t'.here = t.here) (root : Path)
    (fs : List Fragment) : madePlaces t' root fs = madePlaces t root fs := by
  simp only [madePlaces, way_congr h]

/-- Only the same names lead to the same place. -/
theorem Sits.place_inj (h : f.Sits directory name) (h' : g.Sits directory' name') {a b : String}
    {t : FileTree} {root : Path}
    (heq : t.placeOf (root.child directory) ++ [a] = t.placeOf (root.child directory') ++ [b]) :
    directory = directory' ∧ a = b := by
  rw [placeOf_child h.isDirectory, placeOf_child h'.isDirectory] at heq
  simpa using heq

/-- A fragment with another path goes to other places. -/
theorem Sits.not_mem_writtenPlaces (h : f.Sits directory name) {fs : List Fragment}
    (hfs : ∀ g ∈ fs, g.path ≠ f.path) (t : FileTree) (root : Path) :
    t.placeOf (root.child directory) ++ [name] ∉ writtenPlaces t root fs ∧
      t.placeOf (root.child directory) ++ [temporary name] ∉ writtenPlaces t root fs := by
  have hother {g : Fragment} (hg : g ∈ fs) {directory' : String} (h' : g.Sits directory' name)
      (hsame : directory = directory') : False :=
    hfs g hg (by rw [h'.path, h.path, hsame])
  constructor
  · rintro ⟨g, hg, directory', name', h', heq | heq⟩
    · obtain ⟨hsame, rfl⟩ := h.place_inj h' heq
      exact hother hg h' hsame
    · exact h.ne_temporary name' (h.place_inj h' heq).2
  · rintro ⟨g, hg, directory', name', h', heq | heq⟩
    · exact h'.ne_temporary name (h.place_inj h' heq).2.symm
    · obtain ⟨hsame, hname⟩ := h.place_inj h' heq
      obtain rfl := temporary_inj hname
      exact hother hg h' hsame

end

/-! ### One fragment -/

section
variable {root : Path} {f : Fragment} {directory name : String} (hf : f.Sits directory name)
  {t t' : FileTree} (ht : t.Regular) {outcome : WriteOutcome}
include hf ht

/-- The path of a fragment holds some bytes if its root can be entered and its place does. -/
theorem Sits.fileBytes_eq_ok_iff {contents : ByteArray} :
    t.fileBytes (root.join f.path) = .ok contents ↔
      t.Enters root ∧ t.held (t.placeOf (root.join f.path)) = some (.file contents false) := by
  rw [hf.placeOf, hf.join, fileBytes_child_eq_ok ht hf.isName, enters_child_iff ht hf.isDirectory]
  constructor
  · rintro ⟨⟨henters, -⟩, executable, hfind⟩
    exact ⟨henters, held_of_find? hfind⟩
  · rintro ⟨henters, hheld⟩
    obtain ⟨executable, hfind⟩ := find?_of_held_eq_file hheld
    refine ⟨⟨henters, ?_⟩, executable, hfind⟩
    rw [← placeOf_child hf.isDirectory]
    exact ht.directory_of_isSome hfind

/-- Only a root with double dots cannot be entered although there is something below its place. -/
theorem Sits.dots_of_held (hroot : ¬ t.Enters root) {contents : ByteArray}
    (hheld : t.held (t.placeOf (root.join f.path)) = some (.file contents false)) :
    ".." ∈ root.moves := by
  rw [hf.placeOf] at hheld
  obtain ⟨executable, hfind⟩ := find?_of_held_eq_file hheld
  have hdirectory := ht.directory_of_isSome hfind
  rw [placeOf_child hf.isDirectory] at hdirectory
  by_contra hdots
  exact hroot (enters_of_directory ht hdots (ht.directory_of_isSome hdirectory))

theorem Sits.readText_eq_ok_iff {text : String} :
    t.readText ((root.child directory).child name) = .ok text ↔
      t.fileBytes (root.join f.path) = .ok text.toUTF8 := by
  rw [hf.join, readText_child_eq_ok ht hf.isName, fileBytes_child_eq_ok ht hf.isName]
  constructor
  · rintro ⟨henters, contents, executable, hfind, htext⟩
    rw [toUTF8_of_fromUTF8? htext]
    exact ⟨henters, executable, hfind⟩
  · rintro ⟨henters, executable, hfind⟩
    exact ⟨henters, _, executable, hfind, fromUTF8?_toUTF8 text⟩

/-- A fragment is reported as unchanged exactly if its path holds its contents. -/
theorem Sits.write_unchanged_iff (h : (f.write root).on t = (.ok outcome, t')) :
    outcome = .unchanged ↔ t.fileBytes (root.join f.path) = .ok f.contents.toUTF8 := by
  rw [← hf.readText_eq_ok_iff ht]
  constructor
  · rintro rfl
    by_contra hread
    have hother : (t.readText (root.join f.path)).toOption ≠ some f.contents := by
      rw [hf.join]
      exact fun hsome => hread (Outcome.toOption_eq_some_iff.mp hsome)
    rw [write] at h
    simp only [Task.on_look_bind, if_neg hother, Task.on_bind_eq_ok] at h
    obtain ⟨_, _, _, _, _, _, hwritten⟩ := h
    cases hwritten
  · intro hread
    rw [write_of_readText (hf.join root) hread] at h
    exact (Except.ok.inj (Prod.mk.inj h).1).symm

/-- After a success the path holds the contents. -/
theorem Sits.fileBytes_of_write (h : (f.write root).on t = (.ok outcome, t')) :
    t'.fileBytes (root.join f.path) = .ok f.contents.toUTF8 ∧ t'.Enters root ∧ t'.Regular ∧
      t'.here = t.here := by
  have hedit := edit_write ht hf.isName (hf.join root) h
  obtain ⟨henters, hheld⟩ := of_write_ok ht hf.isName (hf.join root) h
  have hroot := ((enters_child_iff hedit.regular hf.isDirectory root).mp henters).1
  refine ⟨(hf.fileBytes_eq_ok_iff hedit.regular).mpr ⟨hroot, ?_⟩, hroot, hedit.regular, hedit.here⟩
  rw [placeOf_congr hedit.here, hf.placeOf]
  exact hheld

/-- After it was written, its temporary sibling is gone. -/
theorem Sits.sibling_of_written (h : (f.write root).on t = (.ok .written, t')) :
    t'.find? (t.placeOf (root.child directory) ++ [temporary name]) = none := by
  rcases sibling_of_write ht hf.isName (hf.join root) h with rfl | hgone
  · -- the path held the contents, so nothing was written
    have hsame := (hf.write_unchanged_iff ht h).mpr (hf.fileBytes_of_write ht h).1
    cases hsame
  · exact held_eq_none_iff.mp hgone

theorem Sits.edit_write (h : (f.write root).on t = (.ok outcome, t')) :
    Edit (writtenPlaces t root [f]) (madePlaces t root [f]) t t' := by
  refine (Fragment.edit_write ht hf.isName (hf.join root) h).mono ?_ ?_
  · rintro q (rfl | rfl)
    · exact ⟨f, List.mem_singleton_self f, directory, name, hf, .inl rfl⟩
    · exact ⟨f, List.mem_singleton_self f, directory, name, hf, .inr rfl⟩
  · exact fun q hq => ⟨f, List.mem_singleton_self f, directory, name, hf, hq⟩

end

/-! ### All fragments -/

theorem writtenPlaces_mono {fs gs : List Fragment} (h : fs ⊆ gs) (t : FileTree) (root : Path) :
    writtenPlaces t root fs ⊆ writtenPlaces t root gs :=
  fun _ ⟨f, hf, hq⟩ => ⟨f, h hf, hq⟩

theorem madePlaces_mono {fs gs : List Fragment} (h : fs ⊆ gs) (t : FileTree) (root : Path) :
    madePlaces t root fs ⊆ madePlaces t root gs :=
  fun _ ⟨f, hf, hq⟩ => ⟨f, h hf, hq⟩

/-- Where the root can be entered, directories are created in it only. -/
theorem find?_ne_none_of_mem_madePlaces {t : FileTree} {root : Path} (hroot : t.Enters root)
    {fs : List Fragment} {directory name : String} (hd : IsEntryName directory)
    (hmade : t.placeOf (root.child directory) ++ [name] ∈ madePlaces t root fs) :
    t.find? (t.placeOf (root.child directory) ++ [name]) ≠ none := by
  obtain ⟨f, -, directory', name', hf, hway⟩ := hmade
  exact find?_ne_none_of_mem_way hroot hd hf.isDirectory hway

section
variable {root : Path} {f : Fragment} {fs : List Fragment} {t t' : FileTree}
  {outcomes : List WriteOutcome}

/-- Writing touches the files of the fragments and their temporary siblings. -/
theorem edit_writeAll_of_sits (hfs : ∀ f ∈ fs, ∃ directory name, f.Sits directory name)
    (ht : t.Regular) (h : (writeAll root fs).on t = (.ok outcomes, t')) :
    Edit (writtenPlaces t root fs) (madePlaces t root fs) t t' := by
  induction fs generalizing t outcomes with
  | nil =>
    rw [writeAll] at h
    obtain ⟨-, rfl⟩ := Prod.mk.inj h
    exact Edit.refl ht
  | cons f fs ih =>
    obtain ⟨⟨directory, name, hf⟩, hfs⟩ := List.forall_mem_cons.mp hfs
    obtain ⟨outcome, rest, t₁, hwrite, hwrites, -⟩ := writeAll_cons_eq_ok.mp h
    have hfirst := hf.edit_write ht hwrite
    have hothers := ih hfs hfirst.regular hwrites
    rw [writtenPlaces_congr hfirst.here, madePlaces_congr hfirst.here] at hothers
    have hhead : [f] ⊆ f :: fs := by simp
    have htail : fs ⊆ f :: fs := List.subset_cons_self f fs
    exact (hfirst.mono (writtenPlaces_mono hhead t root) (madePlaces_mono hhead t root)).trans
      (hothers.mono (writtenPlaces_mono htail t root) (madePlaces_mono htail t root))

section
variable (hfs : ∀ f ∈ fs, ∃ directory name, f.Sits directory name) (hpaths : (fs.map (·.path)).Nodup)
  (ht : t.Regular) (h : (writeAll root fs).on t = (.ok outcomes, t'))
include hfs hpaths ht h

/-- Every path holds the contents in the end: no later fragment goes to its places. -/
theorem fileBytes_of_writeAll :
    ∀ f ∈ fs, t'.fileBytes (root.join f.path) = .ok f.contents.toUTF8 := by
  induction fs generalizing t outcomes with
  | nil => simp
  | cons f fs ih =>
    obtain ⟨⟨directory, name, hf⟩, hfs⟩ := List.forall_mem_cons.mp hfs
    obtain ⟨hfresh, hpaths⟩ := List.nodup_cons.mp hpaths
    obtain ⟨outcome, rest, t₁, hwrite, hwrites, -⟩ := writeAll_cons_eq_ok.mp h
    obtain ⟨hbytes, hroot, ht₁, -⟩ := hf.fileBytes_of_write ht hwrite
    have hothers := edit_writeAll_of_sits hfs ht₁ hwrites
    refine List.forall_mem_cons.mpr ⟨?_, ih hfs hpaths ht₁ hwrites⟩
    rw [hf.fileBytes_eq_ok_iff ht₁] at hbytes
    rw [hf.fileBytes_eq_ok_iff hothers.regular, placeOf_congr hothers.here]
    refine ⟨hothers.enters hroot, hothers.held_of_eq_some ?_ hbytes.2⟩
    rw [hf.placeOf]
    exact (hf.not_mem_writtenPlaces
      (fun g hg heq => hfresh (List.mem_map.mpr ⟨g, hg, heq⟩)) t₁ root).1

/-- A fragment is reported as unchanged exactly if its place held its contents before, and for the
first one the root could be entered too; for the others it can be by then. -/
theorem unchanged_iff_of_writeAll {i : Nat} {f : Fragment} {outcome : WriteOutcome}
    (hi : fs[i]? = some f) (houtcome : outcomes[i]? = some outcome) :
    outcome = .unchanged ↔
      t.held (t.placeOf (root.join f.path)) = some (.file f.contents.toUTF8 false) ∧
        (i = 0 → t.Enters root) := by
  induction fs generalizing t outcomes i with
  | nil => simp at hi
  | cons g fs ih =>
    obtain ⟨⟨directory, name, hg⟩, hfs⟩ := List.forall_mem_cons.mp hfs
    obtain ⟨hfresh, hpaths⟩ := List.nodup_cons.mp hpaths
    obtain ⟨first, rest, t₁, hwrite, hwrites, rfl⟩ := writeAll_cons_eq_ok.mp h
    cases i with
    | zero =>
      obtain rfl : g = f := by simpa using hi
      obtain rfl : first = outcome := by simpa using houtcome
      rw [hg.write_unchanged_iff ht hwrite, hg.fileBytes_eq_ok_iff ht, and_comm]
      simp
    | succ i =>
      rw [List.getElem?_cons_succ] at hi houtcome
      -- the root can be entered by now, and the write before touched neither place of this one
      have hmem := List.mem_of_getElem? hi
      obtain ⟨directory', name', hf⟩ := hfs f hmem
      have hedit := hg.edit_write ht hwrite
      obtain ⟨-, hroot, ht₁, hhere⟩ := hg.fileBytes_of_write ht hwrite
      have hother : ∀ x ∈ [g], x.path ≠ f.path := by
        rw [List.forall_mem_singleton]
        exact fun heq => hfresh (List.mem_map.mpr ⟨f, hmem, heq.symm⟩)
      have hplace := (hf.not_mem_writtenPlaces hother t root).1
      rw [← hf.placeOf] at hplace
      rw [ih hfs hpaths ht₁ hwrites hi houtcome, placeOf_congr hhere,
        hedit.held_eq_file_iff hplace]
      simp [hroot]

/-- A fragment that was written has no temporary sibling in the end. -/
theorem sibling_of_writeAll {i : Nat} {f : Fragment} (hi : fs[i]? = some f)
    (houtcome : outcomes[i]? = some .written) {directory name : String}
    (hf : f.Sits directory name) :
    t'.find? (t.placeOf (root.child directory) ++ [temporary name]) = none := by
  induction fs generalizing t outcomes i with
  | nil => simp at hi
  | cons g fs ih =>
    obtain ⟨⟨directory', name', hg⟩, hfs⟩ := List.forall_mem_cons.mp hfs
    obtain ⟨hfresh, hpaths⟩ := List.nodup_cons.mp hpaths
    obtain ⟨first, rest, t₁, hwrite, hwrites, rfl⟩ := writeAll_cons_eq_ok.mp h
    obtain ⟨-, hroot, ht₁, hhere⟩ := hg.fileBytes_of_write ht hwrite
    rw [← placeOf_congr hhere]
    cases i with
    | zero =>
      obtain rfl : g = f := by simpa using hi
      obtain rfl : first = .written := by simpa using houtcome
      -- gone after its own write, and no later one puts a file or a directory there
      have hothers := edit_writeAll_of_sits hfs ht₁ hwrites
      have hplace := (hf.not_mem_writtenPlaces
        (fun x hx heq => hfresh (List.mem_map.mpr ⟨x, hx, heq⟩)) t₁ root).2
      rw [hothers.find?_eq hplace (find?_ne_none_of_mem_madePlaces hroot hf.isDirectory),
        placeOf_congr hhere]
      exact hf.sibling_of_written ht hwrite
    | succ i =>
      rw [List.getElem?_cons_succ] at hi houtcome
      exact ih hfs hpaths ht₁ hwrites hi houtcome

end

/-- Where every path holds the contents of its fragment, writing does nothing. -/
theorem writeAll_of_fileBytes (hfs : ∀ f ∈ fs, ∃ directory name, f.Sits directory name)
    (ht : t.Regular)
    (hbytes : ∀ f ∈ fs, t.fileBytes (root.join f.path) = .ok f.contents.toUTF8) :
    (writeAll root fs).on t = (.ok (fs.map fun _ => .unchanged), t) := by
  induction fs with
  | nil => rfl
  | cons f fs ih =>
    obtain ⟨⟨directory, name, hf⟩, hfs⟩ := List.forall_mem_cons.mp hfs
    obtain ⟨hfirst, hbytes⟩ := List.forall_mem_cons.mp hbytes
    have hwrite := write_of_readText (hf.join root) ((hf.readText_eq_ok_iff ht).mpr hfirst)
    exact writeAll_cons_eq_ok.mpr ⟨_, _, t, hwrite, ih hfs hbytes, rfl⟩

theorem length_of_writeAll (h : (writeAll root fs).on t = (.ok outcomes, t')) :
    outcomes.length = fs.length := by
  induction fs generalizing t outcomes with
  | nil =>
    rw [writeAll] at h
    obtain ⟨hnil, -⟩ := Prod.mk.inj h
    obtain rfl := Except.ok.inj hnil
    rfl
  | cons f fs ih =>
    obtain ⟨first, rest, t₁, -, hwrites, rfl⟩ := writeAll_cons_eq_ok.mp h
    rw [List.length_cons, List.length_cons, ih hwrites]

end

/-! ### What writing amounts to -/

/-- What writing a list of fragments below a root reports and leaves. -/
structure WritesAll (root : Path) (fs : List Fragment) (t : FileTree)
    (outcomes : List WriteOutcome) (t' : FileTree) : Prop where
  /-- Every path holds exactly its contents. -/
  contents : ∀ f ∈ fs, t'.fileBytes (root.join f.path) = .ok f.contents.toUTF8
  length : outcomes.length = fs.length
  /-- A fragment is unchanged if its path held these bytes before.  If the root could not be entered
  before, because it leads by double dots through something that is no directory yet, then for all
  but the first one it is enough that they were at the place. -/
  unchanged : ∀ (i : Nat) f outcome, fs[i]? = some f → outcomes[i]? = some outcome →
    (outcome = .unchanged ↔
      t.fileBytes (root.join f.path) = .ok f.contents.toUTF8 ∨
        (0 < i ∧ ¬ t.Enters root ∧ ".." ∈ root.moves ∧
          t.held (t.placeOf (root.join f.path)) = some (.file f.contents.toUTF8 false)))
  /-- A fragment that was written leaves no temporary sibling. -/
  settled : ∀ (i : Nat) (f : Fragment), fs[i]? = some f →
    outcomes[i]? = some WriteOutcome.written → ∀ directory name, f.Sits directory name →
      t'.find? (t.placeOf (root.child directory) ++ [temporary name]) = none
  /-- Elsewhere nothing changes but that directories are created on the way. -/
  others : Frame (writtenPlaces t root fs) (madePlaces t root fs) t t'
  /-- Writing the same list again finds everything as it should be. -/
  again : (writeAll root fs).on t' = (.ok (fs.map fun _ => .unchanged), t')

/-- **Writing fragments.**  In a regular tree, if fragments with different paths, each a file in a
directory, are written and this succeeds, then every path holds its contents, the report says which
were there before, nothing else changes, and writing them again changes nothing. -/
theorem writesAll_of_ok {root : Path} {fs : List Fragment} {t t' : FileTree}
    {outcomes : List WriteOutcome} (ht : t.Regular)
    (hfs : ∀ f ∈ fs, ∃ directory name, f.Sits directory name)
    (hpaths : (fs.map (·.path)).Nodup)
    (h : (writeAll root fs).on t = (.ok outcomes, t')) :
    WritesAll root fs t outcomes t' := by
  have hedit := edit_writeAll_of_sits hfs ht h
  have hcontents := fileBytes_of_writeAll hfs hpaths ht h
  constructor
  case contents => exact hcontents
  case length => exact length_of_writeAll h
  case unchanged =>
    intro i f outcome hi houtcome
    obtain ⟨directory, name, hf⟩ := hfs f (List.mem_of_getElem? hi)
    rw [unchanged_iff_of_writeAll hfs hpaths ht h hi houtcome, hf.fileBytes_eq_ok_iff ht]
    by_cases hroot : t.Enters root
    · simp [hroot]
    · have hdots : t.held (t.placeOf (root.join f.path)) = some (.file f.contents.toUTF8 false) →
          ".." ∈ root.moves := hf.dots_of_held ht hroot
      rw [Nat.pos_iff_ne_zero]
      tauto
  case settled =>
    intro i f hi houtcome directory name hf
    exact sibling_of_writeAll hfs hpaths ht h hi houtcome hf
  case others => exact hedit.toFrame
  case again => exact writeAll_of_fileBytes hfs hedit.regular hcontents

/-- A directory with two files under the names of fragments. -/
def shelf : FileTree where
  entries :=
    [(["d"], .directory), (["d", "_a"], .file "x".toUTF8 false),
     (["d", "_b"], .file "y".toUTF8 false)]
  here := []

theorem regular_shelf : shelf.Regular := by
  refine .of_entries (by decide) (by decide) ?_
  simp [shelf]

/-- A fragment that is on the shelf, one with other contents, and one in a missing directory. -/
def parcels : List Fragment := [⟨⟨"d/_a"⟩, "x"⟩, ⟨⟨"d/_b"⟩, "z"⟩, ⟨⟨"e/_c"⟩, "w"⟩]

theorem sits_of_mem_parcels : ∀ f ∈ parcels, ∃ directory name, f.Sits directory name := by
  simp only [parcels, List.forall_mem_cons]
  exact ⟨⟨"d", "_a", by decide, by decide, by decide, rfl⟩,
    ⟨"d", "_b", by decide, by decide, by decide, rfl⟩,
    ⟨"e", "_c", by decide, by decide, by decide, rfl⟩, by simp⟩

/-- The first one is left alone and the others are written. -/
theorem writesAll_of_ok_shelf :
    shelf.Regular ∧ (∀ f ∈ parcels, ∃ directory name, f.Sits directory name) ∧
    (parcels.map (·.path)).Nodup ∧
    ∃ t', (writeAll ⟨"/"⟩ parcels).on shelf = (.ok [.unchanged, .written, .written], t') ∧
      WritesAll ⟨"/"⟩ parcels shelf [.unchanged, .written, .written] t' := by
  have hok : ((writeAll ⟨"/"⟩ parcels).on shelf).1 = .ok [.unchanged, .written, .written] := by
    decide +kernel
  have hpaths : (parcels.map (·.path)).Nodup := by decide
  rcases hrun : (writeAll ⟨"/"⟩ parcels).on shelf with ⟨r, t'⟩
  rw [hrun] at hok
  obtain rfl : r = .ok [.unchanged, .written, .written] := hok
  exact ⟨regular_shelf, sits_of_mem_parcels, hpaths, t', rfl,
    writesAll_of_ok regular_shelf sits_of_mem_parcels hpaths hrun⟩

/-- Below a root that leads through a missing directory and back, neither path holds anything
before, but both places hold the contents.  The first fragment is written, and creates that
directory; the second one is reported as unchanged. -/
theorem exists_unchanged_not_held :
    shelf.Regular ∧
    Sits ⟨⟨"d/_a"⟩, "x"⟩ "d" "_a" ∧ Sits ⟨⟨"d/_b"⟩, "y"⟩ "d" "_b" ∧
    ((writeAll ⟨"/zz/.."⟩ [⟨⟨"d/_a"⟩, "x"⟩, ⟨⟨"d/_b"⟩, "y"⟩]).on shelf).1 =
      .ok [.written, .unchanged] ∧
    (shelf.fileBytes (Path.join ⟨"/zz/.."⟩ ⟨"d/_b"⟩)).toOption = none ∧
    shelf.held (shelf.placeOf (Path.join ⟨"/zz/.."⟩ ⟨"d/_a"⟩)) =
      some (.file "x".toUTF8 false) := by
  refine ⟨regular_shelf, ⟨by decide, by decide, by decide, rfl⟩,
    ⟨by decide, by decide, by decide, rfl⟩, ?_, ?_, ?_⟩
  · decide +kernel
  · decide +kernel
  · decide +kernel

end Fragment

end TokenSheets
