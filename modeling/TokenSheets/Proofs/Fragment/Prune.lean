/-
TokenSheets/Proofs/Fragment/Prune.lean

Pruning for any list of kept fragments.

A file of the directory goes if it has the name of a sheet, begins with the
banner, and has the path of no kept fragment (`Prunable`).  The directory is
listed by name, so what goes has its names in order and none of them twice; in a
regular tree each of these files is removed, because the ones removed before it
are others.  What is left has nothing prunable any more.
-/
import TokenSheets.Proofs.Fragment.Store

namespace TokenSheets

open FileTree

/-! ### Bytes as a list -/

theorem toList_loop (bytes : ByteArray) (i : Nat) (read : List UInt8) :
    ByteArray.toList.loop bytes i read = read.reverse ++ bytes.data.toList.drop i := by
  fun_induction ByteArray.toList.loop bytes i read with
  | case1 i read h ih =>
    have hi : i < bytes.data.toList.length := by simpa using h
    have hget : bytes.get! i = bytes.data.toList[i] := by
      rw [Array.getElem_toList]
      exact getElem!_pos bytes.data i h
    rw [ih, List.drop_eq_getElem_cons hi, hget, List.reverse_cons, List.append_assoc]
    rfl
  | case2 i read h =>
    have hi : bytes.data.toList.length ≤ i := by simpa using h
    rw [List.drop_eq_nil_of_le hi, List.append_nil]

theorem toList_eq_data (bytes : ByteArray) : bytes.toList = bytes.data.toList := by
  rw [ByteArray.toList, toList_loop]
  rfl

theorem toByteArray_toList (bytes : ByteArray) : bytes.toList.toByteArray = bytes := by
  rw [toList_eq_data, ByteArray.ext_iff, List.data_toByteArray]

theorem toList_toByteArray (bytes : List UInt8) : bytes.toByteArray.toList = bytes := by
  rw [toList_eq_data, List.toList_data_toByteArray]

namespace Fragment

/-! ### The banner -/

/-- The first line of a file is a text, and it is the banner with any blanks behind it. -/
def BeginsWithBanner (contents : ByteArray) : Prop :=
  ∃ (line : String) (rest : List UInt8), contents.toList = line.toUTF8.toList ++ rest ∧
    0x0A ∉ line.toUTF8.toList ∧ (rest = [] ∨ rest.head? = some 0x0A) ∧
    trimEnd line.toList = bannerLine.toList

/-- The bytes up to the first line feed. -/
theorem takeWhile_line {line rest : List UInt8} (hline : 0x0A ∉ line)
    (hrest : rest = [] ∨ rest.head? = some 0x0A) :
    (line ++ rest).takeWhile (· ≠ 0x0A) = line := by
  have hall : ∀ b ∈ line, decide (b ≠ 0x0A) = true := by
    intro b hb
    exact decide_eq_true fun heq => hline (heq ▸ hb)
  rw [List.takeWhile_append_of_pos hall]
  rcases hrest with rfl | hrest
  · simp
  · obtain ⟨rest, rfl⟩ := List.head?_eq_some_iff.mp hrest
    simp

theorem isGenerated_iff {contents : ByteArray} :
    isGenerated contents = true ↔ BeginsWithBanner contents := by
  have hfirst {line : String} {rest : List UInt8}
      (hcontents : contents.toList = line.toUTF8.toList ++ rest)
      (hline : 0x0A ∉ line.toUTF8.toList) (hrest : rest = [] ∨ rest.head? = some 0x0A) :
      String.fromUTF8? (contents.toList.takeWhile (· ≠ 0x0A)).toByteArray = some line := by
    rw [hcontents, takeWhile_line hline hrest, toByteArray_toList, fromUTF8?_toUTF8]
  rw [isGenerated]
  constructor
  · intro h
    split at h
    · cases h
    · rename_i line hsome
      have hbytes : line.toUTF8.toList = contents.toList.takeWhile (· ≠ 0x0A) := by
        rw [toUTF8_of_fromUTF8? hsome, toList_toByteArray]
      refine ⟨line, contents.toList.dropWhile (· ≠ 0x0A), ?_, ?_, ?_, eq_of_beq h⟩
      · rw [hbytes, List.takeWhile_append_dropWhile]
      · rw [hbytes]
        intro hmem
        simpa using List.all_eq_true.mp List.all_takeWhile _ hmem
      · cases hrest : contents.toList.dropWhile (· ≠ 0x0A) with
        | nil => exact .inl rfl
        | cons b bs =>
          have hb := List.head?_dropWhile_not (· ≠ 0x0A) contents.toList
          rw [hrest] at hb
          right
          simpa using hb
  · rintro ⟨line, rest, hcontents, hline, hrest, hbanner⟩
    rw [hfirst hcontents hline hrest]
    exact beq_iff_eq.mpr hbanner

/-! ### What is pruned -/

/-- A file that pruning is to remove: it has the name of a sheet, begins with the banner, and its
path is that of no kept fragment. -/
structure Prunable (t : FileTree) (root : Path) (directory : String) (keep : List Fragment)
    (name : String) : Prop where
  enters : t.Enters (root.child directory)
  file : ∃ contents executable,
    t.find? (t.placeOf (root.child directory) ++ [name]) = some (.file contents executable) ∧
      BeginsWithBanner contents
  sheet : (∃ rest, name.toList = '_' :: rest) ∧ ∃ rest, name.toList = rest ++ ".scss".toList
  other : ∀ f ∈ keep, (root.join f.path).parts ≠ ((root.child directory).child name).parts

theorem isSheetName_iff {name : String} :
    isSheetName name = true ↔
      (∃ rest, name.toList = '_' :: rest) ∧ ∃ rest, name.toList = rest ++ ".scss".toList := by
  rw [isSheetName, Bool.and_eq_true, beq_iff_eq, List.head?_eq_some_iff, List.isSuffixOf_iff_suffix,
    List.IsSuffix]
  simp only [eq_comm]

theorem pairwise_prunedNames {t : FileTree} (ht : t.Regular) (directory : Path) (keep : List Path)
    (place : Place) :
    (prunedNames directory keep (t.children place)).Pairwise (· < ·) :=
  List.pairwise_map.mpr ((pairwise_children ht place).filter _)

section
variable {t t' : FileTree} (ht : t.Regular)
include ht

theorem mem_prunedNames_iff {root : Path} {directory : String} {keep : List Fragment}
    {name : String} (henters : t.Enters (root.child directory)) :
    name ∈ prunedNames (root.child directory) (keep.map fun f => root.join f.path)
        (t.children (t.placeOf (root.child directory))) ↔
      Prunable t root directory keep name := by
  rw [mem_prunedNames ht, List.forall_mem_map]
  constructor
  · rintro ⟨hsheet, hother, contents, executable, hfind, hgenerated⟩
    exact ⟨henters, ⟨contents, executable, hfind, isGenerated_iff.mp hgenerated⟩,
      isSheetName_iff.mp hsheet, hother⟩
  · rintro ⟨-, ⟨contents, executable, hfind, hbanner⟩, hsheet, hother⟩
    exact ⟨isSheetName_iff.mpr hsheet, hother, contents, executable, hfind,
      isGenerated_iff.mpr hbanner⟩

/-- Files with different names in a directory can be removed one after the other. -/
theorem on_removeAll {p : Path} (hp : t.Enters p) {names : List String} (hnames : names.Nodup)
    (hfiles : ∀ name ∈ names, ∃ contents executable,
      t.find? (t.placeOf p ++ [name]) = some (.file contents executable)) :
    ∃ t', (removeAll (names.map p.child)).on t = (.ok (), t') := by
  induction names generalizing t with
  | nil => exact ⟨t, rfl⟩
  | cons name names ih =>
    obtain ⟨hfresh, hnames⟩ := List.nodup_cons.mp hnames
    obtain ⟨⟨contents, executable, hfind⟩, hfiles⟩ := List.forall_mem_cons.mp hfiles
    have hn := ht.isEntryName_of_isSome hfind
    have hremove := (removeFile_child_eq_ok ht hn).mpr ⟨hp, ⟨_, _, hfind⟩, rfl⟩
    have hedit := edit_removeFile ht hremove
    obtain ⟨t', hrest⟩ := ih hedit.regular (hedit.enters hp) hnames fun other hother => by
      obtain ⟨contents', executable', hfind'⟩ := hfiles other hother
      refine ⟨contents', executable', ?_⟩
      rw [placeOf_congr hedit.here, find?_erase_of_ne _ ?_, hfind']
      simp only [ne_eq, List.append_cancel_left_eq, List.cons.injEq, and_true]
      rintro rfl
      exact hfresh hother
    refine ⟨t', ?_⟩
    rw [List.map_cons, removeAll, Task.on_bind_of_ok (by rw [Task.on_change, hremove]; rfl)]
    exact hrest

/-- They are gone then, and nothing else has changed. -/
theorem exists_removed {p : Path} (hp : t.Enters p) {names : List String} (hnames : names.Nodup)
    (hfiles : ∀ name ∈ names, ∃ contents executable,
      t.find? (t.placeOf p ++ [name]) = some (.file contents executable)) :
    ∃ t', (removeAll (names.map p.child)).on t = (.ok (), t') ∧
      Edit {q | ∃ name ∈ names, q = t.placeOf p ++ [name]} ∅ t t' ∧
      ∀ name ∈ names, t'.find? (t.placeOf p ++ [name]) = none := by
  have hentry : ∀ name ∈ names, IsEntryName name := by
    intro name hname
    obtain ⟨contents, executable, hfind⟩ := hfiles name hname
    exact ht.isEntryName_of_isSome hfind
  obtain ⟨t', hremove⟩ := on_removeAll ht hp hnames hfiles
  obtain ⟨hedit, hgone⟩ := of_removeAll ht (fun q hq => by
    obtain ⟨name, hname, rfl⟩ := List.mem_map.mp hq
    exact ⟨name, hentry name hname, rfl⟩) hremove
  refine ⟨t', hremove, hedit.mono ?_ subset_rfl, fun name hname => ?_⟩
  · rintro x ⟨q, hq, rfl⟩
    obtain ⟨name, hname, rfl⟩ := List.mem_map.mp hq
    exact ⟨name, hname, placeOf_child (hentry name hname) t p⟩
  · rw [← placeOf_child (hentry name hname)]
    exact hgone rfl _ (List.mem_map_of_mem hname)

/-- Pruning a directory removes the files of some names, and these are the prunable ones in order;
everything else is as it was. -/
structure Prunes (root : Path) (directory : String) (keep : List Fragment) (t : FileTree)
    (names : List String) (t' : FileTree) : Prop where
  sorted : names.Pairwise (· < ·)
  extent : ∀ name, name ∈ names ↔ Prunable t root directory keep name
  gone : ∀ name ∈ names, t'.find? (t.placeOf (root.child directory) ++ [name]) = none
  kept : ∀ q, (∀ name ∈ names, q ≠ t.placeOf (root.child directory) ++ [name]) →
    t'.find? q = t.find? q
  here : t'.here = t.here
  regular : t'.Regular
  enters : t'.Enters (root.child directory) ↔ t.Enters (root.child directory)

/-- In a directory that is not there, nothing is prunable. -/
theorem prunes_nil_of_not_enters {root : Path} {directory : String} (hd : IsEntryName directory)
    (keep : List Fragment) (hnot : ¬ t.Enters (root.child directory)) :
    (prune root directory keep).on t = (.ok [], t) ∧ Prunes root directory keep t [] t := by
  constructor
  · rcases hprune : (prune root directory keep).on t with ⟨r, t'⟩
    rcases prune_cases ht hd hprune with ⟨-, rfl, rfl⟩ | ⟨henters, -⟩
    · rfl
    · exact absurd henters hnot
  · exact ⟨.nil, fun name => iff_of_false (by simp) fun h => hnot h.enters, by simp,
      fun _ _ => rfl, rfl, ht, Iff.rfl⟩

/-- In a directory that is there, the prunable files are removed. -/
theorem exists_prunes_of_enters {root : Path} {directory : String} (hd : IsEntryName directory)
    (keep : List Fragment) (henters : t.Enters (root.child directory)) :
    ∃ names t', (prune root directory keep).on t =
        (.ok (names.map (root.child directory).child), t') ∧
      Prunes root directory keep t names t' ∧ (names = [] → t' = t) := by
  obtain ⟨names, hnames⟩ : ∃ names, prunedNames (root.child directory)
      (keep.map fun f => root.join f.path)
      (t.children (t.placeOf (root.child directory))) = names := ⟨_, rfl⟩
  have hextent (name : String) : name ∈ names ↔ Prunable t root directory keep name := by
    rw [← hnames, mem_prunedNames_iff ht henters]
  have hsorted : names.Pairwise (· < ·) := hnames ▸ pairwise_prunedNames ht _ _ _
  have hnodup : names.Nodup := by
    refine hsorted.imp fun hlt heq => ?_
    rw [heq] at hlt
    exact String.lt_irrefl _ hlt
  obtain ⟨t', hremove, hedit, hgone⟩ := exists_removed ht henters hnodup fun name hname => by
    obtain ⟨contents, executable, hfind, -⟩ := ((hextent name).mp hname).file
    exact ⟨contents, executable, hfind⟩
  refine ⟨names, t', ?_, ⟨hsorted, hextent, hgone, ?_, hedit.here, hedit.regular, ?_⟩, ?_⟩
  · rw [on_prune_of_enters ht hd henters, stale_eq_map, hnames, Task.on_bind_of_ok hremove]
    rfl
  · exact fun q hq => hedit.same fun ⟨name, hname, heq⟩ => hq name hname heq
  · exact iff_of_true (hedit.enters henters) henters
  · rintro rfl
    exact (Prod.mk.inj hremove).2.symm

theorem exists_prunes {directory : String} (hd : IsEntryName directory) (root : Path)
    (keep : List Fragment) :
    ∃ names t', (prune root directory keep).on t =
        (.ok (names.map (root.child directory).child), t') ∧
      Prunes root directory keep t names t' ∧ (names = [] → t' = t) := by
  by_cases henters : t.Enters (root.child directory)
  · exact exists_prunes_of_enters ht hd keep henters
  · obtain ⟨hprune, hprunes⟩ := prunes_nil_of_not_enters ht hd keep henters
    exact ⟨[], t, hprune, hprunes, fun _ => rfl⟩

omit ht in
/-- After pruning nothing is prunable: what is left of the prunable files was not pruned. -/
theorem Prunes.not_prunable {root : Path} {directory : String} {keep : List Fragment}
    {names : List String} (h : Prunes root directory keep t names t') (name : String) :
    ¬ Prunable t' root directory keep name := by
  rintro ⟨henters, ⟨contents, executable, hfind, hbanner⟩, hsheet, hother⟩
  rw [placeOf_congr h.here] at hfind
  by_cases hname : name ∈ names
  · rw [h.gone name hname] at hfind
    cases hfind
  · have hsame := h.kept (t.placeOf (root.child directory) ++ [name]) fun other hother heq => by
      simp only [List.append_cancel_left_eq, List.cons.injEq, and_true] at heq
      exact hname (heq ▸ hother)
    rw [hsame] at hfind
    exact hname ((h.extent name).mpr
      ⟨h.enters.mp henters, ⟨contents, executable, hfind, hbanner⟩, hsheet, hother⟩)

/-- **Pruning.**  In a regular tree pruning a directory below a root removes exactly the prunable
files, gives their paths by increasing name, and leaves everything else as it was; pruning once more
with the same list removes nothing. -/
theorem prune_exactly {directory : String} (hd : IsEntryName directory) (root : Path)
    (keep : List Fragment) :
    ∃ names t', (prune root directory keep).on t =
        (.ok (names.map (root.child directory).child), t') ∧
      Prunes root directory keep t names t' ∧
      (prune root directory keep).on t' = (.ok [], t') := by
  obtain ⟨names, t', hprune, h, -⟩ := exists_prunes ht hd root keep
  obtain ⟨names', t'', hagain, h', hnil⟩ := exists_prunes h.regular hd root keep
  obtain rfl : names' = [] := List.eq_nil_iff_forall_not_mem.mpr fun name hname =>
    h.not_prunable name ((h'.extent name).mp hname)
  rw [hnil rfl] at hagain
  exact ⟨names, t', hprune, h, hagain⟩

end

/-- A directory with a sheet of an earlier run, one that is kept, one written by hand, one that is
no text, and a directory that is called like a sheet. -/
def yard : FileTree where
  entries :=
    [(["s"], .directory), (["s", "u"], .directory),
     (["s", "u", "_old.scss"], .file (bannerLine ++ " \n$a: 1;").toUTF8 false),
     (["s", "u", "_kept.scss"], .file bannerLine.toUTF8 false),
     (["s", "u", "_hand.scss"], .file ("$a: 1; " ++ bannerLine).toUTF8 false),
     (["s", "u", "_raw.scss"], .file ⟨#[0xFF]⟩ false),
     (["s", "u", "_dir.scss"], .directory),
     (["s", "u", "_dir.scss", "_deep.scss"], .file bannerLine.toUTF8 false)]
  here := []

/-- Only the sheet of the earlier run goes. -/
theorem prune_exactly_yard :
    yard.Regular ∧ IsEntryName "u" ∧
    ((prune ⟨"/s"⟩ "u" [⟨⟨"u/_kept.scss"⟩, ""⟩]).on yard).1 = .ok [⟨"/s/u/_old.scss"⟩] ∧
    ∃ names t', (prune ⟨"/s"⟩ "u" [⟨⟨"u/_kept.scss"⟩, ""⟩]).on yard =
        (.ok (names.map (Path.child ⟨"/s"⟩ "u").child), t') ∧
      Prunes ⟨"/s"⟩ "u" [⟨⟨"u/_kept.scss"⟩, ""⟩] yard names t' ∧
      (prune ⟨"/s"⟩ "u" [⟨⟨"u/_kept.scss"⟩, ""⟩]).on t' = (.ok [], t') := by
  have hregular : yard.Regular := by
    refine .of_entries (by decide) (by decide) ?_
    simp [yard]
  have hu : IsEntryName "u" := by decide
  exact ⟨hregular, hu, by decide +kernel, prune_exactly hregular hu _ _⟩

end Fragment

end TokenSheets
