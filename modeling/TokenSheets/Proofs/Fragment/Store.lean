/-
TokenSheets/Proofs/Fragment/Store.lean

Fragments on disk.

Everything here happens in one directory below the root, and a fragment is known
by the name of its module there.  Writing touches the files of the fragments and
their temporary siblings; pruning touches files that are *stale*: sheets with the
banner that no fragment goes to.  What a whole run of writing or pruning ensures
follows by induction over its list, since each step leaves alone what the others
are about.
-/
import TokenSheets.Proofs.Fragment.Paths
import TokenSheets.Proofs.FileTree.Task

namespace TokenSheets

open FileTree Outcome

namespace Fragment

/-! ### Writing one fragment -/

section
variable {root p : Path} {f : Fragment} {name : String} {t t' : FileTree}

/-- A fragment is there, or its directory is created and its file is replaced. -/
theorem write_cases (hn : IsEntryName name) (hf : root.join f.path = p.child name)
    (t : FileTree) :
    (t.readText (p.child name) = .ok f.contents ∧
        (f.write root).on t = (.ok .unchanged, t)) ∨
      ∃ q : Path, q.Alike p ∧
        ((∃ source, (f.write root).on t =
            (.error (.write (p.child name) source), (t.createDirectories q).2)) ∨
          (t.createDirectories q).1 = .ok () ∧
            ∃ r, (f.write root).on t =
                (r, ((t.createDirectories q).2.replaceFile (p.child name)
                  f.contents.toUTF8).2) ∧
              (∀ outcome, r = .ok outcome → ((t.createDirectories q).2.replaceFile (p.child name)
                f.contents.toUTF8).1 = .ok ()) ∧
              ∀ e, r = .error e → ∃ source, e = .write (p.child name) source ∧
                ((t.createDirectories q).2.replaceFile (p.child name) f.contents.toUTF8).1 =
                  .error source) := by
  obtain ⟨q, hq, halike⟩ := p.parent?_child hn
  rw [write, hf, hq]
  simp only [Task.on_look_bind, Task.on_ite, Option.getD_some]
  split
  · rename_i hsame
    left
    exact ⟨toOption_eq_some_iff.mp hsame, Task.on_pure _ t⟩
  · right
    refine ⟨q, halike, ?_⟩
    cases hdir : (t.createDirectories q).1 with
    | error e =>
      left
      exact ⟨_, Task.on_bind_of_error (by rw [Task.on_perform, hdir]; rfl) _⟩
    | ok =>
      right
      rw [Task.on_bind_of_ok (by rw [Task.on_perform, hdir]; rfl)]
      refine ⟨rfl, ?_⟩
      cases hreplace : ((t.createDirectories q).2.replaceFile (p.child name)
          f.contents.toUTF8).1 with
      | error e =>
        exact ⟨_, Task.on_bind_of_error (by rw [Task.on_perform, hreplace]; rfl) _,
          by simp, fun _ herror => ⟨e, (Except.error.inj herror).symm, rfl⟩⟩
      | ok =>
        exact ⟨_, Task.on_bind_of_ok (by rw [Task.on_perform, hreplace]; rfl) _,
          fun _ _ => rfl, by simp⟩

/-- Writing touches the file of the fragment and its temporary sibling. -/
theorem edit_write (ht : t.Regular) (hn : IsEntryName name)
    (hf : root.join f.path = p.child name) {r : Except EmitError WriteOutcome}
    (h : (f.write root).on t = (r, t')) :
    Edit {t.placeOf p ++ [name], t.placeOf p ++ [temporary name]} (t.way p) t t' := by
  rcases write_cases hn hf t with ⟨-, heq⟩ | ⟨q, halike, hq⟩
  · rw [heq] at h
    obtain ⟨-, rfl⟩ := Prod.mk.inj h
    exact Edit.refl ht
  have hdir := edit_createDirectories ht q
  rw [way_alike halike] at hdir
  rcases hq with ⟨e, heq⟩ | ⟨-, r', heq, -⟩
  · rw [heq] at h
    obtain ⟨-, rfl⟩ := Prod.mk.inj h
    exact hdir.mono (Set.empty_subset _) subset_rfl
  · rw [heq] at h
    obtain ⟨-, rfl⟩ := Prod.mk.inj h
    have hreplace := edit_replaceFile hdir.regular hn p f.contents.toUTF8
    rw [placeOf_congr hdir.here] at hreplace
    exact (hdir.mono (Set.empty_subset _) subset_rfl).trans
      (hreplace.mono subset_rfl (Set.empty_subset _))

/-- A fragment that was written, or was there, is on disk with its contents. -/
theorem of_write_ok (ht : t.Regular) (hn : IsEntryName name)
    (hf : root.join f.path = p.child name) {outcome : WriteOutcome}
    (h : (f.write root).on t = (.ok outcome, t')) :
    t'.Enters p ∧ t'.held (t.placeOf p ++ [name]) = some (.file f.contents.toUTF8 false) := by
  rcases write_cases hn hf t with ⟨hread, heq⟩ | ⟨q, halike, ⟨e, heq⟩ | ⟨-, r, heq, hr, -⟩⟩
  · rw [heq] at h
    obtain ⟨-, rfl⟩ := Prod.mk.inj h
    obtain ⟨henters, contents, x, hfind, htext⟩ := (readText_child_eq_ok ht hn).mp hread
    rw [← toUTF8_of_fromUTF8? htext] at hfind
    exact ⟨henters, held_of_find? hfind⟩
  · rw [heq] at h
    cases h
  · rw [heq] at h
    obtain ⟨hok, rfl⟩ := Prod.mk.inj h
    have hdir := edit_createDirectories ht q
    obtain ⟨henters, ⟨x, hx⟩, -⟩ := of_replaceFile_ok hdir.regular hn p (hr outcome hok)
    have hreplace := edit_replaceFile hdir.regular hn p f.contents.toUTF8
    rw [placeOf_congr hdir.here] at hx
    exact ⟨hreplace.enters henters, held_of_find? hx⟩

end

/-! ### Writing all fragments of a directory -/

/-- The places that the fragments of some modules are written through. -/
def sheetPlaces (t : FileTree) (p : Path) (names : List String) : Set Place :=
  {q | ∃ n ∈ names, q = t.placeOf p ++ [Modules.fileName n] ∨
    q = t.placeOf p ++ [temporary (Modules.fileName n)]}

theorem isSheetName_temporary (name : String) : isSheetName (temporary name) = false := by
  simp [isSheetName, temporary]

/-- A sheet that is none of the modules is not touched: a temporary sibling is no sheet. -/
theorem not_mem_sheetPlaces {t : FileTree} {p : Path} {names : List String} {name : String}
    (hsheet : isSheetName name = true) (hne : ∀ n ∈ names, name ≠ Modules.fileName n) :
    t.placeOf p ++ [name] ∉ sheetPlaces t p names := by
  rintro ⟨n, hn, hq | hq⟩
  · exact hne n hn (by simpa using hq)
  · have htemp : name = temporary (Modules.fileName n) := by simpa using hq
    rw [htemp, isSheetName_temporary] at hsheet
    cases hsheet

section
variable {root : Path} {directory : String} (hd : IsEntryName directory) {t t' : FileTree}

theorem sheetPlaces_congr (h : t'.here = t.here) (p : Path) (names : List String) :
    sheetPlaces t' p names = sheetPlaces t p names := by
  rw [sheetPlaces, sheetPlaces, placeOf_congr h]

include hd

theorem join_pathOf {n : String} (hn : '/' ∉ n.toList) (root : Path) :
    root.join (Modules.pathOf directory n) =
      (root.child directory).child (Modules.fileName n) :=
  root.join_child hd (Modules.isEntryName_fileName hn)

/-- The place of the fragment of a name. -/
theorem placeOf_pathOf {n : String} (hn : '/' ∉ n.toList) (root : Path) (t : FileTree) :
    t.placeOf (root.join (Modules.pathOf directory n)) =
      t.placeOf (root.child directory) ++ [Modules.fileName n] := by
  rw [join_pathOf hd hn, placeOf_child (Modules.isEntryName_fileName hn)]

omit hd in
/-- Writing a list stops at the first fragment, or goes on with the others. -/
theorem writeAll_cons {f : Fragment} {fs : List Fragment}
    {r : Except EmitError (List WriteOutcome)} (h : (writeAll root (f :: fs)).on t = (r, t')) :
    (∃ e, r = .error e ∧ (f.write root).on t = (.error e, t')) ∨
      ∃ outcome t₁ r', (f.write root).on t = (.ok outcome, t₁) ∧
        (writeAll root fs).on t₁ = (r', t') ∧
        ∀ outcomes, r = .ok outcomes → ∃ rest, r' = .ok rest := by
  rw [writeAll] at h
  rcases Task.on_bind_cases h with ⟨e, hwrite, rfl⟩ | ⟨outcome, t₁, hwrite, h⟩
  · exact Or.inl ⟨e, rfl, hwrite⟩
  right
  rcases Task.on_bind_cases h with ⟨e, hrest, rfl⟩ | ⟨rest, t₂, hrest, h⟩
  · exact ⟨outcome, t₁, _, hwrite, hrest, by simp⟩
  · obtain ⟨rfl, rfl⟩ := Prod.mk.inj h
    exact ⟨outcome, t₁, _, hwrite, hrest, fun _ _ => ⟨rest, rfl⟩⟩

omit hd in
/-- It succeeds exactly if both succeed, and gives their outcomes together. -/
theorem writeAll_cons_eq_ok {f : Fragment} {fs : List Fragment} {outcomes : List WriteOutcome} :
    (writeAll root (f :: fs)).on t = (.ok outcomes, t') ↔
      ∃ outcome more t₁, (f.write root).on t = (.ok outcome, t₁) ∧
        (writeAll root fs).on t₁ = (.ok more, t') ∧ outcomes = outcome :: more := by
  rw [writeAll]
  simp only [Task.on_bind_eq_ok, Task.on_pure, Prod.mk.injEq, Except.ok.injEq]
  constructor
  · rintro ⟨outcome, t₁, hwrite, more, t₂, hwrites, rfl, rfl⟩
    exact ⟨outcome, more, t₁, hwrite, hwrites, rfl⟩
  · rintro ⟨outcome, more, t₁, hwrite, hwrites, rfl⟩
    exact ⟨outcome, t₁, hwrite, more, t', hwrites, rfl, rfl⟩

omit hd in
theorem writeAll_cons_of_ok {f : Fragment} {fs : List Fragment} {outcomes : List WriteOutcome}
    (h : (writeAll root (f :: fs)).on t = (.ok outcomes, t')) :
    ∃ outcome more t₁, (f.write root).on t = (.ok outcome, t₁) ∧
      (writeAll root fs).on t₁ = (.ok more, t') := by
  obtain ⟨outcome, more, t₁, hwrite, hwrites, -⟩ := writeAll_cons_eq_ok.mp h
  exact ⟨outcome, more, t₁, hwrite, hwrites⟩

theorem edit_write_named (ht : t.Regular) {n : String} (hn : '/' ∉ n.toList) {f : Fragment}
    (hpath : f.path = Modules.pathOf directory n) {r : Except EmitError WriteOutcome}
    (h : (f.write root).on t = (r, t')) :
    Edit (sheetPlaces t (root.child directory) [n]) (t.way (root.child directory)) t t' := by
  have hf : root.join f.path = (root.child directory).child (Modules.fileName n) := by
    rw [hpath, join_pathOf hd hn]
  refine (edit_write ht (Modules.isEntryName_fileName hn) hf h).mono ?_ subset_rfl
  rintro q (rfl | rfl)
  · exact ⟨n, List.mem_cons_self, Or.inl rfl⟩
  · exact ⟨n, List.mem_cons_self, Or.inr rfl⟩

omit hd in
theorem sheetPlaces_mono {names names' : List String} (h : names ⊆ names') (t : FileTree)
    (p : Path) : sheetPlaces t p names ⊆ sheetPlaces t p names' :=
  fun _ ⟨n, hn, hq⟩ => ⟨n, h hn, hq⟩

/-- Writing touches the files of the fragments and their temporary siblings. -/
theorem edit_writeAll {fs : List Fragment} :
    ∀ {t : FileTree}, t.Regular → ∀ {names : List String}, Named directory names fs →
      ∀ {r : Except EmitError (List WriteOutcome)} {t' : FileTree},
        (writeAll root fs).on t = (r, t') →
        Edit (sheetPlaces t (root.child directory) names) (t.way (root.child directory)) t t' := by
  induction fs with
  | nil =>
    intro t ht names _ r t' h
    rw [writeAll] at h
    obtain ⟨-, rfl⟩ := Prod.mk.inj h
    exact Edit.refl ht
  | cons f fs ih =>
    intro t ht names hfs r t' h
    obtain ⟨n, rest, rfl, hpath, hn, hrest⟩ := hfs.exists_of_cons
    have hhead : [n] ⊆ n :: rest := by simp
    rcases writeAll_cons h with ⟨e, -, hwrite⟩ | ⟨outcome, t₁, r', hwrite, hwrites, -⟩
    · exact (edit_write_named hd ht hn hpath hwrite).mono (sheetPlaces_mono hhead t _) subset_rfl
    · have hfirst := edit_write_named hd ht hn hpath hwrite
      have hothers := ih hfirst.regular hrest hwrites
      rw [sheetPlaces_congr hfirst.here, way_congr hfirst.here] at hothers
      exact (hfirst.mono (sheetPlaces_mono hhead t _) subset_rfl).trans
        (hothers.mono (sheetPlaces_mono (List.subset_cons_self n rest) t _) subset_rfl)

/-- After all fragments were written, each is on disk with its contents: their files are different,
and none of them is the temporary sibling of another one. -/
theorem held_of_writeAll {fs : List Fragment} :
    ∀ {t : FileTree}, t.Regular → ∀ {names : List String}, Named directory names fs →
      names.Nodup → ∀ {outcomes : List WriteOutcome} {t' : FileTree},
        (writeAll root fs).on t = (.ok outcomes, t') →
        ∀ f ∈ fs, t'.held (t.placeOf (root.join f.path)) =
          some (.file f.contents.toUTF8 false) := by
  induction fs with
  | nil => simp
  | cons f fs ih =>
    intro t ht names hfs hnodup outcomes t' h
    obtain ⟨n, rest, rfl, hpath, hn, hrest⟩ := hfs.exists_of_cons
    obtain ⟨hfresh, hnodup⟩ := List.nodup_cons.mp hnodup
    obtain ⟨outcome, more, t₁, hwrite, hwrites⟩ := writeAll_cons_of_ok h
    have hfirst := edit_write_named hd ht hn hpath hwrite
    have hothers := edit_writeAll hd hfirst.regular hrest hwrites
    have hf : root.join f.path = (root.child directory).child (Modules.fileName n) := by
      rw [hpath, join_pathOf hd hn]
    intro g hg
    rcases List.mem_cons.mp hg with rfl | hg
    · have hheld := (of_write_ok ht (Modules.isEntryName_fileName hn) hf hwrite).2
      rw [hf, placeOf_child (Modules.isEntryName_fileName hn)]
      refine hothers.held_of_eq_some ?_ hheld
      rw [← placeOf_congr hfirst.here]
      refine not_mem_sheetPlaces (Modules.isSheetName_fileName n) fun m hm heq => ?_
      exact hfresh ((Modules.fileName_inj.mp heq) ▸ hm)
    · rw [← placeOf_congr hfirst.here]
      exact ih hfirst.regular hrest hnodup hwrites g hg

/-- Where a fragment was written, its directory can be entered. -/
theorem enters_of_writeAll {fs : List Fragment} (hne : fs ≠ []) (ht : t.Regular)
    {names : List String} (hfs : Named directory names fs) {outcomes : List WriteOutcome}
    (h : (writeAll root fs).on t = (.ok outcomes, t')) : t'.Enters (root.child directory) := by
  obtain ⟨f, fs, rfl⟩ := List.exists_cons_of_ne_nil hne
  obtain ⟨n, rest, rfl, hpath, hn, hrest⟩ := hfs.exists_of_cons
  obtain ⟨outcome, more, t₁, hwrite, hwrites⟩ := writeAll_cons_of_ok h
  have hf : root.join f.path = (root.child directory).child (Modules.fileName n) := by
    rw [hpath, join_pathOf hd hn]
  have hfirst := edit_write_named hd ht hn hpath hwrite
  exact (edit_writeAll hd hfirst.regular hrest hwrites).enters
    (of_write_ok ht (Modules.isEntryName_fileName hn) hf hwrite).1

end

/-! ### Pruning -/

/-- Whether pruning removes an entry of its directory. -/
def isPruned (directory : Path) (keep : List Path) (e : String × Entry) : Bool :=
  match e.2 with
  | .file contents _ =>
    isSheetName e.1 && !(keep.any fun k => k.same (directory.child e.1)) && isGenerated contents
  | _ => false

/-- The names of the entries of a directory that pruning removes. -/
def prunedNames (directory : Path) (keep : List Path) (found : List (String × Entry)) :
    List String :=
  (found.filter (isPruned directory keep)).map (·.1)

theorem stale_eq_map (directory : Path) (keep : List Path) (found : List (String × Entry)) :
    stale directory keep found = (prunedNames directory keep found).map directory.child := by
  rw [stale, prunedNames, List.map_map, ← List.filterMap_eq_map, List.filterMap_filter]
  refine List.filterMap_congr fun e _ => ?_
  obtain ⟨name, entry⟩ := e
  cases entry <;> simp [isPruned]

/-- These are the names of sheets with the banner whose paths are not kept. -/
theorem mem_prunedNames {t : FileTree} (ht : t.Regular) {directory : Path} {keep : List Path}
    {place : Place} {name : String} :
    name ∈ prunedNames directory keep (t.children place) ↔
      isSheetName name = true ∧ (∀ k ∈ keep, k.parts ≠ (directory.child name).parts) ∧
        ∃ contents executable, t.find? (place ++ [name]) = some (.file contents executable) ∧
          isGenerated contents = true := by
  have hother : (keep.any fun k => k.same (directory.child name)) = false ↔
      ∀ k ∈ keep, k.parts ≠ (directory.child name).parts := by
    simp [Path.same]
  rw [prunedNames, List.mem_map, ← hother]
  constructor
  · rintro ⟨⟨name', e⟩, hmem, rfl⟩
    obtain ⟨hmem, hpruned⟩ := List.mem_filter.mp hmem
    have hfind := (mem_children_iff ht).mp hmem
    cases e with
    | directory => cases hpruned
    | link target => cases hpruned
    | file contents executable =>
      simp only [isPruned, Bool.and_eq_true, Bool.not_eq_true'] at hpruned
      obtain ⟨⟨hsheet, hkept⟩, hgenerated⟩ := hpruned
      exact ⟨hsheet, hkept, contents, executable, hfind, hgenerated⟩
  · rintro ⟨hsheet, hkept, contents, executable, hfind, hgenerated⟩
    refine ⟨(name, .file contents executable), List.mem_filter.mpr ⟨?_, ?_⟩, rfl⟩
    · exact (mem_children_iff ht).mpr hfind
    · simp [isPruned, hsheet, hkept, hgenerated]

/-- A generated sheet in a directory that none of the modules goes to. -/
structure Stale (t : FileTree) (p : Path) (names : List String) (name : String) : Prop where
  sheet : isSheetName name = true
  other : ∀ n ∈ names, name ≠ Modules.fileName n
  generated : ∃ contents executable,
    t.find? (t.placeOf p ++ [name]) = some (.file contents executable) ∧
      isGenerated contents = true

/-- The places of the stale files of a directory. -/
def stalePlaces (t : FileTree) (p : Path) (names : List String) : Set Place :=
  {q | ∃ name, Stale t p names name ∧ q = t.placeOf p ++ [name]}

section
variable {t : FileTree} {p : Path} {names : List String} {name : String}

/-- A file of the directory is at one of these places exactly if it is stale. -/
theorem mem_stalePlaces :
    t.placeOf p ++ [name] ∈ stalePlaces t p names ↔ Stale t p names name := by
  constructor
  · rintro ⟨other, hstale, heq⟩
    obtain rfl : name = other := by simpa using heq
    exact hstale
  · exact fun hstale => ⟨name, hstale, rfl⟩

/-- The file of a module is not stale. -/
theorem not_stale_fileName {n : String} (hn : n ∈ names) : ¬Stale t p names (Modules.fileName n) :=
  fun hstale => hstale.other n hn rfl

/-- A temporary sibling is no sheet. -/
theorem not_stale_temporary {n : String} :
    ¬Stale t p names (temporary (Modules.fileName n)) := by
  intro hstale
  have hsheet := hstale.sheet
  rw [isSheetName_temporary] at hsheet
  cases hsheet

end

section
variable {t t' : FileTree} (ht : t.Regular) {p : Path}
include ht

/-- Files of a directory are removed one after the other, and after a success none is left. -/
theorem of_removeAll {ps : List Path}
    (hps : ∀ q ∈ ps, ∃ name, IsEntryName name ∧ q = p.child name) {r : Except EmitError Unit}
    (h : (removeAll ps).on t = (r, t')) :
    Edit {x | ∃ q ∈ ps, x = t.placeOf q} ∅ t t' ∧
      (r = .ok () → ∀ q ∈ ps, t'.find? (t.placeOf q) = none) := by
  induction ps generalizing t with
  | nil =>
    rw [removeAll] at h
    obtain ⟨-, rfl⟩ := Prod.mk.inj h
    exact ⟨Edit.refl ht, fun _ => by simp⟩
  | cons q ps ih =>
    obtain ⟨⟨name, hn, rfl⟩, hrest⟩ := List.forall_mem_cons.mp hps
    rw [removeAll] at h
    cases hremove : t.removeFile (p.child name) with
    | error e =>
      rw [Task.on_bind_of_error (by rw [Task.on_change, hremove]; rfl)] at h
      obtain ⟨rfl, rfl⟩ := Prod.mk.inj h
      exact ⟨Edit.refl ht, by simp⟩
    | ok t₁ =>
      rw [Task.on_bind_of_ok (by rw [Task.on_change, hremove]; rfl)] at h
      have hfirst := edit_removeFile ht hremove
      obtain ⟨hothers, hgone⟩ := ih hfirst.regular hrest h
      simp only [placeOf_congr hfirst.here] at hothers hgone
      refine ⟨(hfirst.mono ?_ subset_rfl).trans (hothers.mono ?_ subset_rfl), ?_⟩
      · exact Set.singleton_subset_iff.mpr ⟨_, List.mem_cons_self, rfl⟩
      · rintro x ⟨q, hq, rfl⟩
        exact ⟨q, List.mem_cons_of_mem _ hq, rfl⟩
      · intro hok
        refine List.forall_mem_cons.mpr ⟨?_, hgone hok⟩
        obtain ⟨-, -, rfl⟩ := (removeFile_child_eq_ok ht hn).mp hremove
        by_cases hmem : ∃ q ∈ ps, t.placeOf (p.child name) = t.placeOf q
        · obtain ⟨q, hq, heq⟩ := hmem
          rw [heq]
          exact hgone hok q hq
        · have hne : t.placeOf p ++ [name] ≠ [] := by simp
          have hplace := placeOf_child hn t p
          refine (hothers.same hmem).trans ?_
          rw [hplace]
          exact find?_erase_self t hne

end

section
variable {root : Path} {directory : String} (hd : IsEntryName directory) {names : List String}
  {fs : List Fragment} (hfs : Named directory names fs) {t t' : FileTree} (ht : t.Regular)
include hd hfs ht

/-- What pruning finds in its directory are the stale files. -/
theorem mem_stale_iff (root : Path) {q : Path} :
    q ∈ stale (root.child directory) (fs.map fun f => root.join f.path)
        (t.children (t.placeOf (root.child directory))) ↔
      ∃ name, Stale t (root.child directory) names name ∧
        q = (root.child directory).child name := by
  have hkeep : fs.map (fun f => root.join f.path) =
      names.map fun n => (root.child directory).child (Modules.fileName n) := by
    calc fs.map (fun f => root.join f.path)
      _ = (fs.map (·.path)).map root.join := by rw [List.map_map]; rfl
      _ = (names.map (Modules.pathOf directory)).map root.join := by rw [hfs.paths]
      _ = _ := by
        rw [List.map_map]
        exact List.map_congr_left fun n hn => join_pathOf hd (hfs.plain n hn) root
  -- a kept path is that of a name exactly if it was built from the name
  have hsame {name : String} (hn : IsEntryName name) :
      (∀ k ∈ fs.map fun f => root.join f.path,
          k.parts ≠ ((root.child directory).child name).parts) ↔
        ∀ n ∈ names, name ≠ Modules.fileName n := by
    rw [hkeep, List.forall_mem_map]
    refine forall₂_congr fun n hmem => ?_
    rw [Path.parts_child _ (Modules.isEntryName_fileName (hfs.plain n hmem)), Path.parts_child _ hn,
      ne_eq, List.append_cancel_left_eq, List.singleton_inj, PathPart.name.injEq]
    exact not_congr eq_comm
  rw [stale_eq_map, List.mem_map]
  refine exists_congr fun name => and_congr ?_ eq_comm
  rw [mem_prunedNames ht]
  constructor
  · rintro ⟨hsheet, hother, contents, executable, hfind, hgenerated⟩
    exact ⟨hsheet, (hsame (ht.isEntryName_of_isSome hfind)).mp hother, contents, executable, hfind,
      hgenerated⟩
  · rintro ⟨hsheet, hother, contents, executable, hfind, hgenerated⟩
    exact ⟨hsheet, (hsame (ht.isEntryName_of_isSome hfind)).mpr hother, contents, executable, hfind,
      hgenerated⟩

omit hd hfs in
/-- In a directory that is there, pruning removes what it finds stale. -/
theorem on_prune_of_enters (hd : IsEntryName directory) (h : t.Enters (root.child directory)) :
    (prune root directory fs).on t =
      (do
        removeAll (stale (root.child directory) (fs.map fun f => root.join f.path)
          (t.children (t.placeOf (root.child directory))))
        return stale (root.child directory) (fs.map fun f => root.join f.path)
          (t.children (t.placeOf (root.child directory))) : Task EmitError (List Path)).on t := by
  have hthere : t.isDirectory (root.child directory) = true := (isDirectory_child_iff ht hd).mpr h
  have hlist : t.list (root.child directory) =
      .ok (t.children (t.placeOf (root.child directory))) := by
    rw [list_child ht hd h, placeOf_child hd]
  rw [prune, Task.on_look_bind]
  simp only [hthere, Bool.not_true, Bool.false_eq_true, if_false]
  -- a directory that is there can be listed
  exact Task.on_bind_of_ok (Task.on_tryLook_of_eq (mapError_eq_ok.mpr hlist)) _

omit hd hfs in
/-- A directory that is not there has nothing to prune; in one that is there, what is found stale
is removed. -/
theorem prune_cases (hd : IsEntryName directory) {r : Except EmitError (List Path)}
    (h : (prune root directory fs).on t = (r, t')) :
    (¬t.Enters (root.child directory) ∧ r = .ok [] ∧ t' = t) ∨
      t.Enters (root.child directory) ∧
        ∃ r', (removeAll (stale (root.child directory) (fs.map fun f => root.join f.path)
            (t.children (t.placeOf (root.child directory))))).on t = (r', t') ∧
          ∀ gone, r = .ok gone → r' = .ok () ∧
            gone = stale (root.child directory) (fs.map fun f => root.join f.path)
              (t.children (t.placeOf (root.child directory))) := by
  by_cases henters : t.Enters (root.child directory)
  · right
    refine ⟨henters, ?_⟩
    rw [on_prune_of_enters ht hd henters] at h
    rcases Task.on_bind_cases h with ⟨e, hremove, rfl⟩ | ⟨⟨⟩, t₁, hremove, h⟩
    · exact ⟨_, hremove, by simp⟩
    · obtain ⟨rfl, rfl⟩ := Prod.mk.inj h
      exact ⟨_, hremove, fun _ h => ⟨rfl, (Except.ok.inj h).symm⟩⟩
  · left
    have hthere : t.isDirectory (root.child directory) = false := by
      rw [Bool.eq_false_iff, ne_eq, isDirectory_child_iff ht hd]
      exact henters
    rw [prune, Task.on_look_bind] at h
    simp only [hthere, Bool.not_false, if_true, Task.on_pure] at h
    obtain ⟨rfl, rfl⟩ := Prod.mk.inj h
    exact ⟨henters, rfl, rfl⟩

/-- Pruning touches stale files only; after a success all of them are gone, and what it lists are
some of them. -/
theorem of_prune {r : Except EmitError (List Path)}
    (h : (prune root directory fs).on t = (r, t')) :
    Edit (stalePlaces t (root.child directory) names) ∅ t t' ∧
      ∀ gone, r = .ok gone →
        (t.Enters (root.child directory) → ∀ name, Stale t (root.child directory) names name →
          t'.find? (t.placeOf (root.child directory) ++ [name]) = none) ∧
        ∀ q ∈ gone, ∃ name, Stale t (root.child directory) names name ∧
          q = (root.child directory).child name ∧ t'.find? (t.placeOf q) = none := by
  have hmem {q : Path} := mem_stale_iff hd hfs ht root (q := q)
  rcases prune_cases ht hd h with ⟨hnot, rfl, rfl⟩ | ⟨-, r', hremove, hr⟩
  · refine ⟨Edit.refl ht, ?_⟩
    rintro gone hgone
    obtain rfl := Except.ok.inj hgone
    exact ⟨fun henters => absurd henters hnot, by simp⟩
  have hname {name : String} (hstale : Stale t (root.child directory) names name) :
      IsEntryName name := by
    obtain ⟨contents, executable, hfind, -⟩ := hstale.generated
    exact ht.isEntryName_of_isSome hfind
  obtain ⟨hedit, hgone⟩ := of_removeAll ht (fun q hq => by
    obtain ⟨name, hstale, rfl⟩ := hmem.mp hq
    exact ⟨name, hname hstale, rfl⟩) hremove
  refine ⟨hedit.mono ?_ subset_rfl, fun gone hok => ?_⟩
  · rintro x ⟨q, hq, rfl⟩
    obtain ⟨name, hstale, rfl⟩ := hmem.mp hq
    exact ⟨name, hstale, placeOf_child (hname hstale) t _⟩
  · obtain ⟨rfl, rfl⟩ := hr gone hok
    refine ⟨fun _ name hstale => ?_, fun q hq => ?_⟩
    · rw [← placeOf_child (hname hstale)]
      exact hgone rfl _ (hmem.mpr ⟨name, hstale, rfl⟩)
    · obtain ⟨name, hstale, rfl⟩ := hmem.mp hq
      exact ⟨name, hstale, rfl, hgone rfl _ hq⟩

end

end Fragment

end TokenSheets
