/-
TokenSheets/Proofs/Fragment/Again.lean

Fragments that are written a second time.

A fragment that was written is on disk with its contents, and if the file had to be
replaced then its temporary sibling is gone.  Two fragments may share a file, and then
the later one stays; but in that case one of them had to replace it, so the sibling is
gone too.  That is all that writing asks for: it succeeds again, and every file gets
the contents that it has (`writeAll_again`).  Where no stale file is left, pruning
finds nothing to remove (`prune_again`).  A directory in this state is `UpToDate`,
which depends on nothing but what is held in it.
-/
import TokenSheets.Proofs.Fragment.Store
import TokenSheets.Proofs.FileTree.Agreement

namespace TokenSheets

open FileTree Outcome

namespace Fragment

/-! ### One fragment -/

/-- A file that a fragment can be written to again: it has the contents of the fragment, or the way
through the temporary sibling is free. -/
structure Rewritable (t : FileTree) (p : Path) (name : String) (contents : ByteArray) : Prop where
  isFile : ∃ old, t.held (t.placeOf p ++ [name]) = some (.file old false)
  settled : t.held (t.placeOf p ++ [name]) = some (.file contents false) ∨
    t.held (t.placeOf p ++ [temporary name]) = none

theorem Rewritable.of_held {t u : FileTree} {p : Path} {name : String} {contents : ByteArray}
    (h : Rewritable t p name contents) (hhere : u.here = t.here)
    (hheld : ∀ n ∈ [name, temporary name],
      u.held (t.placeOf p ++ [n]) = t.held (t.placeOf p ++ [n])) :
    Rewritable u p name contents := by
  have hfile := hheld name (by simp)
  have hsibling := hheld (temporary name) (by simp)
  constructor
  · rw [placeOf_congr hhere, hfile]
    exact h.isFile
  · rw [placeOf_congr hhere, hfile, hsibling]
    exact h.settled

section
variable {root p : Path} {f : Fragment} {name : String} {t t' : FileTree}

theorem write_of_readText (hf : root.join f.path = p.child name)
    (h : t.readText (p.child name) = .ok f.contents) :
    (f.write root).on t = (.ok .unchanged, t) := by
  rw [write, hf, Task.on_look_bind, h]
  exact Task.on_ite .. |>.trans (if_pos rfl)

theorem write_of_replaceFile {q : Path} (hf : root.join f.path = p.child name)
    (hq : (p.child name).parent? = some q) (hread : t.readText (p.child name) ≠ .ok f.contents)
    (hdir : t.createDirectories q = (.ok (), t))
    (hreplace : t.replaceFile (p.child name) f.contents.toUTF8 = (.ok (), t')) :
    (f.write root).on t = (.ok .written, t') := by
  have hother : (t.readText (p.child name)).toOption ≠ some f.contents :=
    fun hsome => hread (toOption_eq_some_iff.mp hsome)
  rw [write, hf, hq]
  simp only [Task.on_look_bind, if_neg hother, Option.getD_some]
  rw [Task.on_bind_of_ok (by rw [Task.on_perform, hdir]; rfl),
    Task.on_bind_of_ok (by rw [Task.on_perform, hreplace]; rfl)]
  rfl

/-- Where a fragment was written, the tree is as it was or the temporary sibling is gone. -/
theorem sibling_of_write (ht : t.Regular) (hn : IsEntryName name)
    (hf : root.join f.path = p.child name) {outcome : WriteOutcome}
    (h : (f.write root).on t = (.ok outcome, t')) :
    t' = t ∨ t'.held (t.placeOf p ++ [temporary name]) = none := by
  rcases write_cases hn hf t with ⟨-, heq⟩ | ⟨q, -, ⟨e, heq⟩ | ⟨-, r, heq, hr, -⟩⟩
  · rw [heq] at h
    exact Or.inl (Prod.mk.inj h).2.symm
  · rw [heq] at h
    cases h
  · rw [heq] at h
    obtain ⟨hok, rfl⟩ := Prod.mk.inj h
    have hdir := edit_createDirectories ht q
    obtain ⟨-, -, hgone⟩ := of_replaceFile_ok hdir.regular hn p (hr outcome hok)
    rw [placeOf_congr hdir.here] at hgone
    exact Or.inr (held_eq_none_iff.mpr hgone)

/-- Writing a fragment again succeeds and changes no file but its own. -/
theorem write_again (ht : t.Regular) (hn : IsEntryName name) (hf : root.join f.path = p.child name)
    (hp : t.Enters p) (hmoves : p.moves ≠ [])
    (h : Rewritable t p name f.contents.toUTF8) :
    ∃ outcome t', (f.write root).on t = (.ok outcome, t') ∧
      ∀ q ≠ t.placeOf p ++ [name], t'.held q = t.held q := by
  obtain ⟨⟨old, hold⟩, hsettled⟩ := h
  by_cases hread : t.readText (p.child name) = .ok f.contents
  · exact ⟨_, t, write_of_readText hf hread, fun _ _ => rfl⟩
  -- the file has other contents, so the sibling is free
  have hfree : t.held (t.placeOf p ++ [temporary name]) = none := by
    refine hsettled.resolve_left fun hsame => hread ?_
    obtain ⟨executable, hfind⟩ := find?_of_held_eq_file hsame
    exact (readText_child_eq_ok ht hn).mpr ⟨hp, _, executable, hfind, fromUTF8?_toUTF8 _⟩
  have hdir : t.find? (t.placeOf p ++ [name]) ≠ some .directory := by
    intro hdir
    rw [held_of_find? hdir] at hold
    cases hold
  obtain ⟨q, hq, halike⟩ := p.parent?_child hn
  have hstay : t.createDirectories q = (.ok (), t) :=
    createDirectories_of_enters ht ((enters_alike halike).mpr hp) (by rw [halike.2]; exact hmoves)
  obtain ⟨t', hreplace, -, -, hkept⟩ := replaceFile_over ht hn p _ hp hfree hdir
  exact ⟨_, t', write_of_replaceFile hf hq hread hstay hreplace, hkept⟩

end

/-! ### All fragments of a directory -/

/-- The file of another module is elsewhere, and so is its sibling. -/
theorem not_mem_sheetPlaces_of_ne {t : FileTree} {p : Path} {n m : String} (h : n ≠ m) :
    t.placeOf p ++ [Modules.fileName n] ∉ sheetPlaces t p [m] ∧
      t.placeOf p ++ [temporary (Modules.fileName n)] ∉ sheetPlaces t p [m] := by
  constructor
  · refine not_mem_sheetPlaces (Modules.isSheetName_fileName n) fun k hk heq => ?_
    rw [List.mem_singleton.mp hk] at heq
    exact h (Modules.fileName_inj.mp heq)
  · rintro ⟨k, hk, heq | heq⟩
    · have hsame : temporary (Modules.fileName n) = Modules.fileName k := by simpa using heq
      have hsheet := Modules.isSheetName_fileName k
      rw [← hsame, isSheetName_temporary] at hsheet
      cases hsheet
    · rw [List.mem_singleton.mp hk] at heq
      have hsame : temporary (Modules.fileName n) = temporary (Modules.fileName m) := by
        simpa using heq
      exact h (Modules.fileName_inj.mp (temporary_inj hsame))

section
variable {root : Path} {directory : String} (hd : IsEntryName directory)
include hd

/-- The file of a fragment, as a name in the directory. -/
theorem join_path_of (root : Path) {f : Fragment} {n : String}
    (hpath : f.path = Modules.pathOf directory n) (hn : '/' ∉ n.toList) :
    root.join f.path = (root.child directory).child (Modules.fileName n) := by
  rw [hpath, join_pathOf hd hn]

/-- Which fragment is on disk after writing does not depend on the tree. -/
theorem exists_last (root : Path) {fs : List Fragment} {names : List String}
    (hfs : Named directory names fs) :
    ∀ f ∈ fs, ∃ g ∈ fs, g.path = f.path ∧
      ∀ {t t' : FileTree} {outcomes : List WriteOutcome}, t.Regular →
        (writeAll root fs).on t = (.ok outcomes, t') →
        t'.held (t.placeOf (root.join f.path)) = some (.file g.contents.toUTF8 false) := by
  induction fs generalizing names with
  | nil => simp
  | cons f₀ fs ih =>
    obtain ⟨n, rest, rfl, hpath, hn, hrest⟩ := hfs.exists_of_cons
    intro f hf
    by_cases hlater : ∃ g ∈ fs, g.path = f.path
    · obtain ⟨g, hg, hsame⟩ := hlater
      obtain ⟨last, hlast, hpath', hheld⟩ := ih hrest g hg
      refine ⟨last, List.mem_cons_of_mem _ hlast, hpath'.trans hsame, ?_⟩
      intro t t' outcomes ht h
      obtain ⟨outcome, more, t₁, hwrite, hwrites⟩ := writeAll_cons_of_ok h
      have hfirst := edit_write_named hd ht hn hpath hwrite
      rw [← hsame, ← placeOf_congr hfirst.here]
      exact hheld hfirst.regular hwrites
    · -- the first one is the last one with its path
      obtain rfl : f = f₀ := (List.mem_cons.mp hf).resolve_right fun h => hlater ⟨f, h, rfl⟩
      refine ⟨f, List.mem_cons_self, rfl, ?_⟩
      intro t t' outcomes ht h
      obtain ⟨outcome, more, t₁, hwrite, hwrites⟩ := writeAll_cons_of_ok h
      have hfirst := edit_write_named hd ht hn hpath hwrite
      have hothers := edit_writeAll hd hfirst.regular hrest hwrites
      have hfile := join_path_of hd root hpath hn
      have hheld := (of_write_ok ht (Modules.isEntryName_fileName hn) hfile hwrite).2
      rw [hfile, placeOf_child (Modules.isEntryName_fileName hn)]
      refine hothers.held_of_eq_some ?_ hheld
      rw [← placeOf_congr hfirst.here]
      refine not_mem_sheetPlaces (Modules.isSheetName_fileName n) fun m hm heq => ?_
      obtain ⟨g, hg, hgpath⟩ := hrest.exists_fragment hm
      exact hlater ⟨g, hg, by rw [hgpath, hpath, Modules.fileName_inj.mp heq]⟩

/-- Writing another fragment leaves a file and its sibling alone. -/
theorem held_of_write_other {t t' : FileTree} (ht : t.Regular)
    (hp : t.Enters (root.child directory)) {n m : String} (hne : n ≠ m) (hm : '/' ∉ m.toList)
    {g : Fragment} (hpath : g.path = Modules.pathOf directory m)
    {r : Except EmitError WriteOutcome} (h : (g.write root).on t = (r, t')) :
    t'.held (t.placeOf (root.child directory) ++ [Modules.fileName n]) =
        t.held (t.placeOf (root.child directory) ++ [Modules.fileName n]) ∧
      t'.held (t.placeOf (root.child directory) ++ [temporary (Modules.fileName n)]) =
        t.held (t.placeOf (root.child directory) ++ [temporary (Modules.fileName n)]) := by
  have hedit := edit_write_named hd ht hm hpath h
  obtain ⟨hfile, hsibling⟩ := not_mem_sheetPlaces_of_ne (t := t) (p := root.child directory) hne
  -- nothing is missing on the way, so nothing is created there
  have hway (x : Place) (hx : x ∈ t.way (root.child directory)) : t.find? x ≠ none := by
    rw [hp.1 x hx]
    simp
  exact ⟨held_congr (hedit.find?_eq hfile (hway _)), held_congr (hedit.find?_eq hsibling (hway _))⟩

/-- What can be written again still can after other fragments were written. -/
theorem settled_of_writeAll {n : String} {contents : ByteArray} {fs : List Fragment} :
    ∀ {t : FileTree}, t.Regular → t.Enters (root.child directory) →
      ∀ {names : List String}, Named directory names fs →
        (t.held (t.placeOf (root.child directory) ++ [Modules.fileName n]) =
            some (.file contents false) ∨
          t.held (t.placeOf (root.child directory) ++ [temporary (Modules.fileName n)]) = none) →
        ∀ {outcomes : List WriteOutcome} {t' : FileTree},
          (writeAll root fs).on t = (.ok outcomes, t') →
          t'.held (t.placeOf (root.child directory) ++ [Modules.fileName n]) =
              some (.file contents false) ∨
            t'.held (t.placeOf (root.child directory) ++ [temporary (Modules.fileName n)]) =
              none := by
  induction fs with
  | nil =>
    intro t _ _ names _ hsettled outcomes t' h
    rw [writeAll] at h
    obtain ⟨-, rfl⟩ := Prod.mk.inj h
    exact hsettled
  | cons g fs ih =>
    intro t ht hp names hfs hsettled outcomes t' h
    obtain ⟨m, rest, rfl, hpath, hm, hrest⟩ := hfs.exists_of_cons
    obtain ⟨outcome, more, t₁, hwrite, hwrites⟩ := writeAll_cons_of_ok h
    have hedit := edit_write_named hd ht hm hpath hwrite
    rw [← placeOf_congr hedit.here]
    refine ih hedit.regular (hedit.enters hp) hrest ?_ hwrites
    rw [placeOf_congr hedit.here]
    by_cases hsame : n = m
    · subst hsame
      rcases sibling_of_write ht (Modules.isEntryName_fileName hm) (join_path_of hd root hpath hm)
        hwrite with rfl | hgone
      · exact hsettled
      · exact Or.inr hgone
    · obtain ⟨hfile, hsibling⟩ := held_of_write_other hd ht hp hsame hm hpath hwrite
      rw [hfile, hsibling]
      exact hsettled

/-- After all fragments were written, each can be written again. -/
theorem rewritable_of_writeAll {fs : List Fragment} :
    ∀ {t : FileTree}, t.Regular → ∀ {names : List String}, Named directory names fs →
      ∀ {outcomes : List WriteOutcome} {t' : FileTree},
        (writeAll root fs).on t = (.ok outcomes, t') →
        ∀ f ∈ fs, ∀ n, f.path = Modules.pathOf directory n → '/' ∉ n.toList →
          Rewritable t' (root.child directory) (Modules.fileName n) f.contents.toUTF8 := by
  have hfile {t t' : FileTree} {fs : List Fragment} {names : List String} (ht : t.Regular)
      (hfs : Named directory names fs) {outcomes : List WriteOutcome}
      (h : (writeAll root fs).on t = (.ok outcomes, t')) {f : Fragment} (hf : f ∈ fs) {n : String}
      (hpath : f.path = Modules.pathOf directory n) (hn : '/' ∉ n.toList) :
      ∃ old, t'.held (t'.placeOf (root.child directory) ++ [Modules.fileName n]) =
        some (.file old false) := by
    obtain ⟨g, -, -, hheld⟩ := exists_last hd root hfs f hf
    have hlast := hheld ht h
    rw [hpath, placeOf_pathOf hd hn] at hlast
    rw [placeOf_congr (edit_writeAll hd ht hfs h).here]
    exact ⟨_, hlast⟩
  induction fs with
  | nil => simp
  | cons f₀ fs ih =>
    intro t ht names hfs outcomes t' h f hf n hpath hn
    refine ⟨hfile ht hfs h hf hpath hn, ?_⟩
    obtain ⟨n₀, rest, rfl, hpath₀, hn₀, hrest⟩ := hfs.exists_of_cons
    obtain ⟨outcome, more, t₁, hwrite, hwrites⟩ := writeAll_cons_of_ok h
    have hfirst := edit_write_named hd ht hn₀ hpath₀ hwrite
    rcases List.mem_cons.mp hf with rfl | hf
    · have hwritten := of_write_ok ht (Modules.isEntryName_fileName hn)
        (join_path_of hd root hpath hn) hwrite
      have hsettled := settled_of_writeAll hd (n := n) hfirst.regular hwritten.1 hrest
        (Or.inl (by rw [placeOf_congr hfirst.here]; exact hwritten.2)) hwrites
      rwa [← placeOf_congr (edit_writeAll hd hfirst.regular hrest hwrites).here] at hsettled
    · exact (ih hfirst.regular hrest hwrites f hf n hpath hn).settled

/-- **Writing all fragments again** succeeds and changes no files but theirs. -/
theorem writeAll_again {fs : List Fragment} :
    ∀ {t : FileTree}, t.Regular → t.Enters (root.child directory) →
      ∀ {names : List String}, Named directory names fs →
        (∀ f ∈ fs, ∀ n, f.path = Modules.pathOf directory n → '/' ∉ n.toList →
          Rewritable t (root.child directory) (Modules.fileName n) f.contents.toUTF8) →
        ∃ outcomes t', (writeAll root fs).on t = (.ok outcomes, t') ∧
          ∀ q, (∀ f ∈ fs, q ≠ t.placeOf (root.join f.path)) → t'.held q = t.held q := by
  induction fs with
  | nil =>
    intro t ht hp names hfs h
    exact ⟨[], t, rfl, fun _ _ => rfl⟩
  | cons f fs ih =>
    intro t ht hp names hfs h
    obtain ⟨n, rest, rfl, hpath, hn, hrest⟩ := hfs.exists_of_cons
    have hname := Modules.isEntryName_fileName hn
    have hfile := join_path_of hd root hpath hn
    obtain ⟨outcome, t₁, hwrite, hkept⟩ := write_again ht hname hfile hp
      (by simp [Path.moves_child root hd]) (h f List.mem_cons_self n hpath hn)
    have hedit := edit_write_named hd ht hn hpath hwrite
    have hheld := (of_write_ok ht hname hfile hwrite).2
    -- the others can still be written again, those with the same file included
    have hothers : ∀ g ∈ fs, ∀ m, g.path = Modules.pathOf directory m → '/' ∉ m.toList →
        Rewritable t₁ (root.child directory) (Modules.fileName m) g.contents.toUTF8 := by
      intro g hg m hgpath hm
      obtain ⟨hisFile, hsettled⟩ := h g (List.mem_cons_of_mem _ hg) m hgpath hm
      by_cases hsame : m = n
      · subst hsame
        refine ⟨⟨_, by rw [placeOf_congr hedit.here]; exact hheld⟩, ?_⟩
        rcases sibling_of_write ht hname hfile hwrite with rfl | hgone
        · exact hsettled
        · right
          rw [placeOf_congr hedit.here]
          exact hgone
      · obtain ⟨hsheet, hsibling⟩ := held_of_write_other hd ht hp hsame hn hpath hwrite
        rw [← hsheet, ← placeOf_congr hedit.here] at hisFile hsettled
        rw [placeOf_congr hedit.here, ← hsibling, ← placeOf_congr hedit.here] at hsettled
        exact ⟨hisFile, hsettled⟩
    obtain ⟨outcomes, t', hwrites, hrestKept⟩ := ih hedit.regular (hedit.enters hp) hrest hothers
    refine ⟨outcome :: outcomes, t', ?_, fun q hq => ?_⟩
    · rw [writeAll, Task.on_bind_of_ok hwrite, Task.on_bind_of_ok hwrites]
      rfl
    · rw [List.forall_mem_cons, hfile, placeOf_child hname] at hq
      have hothersKept := hrestKept q
      simp only [placeOf_congr hedit.here] at hothersKept
      rw [hothersKept hq.2, hkept q hq.1]

/-- Where nothing is stale, pruning has nothing to do. -/
theorem prune_again {fs : List Fragment} {names : List String} (hfs : Named directory names fs)
    {t : FileTree} (ht : t.Regular) (hp : t.Enters (root.child directory))
    (h : ∀ name, ¬Stale t (root.child directory) names name) :
    (prune root directory fs).on t = (.ok [], t) := by
  have hnone : stale (root.child directory) (fs.map fun f => root.join f.path)
      (t.children (t.placeOf (root.child directory))) = [] := by
    rw [List.eq_nil_iff_forall_not_mem]
    intro q hq
    obtain ⟨name, hstale, -⟩ := (mem_stale_iff hd hfs ht root).mp hq
    exact h name hstale
  rw [on_prune_of_enters ht hd hp, hnone]
  rfl

end

/-! ### A directory that is up to date -/

/-- A directory that has its fragments and nothing stale. -/
structure UpToDate (root : Path) (directory : String) (names : List String) (fs : List Fragment)
    (t : FileTree) : Prop where
  enters : t.Enters (root.child directory)
  rewritable : ∀ f ∈ fs, ∀ n, f.path = Modules.pathOf directory n → '/' ∉ n.toList →
    Rewritable t (root.child directory) (Modules.fileName n) f.contents.toUTF8
  /-- In whatever tree the fragments are written, their files get the contents that they have
  here. -/
  final : ∀ f ∈ fs, ∀ {t₀ t₁ : FileTree} {outcomes : List WriteOutcome}, t₀.Regular →
    t₀.here = t.here → (writeAll root fs).on t₀ = (.ok outcomes, t₁) →
    t₁.held (t.placeOf (root.join f.path)) = t.held (t.placeOf (root.join f.path))
  clean : ∀ name, ¬Stale t (root.child directory) names name

namespace UpToDate

variable {root : Path} {directory : String} {names : List String} {fs : List Fragment}
  {t u : FileTree}

/-- What is stale in one tree is stale in every tree that holds the same in the directory. -/
theorem stale_of_held {p : Path} {name : String} (h : Stale u p names name)
    (hhere : u.here = t.here)
    (hheld : u.held (t.placeOf p ++ [name]) = t.held (t.placeOf p ++ [name])) :
    Stale t p names name := by
  obtain ⟨contents, executable, hfind, hgenerated⟩ := h.generated
  rw [placeOf_congr hhere] at hfind
  obtain ⟨executable', hfind'⟩ := find?_file_of_held hheld.symm hfind
  exact ⟨h.sheet, h.other, contents, executable', hfind', hgenerated⟩

/-- Being up to date depends on what is held in the directory only. -/
theorem of_held (h : UpToDate root directory names fs t) (hd : IsEntryName directory)
    (hfs : Named directory names fs) (hhere : u.here = t.here)
    (henters : u.Enters (root.child directory))
    (hheld : ∀ n, u.held (t.placeOf (root.child directory) ++ [n]) =
      t.held (t.placeOf (root.child directory) ++ [n])) :
    UpToDate root directory names fs u := by
  constructor
  case enters => exact henters
  case rewritable =>
    intro f hf n hpath hn
    exact (h.rewritable f hf n hpath hn).of_held hhere fun n _ => hheld n
  case final =>
    intro f hf t₀ t₁ outcomes ht₀ hhere₀ hwrite
    have hlast := h.final f hf ht₀ (hhere₀.trans hhere) hwrite
    obtain ⟨n, -, hn, hpath⟩ := hfs.exists_name hf
    rw [placeOf_congr hhere, hlast, hpath, placeOf_pathOf hd hn, hheld]
  case clean =>
    intro name hstale
    exact h.clean name (stale_of_held hstale hhere (hheld name))

theorem of_same (h : UpToDate root directory names fs t) (hd : IsEntryName directory)
    (hfs : Named directory names fs) (hsame : SameAs t u) : UpToDate root directory names fs u :=
  h.of_held hd hfs hsame.here (hsame.enters h.enters) fun _ => hsame.held _

section
variable (h : UpToDate root directory names fs t) (hd : IsEntryName directory)
  (hfs : Named directory names fs) (ht : t.Regular)
include h hd hfs ht

/-- **Writing again** changes nothing. -/
theorem writeAll : ∃ outcomes t', (Fragment.writeAll root fs).on t = (.ok outcomes, t') ∧
    SameAs t t' := by
  obtain ⟨outcomes, t', hwrite, hkept⟩ := writeAll_again hd ht h.enters hfs h.rewritable
  have hedit := edit_writeAll hd ht hfs hwrite
  refine ⟨outcomes, t', hwrite, hedit.regular, hedit.here, fun q => ?_⟩
  by_cases hmem : ∃ f ∈ fs, q = t.placeOf (root.join f.path)
  · obtain ⟨f, hf, rfl⟩ := hmem
    exact h.final f hf ht rfl hwrite
  · exact hkept q fun f hf heq => hmem ⟨f, hf, heq⟩

/-- **Pruning again** does nothing. -/
theorem prune : (Fragment.prune root directory fs).on t = (.ok [], t) :=
  prune_again hd hfs ht h.enters h.clean

end

end UpToDate

end Fragment

end TokenSheets
