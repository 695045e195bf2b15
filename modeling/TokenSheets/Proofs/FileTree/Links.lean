/-
TokenSheets/Proofs/FileTree/Links.lean

Replacing a file in a tree with links.

Writing the sibling of a file and giving it the name of the file changes no
directory, but it can change two links.  A link at the file is gone then, which
matters if the path leads through it.  A link at the sibling is followed when
the sibling is written, and it is the link that gets the name; so it has to lead
to the same place from there.  Under these two conditions (`Replaceable`) the
path leads to what was written (`fileBytes_of_replaceFile`).
-/
import TokenSheets.Proofs.FileTree.Walk

namespace TokenSheets

namespace FileTree

/-! ### Names in a directory -/

section Names

variable {t : FileTree} {p q : Path}

theorem locate_child_eq_walk {name : String} (hn : IsEntryName name) (follow : Bool) :
    t.locate follow (q.child name) = t.walk follow linkLimit (t.start q) (q.moves ++ [name]) := by
  have htext : (q.child name).text.isEmpty = false := by
    simpa using q.text_child_ne_empty hn
  rw [locate, htext, q.endsInSlash_child hn, q.isAbsolute_child hn, q.steps_child hn,
    Bool.or_false, walk_filter]
  rfl

/-- A path that ends in a name, or in a dot behind one. -/
theorem steps_of_fileName? {name : String} (h : p.fileName? = some name) :
    p.steps.getLast? = some "." ∨ ∃ front, p.steps = front ++ [name] := by
  obtain ⟨hlast, -⟩ := Path.fileName?_eq_some_iff.mp h
  have hne : p.steps ≠ [] := by
    intro hnil
    rw [Path.moves, hnil] at hlast
    cases hlast
  have hsteps := List.dropLast_append_getLast hne
  by_cases hdot : p.steps.getLast hne = "."
  · left
    rw [List.getLast?_eq_some_getLast hne, hdot]
  · right
    rw [Path.moves, ← hsteps, List.filter_append, List.filter_cons_of_pos (by simpa using hdot),
      List.filter_nil, List.getLast?_concat] at hlast
    exact ⟨p.steps.dropLast, by rw [← Option.some.inj hlast, hsteps]⟩

/-- A path that is spelled with a name at its end is looked up like that name in its directory. -/
theorem locate_of_getLast?_steps {name : String} (hname : p.fileName? = some name)
    (hq : p.parent? = some q) (hslash : p.endsInSlash = false)
    (hend : p.steps.getLast? = some name) (u : FileTree) (follow : Bool) :
    u.locate follow p = u.locate follow (q.child name) := by
  have hn := Path.isEntryName_of_fileName? hname
  obtain ⟨hlast, -⟩ := Path.fileName?_eq_some_iff.mp hname
  obtain ⟨q', hq', habsolute, hmoves⟩ := Path.parent?_of_getLast? hlast
  obtain rfl : q' = q := Option.some.inj (hq'.symm.trans hq)
  have htext : p.text.isEmpty = false := by
    cases hempty : p.text.isEmpty with
    | false => rfl
    | true =>
      have hnone : p.steps = [] := by
        rw [Path.steps, String.isEmpty_iff.mp hempty]
        rfl
      rw [hnone] at hend
      cases hend
  obtain ⟨front, hsteps⟩ := List.getLast?_eq_some_iff.mp hend
  have hfront : front.filter (· ≠ ".") = q'.moves := by
    rw [Path.moves, hsteps, List.filter_append,
      List.filter_cons_of_pos (by simpa using hn.2.1)] at hmoves
    exact List.append_cancel_right hmoves
  rw [locate_child_eq_walk hn, locate, htext, hslash, hsteps, Bool.or_false, walk_filter, hfront,
    start, habsolute]
  rfl

/-- So is a path at which something is found that is no directory. -/
theorem locate_eq_locate_child {name : String} (hname : p.fileName? = some name)
    (hq : p.parent? = some q) (hslash : p.endsInSlash = false)
    {w : Place} (hw : t.locate false p = .ok w) (hdir : t.find? w ≠ some .directory)
    (u : FileTree) (follow : Bool) : u.locate follow p = u.locate follow (q.child name) := by
  refine locate_of_getLast?_steps hname hq hslash ?_ u follow
  rcases steps_of_fileName? hname with hdot | ⟨front, hsteps⟩
  · rw [locate, hslash] at hw
    split at hw
    · cases hw
    · exact absurd (find?_of_walk_dot hdot hw) hdir
  · rw [hsteps, List.getLast?_concat]

/-- A name next to one that is found is found in the same directory, also in a tree that has been
changed elsewhere. -/
theorem exists_directory_of_locate {follow : Bool} {name : String} (hn : IsEntryName name)
    {w : Place} (h : t.locate follow (q.child name) = .ok w) :
    ∃ d, ∀ u, t.KeepsWays u → u.here = t.here → ∀ follow' other, IsEntryName other →
      (follow' = false ∨ ∀ target, u.find? (d ++ [other]) ≠ some (.link target)) →
      u.locate follow' (q.child other) = .ok (d ++ [other]) := by
  rw [locate_child_eq_walk hn] at h
  obtain ⟨d, left, hd, hfront⟩ := exists_front hn h
  refine ⟨d, fun u hways hhere follow' other hother hlink => ?_⟩
  rw [locate_child_eq_walk hother, start, hhere, ← start, hfront u hways follow' other hother]
  exact walk_last hother.2.1 hother.2.2.1 (hways.find? hd rfl) hlink

end Names

/-! ### What the operations did -/

section Inversion

variable {t t' : FileTree} {p : Path} {contents : ByteArray}

theorem exists_of_replaceFile (h : t.replaceFile p contents = (.ok (), t')) :
    ∃ name written, p.fileName? = some name ∧
      t.writeFile (p.withFileName (temporary name)) contents = .ok written ∧
      written.rename (p.withFileName (temporary name)) p = .ok t' := by
  rw [replaceFile] at h
  split at h
  · cases h
  · rename_i name hname
    refine ⟨name, ?_⟩
    simp only at h
    split at h
    · cases h
    · rename_i written hwrite
      split at h
      · rename_i renamed hrename
        obtain rfl : renamed = t' := (Prod.mk.inj h).2
        exact ⟨written, hname, hwrite, hrename⟩
      · split at h <;> cases h

theorem exists_of_writeFile (h : t.writeFile p contents = .ok t') :
    ∃ place executable, t.locate true p = .ok place ∧ isWay (t.find? place) = false ∧
      t' = t.put place (.file contents executable) := by
  rw [writeFile, Outcome.bind_eq_ok] at h
  obtain ⟨place, hplace, h⟩ := h
  refine ⟨place, ?_⟩
  split at h
  · rename_i hnone
    split at h
    · cases h
    · exact ⟨false, hplace, by rw [hnone]; rfl, (Outcome.pure_eq_ok.mp h).symm⟩
  · rename_i executable hfile
    split at h
    · cases h
    · exact ⟨executable, hplace, by rw [hfile]; rfl, (Outcome.pure_eq_ok.mp h).symm⟩
  · cases h

theorem exists_of_rename {old : Path} (h : t.rename old p = .ok t') :
    ∃ source target e, t.locate false old = .ok source ∧ t.locate false p = .ok target ∧
      t.find? source = some e ∧ t.find? target ≠ some .directory ∧ p.endsInSlash = false ∧
      t' = if source = target then t else (t.erase source).put target e := by
  rw [rename, Outcome.bind_eq_ok] at h
  obtain ⟨source, hsource, h⟩ := h
  rw [Outcome.bind_eq_ok] at h
  obtain ⟨target, htarget, h⟩ := h
  split at h
  · exact absurd h Outcome.throw_ne_ok
  · exact absurd h Outcome.throw_ne_ok
  · rename_i e _ hfound
    cases hslash : old.endsInSlash || p.endsInSlash with
    | true =>
      rw [hslash] at h
      exact absurd h Outcome.throw_ne_ok
    | false =>
      rw [hslash] at h
      by_cases hdir : t.find? target = some .directory
      · simp only [Bool.false_eq_true, if_false, if_pos hdir] at h
        exact absurd h Outcome.throw_ne_ok
      simp only [Bool.false_eq_true, if_false, if_neg hdir] at h
      rw [← apply_ite pure, Outcome.pure_eq_ok] at h
      exact ⟨source, target, e, hsource, htarget, hfound, hdir, (Bool.or_eq_false_iff.mp hslash).2,
        h.symm⟩

end Inversion

/-! ### Replacing a file -/

/-- What replacing a file did to a tree: the sibling was written, behind a link if it is one, and
then it took the place of the file. -/
structure Exchange (t : FileTree) (p : Path) (sibling place file : Place) : Prop where
  name : ∃ name, p.fileName? = some name ∧
    t.locate false (p.withFileName (temporary name)) = .ok sibling ∧
    t.locate true (p.withFileName (temporary name)) = .ok place
  plain : (∀ target, t.find? sibling ≠ some (.link target)) → sibling = place
  written : isWay (t.find? place) = false
  apart : sibling ≠ file
  located : t.locate false p = .ok file
  free : t.find? file ≠ some .directory
  slash : p.endsInSlash = false

theorem exists_exchange {t t' : FileTree} {p : Path} {contents : ByteArray}
    (h : t.replaceFile p contents = (.ok (), t')) :
    ∃ sibling place file executable e, t.Exchange p sibling place file ∧
      (t.put place (.file contents executable)).find? sibling = some e ∧
      t' = ((t.put place (.file contents executable)).erase sibling).put file e := by
  obtain ⟨name, written, hname, hwrite, hrename⟩ := exists_of_replaceFile h
  have hn := Path.isEntryName_of_fileName? hname
  have hs := isEntryName_temporary hn
  obtain ⟨q, hq, -⟩ := Path.parent?_of_getLast? (Path.fileName?_eq_some_iff.mp hname).1
  have hsibling : p.withFileName (temporary name) = q.child (temporary name) := by
    rw [Path.withFileName, hname, hq]
    rfl
  rw [hsibling] at hwrite hrename
  obtain ⟨place, executable, hplace, hfree, rfl⟩ := exists_of_writeFile hwrite
  obtain ⟨source, target, e, hsource, htarget, he, hdir, hslash, ht'⟩ := exists_of_rename hrename
  -- both names are in one directory, and writing the sibling did not change the way to it
  have hways := keepsWays_put hfree (.file contents executable)
  obtain ⟨d, hlocate⟩ := exists_directory_of_locate hs hplace
  obtain rfl : d ++ [temporary name] = source :=
    Except.ok.inj ((hlocate _ hways rfl _ _ hs (.inl rfl)).symm.trans hsource)
  have hchild := locate_eq_locate_child hname hq hslash htarget hdir
  rw [hchild] at htarget
  obtain rfl : d ++ [name] = target :=
    Except.ok.inj ((hlocate _ hways rfl _ _ hn (.inl rfl)).symm.trans htarget)
  have hne : d ++ [temporary name] ≠ d ++ [name] := by simpa using temporary_ne name
  refine ⟨_, place, _, executable, e, ?_, he, by rw [ht', if_neg hne]⟩
  constructor
  case name =>
    refine ⟨name, hname, ?_, by rw [hsibling]; exact hplace⟩
    rw [hsibling]
    exact hlocate t t.keepsWays_refl rfl _ _ hs (.inl rfl)
  case plain =>
    intro hlink
    exact Except.ok.inj ((hlocate t t.keepsWays_refl rfl _ _ hs (.inr hlink)).symm.trans hplace)
  case written => exact hfree
  case apart => exact hne
  case located =>
    rw [hchild]
    exact hlocate t t.keepsWays_refl rfl _ _ hn (.inl rfl)
  case free => exact fun hfile => hdir (hways.find? hfile rfl)
  case slash => exact hslash

/-- Replacing a file loses no way to it.  If a link is at the file, the path does not lead through
it.  If a link is at the sibling, it leads to the same place from where the file is. -/
structure Replaceable (t : FileTree) (p : Path) : Prop where
  path : ∀ file target, t.locate false p = .ok file → t.find? file = some (.link target) →
    (t.erase file).locate false p = .ok file
  sibling : ∀ name sibling place file target, p.fileName? = some name →
    t.locate false (p.withFileName (temporary name)) = .ok sibling →
    t.find? sibling = some (.link target) →
    t.locate true (p.withFileName (temporary name)) = .ok place →
    t.locate false p = .ok file →
    ((t.erase sibling).put file (.link target)).locate true p = .ok place

section Exchanged

variable {t t₀ : FileTree} {p : Path} {sibling place file : Place} {contents : ByteArray}
variable {executable : Bool} {e : Entry}

theorem fileBytes_of_keepsWays {u : FileTree} (hways : t.KeepsWays u) (hhere : u.here = t.here)
    {follow : Bool} {w : Place} (h : t.locate follow p = .ok w)
    (hfile : u.find? w = some (.file contents executable)) (hslash : p.endsInSlash = false) :
    u.fileBytes p = .ok contents := by
  have hlocate := locate_of_keepsWays hways hhere h (by rw [hfile]; nofun)
  rw [fileBytes, stat, hlocate, Outcome.ok_bind, hfile, hslash]
  rfl

namespace Exchange

variable (hx : t.Exchange p sibling place file)
include hx

theorem file_ne_nil : file ≠ [] := fun hnil => hx.free (by rw [hnil, find?_root])

theorem place_ne_nil : place ≠ [] := by
  rintro rfl
  cases hx.written

theorem ne_of_link {target : Path} (htarget : t.find? sibling = some (.link target)) :
    sibling ≠ place := by
  rintro rfl
  have hfree := hx.written
  rw [htarget] at hfree
  cases hfree

/-- The ways after an exchange are the ways that were there, but for those through the sibling and
through what was at the file. -/
theorem keepsWays (hrest : ∀ y, y ≠ file → y ≠ sibling → t₀.find? y = t.find? y)
    (hsibling : isWay (t₀.find? sibling) = false)
    (hfile : isWay (t₀.find? file) = true → t₀.find? file = some e) :
    t₀.KeepsWays (((t.put place (.file contents executable)).erase sibling).put file e) := by
  intro y hy
  by_cases hyfile : y = file
  · subst hyfile
    rw [find?_put_self _ hx.file_ne_nil, hfile hy]
  have hysibling : y ≠ sibling := by
    rintro rfl
    rw [hsibling] at hy
    cases hy
  rw [hrest y hyfile hysibling] at hy ⊢
  have hyplace : y ≠ place := by
    rintro rfl
    rw [hx.written] at hy
    cases hy
  rw [find?_put_of_ne _ hyfile, find?_erase_of_ne _ hysibling, find?_put_of_ne _ hyplace]

/-- A link at the file is as good as gone before. -/
theorem exists_withoutLink (hp : t.Replaceable p) :
    ∃ t₀ : FileTree, t₀.here = t.here ∧ t₀.locate false p = .ok file ∧
      (∀ y, y ≠ file → t₀.find? y = t.find? y) ∧ isWay (t₀.find? file) = false := by
  by_cases hlink : ∃ target, t.find? file = some (.link target)
  · obtain ⟨target, htarget⟩ := hlink
    exact ⟨t.erase file, rfl, hp.path file target hx.located htarget,
      fun y => find?_erase_of_ne t, by rw [find?_erase_self t hx.file_ne_nil]; rfl⟩
  · refine ⟨t, rfl, hx.located, fun _ _ => rfl, ?_⟩
    cases hfound : t.find? file with
    | none => rfl
    | some e =>
      cases e with
      | file contents executable => rfl
      | directory => exact absurd hfound hx.free
      | link target => exact absurd ⟨target, hfound⟩ hlink

/-- The file that was written is at the path now. -/
theorem fileBytes_of_plain (hp : t.Replaceable p) (hplain : sibling = place) :
    (((t.put place (.file contents executable)).erase sibling).put file
      (.file contents executable)).fileBytes p = .ok contents := by
  subst hplain
  obtain ⟨t₀, hhere, hfile, hrest, hfree⟩ := hx.exists_withoutLink hp
  have hways : t₀.KeepsWays (((t.put sibling (.file contents executable)).erase sibling).put file
      (.file contents executable)) := by
    refine hx.keepsWays (fun y hyfile _ => hrest y hyfile) ?_ (fun hway => ?_)
    · rw [hrest _ hx.apart]
      exact hx.written
    · rw [hfree] at hway
      cases hway
  exact fileBytes_of_keepsWays hways hhere.symm hfile (find?_put_self _ hx.file_ne_nil _) hx.slash

/-- The link to the file that was written is at the path now. -/
theorem fileBytes_of_link (hp : t.Replaceable p) {target : Path}
    (htarget : t.find? sibling = some (.link target)) :
    (((t.put place (.file contents executable)).erase sibling).put file
      (.link target)).fileBytes p = .ok contents := by
  obtain ⟨name, hname, hsibling, hplace⟩ := hx.name
  have hsame := hp.sibling name sibling place file target hname hsibling htarget hplace hx.located
  have hplacefile : place ≠ file := by
    rintro rfl
    exact find?_ne_link_of_locate hsame target (find?_put_self _ hx.file_ne_nil _)
  have hroot : sibling ≠ [] := by
    rintro rfl
    cases htarget
  have hways : ((t.erase sibling).put file (.link target)).KeepsWays
      (((t.put place (.file contents executable)).erase sibling).put file (.link target)) := by
    refine hx.keepsWays (fun y hyfile hysibling => ?_) ?_ (fun _ => ?_)
    · rw [find?_put_of_ne _ hyfile, find?_erase_of_ne _ hysibling]
    · rw [find?_put_of_ne _ hx.apart, find?_erase_self _ hroot]
      rfl
    · exact find?_put_self _ hx.file_ne_nil _
  have hwritten : (((t.put place (.file contents executable)).erase sibling).put file
      (.link target)).find? place = some (.file contents executable) := by
    rw [find?_put_of_ne _ hplacefile, find?_erase_of_ne _ (hx.ne_of_link htarget).symm,
      find?_put_self _ hx.place_ne_nil]
  exact fileBytes_of_keepsWays hways rfl hsame hwritten hx.slash

end Exchange

end Exchanged

/-- **A file that was replaced** is found under its path. -/
theorem fileBytes_of_replaceFile {t t' : FileTree} {p : Path} {contents : ByteArray}
    (hp : t.Replaceable p) (h : t.replaceFile p contents = (.ok (), t')) :
    t'.fileBytes p = .ok contents := by
  obtain ⟨sibling, place, file, executable, e, hx, he, rfl⟩ := exists_exchange h
  by_cases hlink : ∃ target, t.find? sibling = some (.link target)
  · obtain ⟨target, htarget⟩ := hlink
    rw [find?_put_of_ne _ (hx.ne_of_link htarget), htarget] at he
    obtain rfl := Option.some.inj he
    exact hx.fileBytes_of_link hp htarget
  · push Not at hlink
    have hplain := hx.plain hlink
    rw [hplain, find?_put_self _ hx.place_ne_nil] at he
    obtain rfl := Option.some.inj he
    exact hx.fileBytes_of_plain hp hplain

end FileTree

end TokenSheets
