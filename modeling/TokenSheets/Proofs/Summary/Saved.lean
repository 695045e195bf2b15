/-
TokenSheets/Proofs/Summary/Saved.lean

Summaries on disk.

A summary is saved in two steps, first the directory and then the file, and both
may fail.  If neither does, the file holds the text of the summary, and the path
leads to the file (`fileBytes_of_replaceFile`) unless a link is in the way.  In
a tree without links both steps succeed where the directory can be created and
no directory stands in the place of a file (`exists_save`).
-/
import TokenSheets.Proofs.FileTree.Links
import TokenSheets.Proofs.FileTree.Task
import TokenSheets.Proofs.Summary.RoundTrip

namespace TokenSheets

open FileTree Outcome

/-! ### The directory of a file -/

namespace FileTree

variable {t t' : FileTree} {p q : Path}

/-- The tree after an attempt to create the directory that a path is in. -/
def withParent (t : FileTree) (p : Path) : FileTree :=
  match p.parent? with
  | none => t
  | some directory => (t.createDirectories directory).2

theorem withParent_of_parent? (h : p.parent? = some q) :
    t.withParent p = (t.createDirectories q).2 := by
  rw [withParent, h]

/-- A tree can hold a file of a name: its directory can be created, and no directory stands in the
place of the file or of its sibling. -/
structure Receives (t : FileTree) (directory : Path) (name : String) : Prop where
  created : ∀ q, (directory.child name).parent? = some q → (t.createDirectories q).1 = .ok ()
  enters : (t.withParent (directory.child name)).Enters directory
  sibling : (t.withParent (directory.child name)).find?
    (t.placeOf directory ++ [temporary name]) ≠ some .directory
  file : (t.withParent (directory.child name)).find?
    (t.placeOf directory ++ [name]) ≠ some .directory

/-- Without links nothing is in the way of replacing a file. -/
theorem replaceable_of_linkless (h : ∀ x target, t.find? x ≠ some (.link target)) (p : Path) :
    t.Replaceable p where
  path file target _ hlink := absurd hlink (h file target)
  sibling _ sibling _ _ target _ _ hlink := absurd hlink (h sibling target)

theorem readText_of_replaceFile {text : String} (hp : t.Replaceable p)
    (h : t.replaceFile p text.toUTF8 = (.ok (), t')) : t'.readText p = .ok text := by
  rw [readText, fileBytes_of_replaceFile hp h, mapError_eq_ok.mpr rfl, ok_bind, fromUTF8?_toUTF8]
  rfl

end FileTree

/-! ### Saving and loading -/

namespace Summary

variable {s : Summary} {t t' : FileTree} {p q : Path}

theorem save_eq_ok (hq : p.parent? = some q) :
    (s.save p).on t = (.ok (), t') ↔
      ∃ t₁, t.createDirectories q = (.ok (), t₁) ∧
        t₁.replaceFile p s.json.toUTF8 = (.ok (), t') := by
  rw [save, hq, Task.on_bind_eq_ok]
  constructor
  · rintro ⟨⟨⟩, t₁, hcreate, hreplace⟩
    exact ⟨t₁, Task.on_perform_eq_ok.mp hcreate, Task.on_perform_eq_ok.mp hreplace⟩
  · rintro ⟨t₁, hcreate, hreplace⟩
    exact ⟨(), t₁, Task.on_perform_eq_ok.mpr hcreate, Task.on_perform_eq_ok.mpr hreplace⟩

theorem replaceFile_of_save (h : (s.save p).on t = (.ok (), t')) :
    (t.withParent p).replaceFile p s.json.toUTF8 = (.ok (), t') := by
  cases hq : p.parent? with
  | none =>
    rw [save, hq] at h
    rw [withParent, hq]
    exact Task.on_perform_eq_ok.mp h
  | some q =>
    obtain ⟨t₁, hcreate, hreplace⟩ := (save_eq_ok hq).mp h
    rw [withParent_of_parent? hq, hcreate]
    exact hreplace

theorem load_of_save (hs : s.IsRecord) (hp : (t.withParent p).Replaceable p)
    (h : (s.save p).on t = (.ok (), t')) : load t' p = .ok s := by
  rw [load, readText_of_replaceFile hp (replaceFile_of_save h), ok_bind, ofJson_json hs]
  rfl

theorem exists_save {directory : Path} {name : String} (s : Summary) (ht : t.Regular)
    (hn : IsEntryName name) (h : t.Receives directory name) :
    ∃ t', (s.save (directory.child name)).on t = (.ok (), t') := by
  obtain ⟨q, hq, -⟩ := directory.parent?_child hn
  have hcreated := h.created q hq
  have hedit := edit_createDirectories ht q
  obtain ⟨-, henters, hsibling, hfile⟩ := h
  rw [withParent_of_parent? hq] at henters hsibling hfile
  rw [← placeOf_congr hedit.here] at hsibling hfile
  rcases replaceFile_cases hedit.regular hn directory s.json.toUTF8 with
    ⟨-, -, -, hreplace⟩ | ⟨-, -, hdir, -⟩ | ⟨hdir, -⟩
  · exact ⟨_, (save_eq_ok hq).mpr ⟨_, Prod.ext hcreated rfl, hreplace⟩⟩
  · exact absurd hdir hfile
  · exact absurd (hdir henters) hsibling

/-- **Summaries read back**, from their text and from the file that they were saved in. -/
theorem ofJson_and_load_of_save (hs : s.IsRecord) :
    ofJson s.json = .ok s ∧
      (∀ {t t' : FileTree} {p : Path}, (t.withParent p).Replaceable p →
        (s.save p).on t = (.ok (), t') → load t' p = .ok s) ∧
      ∀ {t : FileTree} {directory : Path} {name : String}, t.Regular → IsEntryName name →
        t.Receives directory name →
        ∃ t', (s.save (directory.child name)).on t = (.ok (), t') ∧
          load t' (directory.child name) = .ok s := by
  refine ⟨ofJson_json hs, load_of_save hs, fun {t directory name} ht hn hreceives => ?_⟩
  obtain ⟨t', hsave⟩ := exists_save s ht hn hreceives
  obtain ⟨q, hq, -⟩ := directory.parent?_child hn
  have hlinkless : ∀ x target, (t.withParent (directory.child name)).find? x ≠
      some (.link target) := by
    rw [withParent_of_parent? hq]
    exact (edit_createDirectories ht q).regular.linkless
  exact ⟨t', hsave, load_of_save hs (replaceable_of_linkless hlinkless _) hsave⟩

/-! ### Summaries and trees -/

/-- A summary with something in all of its fields, made in the last second of the year 9999. -/
def fullSummary : Summary where
  schemaVersion := currentVersion
  schemaId := currentId
  createdAt := ⟨253402300799, 999999999⟩
  configDigest := "5f"
  sources :=
    [⟨.default, "/site/default.json", some "5f", .loaded⟩,
     ⟨.user, "C:\\user \"config\".json", none, .missing⟩,
     ⟨.user, "", some "e3", .fallback "invalid type: string \"a\\tb\",\n expected a map"⟩]
  settings := ["core", ""]
  utilities := ["größe"]
  fragments := [⟨"1_settings/_core.scss", "0a"⟩]
  pruned := ["1_settings/_old.scss", "\x00\u2028😀"]
  artifacts := some ⟨⟨"public/main.min.css"⟩, ⟨"public/main.min.css.map"⟩, "b5",
    0xFFFFFFFFFFFFFFFF⟩

theorem isRecord_fullSummary : fullSummary.IsRecord where
  version := by decide
  createdAt := ⟨by decide +kernel, by decide⟩
  size a ha := by
    obtain rfl := Option.some.inj ha
    decide

/-- A directory that is reached through a link, with links in the place of the summary and of its
sibling. -/
def linkedSite : FileTree where
  entries :=
    [(["site"], .directory), (["site", "real"], .directory), (["site", "public"], .link ⟨"real"⟩),
     (["site", "real", "s.json"], .link ⟨"../../old.json"⟩),
     (["site", "real", ".s.json.tmp"], .link ⟨"../kept.json"⟩)]
  here := ["site"]

theorem replaceable_linkedSite :
    (linkedSite.withParent ⟨"public/s.json"⟩).Replaceable ⟨"public/s.json"⟩ := by
  obtain ⟨hname, hfile, hsibling, hlink, hplace⟩ :
      Path.fileName? ⟨"public/s.json"⟩ = some "s.json" ∧
      (linkedSite.withParent ⟨"public/s.json"⟩).locate false ⟨"public/s.json"⟩ =
        .ok ["site", "real", "s.json"] ∧
      (linkedSite.withParent ⟨"public/s.json"⟩).locate false
        (Path.withFileName ⟨"public/s.json"⟩ (temporary "s.json")) =
        .ok ["site", "real", ".s.json.tmp"] ∧
      (linkedSite.withParent ⟨"public/s.json"⟩).find? ["site", "real", ".s.json.tmp"] =
        some (.link ⟨"../kept.json"⟩) ∧
      (linkedSite.withParent ⟨"public/s.json"⟩).locate true
        (Path.withFileName ⟨"public/s.json"⟩ (temporary "s.json")) =
        .ok ["site", "kept.json"] := by decide +kernel
  constructor
  case path =>
    intro file target hfile' _
    obtain rfl := Except.ok.inj (hfile.symm.trans hfile')
    decide +kernel
  case sibling =>
    intro name sibling place file target hname' hsibling' hlink' hplace' hfile'
    obtain rfl := Option.some.inj (hname.symm.trans hname')
    obtain rfl := Except.ok.inj (hsibling.symm.trans hsibling')
    obtain rfl := Except.ok.inj (hfile.symm.trans hfile')
    obtain rfl := Except.ok.inj (hplace.symm.trans hplace')
    obtain rfl := Entry.link.inj (Option.some.inj (hlink.symm.trans hlink'))
    decide +kernel

/-- A directory with nothing in it. -/
def bareSite : FileTree where
  entries := [(["site"], .directory)]
  here := ["site"]

theorem receives_bareSite : bareSite.Receives ⟨"a/b"⟩ "s.json" where
  created q hq := by
    have hparent : (Path.child ⟨"a/b"⟩ "s.json").parent? = some ⟨"a/b"⟩ := by decide +kernel
    obtain rfl := Option.some.inj (hparent.symm.trans hq)
    decide +kernel
  enters := by
    unfold Enters
    decide +kernel
  sibling := by decide +kernel
  file := by decide +kernel

theorem ofJson_and_load_of_save_fullSummary :
    fullSummary.IsRecord ∧ ofJson fullSummary.json = .ok fullSummary ∧
      (linkedSite.withParent ⟨"public/s.json"⟩).Replaceable ⟨"public/s.json"⟩ ∧
      (∃ t, (fullSummary.save ⟨"public/s.json"⟩).on linkedSite = (.ok (), t) ∧
        load t ⟨"public/s.json"⟩ = .ok fullSummary) ∧
      ∃ t, (fullSummary.save (Path.child ⟨"a/b"⟩ "s.json")).on bareSite = (.ok (), t) ∧
        load t (Path.child ⟨"a/b"⟩ "s.json") = .ok fullSummary := by
  obtain ⟨hjson, hload, hsave⟩ := ofJson_and_load_of_save isRecord_fullSummary
  have hlinked : ((fullSummary.save ⟨"public/s.json"⟩).on linkedSite).1 = .ok () := by
    decide +kernel
  have hregular : bareSite.Regular := by
    refine .of_entries (by decide) (by decide) ?_
    simp [bareSite]
  refine ⟨isRecord_fullSummary, hjson, replaceable_linkedSite, ?_,
    hsave hregular (by decide) receives_bareSite⟩
  rcases hon : (fullSummary.save ⟨"public/s.json"⟩).on linkedSite with ⟨r, t⟩
  rw [hon] at hlinked
  obtain rfl : r = .ok () := hlinked
  exact ⟨t, rfl, hload replaceable_linkedSite hon⟩

/-- A link in the place of the sibling that leads to the summary itself. -/
def linkedSibling : FileTree where
  entries := [(["site"], .directory), (["site", ".s.json.tmp"], .link ⟨"s.json"⟩)]
  here := ["site"]

/-- A link in the place of the summary that the path of the summary leads through. -/
def linkedThrough : FileTree where
  entries := [(["site"], .directory), (["site", "s"], .link ⟨"."⟩)]
  here := ["site"]

theorem exists_not_loaded {result : Except IoError Unit × FileTree} {e : IoError}
    (hsave : result.1 = .ok ()) (hread : result.2.readText p = .error e) :
    ∃ t, result = (.ok (), t) ∧ load t p = .error e :=
  ⟨result.2, Prod.ext hsave rfl, by rw [load, hread]; rfl⟩

/-- A summary that was saved cannot be loaded if the link in the place of its sibling has become
a link to itself, or if the link on the way to it is gone. -/
theorem exists_saved_not_loaded :
    fullSummary.IsRecord ∧
      (∃ t, (fullSummary.save ⟨"s.json"⟩).on linkedSibling = (.ok (), t) ∧
        load t ⟨"s.json"⟩ = .error (.os .tooManyLinks)) ∧
      ∃ t, (fullSummary.save ⟨"s/s"⟩).on linkedThrough = (.ok (), t) ∧
        load t ⟨"s/s"⟩ = .error (.os .notDirectory) := by
  have hsibling : ((fullSummary.save ⟨"s.json"⟩).on linkedSibling).1 = .ok () ∧
      ((fullSummary.save ⟨"s.json"⟩).on linkedSibling).2.readText ⟨"s.json"⟩ =
        .error (.os .tooManyLinks) := by decide +kernel
  have hthrough : ((fullSummary.save ⟨"s/s"⟩).on linkedThrough).1 = .ok () ∧
      ((fullSummary.save ⟨"s/s"⟩).on linkedThrough).2.readText ⟨"s/s"⟩ =
        .error (.os .notDirectory) := by decide +kernel
  exact ⟨isRecord_fullSummary, exists_not_loaded hsibling.1 hsibling.2,
    exists_not_loaded hthrough.1 hthrough.2⟩

end Summary

end TokenSheets
