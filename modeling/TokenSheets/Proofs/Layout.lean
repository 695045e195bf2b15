/-
TokenSheets/Proofs/Layout.lean

The layout of a project and the staging directory.

The layout names its files by going down from the base directory; the compile step
goes the other way, from the stylesheet to its directory and to a sibling of that.
Whatever the base directory is, and however it is spelled, both mean the same: the
source map is where the layout says, and the staging directory is a name in the base
directory, beside the output directory.  No other name there is the same, so nothing
that a build reads or keeps is in the staging directory (`Layout.fits_compile`),
which is removed with everything in it.

A base directory may be spelled through the staging directory and back.  That path then
leads nowhere once the staging directory is gone, but what it led to is still there.
-/
import TokenSheets.Layout
import TokenSheets.Proofs.Compile.Run
import TokenSheets.Proofs.FileTree.Replace

namespace TokenSheets

open FileTree

/-- A name is removed in the directory that it is in, and so are all names that are spelled with a
path that leads the same way. -/
theorem FileTree.exists_directory_of_removeDirectory {t t' : FileTree} {p q : Path} (h : q.Alike p)
    {s : String} (hs : IsEntryName s) (hremove : t.removeDirectory (q.child s) = .ok t') :
    ∃ d, (∀ n, IsEntryName n → t.locate false (p.child n) = .ok (d ++ [n])) ∧
      ∀ x ∉ below (d ++ [s]), t'.find? x = t.find? x := by
  rw [removeDirectory, Outcome.bind_eq_ok] at hremove
  obtain ⟨w, hw, hremove⟩ := hremove
  obtain ⟨d, hlocate⟩ := exists_directory_of_locate hs hw
  have hnames (n : String) (hn : IsEntryName n) : t.locate false (q.child n) = .ok (d ++ [n]) :=
    hlocate t t.keepsWays_refl rfl false n hn (.inl rfl)
  obtain rfl : w = d ++ [s] := Except.ok.inj (hw.symm.trans (hnames s hs))
  refine ⟨d, fun n hn => ?_, fun x hx => ?_⟩
  · rw [← (Path.stands_child h hn).locate, hnames n hn]
  · split at hremove
    · exact absurd hremove Outcome.throw_ne_ok
    · rw [← Outcome.pure_eq_ok.mp hremove]
      exact find?_eraseAll_of_not_isPrefix t hx
    · exact absurd hremove Outcome.throw_ne_ok
    · rw [← Outcome.pure_eq_ok.mp hremove]
      refine find?_erase_of_ne t ?_
      rintro rfl
      exact hx List.prefix_rfl

namespace Layout

/-- What a build reads and what it keeps, the document of the user apart. -/
def files (l : Layout) : List Path :=
  [l.defaultConfig, l.sassRoot, l.entry, l.outputCss, l.outputMap, l.summary]

/-- How the layout and the compile step fit together.  Nothing is said of the document of the user:
it is read from the working directory, and where that directory lies in the staging directory, a
compile removes the document with it. -/
structure Fits (l : Layout) : Prop where
  map : Compile.mapPath l.outputCss = l.outputMap
  staging : (Compile.stagingDirectory l.outputCss).parts =
    (l.base.child ".public-staging").parts
  /-- The staging directory and the output directory are in the same directory. -/
  beside : ∃ p q, (Compile.stagingDirectory l.outputCss).parent? = some p ∧
    l.publicDir.parent? = some q ∧ p.parts = q.parts
  /-- No file is the staging directory or inside. -/
  apart : ∀ f ∈ l.files, ¬(Compile.stagingDirectory l.outputCss).parts <+: f.parts
  /-- Removing it removes nothing else, links or not: the base directory leads to some directory,
  and all places there but those of the staging directory are as they were. -/
  removed : ∀ t t' : FileTree,
    t.removeDirectory (Compile.stagingDirectory l.outputCss) = .ok t' →
    ∃ d, (∀ n, IsEntryName n → t.locate false (l.base.child n) = .ok (d ++ [n])) ∧
      ∀ x ∉ below (d ++ [".public-staging"]), t'.find? x = t.find? x
  /-- Where there are no links, every file is kept, and so is everything below it. -/
  kept : ∀ t t' : FileTree, t.Regular →
    t.removeDirectory (Compile.stagingDirectory l.outputCss) = .ok t' →
    ∀ f ∈ l.files, ∀ x ∈ below (t.placeOf f), t'.find? x = t.find? x

variable (l : Layout)

/-- Every file is a name in the base directory, or a name in such a directory. -/
theorem exists_of_mem_files {f : Path} (hf : f ∈ l.files) :
    ∃ n ∈ ["build", "sass", "public"], f = l.base.child n ∨
      ∃ m, IsEntryName m ∧ f = (l.base.child n).child m := by
  simp only [files, List.mem_cons, List.not_mem_nil, or_false] at hf
  rcases hf with rfl | rfl | rfl | rfl | rfl | rfl
  · exact ⟨"build", by simp, .inr ⟨_, by decide, rfl⟩⟩
  · exact ⟨"sass", by simp, .inl rfl⟩
  · exact ⟨"sass", by simp, .inr ⟨_, by decide, rfl⟩⟩
  · exact ⟨"public", by simp, .inr ⟨_, by decide, rfl⟩⟩
  · exact ⟨"public", by simp, .inr ⟨_, by decide, rfl⟩⟩
  · exact ⟨"public", by simp, .inr ⟨_, by decide, rfl⟩⟩

/-- These names are proper ones, and none is that of the staging directory. -/
theorem isEntryName_of_mem {n : String} (hn : n ∈ ["build", "sass", "public"]) :
    IsEntryName n ∧ n ≠ ".public-staging" := by
  simp only [List.mem_cons, List.not_mem_nil, or_false] at hn
  rcases hn with rfl | rfl | rfl <;> decide

theorem exists_parts_of_mem_files {f : Path} (hf : f ∈ l.files) :
    ∃ n rest, n ≠ ".public-staging" ∧ f.parts = l.base.parts ++ .name n :: rest ∧
      ∀ t : FileTree, t.placeOf l.base ++ [n] <+: t.placeOf f := by
  obtain ⟨n, hmem, hcases⟩ := l.exists_of_mem_files hf
  obtain ⟨hn, hne⟩ := isEntryName_of_mem hmem
  rcases hcases with rfl | ⟨m, hm, rfl⟩
  · refine ⟨n, [], hne, Path.parts_child _ hn, fun t => ?_⟩
    rw [placeOf_child hn]
  · refine ⟨n, [.name m], hne, ?_, fun t => ?_⟩
    · rw [Path.parts_child _ hm, Path.parts_child _ hn, List.append_assoc]
      rfl
    · rw [placeOf_child hm, placeOf_child hn]
      exact List.prefix_append _ _

/-- The staging directory is a name in a directory with the parts of the base directory. -/
theorem exists_staging_parts :
    ∃ q : Path, Compile.stagingDirectory l.outputCss = q.child ".public-staging" ∧
      q.parts = l.base.parts := by
  have hname : IsEntryName "public" := by decide
  obtain ⟨q, hq, hparts⟩ := Compile.exists_parts_stagingDirectory
    (l.base.fileName?_child hname) (show IsEntryName cssName by decide)
  rw [Path.parts_child _ hname] at hparts
  exact ⟨q, hq, (List.append_inj_left' hparts rfl).symm⟩

/-- **The layout and the compile step fit together**, for every working directory and every base
directory. -/
theorem fits_compile : l.Fits := by
  have hs : IsEntryName ".public-staging" := by decide
  have hpublic : IsEntryName "public" := by decide
  obtain ⟨q, hq, hparts⟩ := l.exists_staging_parts
  have hstaging : (q.child ".public-staging").parts = (l.base.child ".public-staging").parts := by
    rw [Path.parts_child _ hs, Path.parts_child _ hs, hparts]
  constructor
  case map => exact Compile.mapPath_child (show IsEntryName cssName by decide) l.publicDir
  case staging => rw [hq, hstaging]
  case beside =>
    obtain ⟨a, ha, ha'⟩ := Path.exists_parts_parent? (q.fileName?_child hs)
    obtain ⟨b, hb, hb'⟩ := Path.exists_parts_parent? (l.base.fileName?_child hpublic)
    refine ⟨a, b, by rw [hq, ha], hb, ?_⟩
    rw [Path.parts_child _ hs] at ha'
    rw [Path.parts_child _ hpublic] at hb'
    rw [← List.append_inj_left' ha' rfl, ← List.append_inj_left' hb' rfl, hparts]
  case apart =>
    intro f hf hprefix
    obtain ⟨n, rest, hne, hf', -⟩ := l.exists_parts_of_mem_files hf
    rw [hq, hstaging, Path.parts_child _ hs, hf', List.prefix_append_right_inj,
      List.cons_prefix_cons, PathPart.name.injEq] at hprefix
    exact hne hprefix.1.symm
  case removed =>
    intro t t' hremove
    rw [hq] at hremove
    exact exists_directory_of_removeDirectory (Path.alike_of_parts hparts) hs hremove
  case kept =>
    intro t t' ht hremove f hf x hx
    obtain ⟨n, rest, hne, -, hplace⟩ := l.exists_parts_of_mem_files hf
    rw [hq] at hremove
    obtain ⟨-, rfl⟩ := (removeDirectory_child_eq_ok ht hs).mp hremove
    apply find?_eraseAll_of_not_isPrefix
    rw [placeOf_alike (Path.alike_of_parts hparts)]
    obtain ⟨more, hmore⟩ := (hplace t).trans hx
    rw [← hmore]
    exact not_mem_below hne

end Layout

end TokenSheets
