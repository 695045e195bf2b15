/-
TokenSheets/Proofs/Pipeline/Run.lean

What a run that fails leaves behind.

A run resolves the documents, makes the fragments, emits them, compiles, takes the
digest of the configuration and saves a summary, and each of the six steps can be
its end (`Ends`).  The first two only read.  A run that gets past them has found the
default document, so everything on the way to the base directory is a directory; from
there on each step is framed by its own part of the project, the stylesheets below
`sass` and the outputs below `public` with the staging directory beside it.  So the
outputs of earlier runs can only be lost to the compile, and there the commit takes
care of them.

The digest is taken late, and without one the run ends with an error of the
configuration when everything has been written.  That does not happen: whatever was
resolved has a digest (`exists_digest_of_resolve`).  Only therefore does an error of
the configuration mean that the tree is as it was.
-/
import TokenSheets.Proofs.Document.Effective
import TokenSheets.Proofs.Pipeline.Emit
import TokenSheets.Proofs.Compile.Guarantee

namespace TokenSheets

open FileTree Outcome

namespace Pipeline

/-! ### The ends of a run -/

/-- The summary that a run saves. -/
def report (p : Pipeline) (now : Instant) (effective : Effective) (s : Sources)
    (pruned : List Path) (artifacts : Option Artifacts) (digest : String) : Summary where
  schemaVersion := Summary.currentVersion
  schemaId := Summary.currentId
  createdAt := now
  configDigest := digest
  sources := effective.sources
  settings := s.settings.enabled
  utilities := s.utilities.enabled
  fragments := s.fragments.map record
  pruned := pruned.map (showBelow p.layout.sassRoot)
  artifacts := artifacts

/-- How a run of a tree can end, with the tree that it leaves. -/
inductive Ends (p : Pipeline) (compiler : Compiler) (now : Instant) (t : FileTree) :
    Except PipelineError Summary → FileTree → Prop
  | unresolved {e} (hresolve : p.resolve t = .error e) : p.Ends compiler now t (.error e) t
  | rejected {effective e} (hresolve : p.resolve t = .ok effective)
      (hsources : sources effective = .error e) : p.Ends compiler now t (.error e) t
  | unwritten {effective s e t₁} (hresolve : p.resolve t = .ok effective)
      (hsources : sources effective = .ok s)
      (hemit : (emit p.layout.sassRoot s).on t = (.error e, t₁)) :
      p.Ends compiler now t (.error (.emit e)) t₁
  | uncompiled {effective s pruned e t₁ t₂} (hresolve : p.resolve t = .ok effective)
      (hsources : sources effective = .ok s)
      (hemit : (emit p.layout.sassRoot s).on t = (.ok pruned, t₁))
      (hcompile : (p.compile compiler).on t₁ = (.error e, t₂)) :
      p.Ends compiler now t (.error (.compile e)) t₂
  | undigested {effective s pruned artifacts e t₁ t₂} (hresolve : p.resolve t = .ok effective)
      (hsources : sources effective = .ok s)
      (hemit : (emit p.layout.sassRoot s).on t = (.ok pruned, t₁))
      (hcompile : (p.compile compiler).on t₁ = (.ok artifacts, t₂))
      (hdigest : effective.digest = .error e) :
      p.Ends compiler now t (.error (.config e)) t₂
  | unsaved {effective s pruned artifacts digest e t₁ t₂ t₃}
      (hresolve : p.resolve t = .ok effective) (hsources : sources effective = .ok s)
      (hemit : (emit p.layout.sassRoot s).on t = (.ok pruned, t₁))
      (hcompile : (p.compile compiler).on t₁ = (.ok artifacts, t₂))
      (hdigest : effective.digest = .ok digest)
      (hsave : ((p.report now effective s pruned artifacts digest).save p.layout.summary).on t₂ =
        (.error e, t₃)) : p.Ends compiler now t (.error (.summary p.layout.summary e)) t₃
  | finished {effective s pruned artifacts digest t₁ t₂ t₃}
      (hresolve : p.resolve t = .ok effective) (hsources : sources effective = .ok s)
      (hemit : (emit p.layout.sassRoot s).on t = (.ok pruned, t₁))
      (hcompile : (p.compile compiler).on t₁ = (.ok artifacts, t₂))
      (hdigest : effective.digest = .ok digest)
      (hsave : ((p.report now effective s pruned artifacts digest).save p.layout.summary).on t₂ =
        (.ok (), t₃)) :
      p.Ends compiler now t (.ok (p.report now effective s pruned artifacts digest)) t₃

section
variable {p : Pipeline} {compiler : Compiler} {now : Instant} {t t' : FileTree}
  {r : Except PipelineError Summary}

theorem exists_ends (p : Pipeline) (compiler : Compiler) (now : Instant) (t : FileTree) :
    ∃ r t', p.Ends compiler now t r t' := by
  cases hresolve : p.resolve t with
  | error e => exact ⟨_, _, .unresolved hresolve⟩
  | ok effective =>
    cases hsources : sources effective with
    | error e => exact ⟨_, _, .rejected hresolve hsources⟩
    | ok s =>
      rcases hemit : (emit p.layout.sassRoot s).on t with ⟨e | pruned, t₁⟩
      · exact ⟨_, _, .unwritten hresolve hsources hemit⟩
      rcases hcompile : (p.compile compiler).on t₁ with ⟨e | artifacts, t₂⟩
      · exact ⟨_, _, .uncompiled hresolve hsources hemit hcompile⟩
      cases hdigest : effective.digest with
      | error e => exact ⟨_, _, .undigested hresolve hsources hemit hcompile hdigest⟩
      | ok digest =>
        rcases hsave : ((p.report now effective s pruned artifacts digest).save
          p.layout.summary).on t₂ with ⟨e | ⟨⟩, t₃⟩
        · exact ⟨_, _, .unsaved hresolve hsources hemit hcompile hdigest hsave⟩
        · exact ⟨_, _, .finished hresolve hsources hemit hcompile hdigest hsave⟩

/-- A run that has compiled still takes the digest and saves the summary. -/
theorem on_run_of_compile {effective : Effective} {s : Sources} {pruned : List Path}
    {artifacts : Option Artifacts} {t₁ t₂ : FileTree} (hresolve : p.resolve t = .ok effective)
    (hsources : sources effective = .ok s)
    (hemit : (emit p.layout.sassRoot s).on t = (.ok pruned, t₁))
    (hcompile : (p.compile compiler).on t₁ = (.ok artifacts, t₂)) :
    (p.run compiler now).on t =
      (do
        let digest ← Task.tryLook fun _ => effective.digest.mapError .config
        let summary := p.report now effective s pruned artifacts digest
        (summary.save p.layout.summary).mapError (.summary p.layout.summary)
        return summary : Task PipelineError Summary).on t₂ := by
  rw [run, Task.on_bind_of_ok (Task.on_tryLook_of_eq hresolve),
    Task.on_bind_of_ok (Task.on_tryLook_of_eq hsources),
    Task.on_bind_of_ok (Task.on_mapError_of_ok hemit _),
    Task.on_bind_of_ok (Task.on_mapError_of_ok hcompile _)]
  rfl

theorem Ends.on_run (h : p.Ends compiler now t r t') : (p.run compiler now).on t = (r, t') := by
  cases h with
  | unresolved hresolve =>
    rw [run]
    exact Task.on_bind_of_error (Task.on_tryLook_of_eq hresolve) _
  | rejected hresolve hsources =>
    rw [run, Task.on_bind_of_ok (Task.on_tryLook_of_eq hresolve)]
    exact Task.on_bind_of_error (Task.on_tryLook_of_eq hsources) _
  | unwritten hresolve hsources hemit =>
    rw [run, Task.on_bind_of_ok (Task.on_tryLook_of_eq hresolve),
      Task.on_bind_of_ok (Task.on_tryLook_of_eq hsources)]
    exact Task.on_bind_of_error (Task.on_mapError_of_error hemit _) _
  | uncompiled hresolve hsources hemit hcompile =>
    rw [run, Task.on_bind_of_ok (Task.on_tryLook_of_eq hresolve),
      Task.on_bind_of_ok (Task.on_tryLook_of_eq hsources),
      Task.on_bind_of_ok (Task.on_mapError_of_ok hemit _)]
    exact Task.on_bind_of_error (Task.on_mapError_of_error hcompile _) _
  | undigested hresolve hsources hemit hcompile hdigest =>
    rw [on_run_of_compile hresolve hsources hemit hcompile]
    exact Task.on_bind_of_error
      (Task.on_tryLook_of_eq (mapError_eq_error.mpr ⟨_, hdigest, rfl⟩)) _
  | unsaved hresolve hsources hemit hcompile hdigest hsave =>
    rw [on_run_of_compile hresolve hsources hemit hcompile,
      Task.on_bind_of_ok (Task.on_tryLook_of_eq (mapError_eq_ok.mpr hdigest))]
    exact Task.on_bind_of_error (Task.on_mapError_of_error hsave _) _
  | finished hresolve hsources hemit hcompile hdigest hsave =>
    rw [on_run_of_compile hresolve hsources hemit hcompile,
      Task.on_bind_of_ok (Task.on_tryLook_of_eq (mapError_eq_ok.mpr hdigest))]
    exact Task.on_bind_of_ok (Task.on_mapError_of_ok hsave _) _

/-- These are all the ends there are. -/
theorem ends_iff : (p.run compiler now).on t = (r, t') ↔ p.Ends compiler now t r t' := by
  constructor
  · intro h
    obtain ⟨r₁, t₁, hends⟩ := exists_ends p compiler now t
    obtain ⟨rfl, rfl⟩ := Prod.mk.inj (h.symm.trans hends.on_run)
    exact hends
  · exact Ends.on_run

end

/-! ### What a run has found -/

/-- A run that has its documents has found the default one. -/
theorem exists_default {p : Pipeline} {t : FileTree} {effective : Effective}
    (h : p.resolve t = .ok effective) :
    ∃ contents, t.fileBytes p.layout.defaultConfig = .ok contents := by
  rw [resolve, mapError_eq_ok, Effective.resolve, bind_eq_ok] at h
  obtain ⟨document, hload, -⟩ := h
  rw [Effective.loadDocument, bind_eq_ok] at hload
  obtain ⟨contents, hbytes, -⟩ := hload
  exact ⟨contents, mapError_eq_ok.mp hbytes⟩

/-- So the base directory is there. -/
theorem enters_base {p : Pipeline} {t : FileTree} (ht : t.Regular) {effective : Effective}
    (h : p.resolve t = .ok effective) : t.Enters p.layout.base := by
  obtain ⟨contents, hbytes⟩ := exists_default h
  have hbuild := ((fileBytes_child_eq_ok ht (by decide)).mp hbytes).1
  exact ((enters_child_iff ht (by decide) _).mp hbuild).1

/-- A run that has its fragments has them from an accepted configuration. -/
theorem exists_accepted {effective : Effective} {s : Sources} (h : sources effective = .ok s) :
    ∃ c : Config, c.Accepted ∧ c.generate = .ok s := by
  rw [sources, bind_eq_ok] at h
  obtain ⟨c, htyped, hgenerate⟩ := h
  exact ⟨c, Config.accepted_of_ofValue (mapError_eq_ok.mp htyped), mapError_eq_ok.mp hgenerate⟩

/-- So they are modules with names, and each directory has some. -/
theorem exists_named {effective : Effective} {s : Sources} (h : sources effective = .ok s) :
    ∃ settings utilities, s.Named settings utilities ∧
      s.settings.fragments ≠ [] ∧ s.utilities.fragments ≠ [] := by
  obtain ⟨c, haccepted, hgenerate⟩ := exists_accepted h
  obtain ⟨settings, hnamed, -⟩ := Config.named_of_generate haccepted hgenerate
  exact ⟨_, _, hnamed, hnamed.settings.ne_nil (by simp), hnamed.utilities.ne_nil (by simp)⟩

/-- A run that has its documents will have the digest of its configuration. -/
theorem exists_digest_of_resolve {p : Pipeline} {t : FileTree} {effective : Effective}
    (h : p.resolve t = .ok effective) : ∃ digest, effective.digest = .ok digest :=
  Effective.exists_digest_of_resolve (mapError_eq_ok.mp h)

/-- A run without its documents ends with an error of the configuration. -/
theorem exists_config_of_resolve {p : Pipeline} {t : FileTree} {e : PipelineError}
    (h : p.resolve t = .error e) : ∃ source, e = .config source := by
  rw [resolve, mapError_eq_error] at h
  obtain ⟨source, -, rfl⟩ := h
  exact ⟨source, rfl⟩

/-- A run without its fragments ends with one of the configuration or of the generation. -/
theorem config_or_generate_of_sources {effective : Effective} {e : PipelineError}
    (h : sources effective = .error e) :
    (∃ source, e = .config source) ∨ ∃ source, e = .generate source := by
  rw [sources, bind_eq_error] at h
  rcases h with htyped | ⟨c, -, hgenerate⟩
  · obtain ⟨source, -, rfl⟩ := mapError_eq_error.mp htyped
    exact .inl ⟨source, rfl⟩
  · obtain ⟨source, -, rfl⟩ := mapError_eq_error.mp hgenerate
    exact .inr ⟨source, rfl⟩

/-! ### The parts of a project -/

/-- The files that a run is for. -/
def outputs (l : Layout) : List Path := [l.outputCss, l.outputMap, l.summary]

/-- The names of the outputs. -/
def outputNames : List String :=
  [Layout.cssName, Layout.cssName ++ ".map", Layout.summaryName]

/-- The places of a directory of the project and what is below it. -/
def part (t : FileTree) (l : Layout) (name : String) : Set Place :=
  below (t.placeOf l.base ++ [name])

section
variable {t t' : FileTree} {l : Layout}

theorem placeOf_publicDir : t.placeOf l.publicDir = t.placeOf l.base ++ ["public"] :=
  placeOf_child (by decide) t _

theorem exists_name_of_mem_outputs {q : Path} (h : q ∈ outputs l) :
    ∃ n ∈ outputNames, q = l.publicDir.child n := by
  simp only [outputs, List.mem_cons, List.not_mem_nil, or_false] at h
  rcases h with rfl | rfl | rfl
  · exact ⟨Layout.cssName, by decide, rfl⟩
  · exact ⟨Layout.cssName ++ ".map", by decide, rfl⟩
  · exact ⟨Layout.summaryName, by decide, rfl⟩

theorem isEntryName_of_mem_outputNames {n : String} (h : n ∈ outputNames) : IsEntryName n := by
  have hall : ∀ n ∈ outputNames, IsEntryName n := by decide
  exact hall n h

/-- What the names in the output directory hold is what the outputs hold. -/
theorem held_outputs (h : ∀ n ∈ outputNames,
      t'.held (t.placeOf l.publicDir ++ [n]) = t.held (t.placeOf l.publicDir ++ [n])) :
    ∀ q ∈ outputs l, t'.held (t.placeOf q) = t.held (t.placeOf q) := by
  intro q hq
  obtain ⟨n, hn, rfl⟩ := exists_name_of_mem_outputs hq
  rw [placeOf_child (isEntryName_of_mem_outputNames hn)]
  exact h n hn

/-- The generated sheets are below the stylesheet directory. -/
theorem sheets_subset : sheets t l.sassRoot ⊆ part t l "sass" := by
  rintro q ⟨d, hd, hq, -⟩
  have hname : IsEntryName d := isEntryName_of_mem_directories hd
  rw [placeOf_child hname] at hq
  show t.placeOf l.base ++ ["sass"] <+: q
  rw [← placeOf_child (by decide : IsEntryName "sass")]
  exact (List.prefix_append _ _).trans hq

/-- The ways to their directories lead to the base directory, and then below that directory. -/
theorem ways_subset : ways t l.sassRoot ⊆ t.way l.base ∪ part t l "sass" := by
  rintro q ⟨d, hd, hq⟩
  have hname : IsEntryName d := isEntryName_of_mem_directories hd
  rw [mem_way, trailOf_child hname, Layout.sassRoot, trailOf_child (by decide : IsEntryName "sass"),
    placeOf_child (by decide : IsEntryName "sass")] at hq
  simp only [List.mem_append, List.mem_singleton] at hq
  rcases hq with (hq | rfl) | rfl
  · exact Or.inl hq
  · exact Or.inr List.prefix_rfl
  · exact Or.inr (List.prefix_append _ _)

/-- The way to the output directory. -/
theorem way_publicDir_subset : t.way l.publicDir ⊆ t.way l.base ∪ {t.placeOf l.publicDir} := by
  intro q hq
  rw [mem_way, Layout.publicDir, trailOf_child (by decide : IsEntryName "public")] at hq
  rcases List.mem_append.mp hq with hq | hq
  · exact Or.inl hq
  · right
    rw [placeOf_publicDir]
    exact List.mem_singleton.mp hq

/-- Outputs are not among the stylesheets. -/
theorem not_mem_part_sass (n : String) : t.placeOf l.publicDir ++ [n] ∉ part t l "sass" := by
  rw [placeOf_publicDir]
  exact not_mem_below (by decide)

/-- What a step neither writes nor creates is as before: on the way to the base directory there
is nothing left to create. -/
theorem find?_of_frame {scope made extra : Set Place} (hbase : t.Enters l.base)
    (h : Frame scope made t t') (hmade : made ⊆ t.way l.base ∪ extra) {q : Place}
    (hscope : q ∉ scope) (hextra : q ∉ extra) : t'.find? q = t.find? q := by
  refine h.find?_eq hscope fun hmem => ?_
  rcases hmade hmem with hway | hnew
  · rw [hbase.1 q hway]
    simp
  · exact absurd hnew hextra

end

/-! ### Emitting -/

section
variable {t t' : FileTree} {l : Layout}

/-- What is not among the stylesheets is as before, however writing and pruning end. -/
theorem find?_of_emit (ht : t.Regular) (hbase : t.Enters l.base) {s : Sources}
    {settings utilities : List String} (hs : s.Named settings utilities)
    {r : Except EmitError (List Path)} (h : (emit l.sassRoot s).on t = (r, t')) {q : Place}
    (hq : q ∉ part t l "sass") : t'.find? q = t.find? q := by
  have hedit := edits_emit hs l.sassRoot t t t' r ht rfl h
  exact find?_of_frame hbase hedit.toFrame ways_subset (fun hmem => hq (sheets_subset hmem)) hq

end

/-! ### Compiling -/

section
variable {p : Pipeline} {compiler : Compiler} {t t' : FileTree}

/-- A run compiles or does not. -/
theorem compile_cases {r : Except CompileError (Option Artifacts)}
    (h : (p.compile compiler).on t = (r, t')) :
    (r = .ok none ∧ t' = t) ∨
      ∃ r', (Compile.run compiler p.layout.entry p.layout.outputCss).on t = (r', t') ∧
        r = r'.map some := by
  rw [compile, Task.on_ite] at h
  split at h
  · left
    obtain ⟨rfl, rfl⟩ := Prod.mk.inj h
    exact ⟨rfl, rfl⟩
  · right
    rcases Task.on_bind_cases h with ⟨e, hrun, rfl⟩ | ⟨a, t₁, hrun, h⟩
    · exact ⟨_, hrun, rfl⟩
    · obtain ⟨rfl, rfl⟩ := Prod.mk.inj h
      exact ⟨_, hrun, rfl⟩

theorem fileName?_publicDir (l : Layout) : l.publicDir.fileName? = some "public" :=
  Path.fileName?_child _ (by decide)

theorem isEntryName_cssName : IsEntryName Layout.cssName := by decide

variable (ht : t.Regular)
  (hc : compiler.ConfinedTo (Compile.stagingDirectory p.layout.outputCss))
include ht hc

/-- The places that compiling may touch. -/
theorem frame_compile {r : Except CompileError (Option Artifacts)}
    (h : (p.compile compiler).on t = (r, t')) :
    t'.Regular ∧ Frame (Compile.targets t p.layout.publicDir Layout.cssName ∪
        below (Compile.stagingPlace t p.layout.publicDir Layout.cssName))
      (t.way p.layout.publicDir) t t' := by
  rcases compile_cases h with ⟨-, rfl⟩ | ⟨r', hrun, -⟩
  · exact ⟨ht, Frame.refl _⟩
  · exact Compile.frame_run (fileName?_publicDir _) isEntryName_cssName ht hc hrun

/-- A compile that fails leaves the outputs. -/
theorem held_compile_of_error (hbase : t.Enters p.layout.base) {e : CompileError}
    (h : (p.compile compiler).on t = (.error e, t')) {n : String} (hn : n ∈ outputNames) :
    t'.held (t.placeOf p.layout.publicDir ++ [n]) =
      t.held (t.placeOf p.layout.publicDir ++ [n]) := by
  have hpublic := fileName?_publicDir p.layout
  -- a name in the output directory is not that directory, so it is on its way only if it is a
  -- directory that is there
  have hself (n : String) : t.placeOf p.layout.publicDir ++ [n] ∉
      ({t.placeOf p.layout.publicDir} : Set Place) := by
    intro hmem
    simpa using congrArg List.length (Set.mem_singleton_iff.mp hmem)
  have hway (n : String) (hmem : t.placeOf p.layout.publicDir ++ [n] ∈ t.way p.layout.publicDir) :
      t.find? (t.placeOf p.layout.publicDir ++ [n]) ≠ none := by
    rw [hbase.1 _ ((way_publicDir_subset hmem).resolve_right (hself n))]
    simp
  rcases compile_cases h with ⟨hok, -⟩ | ⟨r', hrun, hr⟩
  · cases hok
  obtain rfl : r' = .error e := by
    cases r' with
    | error e' => exact congrArg _ (Except.error.inj hr).symm
    | ok a => cases hr
  have hfiles := Compile.held_run_of_error hpublic isEntryName_cssName ht hc
    (fun n _ => hway n) hrun
  have hframe := (Compile.frame_run hpublic isEntryName_cssName ht hc hrun).2
  simp only [outputNames, List.mem_cons, List.not_mem_nil, or_false] at hn
  rcases hn with rfl | rfl | rfl
  · exact hfiles _ (by simp)
  · exact hfiles _ (by simp)
  · -- the summary is not touched by the compile at all
    apply held_congr
    refine find?_of_frame hbase hframe way_publicDir_subset ?_ (hself _)
    rintro (⟨n, hn, heq⟩ | hstaging)
    · have hother : Layout.summaryName ∉ Compile.written Layout.cssName := by decide
      have hsame : Layout.summaryName = n := by simpa using heq
      exact hother (hsame ▸ hn)
    · exact Compile.not_mem_staging hpublic isEntryName_cssName t _ hstaging

end

/-! ### The result -/

/-- **What a run that fails leaves behind.**  The digest that is taken after the compile is always
there, so an error of the configuration comes from before the first write.  If the configuration or
its fragments are the reason, nothing at all has happened.  If emitting is the reason, the compiler
was not asked, since any other compiler would have made no difference; and in a tree of files and
directories only the two directories with generated sheets, with the ways to them, have changed.
If emitting or compiling is the reason, the outputs of such a tree are what they were. -/
theorem run_error (p : Pipeline) {compiler : Compiler}
    (hc : compiler.ConfinedTo (Compile.stagingDirectory p.layout.outputCss)) {now : Instant}
    {t t' : FileTree} {e : PipelineError} (h : (p.run compiler now).on t = (.error e, t')) :
    (∀ effective, p.resolve t = .ok effective → ∃ digest, effective.digest = .ok digest) ∧
    match e with
    | .config _ | .generate _ => t' = t ∧ ∀ other, (p.run other now).on t = (.error e, t)
    | .emit _ => (∀ other, (p.run other now).on t = (.error e, t')) ∧
        (t.Regular → Frame (sheets t p.layout.sassRoot) (ways t p.layout.sassRoot) t t' ∧
          ∀ q ∈ outputs p.layout, t'.held (t.placeOf q) = t.held (t.placeOf q))
    | .compile _ => t.Regular →
        ∀ q ∈ outputs p.layout, t'.held (t.placeOf q) = t.held (t.placeOf q)
    | .summary _ _ => True := by
  refine ⟨fun effective => exists_digest_of_resolve, ?_⟩
  cases ends_iff.mp h with
  | unresolved hresolve =>
    -- reading is all that was done, and it is the same with any compiler
    obtain ⟨source, rfl⟩ := exists_config_of_resolve hresolve
    exact ⟨rfl, fun other => ends_iff.mpr (.unresolved hresolve)⟩
  | rejected hresolve hsources =>
    have hother (other : Compiler) : (p.run other now).on t = (.error e, t) :=
      ends_iff.mpr (.rejected hresolve hsources)
    rcases config_or_generate_of_sources hsources with ⟨source, rfl⟩ | ⟨source, rfl⟩
    · exact ⟨rfl, hother⟩
    · exact ⟨rfl, hother⟩
  | unwritten hresolve hsources hemit =>
    refine ⟨fun other => ends_iff.mpr (.unwritten hresolve hsources hemit), fun ht => ?_⟩
    obtain ⟨settings, utilities, hnamed, -⟩ := exists_named hsources
    refine ⟨(edits_emit hnamed _ t _ _ _ ht rfl hemit).toFrame, held_outputs fun n _ => ?_⟩
    exact held_congr (find?_of_emit ht (enters_base ht hresolve) hnamed hemit (not_mem_part_sass n))
  | uncompiled hresolve hsources hemit hcompile =>
    intro ht
    obtain ⟨settings, utilities, hnamed, -⟩ := exists_named hsources
    have hbase := enters_base ht hresolve
    have hedit := edits_emit hnamed _ t _ _ _ ht rfl hemit
    -- the compile gives back what it found, and that is what emitting left alone
    refine held_outputs fun n hn => ?_
    have hcompiled := held_compile_of_error hedit.regular hc (hedit.enters hbase) hcompile hn
    rw [placeOf_congr hedit.here] at hcompiled
    rw [hcompiled]
    exact held_congr (find?_of_emit ht hbase hnamed hemit (not_mem_part_sass n))
  | undigested hresolve hsources hemit hcompile hdigest =>
    -- the tree is not as it was, but this is not how a run ends
    obtain ⟨digest, hok⟩ := exists_digest_of_resolve hresolve
    rw [hok] at hdigest
    cases hdigest
  | unsaved => trivial

/-! ### A small site -/

/-- The status that a run ends with. -/
def status : Except PipelineError Summary → Nat
  | .ok _ => 0
  | .error e => e.exitCode

theorem exists_emit_of_status {r : Except PipelineError Summary} (h : status r = 4) :
    ∃ source, r = .error (.emit source) := by
  cases r with
  | ok summary => cases h
  | error e =>
    cases e with
    | emit source => exact ⟨source, rfl⟩
    | config source => cases h
    | generate source => cases h
    | compile source => cases h
    | summary path source => cases h

/-- The run of a site that lies in a directory of the root. -/
def siteRun : Pipeline where
  layout := ⟨.development, ⟨"/site"⟩, ⟨"/site"⟩⟩
  userConfig := none
  generateOnly := false

/-- A site with a default document, an entry sheet and a stylesheet of an earlier run. -/
def site (more : List (Place × Entry)) : FileTree where
  entries :=
    [(["site"], .directory), (["site", "build"], .directory),
     (["site", "build", defaultConfigName], .file
       ("\x7b\"setup\":\x7b\"prefix\":\"u\",\"separator\":\"-\"," ++
         "\"defaultFontSize\":16\x7d\x7d").toUTF8 false),
     (["site", "sass"], .directory), (["site", "sass", "main.scss"], .file .empty false),
     (["site", "public"], .directory),
     (["site", "public", "main.min.css"], .file "old".toUTF8 false)] ++ more
  here := []

/-- A site where a file is in the place of a directory for generated sheets. -/
def blockedSite : FileTree := site [(["site", "sass", "7_utilities"], .file .empty false)]

/-- Its run fails when it emits, and the stylesheet is still there. -/
theorem run_error_blockedSite :
    ∃ source t', (siteRun.run (Compiler.constant "") .epoch).on blockedSite =
        (.error (.emit source), t') ∧
      t'.held ["site", "public", "main.min.css"] = some (.file "old".toUTF8 false) := by
  have hregular : blockedSite.Regular := by
    refine .of_entries (by decide) (by decide) ?_
    simp [blockedSite, site]
  have hstatus : status ((siteRun.run (Compiler.constant "") .epoch).on blockedSite).1 = 4 := by
    decide +kernel
  have hplace : blockedSite.placeOf siteRun.layout.outputCss =
      ["site", "public", "main.min.css"] := by decide +kernel
  obtain ⟨source, hsource⟩ := exists_emit_of_status hstatus
  rcases hrun : (siteRun.run (Compiler.constant "") .epoch).on blockedSite with ⟨r, t'⟩
  rw [hrun] at hsource
  obtain rfl : r = .error (.emit source) := hsource
  refine ⟨source, t', rfl, ?_⟩
  have hkept := ((run_error siteRun (Compiler.confinedTo_constant "" _) hrun).2.2 hregular).2
  have hcss := hkept siteRun.layout.outputCss List.mem_cons_self
  rw [hplace] at hcss
  rw [hcss]
  rfl

/-- A blocked site where a link from where a sheet is written leads to the stylesheet. -/
def linkedSite : FileTree :=
  site
    [(["site", "sass", "7_utilities"], .file .empty false),
     (["site", "sass", "1_settings"], .directory),
     (["site", "sass", "1_settings", "._core.scss.tmp"], .link ⟨"../../public/main.min.css"⟩)]

/-- With links, a run that fails when it emits may have overwritten the stylesheet. -/
theorem exists_stylesheet_lost :
    ∃ source t', (siteRun.run (Compiler.constant "") .epoch).on linkedSite =
        (.error (.emit source), t') ∧
      linkedSite.held ["site", "public", "main.min.css"] = some (.file "old".toUTF8 false) ∧
      t'.held ["site", "public", "main.min.css"] ≠ some (.file "old".toUTF8 false) := by
  have hlost : status ((siteRun.run (Compiler.constant "") .epoch).on linkedSite).1 = 4 ∧
      ((siteRun.run (Compiler.constant "") .epoch).on linkedSite).2.held
        ["site", "public", "main.min.css"] ≠ some (.file "old".toUTF8 false) := by
    decide +kernel
  obtain ⟨source, hsource⟩ := exists_emit_of_status hlost.1
  exact ⟨source, _, Prod.ext hsource rfl, rfl, hlost.2⟩

end Pipeline

end TokenSheets
