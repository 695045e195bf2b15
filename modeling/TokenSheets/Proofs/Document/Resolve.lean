/-
TokenSheets/Proofs/Document/Resolve.lean

What the two documents make of a configuration, whatever their files hold.

A path is in one of six states (`DocumentState`): nothing is there, or something
that cannot be read as a file, or a file whose bytes are blank, no JSON, JSON of
another kind, or an object.  The states are told apart by the tree and the JSON
reader alone (`FileTree.Holds`), a path is in one of them
(`FileTree.exists_holds`), and both uses of the loader are functions of the state
(`loadDocument_of_holds`, `userSource_of_holds`).  That one loader serves two
documents is why the last state alone gives a tree: for the default document the
other five are errors, for the user document they are five ways to leave the
default tree as it is.

A file of blanks is no JSON either, form feeds included, which the loader takes
for blanks and the JSON reader does not (`readBytes_ne_ok_of_blank`).  So the
check for blanks decides which error is reported, but never whether there is one.
-/
import TokenSheets.Proofs.Document.Effective
import TokenSheets.Pipeline

namespace TokenSheets

open Json Outcome

/-! ### Blank files -/

namespace Effective

/-- Blanks are characters of one byte. -/
theorem piecesOfBytes_of_blank {bytes : List UInt8} (h : ∀ b ∈ bytes, isPlainBlank b = true) :
    piecesOfBytes bytes = bytes.map fun b => .scalar (Char.ofNat b.toNat) := by
  rw [piecesOfBytes]
  induction bytes with
  | nil => rfl
  | cons b bytes ih =>
    obtain ⟨hb, hbytes⟩ := List.forall_mem_cons.mp h
    have hascii : b.toNat < 0x80 := by
      simp only [isPlainBlank, Bool.or_eq_true, decide_eq_true_eq] at hb
      rcases hb with (((rfl | rfl) | rfl) | rfl) | rfl <;> decide
    rw [decodePieces, beginChar, if_pos hascii, List.map_cons, ← ih hbytes]

/-- Past the white space of JSON, blanks are at their end or go on with a form feed. -/
theorem skipGap_of_blank {bytes : List UInt8} (h : ∀ b ∈ bytes, isPlainBlank b = true) :
    Scan.skipGap (piecesOfBytes bytes) = [] ∨
      ∃ rest, Scan.skipGap (piecesOfBytes bytes) = .scalar '\x0c' :: rest := by
  rw [piecesOfBytes_of_blank h, Scan.skipGap]
  induction bytes with
  | nil => exact Or.inl rfl
  | cons b bytes ih =>
    obtain ⟨hb, hbytes⟩ := List.forall_mem_cons.mp h
    simp only [isPlainBlank, Bool.or_eq_true, decide_eq_true_eq] at hb
    rcases hb with (((rfl | rfl) | rfl) | rfl) | rfl
    · exact ih hbytes
    · exact ih hbytes
    · exact ih hbytes
    · exact Or.inr ⟨_, rfl⟩
    · exact ih hbytes

/-- Blanks are no JSON. -/
theorem readBytes_ne_ok_of_blank {bytes : List UInt8} (h : ∀ b ∈ bytes, isPlainBlank b = true)
    (v : Value) : readBytes bytes ≠ .ok v := by
  have hvalue : ∃ f, Scan.value (2 * (piecesOfBytes bytes).length + 2) 0 (piecesOfBytes bytes) =
      Scan.stop f := by
    rcases skipGap_of_blank h with hend | ⟨rest, hfeed⟩
    · exact ⟨.before .endInValue [], by simp only [Scan.value, hend]⟩
    · refine ⟨.after .expectedValue 1 (.scalar '\x0c' :: rest), ?_⟩
      simp [Scan.value, hfeed, Scan.digit?]
  obtain ⟨f, hvalue⟩ := hvalue
  have hread : readPieces (piecesOfBytes bytes) = .error f := by
    rw [readPieces, outline, hvalue]
    rfl
  intro hok
  rw [readBytes, hread] at hok
  cases hok

end Effective

/-! ### States of a document -/

/-- What can be found where a document is looked for. -/
inductive DocumentState where
  /-- Nothing: looking for it ends with an error. -/
  | absent (e : Errno)
  /-- Something whose bytes cannot be read, such as a directory. -/
  | unreadable (e : Errno)
  /-- A file of nothing but blanks. -/
  | blank (contents : ByteArray)
  /-- A file that is no JSON. -/
  | malformed (contents : ByteArray) (fault : PlacedFault)
  /-- A file with a JSON value that is no object. -/
  | notObject (contents : ByteArray) (v : Value)
  /-- A file with a JSON object. -/
  | document (contents : ByteArray) (v : Value)

/-- What is found at a path of a tree. -/
inductive FileTree.Holds (t : FileTree) (p : Path) : DocumentState → Prop
  | absent {e : Errno} (hstat : t.stat p = .error e) : t.Holds p (.absent e)
  | unreadable {e : Errno} {found : Entry} (hstat : t.stat p = .ok found)
      (hbytes : t.fileBytes p = .error e) : t.Holds p (.unreadable e)
  | blank {contents : ByteArray} (hbytes : t.fileBytes p = .ok contents)
      (hblank : ∀ b ∈ contents.toList, Effective.isPlainBlank b = true) :
      t.Holds p (.blank contents)
  | malformed {contents : ByteArray} {fault : PlacedFault}
      (hbytes : t.fileBytes p = .ok contents)
      (hink : ∃ b ∈ contents.toList, Effective.isPlainBlank b = false)
      (hread : readBytes contents.toList = .error fault) : t.Holds p (.malformed contents fault)
  | notObject {contents : ByteArray} {v : Value} (hbytes : t.fileBytes p = .ok contents)
      (hread : readBytes contents.toList = .ok v) (hkind : ∀ members, v ≠ .object members) :
      t.Holds p (.notObject contents v)
  | document {contents : ByteArray} {members : Table Value}
      (hbytes : t.fileBytes p = .ok contents)
      (hread : readBytes contents.toList = .ok (.object members)) :
      t.Holds p (.document contents (.object members))

namespace DocumentState

/-- The tree that a document stands for. -/
def value? : DocumentState → Option Value
  | document _ v => some v
  | _ => none

/-- What loading the document gives: its tree and the digest of its file, or why there is none. -/
def load (p : Path) : DocumentState → Except ConfigError (Value × String)
  | absent e => .error (.io p (.os e))
  | unreadable e => .error (.io p (.os e))
  | blank _ => .error (.empty p)
  | malformed _ fault => .error (.parse p fault)
  | notObject _ _ => .error (.notAnObject p)
  | document contents v => .ok (v, Sha256.hex contents.toList)

/-- How a user document is recorded. -/
def status (p : Path) : DocumentState → SourceStatus
  | absent _ => .missing
  | unreadable e => .fallback (ConfigError.io p (.os e)).message
  | blank _ => .fallback (ConfigError.empty p).message
  | malformed _ fault => .fallback (ConfigError.parse p fault).message
  | notObject _ _ => .fallback (ConfigError.notAnObject p).message
  | document _ _ => .loaded

end DocumentState

namespace FileTree

variable {t : FileTree} {p : Path} {s : DocumentState}

theorem fileBytes_of_stat_error {e : Errno} (h : t.stat p = .error e) :
    t.fileBytes p = .error e := by
  rw [fileBytes, h]
  rfl

/-- A file that can be read is there. -/
theorem exists_stat_of_fileBytes {contents : ByteArray} (h : t.fileBytes p = .ok contents) :
    ∃ found, t.stat p = .ok found := by
  cases hstat : t.stat p with
  | error e =>
    rw [fileBytes_of_stat_error hstat] at h
    cases h
  | ok found => exact ⟨found, rfl⟩

theorem exists?_of_stat {found : Entry} (h : t.stat p = .ok found) : t.exists? p = true := by
  rw [exists?, h]

theorem exists?_of_fileBytes {contents : ByteArray} (h : t.fileBytes p = .ok contents) :
    t.exists? p = true := by
  obtain ⟨found, hstat⟩ := exists_stat_of_fileBytes h
  exact exists?_of_stat hstat

/-- Every path is in some state. -/
theorem exists_holds (t : FileTree) (p : Path) : ∃ s, t.Holds p s := by
  cases hstat : t.stat p with
  | error e => exact ⟨_, .absent hstat⟩
  | ok found =>
  cases hbytes : t.fileBytes p with
  | error e => exact ⟨_, .unreadable hstat hbytes⟩
  | ok contents =>
  by_cases hblank : ∀ b ∈ contents.toList, Effective.isPlainBlank b = true
  · exact ⟨_, .blank hbytes hblank⟩
  cases hread : readBytes contents.toList with
  | error fault => exact ⟨_, .malformed hbytes (by simpa using hblank) hread⟩
  | ok v =>
  by_cases hkind : ∃ members, v = .object members
  · obtain ⟨members, rfl⟩ := hkind
    exact ⟨_, .document hbytes hread⟩
  · exact ⟨_, .notObject hbytes hread fun members hv => hkind ⟨members, hv⟩⟩

end FileTree

namespace Effective

variable {t : FileTree} {p : Path} {s : DocumentState}

/-! ### The loader -/

theorem parseDocument_of_blank {contents : ByteArray}
    (hblank : ∀ b ∈ contents.toList, isPlainBlank b = true) (p : Path) :
    parseDocument p contents = .error (.empty p) := by
  rw [parseDocument]
  exact if_pos (List.all_eq_true.mpr hblank)

theorem parseDocument_of_ink {contents : ByteArray}
    (hink : ∃ b ∈ contents.toList, isPlainBlank b = false) (p : Path) :
    parseDocument p contents =
      match readBytes contents.toList with
      | .error fault => .error (.parse p fault)
      | .ok v => if v.isObject then .ok v else .error (.notAnObject p) := by
  obtain ⟨b, hb, hfalse⟩ := hink
  rw [parseDocument]
  refine if_neg fun hall => ?_
  rw [List.all_eq_true.mp hall b hb] at hfalse
  cases hfalse

/-- What is JSON is not blank. -/
theorem exists_ink_of_readBytes {bytes : List UInt8} {v : Value} (h : readBytes bytes = .ok v) :
    ∃ b ∈ bytes, isPlainBlank b = false := by
  by_contra hblank
  exact readBytes_ne_ok_of_blank (by simpa using hblank) v h

theorem loadDocument_of_fileBytes {contents : ByteArray} (h : t.fileBytes p = .ok contents) :
    loadDocument t p =
      (parseDocument p contents).map fun v => (v, Sha256.hex contents.toList) := by
  rw [loadDocument, h]
  show (parseDocument p contents >>= _) = _
  cases parseDocument p contents <;> rfl

/-- Loading depends on the state alone. -/
theorem loadDocument_of_holds (h : t.Holds p s) : loadDocument t p = s.load p := by
  cases h with
  | absent hstat =>
    rw [loadDocument, FileTree.fileBytes_of_stat_error hstat]
    rfl
  | unreadable _ hbytes =>
    rw [loadDocument, hbytes]
    rfl
  | blank hbytes hblank =>
    rw [loadDocument_of_fileBytes hbytes, parseDocument_of_blank hblank]
    rfl
  | malformed hbytes hink hread =>
    rw [loadDocument_of_fileBytes hbytes, parseDocument_of_ink hink, hread]
    rfl
  | @notObject _ v hbytes hread hkind =>
    rw [loadDocument_of_fileBytes hbytes, parseDocument_of_ink (exists_ink_of_readBytes hread),
      hread]
    cases v with
    | object members => exact absurd rfl (hkind members)
    | _ => rfl
  | document hbytes hread =>
    rw [loadDocument_of_fileBytes hbytes, parseDocument_of_ink (exists_ink_of_readBytes hread),
      hread]
    rfl

/-- The user document takes part if there is one, and its record tells the states apart. -/
theorem userSource_of_holds (h : t.Holds p s) :
    userSource t p = (s.value?,
      ⟨.user, p.text, (t.fileBytes p).toOption.map fun contents => Sha256.hex contents.toList,
        s.status p⟩) := by
  have hload := loadDocument_of_holds h
  -- a file that was read but not used still has its digest recorded
  have hread {contents : ByteArray} (hbytes : t.fileBytes p = .ok contents) {e : ConfigError}
      (he : loadDocument t p = .error e) :
      userSource t p =
        (none, ⟨.user, p.text,
          (t.fileBytes p).toOption.map fun contents => Sha256.hex contents.toList,
          .fallback e.message⟩) := by
    rw [userSource, FileTree.exists?_of_fileBytes hbytes, he, hbytes]
    rfl
  cases h with
  | absent hstat =>
    have hgone : t.exists? p = false := by rw [FileTree.exists?, hstat]
    rw [userSource, hgone, FileTree.fileBytes_of_stat_error hstat]
    rfl
  | unreadable hstat hbytes =>
    rw [userSource, FileTree.exists?_of_stat hstat, hload, hbytes]
    rfl
  | blank hbytes _ => exact hread hbytes hload
  | malformed hbytes _ _ => exact hread hbytes hload
  | notObject hbytes _ _ => exact hread hbytes hload
  | document hbytes _ =>
    rw [userSource, FileTree.exists?_of_fileBytes hbytes, hload, hbytes]
    rfl

/-! ### The result -/

theorem resolve_of_loadDocument {v : Value} {digest : String} {default : Path}
    (h : loadDocument t default = .ok (v, digest)) (user : Option Path) :
    resolve t default user =
      .ok (ofValues v (user.bind fun p => (userSource t p).1)
        (⟨.default, default.text, some digest, .loaded⟩ ::
          (user.map fun p => (userSource t p).2).toList)) := by
  rw [resolve, h]
  cases user <;> rfl

/-- The fragments and the digest of a configuration are those of its tree. -/
theorem sources_congr {e e' : Effective} (h : e.config = e'.config) :
    e.digest = e'.digest ∧ Pipeline.sources e = Pipeline.sources e' := by
  constructor
  · rw [digest, digest, h]
  · rw [Pipeline.sources, Pipeline.sources, typed, typed, h]

/-- The record of a user document says whether it took part. -/
theorem status_eq_loaded_iff : s.status p = .loaded ↔ ∃ contents w, s = .document contents w := by
  cases s <;> simp [DocumentState.status]

/-- Without a user document the tree is the default one. -/
theorem exists_resolve_of_absent {default : Path} {contents : ByteArray} {v : Value}
    (hd : t.Holds default (.document contents v)) {user : Option Path}
    (hu : ∀ p ∈ user, ∃ error, t.Holds p (.absent error)) :
    ∃ e, resolve t default user = .ok e ∧ e.config = v := by
  refine ⟨_, resolve_of_loadDocument (loadDocument_of_holds hd) user, ?_⟩
  cases user with
  | none => rfl
  | some p =>
    obtain ⟨error, habsent⟩ := hu p rfl
    rw [Option.bind_some, userSource_of_holds habsent]
    rfl

/-- **What the documents make of the configuration.**  Whatever is found at the two paths,
resolving fails unless the default file is a document.  If it is one, the user document is merged
into its tree, and the tree stands as it is if there is no user document.  The record of the user
document says which of these happened, and has the digest of any file that could be read.  So a
run with a user file that is of no use has the digest and the fragments of a run without one. -/
theorem resolve_of_holds {default user : Path} {d u : DocumentState} (hd : t.Holds default d)
    (hu : t.Holds user u) :
    ((∃ e, resolve t default (some user) = .ok e) ↔ ∃ contents v, d = .document contents v) ∧
    ∀ contents v, d = .document contents v → ∀ e, resolve t default (some user) = .ok e →
      (e.config = match u.value? with
        | none => v
        | some w => Value.merge v w) ∧
      (e.usesUserConfig = true ↔ ∃ contents w, u = .document contents w) ∧
      e.sources =
        [⟨.default, default.text, some (Sha256.hex contents.toList), .loaded⟩,
          ⟨.user, user.text,
            (t.fileBytes user).toOption.map fun contents => Sha256.hex contents.toList,
            u.status user⟩] ∧
      ((∀ contents w, u ≠ .document contents w) →
        ∀ t' default' user' contents', t'.Holds default' (.document contents' v) →
          (∀ p ∈ user', ∃ error, t'.Holds p (.absent error)) →
          ∃ e' digest, resolve t' default' user' = .ok e' ∧ e.digest = .ok digest ∧
            e'.digest = .ok digest ∧ Pipeline.sources e = Pipeline.sources e') := by
  have hload := loadDocument_of_holds hd
  constructor
  · constructor
    · rintro ⟨e, he⟩
      rw [resolve, hload, bind_eq_ok] at he
      obtain ⟨loaded, hloaded, -⟩ := he
      cases d with
      | document contents v => exact ⟨contents, v, rfl⟩
      | _ => cases hloaded
    · rintro ⟨contents, v, rfl⟩
      exact ⟨_, resolve_of_loadDocument hload _⟩
  rintro contents v rfl e he
  obtain ⟨digest, hdigest⟩ := exists_digest_of_resolve he
  rw [resolve_of_loadDocument hload, Option.bind_some, Option.map_some,
    userSource_of_holds hu] at he
  obtain rfl := Except.ok.inj he
  refine ⟨rfl, ?_, rfl, fun huseless t' default' user' contents' hd' hu' => ?_⟩
  · rw [← status_eq_loaded_iff (p := user)]
    simp [usesUserConfig, ofValues]
  · obtain ⟨e', he', hsame⟩ := exists_resolve_of_absent hd' hu'
    refine ⟨e', digest, he', hdigest, ?_⟩
    rw [← hdigest]
    refine And.imp_left Eq.symm (sources_congr (Eq.trans ?_ hsame.symm))
    cases u with
    | document contents w => exact absurd rfl (huseless contents w)
    | _ => rfl

/-- Two files with an object and with a list. -/
def objectAndList : FileTree where
  entries := [(["a.json"], .file "\x7b\x7d".toUTF8 false), (["b.json"], .file "[]".toUTF8 false)]
  here := []

/-- The list is of no use as a user document, and the record says so. -/
theorem resolve_of_holds_objectAndList :
    ∃ e, resolve objectAndList ⟨"/a.json"⟩ (some ⟨"/b.json"⟩) = .ok e ∧
      e.config = .object [] ∧ e.usesUserConfig = false ∧
      e.sources.map (·.digest) =
        [some (Sha256.hex "\x7b\x7d".toUTF8.toList), some (Sha256.hex "[]".toUTF8.toList)] ∧
      e.sources.map (·.status) =
        [.loaded, .fallback "/b.json must contain a JSON object at the top level"] := by
  have hobject : readBytes "\x7b\x7d".toUTF8.toList = .ok (.object []) := by
    have hempty : ((readBytes "\x7b\x7d".toUTF8.toList).toOption.bind Value.members?).any
        List.isEmpty = true := by decide +kernel
    rcases hread : readBytes "\x7b\x7d".toUTF8.toList with fault | v
    · rw [hread] at hempty
      cases hempty
    · rw [hread] at hempty
      cases v with
      | object members => rw [List.isEmpty_iff.mp hempty]
      | _ => cases hempty
  obtain ⟨v, hlist, hkind⟩ : ∃ v, readBytes "[]".toUTF8.toList = .ok v ∧ v.isObject = false := by
    have hkind : (readBytes "[]".toUTF8.toList).toOption.any (!·.isObject) = true := by
      decide +kernel
    rcases hread : readBytes "[]".toUTF8.toList with fault | v
    · rw [hread] at hkind
      cases hkind
    · rw [hread] at hkind
      exact ⟨v, rfl, by simpa [Except.toOption] using hkind⟩
  have hd : objectAndList.Holds ⟨"/a.json"⟩ (.document "\x7b\x7d".toUTF8 (.object [])) :=
    .document (by decide +kernel) hobject
  have hu : objectAndList.Holds ⟨"/b.json"⟩ (.notObject "[]".toUTF8 v) := by
    refine .notObject (by decide +kernel) hlist fun members heq => ?_
    rw [heq] at hkind
    cases hkind
  obtain ⟨hsuccess, hresult⟩ := resolve_of_holds hd hu
  obtain ⟨e, he⟩ := hsuccess.mpr ⟨_, _, rfl⟩
  obtain ⟨hconfig, huses, hsources, -⟩ := hresult _ _ rfl e he
  refine ⟨e, he, hconfig, ?_, ?_, ?_⟩
  · simpa using huses
  · rw [hsources]
    rfl
  · rw [hsources]
    rfl

end Effective

end TokenSheets
