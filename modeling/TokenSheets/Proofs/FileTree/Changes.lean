/-
TokenSheets/Proofs/FileTree/Changes.lean

What the operations change.

A *frame* says where a tree may differ from an earlier one: at the places of a
scope anything may have happened, and outside of it nothing, but that there may
be new directories at places where nothing was.  An *edit* is a frame that in
addition keeps the tree regular and loses no directory, so that what could be
entered still can.  Frames and edits compose, which carries them through
sequences of operations.  Each operation has one lemma that says what it edits.
The creation of a directory with those that lead to it is a recursion over the
parents of a path: one attempt follows another (`ensureDirectory`), and what holds
of it is shown by induction from parents to children (`makeDirectories_induction`).
-/
import Mathlib.Data.Set.Insert
import TokenSheets.Proofs.FileTree.Resolve

namespace TokenSheets

open Outcome

/-- An entry without its permission. -/
def Entry.plain : Entry → Entry
  | .file contents _ => .file contents false
  | .directory => .directory
  | .link target => .link target

namespace FileTree

/-! ### Frames and edits -/

/-- What is at a place, permissions aside: nothing, a directory, or a file with its contents. -/
def held (t : FileTree) (q : Place) : Option Entry := (t.find? q).map Entry.plain

/-- Where a tree may differ from an earlier one: within the scope, and by new directories at the
given places. -/
structure Frame (scope made : Set Place) (t t' : FileTree) : Prop where
  here : t'.here = t.here
  outside : ∀ q, q ∉ scope → t'.find? q = t.find? q ∨
    (t.find? q = none ∧ t'.find? q = some .directory ∧ q ∈ made)

/-- A frame that keeps the tree regular and all directories. -/
structure Edit (scope made : Set Place) (t t' : FileTree) : Prop
    extends Frame scope made t t' where
  regular : t'.Regular
  directories : ∀ q, t.find? q = some .directory → t'.find? q = some .directory

variable {t t' t'' : FileTree} {scope scope' made made' : Set Place}

theorem held_congr {q : Place} (h : t'.find? q = t.find? q) : t'.held q = t.held q := by
  rw [held, held, h]

theorem held_of_find? {q : Place} {e : Entry} (h : t.find? q = some e) :
    t.held q = some e.plain := by
  rw [held, h, Option.map_some]

theorem find?_of_held_eq_file {q : Place} {contents : ByteArray}
    (h : t.held q = some (.file contents false)) :
    ∃ executable, t.find? q = some (.file contents executable) := by
  obtain ⟨e, hfind, hplain⟩ := Option.map_eq_some_iff.mp h
  cases e with
  | file contents' executable =>
    obtain ⟨rfl, -⟩ := Entry.file.inj hplain
    exact ⟨executable, hfind⟩
  | directory => cases hplain
  | link target => cases hplain

theorem held_eq_none_iff {q : Place} : t.held q = none ↔ t.find? q = none := Option.map_eq_none_iff

namespace Frame

theorem refl (t : FileTree) : Frame scope made t t := ⟨rfl, fun _ _ => Or.inl rfl⟩

theorem trans (h : Frame scope made t t') (h' : Frame scope made t' t'') :
    Frame scope made t t'' := by
  refine ⟨h'.here.trans h.here, fun q hq => ?_⟩
  rcases h.outside q hq with hsame | ⟨hnone, hnew, hmade⟩
  · rw [← hsame]
    exact h'.outside q hq
  · right
    rcases h'.outside q hq with hsame' | ⟨hnone', -, -⟩
    · exact ⟨hnone, hsame'.trans hnew, hmade⟩
    · rw [hnew] at hnone'
      cases hnone'

theorem mono (h : Frame scope made t t') (hscope : scope ⊆ scope') (hmade : made ⊆ made') :
    Frame scope' made' t t' :=
  ⟨h.here, fun q hq => (h.outside q fun hmem => hq (hscope hmem)).imp_right
    fun ⟨hnone, hnew, hmem⟩ => ⟨hnone, hnew, hmade hmem⟩⟩

/-- New directories within the scope need not be named. -/
theorem absorb (h : Frame scope made t t') (hmade : made ⊆ made' ∪ scope) :
    Frame scope made' t t' := by
  refine ⟨h.here, fun q hq => (h.outside q hq).imp_right ?_⟩
  rintro ⟨hnone, hnew, hmem⟩
  exact ⟨hnone, hnew, (hmade hmem).resolve_right hq⟩

/-- What was there outside the scope is still there. -/
theorem find?_of_eq_some (h : Frame scope made t t') {q : Place} (hq : q ∉ scope) {e : Entry}
    (hfind : t.find? q = some e) : t'.find? q = some e := by
  rcases h.outside q hq with hsame | ⟨hnone, -, -⟩
  · rw [hsame, hfind]
  · rw [hfind] at hnone
    cases hnone

theorem held_of_eq_some (h : Frame scope made t t') {q : Place} (hq : q ∉ scope) {e : Entry}
    (hheld : t.held q = some e) : t'.held q = some e := by
  obtain ⟨e', hfind, rfl⟩ := Option.map_eq_some_iff.mp hheld
  exact held_of_find? (h.find?_of_eq_some hq hfind)

theorem find?_eq (h : Frame scope made t t') {q : Place} (hq : q ∉ scope)
    (hmade : q ∈ made → t.find? q ≠ none) : t'.find? q = t.find? q := by
  rcases h.outside q hq with hsame | ⟨hnone, -, hmem⟩
  · exact hsame
  · exact absurd hnone (hmade hmem)

theorem same (h : Frame scope ∅ t t') {q : Place} (hq : q ∉ scope) :
    t'.find? q = t.find? q :=
  h.find?_eq hq fun hmem => absurd hmem (Set.notMem_empty q)

/-- No file is new outside the scope. -/
theorem find?_of_eq_file (h : Frame scope made t t') {q : Place} (hq : q ∉ scope)
    {contents : ByteArray} {executable : Bool}
    (hfind : t'.find? q = some (.file contents executable)) :
    t.find? q = some (.file contents executable) := by
  rcases h.outside q hq with hsame | ⟨-, hnew, -⟩
  · rw [← hsame, hfind]
  · rw [hfind] at hnew
    cases hnew

theorem find?_eq_file_iff (h : Frame scope made t t') {q : Place} (hq : q ∉ scope)
    {contents : ByteArray} {executable : Bool} :
    t'.find? q = some (.file contents executable) ↔
      t.find? q = some (.file contents executable) :=
  ⟨h.find?_of_eq_file hq, h.find?_of_eq_some hq⟩

theorem held_eq_file_iff (h : Frame scope made t t') {q : Place} (hq : q ∉ scope)
    {contents : ByteArray} :
    t'.held q = some (.file contents false) ↔ t.held q = some (.file contents false) := by
  constructor
  · intro hheld
    obtain ⟨executable, hfind⟩ := find?_of_held_eq_file hheld
    exact held_of_find? (h.find?_of_eq_file hq hfind)
  · exact h.held_of_eq_some hq

end Frame

namespace Edit

theorem refl (ht : t.Regular) : Edit scope made t t := ⟨Frame.refl t, ht, fun _ h => h⟩

theorem trans (h : Edit scope made t t') (h' : Edit scope made t' t'') :
    Edit scope made t t'' :=
  ⟨h.toFrame.trans h'.toFrame, h'.regular, fun q hq => h'.directories q (h.directories q hq)⟩

theorem mono (h : Edit scope made t t') (hscope : scope ⊆ scope') (hmade : made ⊆ made') :
    Edit scope' made' t t' :=
  ⟨h.toFrame.mono hscope hmade, h.regular, h.directories⟩

theorem absorb (h : Edit scope made t t') (hmade : made ⊆ made' ∪ scope) :
    Edit scope made' t t' :=
  ⟨h.toFrame.absorb hmade, h.regular, h.directories⟩

/-- What could be entered still can. -/
theorem enters (h : Edit scope made t t') {p : Path} (hp : t.Enters p) : t'.Enters p :=
  hp.mono h.here (fun x _ => h.directories x) (h.directories _)

end Edit

/-! ### Single changes -/

section
variable (ht : t.Regular) {front : Place} {name : String}
include ht

/-- A file takes a name in a directory. -/
theorem edit_putFile (hn : IsEntryName name) (hfront : t.find? front = some .directory)
    (hold : t.find? (front ++ [name]) ≠ some .directory) (contents : ByteArray)
    (executable : Bool) :
    Edit {front ++ [name]} ∅ t (t.put (front ++ [name]) (.file contents executable)) := by
  refine ⟨⟨rfl, fun q hq => Or.inl (find?_put_of_ne t hq _)⟩, ?_, fun q hq => ?_⟩
  · exact ht.put hn hfront hold (by simp)
  · rw [find?_put_of_ne t fun heq => hold (by rw [← heq, hq])]
    exact hq

/-- A directory takes a name that was free. -/
theorem edit_putDirectory (hn : IsEntryName name) (hfront : t.find? front = some .directory)
    (hfree : t.find? (front ++ [name]) = none) :
    Edit ∅ {front ++ [name]} t (t.put (front ++ [name]) .directory) := by
  have hne : front ++ [name] ≠ [] := by simp
  have hold : t.find? (front ++ [name]) ≠ some .directory := by
    rw [hfree]
    simp
  refine ⟨⟨rfl, fun q _ => ?_⟩, ht.put hn hfront hold (by simp), fun q hq => ?_⟩
  · by_cases heq : q = front ++ [name]
    · right
      rw [heq]
      exact ⟨hfree, find?_put_self t hne _, rfl⟩
    · exact Or.inl (find?_put_of_ne t heq _)
  · rw [find?_put_of_ne t fun heq => hold (by rw [← heq, hq])]
    exact hq

/-- Something that is no directory goes. -/
theorem edit_erase {q : Place} (hq : t.find? q ≠ some .directory) :
    Edit {q} ∅ t (t.erase q) := by
  refine ⟨⟨rfl, fun x hx => Or.inl (find?_erase_of_ne t hx)⟩, ht.erase hq, fun x hx => ?_⟩
  rw [find?_erase_of_ne t fun heq => hq (by rw [← heq, hx])]
  exact hx

end

/-! ### Directories with what is below them -/

/-- The places at a directory and below it. -/
def below (place : Place) : Set Place := {q | place <+: q}

/-- The places below a directory. -/
def inside (place : Place) : Set Place := {q | place <+: q ∧ q ≠ place}

theorem inside_subset_below (place : Place) : inside place ⊆ below place := fun _ h => h.1

/-- What is below one name is not below another name in the same directory. -/
theorem not_mem_below {front rest : Place} {a b : String} (h : a ≠ b) :
    front ++ [a] ++ rest ∉ below (front ++ [b]) := by
  rintro ⟨more, hmore⟩
  simp only [List.append_assoc, List.append_cancel_left_eq, List.singleton_append,
    List.cons.injEq] at hmore
  exact h hmore.1.symm

theorem self_not_mem_below {front : Place} {a b : String} (h : a ≠ b) :
    front ++ [a] ∉ below (front ++ [b]) := by
  intro hmem
  rw [← List.append_nil (front ++ [a])] at hmem
  exact not_mem_below h hmem

/-- A directory is not below the names in it. -/
theorem not_mem_below_self (front : Place) (name : String) : front ∉ below (front ++ [name]) := by
  rintro ⟨rest, hrest⟩
  simpa using congrArg List.length hrest

/-- Below a name everything is erased. -/
theorem find?_eraseAll_of_mem_below (t : FileTree) {front x : Place} {name : String}
    (hx : x ∈ below (front ++ [name])) : (t.eraseAll (front ++ [name])).find? x = none := by
  refine find?_eraseAll_of_isPrefix t hx ?_
  rintro rfl
  simpa using List.prefix_nil.mp hx

theorem frame_eraseAll (t : FileTree) (place : Place) :
    Frame (below place) ∅ t (t.eraseAll place) :=
  ⟨rfl, fun _ hq => Or.inl (find?_eraseAll_of_not_isPrefix t hq)⟩

/-! ### Any path -/

/-- The places on the way of a path, as a set. -/
def way (t : FileTree) (p : Path) : Set Place := {q | q ∈ t.trailOf p}

theorem mem_way {p : Path} {q : Place} : q ∈ t.way p ↔ q ∈ t.trailOf p := Iff.rfl

theorem way_congr (h : t'.here = t.here) (p : Path) : t'.way p = t.way p := by
  rw [way, way, trailOf_congr h]

theorem way_alike {p q : Path} (h : p.Alike q) (t : FileTree) : t.way p = t.way q := by
  rw [way, way, trailOf_alike h]

/-- Where a directory can be entered, the way to what is in it leads to nothing in one of its own
directories that is not there. -/
theorem find?_ne_none_of_mem_way {p : Path} (hp : t.Enters p) {a b name : String}
    (ha : IsEntryName a) (hb : IsEntryName b)
    (h : t.placeOf (p.child a) ++ [name] ∈ t.way (p.child b)) :
    t.find? (t.placeOf (p.child a) ++ [name]) ≠ none := by
  rw [mem_way, trailOf_child hb, List.mem_append, List.mem_singleton] at h
  rcases h with hway | heq
  · rw [hp.1 _ hway]
    simp
  · rw [placeOf_child ha] at heq
    have hlength := congrArg List.length heq
    simp at hlength

section
variable (ht : t.Regular) {p : Path}
include ht

/-- A place that was located and is no directory is a name in one. -/
theorem name_of_locate {follow : Bool} {q : Place} (h : t.locate follow p = .ok q)
    (hq : t.find? q ≠ some .directory) :
    q = t.placeOf p ∧ ∃ front name, q = front ++ [name] ∧ IsEntryName name ∧
      t.find? front = some .directory := by
  obtain ⟨hplace, -, hdir | ⟨front, name, hfront, -, hname, hdir⟩⟩ := of_locate ht h
  · exact absurd hdir hq
  · exact ⟨hplace, front, name, hfront, hname, hdir⟩

theorem edit_writeFile {contents : ByteArray} (h : t.writeFile p contents = .ok t') :
    Edit {t.placeOf p} ∅ t t' := by
  rw [writeFile, bind_eq_ok] at h
  obtain ⟨q, hq, h⟩ := h
  have hput (hne : t.find? q ≠ some .directory) (executable : Bool)
      (heq : t.put q (.file contents executable) = t') : Edit {t.placeOf p} ∅ t t' := by
    obtain ⟨hplace, front, name, rfl, hname, hfront⟩ := name_of_locate ht hq hne
    rw [← hplace, ← heq]
    exact edit_putFile ht hname hfront hne contents executable
  split at h
  · rename_i hfind
    split at h
    · exact absurd h throw_ne_ok
    · exact hput (by simp [hfind]) _ (pure_eq_ok.mp h)
  · rename_i hfind
    split at h
    · exact absurd h throw_ne_ok
    · exact hput (by simp [hfind]) _ (pure_eq_ok.mp h)
  · exact absurd h throw_ne_ok

theorem edit_removeFile (h : t.removeFile p = .ok t') : Edit {t.placeOf p} ∅ t t' := by
  rw [removeFile, bind_eq_ok] at h
  obtain ⟨q, hq, h⟩ := h
  obtain ⟨rfl, -, -⟩ := of_locate ht hq
  split at h
  · exact absurd h throw_ne_ok
  · exact absurd h throw_ne_ok
  · rename_i hfind
    split at h
    · exact absurd h throw_ne_ok
    · rw [← pure_eq_ok.mp h]
      exact edit_erase ht (by simp [hfind])
  · rename_i hfind
    rw [← pure_eq_ok.mp h]
    exact edit_erase ht (by simp [hfind])

/-- A directory that was created can be entered. -/
theorem of_makeDirectory (h : t.makeDirectory p = .ok t') :
    Edit ∅ (t.way p) t t' ∧ t'.Enters p := by
  rw [makeDirectory, bind_eq_ok] at h
  obtain ⟨q, hq, h⟩ := h
  split at h
  · exact absurd h throw_ne_ok
  · rename_i hfree
    rw [pure_eq_ok] at h
    subst h
    obtain ⟨rfl, hway, hdir | ⟨front, name, hplace, hmem, hname, hfront⟩⟩ := of_locate ht hq
    · rw [hfree] at hdir
      cases hdir
    · have hedit : Edit ∅ {t.placeOf p} t (t.put (t.placeOf p) .directory) := by
        rw [hplace] at hfree ⊢
        exact edit_putDirectory ht hname hfront hfree
      have hself : (t.put (t.placeOf p) .directory).find? (t.placeOf p) = some .directory :=
        find?_put_self t (by simp [hplace]) _
      refine ⟨hedit.mono subset_rfl (Set.singleton_subset_iff.mpr hmem), ?_, ?_⟩
      · rw [trailOf_congr rfl]
        intro x hx
        rcases hway x hx with rfl | hx
        · exact hself
        · exact hedit.directories x hx
      · exact hself

end

/-! ### Directories and those that lead to them -/

/-- One attempt to create a directory: a failure is settled by a directory that is there. -/
def ensureDirectory (t : FileTree) (p : Path) : Except Errno Unit × FileTree :=
  match t.makeDirectory p with
  | .ok made => (.ok (), made)
  | .error e => (if t.isDirectory p then .ok () else .error e, t)

/-- The attempt that follows the creation of the parent. -/
def ensureAfter (p : Path) : Except Errno Unit × FileTree → Except Errno Unit × FileTree
  | (.error e, t) => (.error e, t)
  | (.ok (), t) => t.ensureDirectory p

section
variable {p : Path}

theorem ensureDirectory_of_ok (h : t.makeDirectory p = .ok t') :
    t.ensureDirectory p = (.ok (), t') := by
  rw [ensureDirectory, h]

theorem ensureDirectory_of_error {e : Errno} (h : t.makeDirectory p = .error e) :
    t.ensureDirectory p = (if t.isDirectory p then .ok () else .error e, t) := by
  rw [ensureDirectory, h]

/-- The empty path is the directory that relative paths start from. -/
theorem makeDirectories_of_empty (fuel : Nat) (t : FileTree) (h : p.text = "") :
    makeDirectories fuel t p = (.ok (), t) := by
  unfold makeDirectories
  rw [if_pos (by simp [h])]

section
variable (htext : p.text ≠ "") {fuel : Nat}
include htext

theorem makeDirectories_of_ne (h : t.makeDirectory p ≠ .error .notFound) :
    makeDirectories fuel t p = t.ensureDirectory p := by
  unfold makeDirectories
  rw [if_neg (by simpa using htext)]
  cases hmake : t.makeDirectory p with
  | ok made => rw [ensureDirectory_of_ok hmake]
  | error e =>
    rw [ensureDirectory_of_error hmake]
    cases e with
    | notFound => exact absurd hmake h
    | _ => rfl

variable (hmissing : t.makeDirectory p = .error .notFound)
include hmissing

/-- If something on the way is missing, there is nothing to do without a parent. -/
theorem makeDirectories_orphan (h : fuel = 0 ∨ p.parent? = none) :
    makeDirectories fuel t p = (.error .notFound, t) := by
  unfold makeDirectories
  rw [if_neg (by simpa using htext), hmissing]
  rcases h with rfl | hnone
  · rfl
  · cases fuel with
    | zero => rfl
    | succ fuel => simp only [hnone]

/-- If something on the way is missing, the parent comes first. -/
theorem makeDirectories_child {parent : Path} (hparent : p.parent? = some parent) :
    makeDirectories (fuel + 1) t p = ensureAfter p (makeDirectories fuel t parent) := by
  conv_lhs => unfold makeDirectories
  rw [if_neg (by simpa using htext), hmissing]
  simp only [hparent]
  rcases makeDirectories fuel t parent with ⟨e | ok, t₁⟩
  · rfl
  · cases hmake : t₁.makeDirectory p with
    | ok made => simp only [ensureAfter, ensureDirectory_of_ok hmake, hmake]
    | error e => simp only [ensureAfter, ensureDirectory_of_error hmake, hmake]

end

/-- Induction along the creation of directories in a tree, from parents to children. -/
theorem makeDirectories_induction (t : FileTree)
    {motive : Nat → Path → Except Errno Unit × FileTree → Prop}
    (empty : ∀ fuel p, p.text = "" → motive fuel p (.ok (), t))
    (here : ∀ fuel p, p.text ≠ "" → t.makeDirectory p ≠ .error .notFound →
      motive fuel p (t.ensureDirectory p))
    (orphan : ∀ fuel p, p.text ≠ "" → t.makeDirectory p = .error .notFound →
      (fuel = 0 ∨ p.parent? = none) → motive fuel p (.error .notFound, t))
    (child : ∀ fuel p parent, p.text ≠ "" → t.makeDirectory p = .error .notFound →
      p.parent? = some parent → motive fuel parent (makeDirectories fuel t parent) →
      motive (fuel + 1) p (ensureAfter p (makeDirectories fuel t parent)))
    (fuel : Nat) (p : Path) : motive fuel p (makeDirectories fuel t p) := by
  induction fuel generalizing p with
  | zero =>
    by_cases htext : p.text = ""
    · rw [makeDirectories_of_empty _ t htext]
      exact empty 0 p htext
    by_cases hmissing : t.makeDirectory p = .error .notFound
    · rw [makeDirectories_orphan htext hmissing (Or.inl rfl)]
      exact orphan 0 p htext hmissing (Or.inl rfl)
    · rw [makeDirectories_of_ne htext hmissing]
      exact here 0 p htext hmissing
  | succ fuel ih =>
    by_cases htext : p.text = ""
    · rw [makeDirectories_of_empty _ t htext]
      exact empty _ p htext
    by_cases hmissing : t.makeDirectory p = .error .notFound
    · cases hparent : p.parent? with
      | none =>
        rw [makeDirectories_orphan htext hmissing (Or.inr hparent)]
        exact orphan _ p htext hmissing (Or.inr hparent)
      | some parent =>
        rw [makeDirectories_child htext hmissing hparent]
        exact child fuel p parent htext hmissing hparent (ih parent)
    · rw [makeDirectories_of_ne htext hmissing]
      exact here _ p htext hmissing

end

/-- An attempt creates at most the directory, and after a success one can go there. -/
theorem of_ensureDirectory (ht : t.Regular) (p : Path) :
    Edit ∅ (t.way p) t (t.ensureDirectory p).2 ∧
      ((t.ensureDirectory p).1 = .ok () → (t.ensureDirectory p).2.Enters p) := by
  cases hmake : t.makeDirectory p with
  | ok made =>
    rw [ensureDirectory_of_ok hmake]
    obtain ⟨hedit, henters⟩ := of_makeDirectory ht hmake
    exact ⟨hedit, fun _ => henters⟩
  | error e =>
    rw [ensureDirectory_of_error hmake]
    refine ⟨Edit.refl ht, fun h => ?_⟩
    by_cases hdir : t.isDirectory p = true
    · exact enters_of_isDirectory ht hdir
    · rw [if_neg hdir] at h
      cases h

/-- The parent of a path is on its way. -/
theorem way_parent {p parent : Path} (h : p.parent? = some parent) (t : FileTree) :
    t.way parent ⊆ t.way p := by
  intro q hq
  rw [mem_way, trailOf] at hq ⊢
  rcases Path.parent?_cases h with hempty | ⟨habs, move, hmoves⟩
  · rw [Path.moves_of_empty hempty] at hq
    cases hq
  · rw [start] at hq ⊢
    rw [← habs, hmoves, Place.trail_append]
    exact List.mem_append_left _ hq

/-- Only directories on the way are created, and after a success one can go all the way. -/
theorem of_makeDirectories (fuel : Nat) (ht : t.Regular) (p : Path) :
    Edit ∅ (t.way p) t (makeDirectories fuel t p).2 ∧
      (p.text ≠ "" → (makeDirectories fuel t p).1 = .ok () →
        (makeDirectories fuel t p).2.Enters p) := by
  induction fuel, p using makeDirectories_induction t with
  | empty _ p htext => exact ⟨Edit.refl ht, fun hne => absurd htext hne⟩
  | here _ p _ _ =>
    obtain ⟨hedit, henters⟩ := of_ensureDirectory ht p
    exact ⟨hedit, fun _ => henters⟩
  | orphan _ p _ _ _ => exact ⟨Edit.refl ht, by simp⟩
  | child fuel p parent _ _ hparent ih =>
    have hbefore := ih.1.mono subset_rfl (way_parent hparent t)
    rcases hrun : makeDirectories fuel t parent with ⟨e | ok, t₁⟩ <;> rw [hrun] at hbefore
    · exact ⟨hbefore, by simp [ensureAfter]⟩
    · obtain ⟨hedit, henters⟩ := of_ensureDirectory hbefore.regular p
      rw [way_congr hbefore.here] at hedit
      exact ⟨hbefore.trans hedit, fun _ => henters⟩

theorem edit_createDirectories (ht : t.Regular) (p : Path) :
    Edit ∅ (t.way p) t (t.createDirectories p).2 :=
  (of_makeDirectories _ ht p).1

theorem enters_of_createDirectories (ht : t.Regular) {p : Path} (hp : p.moves ≠ [])
    (h : (t.createDirectories p).1 = .ok ()) : (t.createDirectories p).2.Enters p :=
  (of_makeDirectories _ ht p).2 (mt Path.moves_of_empty hp) h

end FileTree

end TokenSheets
