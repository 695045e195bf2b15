/-
TokenSheets/Proofs/FileTree/Resolve.lean

Resolving paths in a regular tree.

Without links a path leads to a place that its moves alone decide
(`FileTree.placeOf`), and what the tree decides is only whether one gets there:
all places on the way have to be directories (`FileTree.Enters`).  A walk stays
where it is, goes up, or goes on to a name; there is a lemma for each, and what
holds of walks is shown by induction over these steps (`steps_induction`).  A
name in a directory is located exactly if its directory can be entered
(`locate_child`), so what an operation does there is said in terms of the place.
-/
import TokenSheets.Proofs.FileTree.Regular
import TokenSheets.Proofs.Outcome

namespace TokenSheets

open Outcome

/-! ### Along moves -/

namespace Place

/-- Where moves lead from a place. -/
def along : Place → List String → Place
  | x, [] => x
  | x, move :: moves => if move = ".." then along x.dropLast moves else along (x ++ [move]) moves

/-- The places that moves reach by a name, in order. -/
def trail : Place → List String → List Place
  | _, [] => []
  | x, move :: moves =>
    if move = ".." then trail x.dropLast moves else (x ++ [move]) :: trail (x ++ [move]) moves

theorem along_up (x : Place) (moves : List String) :
    along x (".." :: moves) = along x.dropLast moves := by
  rw [along, if_pos rfl]

theorem along_name {name : String} (hn : name ≠ "..") (x : Place) (moves : List String) :
    along x (name :: moves) = along (x ++ [name]) moves := by
  rw [along, if_neg hn]

theorem trail_up (x : Place) (moves : List String) :
    trail x (".." :: moves) = trail x.dropLast moves := by
  rw [trail, if_pos rfl]

theorem trail_name {name : String} (hn : name ≠ "..") (x : Place) (moves : List String) :
    trail x (name :: moves) = (x ++ [name]) :: trail (x ++ [name]) moves := by
  rw [trail, if_neg hn]

theorem along_append (x : Place) (before after : List String) :
    along x (before ++ after) = along (along x before) after := by
  induction before generalizing x with
  | nil => rfl
  | cons move before ih =>
    rw [List.cons_append, along, along]
    split
    · exact ih _
    · exact ih _

theorem trail_append (x : Place) (before after : List String) :
    trail x (before ++ after) = trail x before ++ trail (along x before) after := by
  induction before generalizing x with
  | nil => rfl
  | cons move before ih =>
    rw [List.cons_append, trail, trail, along]
    split
    · exact ih _
    · rw [ih, List.cons_append]

theorem along_concat {name : String} (hn : name ≠ "..") (x : Place) (moves : List String) :
    along x (moves ++ [name]) = along x moves ++ [name] := by
  rw [along_append, along_name hn, along]

theorem trail_concat {name : String} (hn : name ≠ "..") (x : Place) (moves : List String) :
    trail x (moves ++ [name]) = trail x moves ++ [along x moves ++ [name]] := by
  rw [trail_append, trail_name hn, trail]

theorem mem_trail {x y : Place} {moves : List String} (h : y ∈ trail x moves) :
    ∃ front name, name ∈ moves ∧ name ≠ ".." ∧ y = front ++ [name] := by
  induction moves generalizing x with
  | nil => cases h
  | cons move moves ih =>
    rw [trail] at h
    split at h
    · obtain ⟨front, name, hmem, hne, rfl⟩ := ih h
      exact ⟨front, name, List.mem_cons_of_mem _ hmem, hne, rfl⟩
    · rename_i hmove
      rcases List.mem_cons.mp h with rfl | h
      · exact ⟨x, move, List.mem_cons_self, hmove, rfl⟩
      · obtain ⟨front, name, hmem, hne, rfl⟩ := ih h
        exact ⟨front, name, List.mem_cons_of_mem _ hmem, hne, rfl⟩

/-- Without double dots moves lead down only. -/
theorem isPrefix_along {moves : List String} (h : ".." ∉ moves) (x : Place) :
    x <+: along x moves := by
  induction moves generalizing x with
  | nil => exact List.prefix_rfl
  | cons move moves ih =>
    obtain ⟨hmove, hmoves⟩ := not_or.mp (mt List.mem_cons.mpr h)
    rw [along_name (Ne.symm hmove)]
    exact (List.prefix_append x [move]).trans (ih hmoves _)

/-- What they pass is above the place where they end. -/
theorem isPrefix_of_mem_trail {moves : List String} (h : ".." ∉ moves) {x y : Place}
    (hy : y ∈ trail x moves) : y <+: along x moves := by
  induction moves generalizing x with
  | nil => cases hy
  | cons move moves ih =>
    obtain ⟨hmove, hmoves⟩ := not_or.mp (mt List.mem_cons.mpr h)
    rw [trail_name (Ne.symm hmove)] at hy
    rw [along_name (Ne.symm hmove)]
    rcases List.mem_cons.mp hy with rfl | hy
    · exact isPrefix_along hmoves _
    · exact ih hmoves hy

end Place

namespace FileTree

/-! ### Where a path leads -/

section
variable (t : FileTree) (p : Path)

/-- The place that relative or absolute paths start from. -/
def start : Place := if p.isAbsolute then [] else t.here

/-- The place that the moves of a path lead to. -/
def placeOf : Place := Place.along (t.start p) p.moves

/-- The places on the way of a path that it reaches by a name. -/
def trailOf : List Place := Place.trail (t.start p) p.moves

/-- Everything on the way of a path is a directory, and so is what it leads to. -/
def Enters : Prop :=
  (∀ x ∈ t.trailOf p, t.find? x = some .directory) ∧ t.find? (t.placeOf p) = some .directory

end

section
variable {t t' : FileTree} {p q : Path}

theorem start_congr (h : t'.here = t.here) (p : Path) : t'.start p = t.start p := by
  rw [start, start, h]

theorem placeOf_congr (h : t'.here = t.here) (p : Path) : t'.placeOf p = t.placeOf p := by
  rw [placeOf, placeOf, start_congr h]

theorem trailOf_congr (h : t'.here = t.here) (p : Path) : t'.trailOf p = t.trailOf p := by
  rw [trailOf, trailOf, start_congr h]

theorem placeOf_alike (h : p.Alike q) (t : FileTree) : t.placeOf p = t.placeOf q := by
  rw [placeOf, placeOf, start, start, h.1, h.2]

theorem trailOf_alike (h : p.Alike q) (t : FileTree) : t.trailOf p = t.trailOf q := by
  rw [trailOf, trailOf, start, start, h.1, h.2]

theorem enters_alike (h : p.Alike q) : t.Enters p ↔ t.Enters q := by
  rw [Enters, Enters, trailOf_alike h, placeOf_alike h]

/-- A way stays open while its directories stay. -/
theorem Enters.mono (h : t.Enters p) (hhere : t'.here = t.here)
    (hway : ∀ x ∈ t.trailOf p, t.find? x = some .directory → t'.find? x = some .directory)
    (hend : t.find? (t.placeOf p) = some .directory →
      t'.find? (t.placeOf p) = some .directory) : t'.Enters p := by
  rw [Enters, trailOf_congr hhere, placeOf_congr hhere]
  exact ⟨fun x hx => hway x hx (h.1 x hx), hend h.2⟩

end

section
variable {name : String} (hn : IsEntryName name) (t : FileTree) (p : Path)
include hn

theorem placeOf_child : t.placeOf (p.child name) = t.placeOf p ++ [name] := by
  rw [placeOf, placeOf, start, start, p.isAbsolute_child hn, p.moves_child hn,
    Place.along_concat hn.2.2.1]

theorem trailOf_child : t.trailOf (p.child name) = t.trailOf p ++ [t.placeOf p ++ [name]] := by
  rw [trailOf, trailOf, placeOf, start, start, p.isAbsolute_child hn, p.moves_child hn,
    Place.trail_concat hn.2.2.1]

end

theorem enters_child_iff {t : FileTree} (ht : t.Regular) {name : String} (hn : IsEntryName name)
    (p : Path) :
    t.Enters (p.child name) ↔
      t.Enters p ∧ t.find? (t.placeOf p ++ [name]) = some .directory := by
  rw [Enters, Enters, trailOf_child hn, placeOf_child hn]
  constructor
  · rintro ⟨hway, hend⟩
    refine ⟨⟨fun x hx => hway x (List.mem_append_left _ hx), ?_⟩, hend⟩
    exact ht.directory_of_isSome hend
  · rintro ⟨⟨hway, -⟩, hend⟩
    refine ⟨fun x hx => ?_, hend⟩
    rcases List.mem_append.mp hx with hx | hx
    · exact hway x hx
    · rw [List.mem_singleton.mp hx]
      exact hend

/-- A directory that a path without double dots leads to can be entered. -/
theorem enters_of_directory {t : FileTree} (ht : t.Regular) {p : Path} (h : ".." ∉ p.moves)
    (hdir : t.find? (t.placeOf p) = some .directory) : t.Enters p := by
  refine ⟨fun x hx => ?_, hdir⟩
  by_cases heq : x = t.placeOf p
  · rw [heq]
    exact hdir
  · exact ht.directory_of_isPrefix (Place.isPrefix_of_mem_trail h hx) heq hdir

/-! ### Steps of a walk -/

/-- Induction along steps: some stay where they are, some lead up, and the others have names. -/
theorem steps_induction {motive : List String → Prop} (nil : motive [])
    (dot : ∀ rest, motive rest → motive ("." :: rest))
    (up : ∀ rest, motive rest → motive (".." :: rest))
    (name : ∀ name rest, name ≠ "." → name ≠ ".." → motive rest → motive (name :: rest))
    (steps : List String) : motive steps := by
  induction steps with
  | nil => exact nil
  | cons step rest ih =>
    by_cases hdot : step = "."
    · exact hdot ▸ dot rest ih
    by_cases hup : step = ".."
    · exact hup ▸ up rest ih
    · exact name step rest hdot hup ih

theorem moves_dot (rest : List String) : ("." :: rest).filter (· ≠ ".") = rest.filter (· ≠ ".") :=
  List.filter_cons_of_neg (by decide)

theorem moves_up (rest : List String) :
    (".." :: rest).filter (· ≠ ".") = ".." :: rest.filter (· ≠ ".") :=
  List.filter_cons_of_pos (by decide)

theorem moves_name {name : String} (hdot : name ≠ ".") (rest : List String) :
    (name :: rest).filter (· ≠ ".") = name :: rest.filter (· ≠ ".") :=
  List.filter_cons_of_pos (by simpa using hdot)

section
variable {t : FileTree} {follow : Bool} {onLink : Place → List String → Except Errno Place}
  {x : Place} {rest : List String}

theorem walkWith_dot :
    t.walkWith follow onLink x ("." :: rest) = t.walkWith follow onLink x rest := by
  rw [walkWith, if_pos rfl]

theorem walkWith_up :
    t.walkWith follow onLink x (".." :: rest) = t.walkWith follow onLink x.dropLast rest := by
  rw [walkWith, if_neg (by decide), if_pos rfl]

variable (ht : t.Regular) {name : String} (hdot : name ≠ ".") (hup : name ≠ "..")
include ht hdot hup

/-- A step to a name.  Without links it leads down into a directory, or it is the last one. -/
theorem walkWith_name :
    t.walkWith follow onLink x (name :: rest) =
      if t.find? (x ++ [name]) = some .directory then
        t.walkWith follow onLink (x ++ [name]) rest
      else if t.find? x = some .directory ∧ rest = [] then .ok (x ++ [name])
      else .error (if t.find? (x ++ [name]) = none then .notFound else .notDirectory) := by
  rw [walkWith, if_neg hdot, if_neg hup]
  simp only
  cases hfind : t.find? (x ++ [name]) with
  | none => by_cases hx : t.find? x = some .directory <;> simp [hx]
  | some e =>
    have hx : t.find? x = some .directory := ht.directory_of_isSome hfind
    cases e with
    | directory => simp [hx]
    | file contents executable => simp [hx]
    | link target => exact absurd hfind (ht.linkless _ target)

theorem walkWith_last :
    t.walkWith follow onLink x [name] =
      if t.find? x = some .directory then .ok (x ++ [name]) else .error .notFound := by
  rw [walkWith_name ht hdot hup]
  by_cases hdir : t.find? (x ++ [name]) = some .directory
  · rw [if_pos hdir, if_pos (ht.directory_of_isSome hdir), walkWith, if_pos hdir]
  by_cases hx : t.find? x = some .directory
  · rw [if_neg hdir, if_pos hx, if_pos ⟨hx, rfl⟩]
  · have hnone : t.find? (x ++ [name]) = none := by
      by_contra hsome
      obtain ⟨e, he⟩ := Option.ne_none_iff_exists'.mp hsome
      exact hx (ht.directory_of_isSome he)
    rw [if_neg hdir, if_neg hx, if_neg fun h => hx h.1, if_pos hnone]

end

/-! ### Walking -/

section
variable {t : FileTree} {follow : Bool} {onLink : Place → List String → Except Errno Place}

/-- Where a walk ends, and what it has passed: the place is the one that the moves lead to, all
others on the way are directories, and the last one is there or can be put under its name. -/
structure Walked (t : FileTree) (x : Place) (moves : List String) (q : Place) : Prop where
  place : q = Place.along x moves
  way : ∀ y ∈ Place.trail x moves, y = q ∨ t.find? y = some .directory
  last : t.find? q = some .directory ∨
    q ∈ Place.trail x moves ∧ t.find? q.dropLast = some .directory

namespace Walked

variable {x q : Place} {move : String} {moves : List String}

/-- Up one directory, and on. -/
theorem up (h : t.Walked x.dropLast moves q) : t.Walked x (".." :: moves) q := by
  obtain ⟨hplace, hway, hlast⟩ := h
  refine ⟨?_, ?_, ?_⟩
  · rw [Place.along_up]
    exact hplace
  · rw [Place.trail_up]
    exact hway
  · rw [Place.trail_up]
    exact hlast

/-- Down into a directory, and on. -/
theorem down (h : t.Walked (x ++ [move]) moves q) (hmove : move ≠ "..")
    (hdir : t.find? (x ++ [move]) = some .directory) : t.Walked x (move :: moves) q := by
  obtain ⟨hplace, hway, hlast⟩ := h
  refine ⟨?_, ?_, ?_⟩
  · rw [Place.along_name hmove]
    exact hplace
  · rw [Place.trail_name hmove]
    intro y hy
    rcases List.mem_cons.mp hy with rfl | hy
    · exact Or.inr hdir
    · exact hway y hy
  · rw [Place.trail_name hmove]
    exact hlast.imp_right fun h => ⟨List.mem_cons_of_mem _ h.1, h.2⟩

/-- The end at a name in a directory, whether or not something has the name. -/
theorem stop (hmove : move ≠ "..") (hx : t.find? x = some .directory) :
    t.Walked x [move] (x ++ [move]) := by
  have htrail : Place.trail x [move] = [x ++ [move]] := by
    rw [Place.trail_name hmove, Place.trail]
  refine ⟨?_, ?_, ?_⟩
  · rw [Place.along_name hmove, Place.along]
  · rw [htrail]
    intro y hy
    exact Or.inl (List.mem_singleton.mp hy)
  · right
    rw [htrail, List.dropLast_concat]
    exact ⟨List.mem_singleton_self _, hx⟩

end Walked

theorem walkWith_eq_ok (ht : t.Regular) {x q : Place} {steps : List String}
    (h : t.walkWith follow onLink x steps = .ok q) : t.Walked x (steps.filter (· ≠ ".")) q := by
  induction steps using steps_induction generalizing x with
  | nil =>
    rw [walkWith] at h
    split at h
    · rename_i hx
      obtain rfl := Except.ok.inj h
      exact ⟨rfl, by simp [Place.trail], Or.inl hx⟩
    · cases h
  | dot rest ih =>
    rw [walkWith_dot] at h
    rw [moves_dot]
    exact ih h
  | up rest ih =>
    rw [walkWith_up] at h
    rw [moves_up]
    exact (ih h).up
  | name name rest hdot hup ih =>
    rw [walkWith_name ht hdot hup] at h
    rw [moves_name hdot]
    split at h
    · rename_i hdir
      exact (ih h).down hup hdir
    split at h
    · -- nothing is there, or a file: that has to be the end
      rename_i hend
      obtain ⟨hx, rfl⟩ := hend
      obtain rfl := Except.ok.inj h
      exact .stop hup hx
    · cases h

/-- A walk to a name gets there exactly if everything before it is a directory. -/
theorem walkWith_concat_eq_ok (ht : t.Regular) {name : String} (hn : IsEntryName name)
    {x q : Place} {steps : List String} :
    t.walkWith follow onLink x (steps ++ [name]) = .ok q ↔
      ((∀ y ∈ Place.trail x (steps.filter (· ≠ ".")), t.find? y = some .directory) ∧
        t.find? (Place.along x (steps.filter (· ≠ "."))) = some .directory) ∧
      q = Place.along x (steps.filter (· ≠ ".")) ++ [name] := by
  induction steps using steps_induction generalizing x with
  | nil =>
    rw [List.nil_append, walkWith_last ht hn.2.1 hn.2.2.1]
    by_cases hx : t.find? x = some .directory
    · simp [hx, Place.trail, Place.along, eq_comm]
    · simp [hx, Place.along]
  | dot rest ih =>
    rw [List.cons_append, walkWith_dot, moves_dot]
    exact ih
  | up rest ih =>
    rw [List.cons_append, walkWith_up, moves_up, Place.along_up, Place.trail_up]
    exact ih
  | name step rest hdot hup ih =>
    rw [List.cons_append, walkWith_name ht hdot hup, moves_name hdot, Place.along_name hup,
      Place.trail_name hup, List.forall_mem_cons]
    by_cases hnext : t.find? (x ++ [step]) = some .directory
    · rw [if_pos hnext, and_iff_right hnext]
      exact ih
    · -- the walk cannot go on where there is no directory
      simp [hnext]

end

/-! ### Locating -/

section
variable {t : FileTree} (ht : t.Regular) {follow : Bool}
include ht

/-- What is known of a place that was located. -/
theorem of_locate {p : Path} {q : Place} (h : t.locate follow p = .ok q) :
    q = t.placeOf p ∧ (∀ y ∈ t.trailOf p, y = q ∨ t.find? y = some .directory) ∧
      (t.find? q = some .directory ∨
        ∃ front name, q = front ++ [name] ∧ q ∈ t.trailOf p ∧ IsEntryName name ∧
          t.find? front = some .directory) := by
  unfold locate at h
  split at h
  · cases h
  · obtain ⟨hq, hway, hend⟩ := walkWith_eq_ok ht h
    refine ⟨hq, hway, hend.imp_right ?_⟩
    rintro ⟨hmem, hfront⟩
    obtain ⟨front, name, hname, hne, rfl⟩ := Place.mem_trail hmem
    rw [List.dropLast_concat] at hfront
    exact ⟨front, name, rfl, hmem, Path.isEntryName_of_mem_moves hname hne, hfront⟩

/-- A name is located exactly if its directory can be entered. -/
theorem locate_child {name : String} (hn : IsEntryName name) {p : Path} {q : Place} :
    t.locate follow (p.child name) = .ok q ↔ t.Enters p ∧ q = t.placeOf p ++ [name] := by
  have htext : (p.child name).text.isEmpty = false := by
    simpa using p.text_child_ne_empty hn
  rw [locate, htext, if_neg Bool.false_ne_true, p.isAbsolute_child hn, p.steps_child hn]
  exact walkWith_concat_eq_ok ht hn

/-- What a path is said to name is at its place. -/
theorem of_stat {p : Path} {e : Entry} (h : t.stat p = .ok e) :
    t.locate true p = .ok (t.placeOf p) ∧ t.find? (t.placeOf p) = some e := by
  rw [stat, bind_eq_ok] at h
  obtain ⟨q, hq, h⟩ := h
  obtain ⟨rfl, -, -⟩ := of_locate ht hq
  refine ⟨hq, ?_⟩
  split at h
  · exact absurd h throw_ne_ok
  · rename_i hfind
    split at h
    · exact absurd h throw_ne_ok
    · rw [hfind, pure_eq_ok.mp h]
  · rename_i hfind
    rw [hfind, pure_eq_ok.mp h]

/-- A path that leads to a directory can be entered. -/
theorem enters_of_isDirectory {p : Path} (h : t.isDirectory p = true) : t.Enters p := by
  unfold isDirectory at h
  split at h
  · rename_i hstat
    obtain ⟨hq, hdir⟩ := of_stat ht hstat
    obtain ⟨-, hway, -⟩ := of_locate ht hq
    refine ⟨fun x hx => ?_, hdir⟩
    rcases hway x hx with rfl | hx
    · exact hdir
    · exact hx
  · cases h

end

end FileTree

end TokenSheets
