/-
TokenSheets/Proofs/FileTree/Agreement.lean

Trees that agree along a path.

An operation looks at the places that its path passes and at no others.  So what
it does in one tree it does in every tree that agrees there, and both trees still
agree afterwards; here this is shown for creating directories
(`makeDirectories_congr`).  Double dots at the beginning of a path are different:
nothing is looked at before a name follows.  So a path passes places from where they
lead to, the parent of a path passes some of these, and a path of nothing but double
dots is a case of its own, along which nothing is created (`makeDirectories_of_dots`).
One way to agree is that a path can be followed in both trees, apart from one
directory that is the same in both (`EntersBut.agreeOn`).

For reading, less is enough: what is on the way must be of the same kind, and the
file at the end must have the same contents (`stat_of_held`).  Where a directory is
there already, creating it does nothing (`createDirectories_of_enters`), and neither
does replacing a file by what it is (`replaceFile_again`).
-/
import TokenSheets.Proofs.FileTree.Operations

namespace TokenSheets

open Outcome

/-! ### The places that a path passes -/

namespace Place

/-- The places that moves pass, the first one included. -/
def passed : Place → List String → List Place
  | x, [] => [x]
  | x, move :: moves =>
    x :: if move = ".." then passed x.dropLast moves else passed (x ++ [move]) moves

/-- The places that moves pass, from where double dots at their beginning lead to. -/
def seen : Place → List String → List Place
  | x, [] => [x]
  | x, move :: moves => if move = ".." then seen x.dropLast moves else passed x (move :: moves)

theorem seen_up (x : Place) (moves : List String) :
    seen x (".." :: moves) = seen x.dropLast moves := by
  rw [seen, if_pos rfl]

theorem seen_name {name : String} (hn : name ≠ "..") (x : Place) (moves : List String) :
    seen x (name :: moves) = x :: passed (x ++ [name]) moves := by
  rw [seen, if_neg hn, passed, if_neg hn]

theorem self_mem_passed (x : Place) (moves : List String) : x ∈ passed x moves := by
  cases moves with
  | nil => exact List.mem_cons_self
  | cons move moves => exact List.mem_cons_self

theorem seen_subset_passed (x : Place) (moves : List String) : seen x moves ⊆ passed x moves := by
  induction moves generalizing x with
  | nil => exact List.Subset.refl _
  | cons move moves ih =>
    rw [seen]
    split
    · rename_i hmove
      rw [passed, if_pos hmove]
      exact List.Subset.trans (ih _) (List.subset_cons_self _ _)
    · exact List.Subset.refl _

theorem along_mem_passed (x : Place) (moves : List String) : along x moves ∈ passed x moves := by
  induction moves generalizing x with
  | nil => exact List.mem_cons_self
  | cons move moves ih =>
    rw [along, passed]
    split
    · exact List.mem_cons_of_mem _ (ih _)
    · exact List.mem_cons_of_mem _ (ih _)

theorem along_mem_seen (x : Place) (moves : List String) : along x moves ∈ seen x moves := by
  induction moves generalizing x with
  | nil => exact List.mem_cons_self
  | cons move moves ih =>
    rw [seen]
    split
    · rename_i hmove
      rw [along, if_pos hmove]
      exact ih _
    · exact along_mem_passed x _

/-- Fewer moves pass fewer places. -/
theorem passed_subset_append (x : Place) (before after : List String) :
    passed x before ⊆ passed x (before ++ after) := by
  induction before generalizing x with
  | nil =>
    intro y hy
    rw [List.mem_singleton.mp hy]
    exact self_mem_passed x _
  | cons move before ih =>
    rw [List.cons_append, passed, passed]
    split
    · exact List.cons_subset_cons _ (ih _)
    · exact List.cons_subset_cons _ (ih _)

/-- The same holds from where the double dots lead to, if there is more than double dots. -/
theorem seen_subset_concat (x : Place) {before : List String} {move : String}
    (h : ∃ m ∈ before ++ [move], m ≠ "..") : seen x before ⊆ seen x (before ++ [move]) := by
  induction before generalizing x with
  | nil =>
    have hmove : move ≠ ".." := by simpa using h
    intro y hy
    rw [List.mem_singleton.mp hy, List.nil_append, seen, if_neg hmove]
    exact self_mem_passed x _
  | cons first before ih =>
    rw [List.cons_append, seen, seen]
    split
    · rename_i hdots
      apply ih
      simpa [hdots] using h
    · exact passed_subset_append x (first :: before) [move]

/-- Every place that is passed lies on the way to the first one or to one that is reached by a
name. -/
theorem isPrefix_of_mem_passed {x y : Place} {moves : List String} (h : y ∈ passed x moves) :
    y <+: x ∨ ∃ z ∈ trail x moves, y <+: z := by
  induction moves generalizing x with
  | nil =>
    left
    rw [List.mem_singleton.mp h]
  | cons move moves ih =>
    rw [passed] at h
    rw [trail]
    rcases List.mem_cons.mp h with rfl | h
    · exact Or.inl List.prefix_rfl
    split at h
    · rename_i hmove
      rw [if_pos hmove]
      exact (ih h).imp_left fun hy => hy.trans (List.dropLast_prefix _)
    · rename_i hmove
      rw [if_neg hmove]
      right
      rcases ih h with hy | ⟨z, hz, hy⟩
      · exact ⟨_, List.mem_cons_self, hy⟩
      · exact ⟨z, List.mem_cons_of_mem _ hz, hy⟩

/-- From where the double dots lead to, the first one is the last one or a name follows. -/
theorem isPrefix_of_mem_seen {x y : Place} {moves : List String} (h : y ∈ seen x moves) :
    y = along x moves ∨ ∃ z ∈ trail x moves, y <+: z := by
  induction moves generalizing x with
  | nil => exact Or.inl (List.mem_singleton.mp h)
  | cons move moves ih =>
    rw [seen] at h
    split at h
    · rename_i hmove
      rw [along, trail, if_pos hmove, if_pos hmove]
      exact ih h
    · rename_i hmove
      right
      rcases isPrefix_of_mem_passed h with hy | hz
      · refine ⟨x ++ [move], ?_, hy.trans (List.prefix_append _ _)⟩
        rw [trail, if_neg hmove]
        exact List.mem_cons_self
      · exact hz

end Place

namespace FileTree

/-- The places that a path passes, from where double dots at its beginning lead to. -/
def passes (t : FileTree) (p : Path) : Set Place := {x | x ∈ Place.seen (t.start p) p.moves}

/-- Two trees with the same working directory and the same entries at some places. -/
structure AgreeOn (s : Set Place) (t u : FileTree) : Prop where
  here : u.here = t.here
  find? : ∀ x ∈ s, u.find? x = t.find? x

section
variable {t u : FileTree} {p : Path}

theorem placeOf_mem_passes (t : FileTree) (p : Path) : t.placeOf p ∈ t.passes p :=
  Place.along_mem_seen _ _

theorem passes_congr (h : u.here = t.here) (p : Path) : u.passes p = t.passes p := by
  rw [passes, passes, start_congr h]

theorem mem_passes {x : Place} : x ∈ t.passes p ↔ x ∈ Place.seen (t.start p) p.moves := Iff.rfl

/-- The parent of a path passes no more places, unless there is nothing but double dots. -/
theorem passes_parent {parent : Path} (h : p.parent? = some parent) (hne : parent.text ≠ "")
    (hdots : ¬∀ m ∈ p.moves, m = "..") (t : FileTree) : t.passes parent ⊆ t.passes p := by
  rcases Path.parent?_cases h with hempty | ⟨habs, move, hmoves⟩
  · exact absurd hempty hne
  · intro x hx
    have hname : ∃ m ∈ p.moves, m ≠ ".." := by simpa using hdots
    rw [mem_passes, start] at hx ⊢
    rw [hmoves] at hname ⊢
    rw [← habs]
    exact Place.seen_subset_concat _ hname hx

/-! ### The same operation in two trees -/

theorem AgreeOn.put {s : Set Place} (h : AgreeOn s t u) {q : Place} (hq : q ≠ []) (e : Entry) :
    AgreeOn s (t.put q e) (u.put q e) := by
  refine ⟨h.here, fun x hx => ?_⟩
  by_cases heq : x = q
  · rw [heq, find?_put_self u hq, find?_put_self t hq]
  · rw [find?_put_of_ne u heq, find?_put_of_ne t heq, h.find? x hx]

theorem AgreeOn.mono {s s' : Set Place} (h : AgreeOn s t u) (hs : s' ⊆ s) : AgreeOn s' t u :=
  ⟨h.here, fun x hx => h.find? x (hs hx)⟩

theorem walkWith_congr (ht : t.Regular) {follow : Bool}
    {onLink onLink' : Place → List String → Except Errno Place} {x : Place} {steps : List String}
    (h : ∀ y ∈ Place.seen x (steps.filter (· ≠ ".")), u.find? y = t.find? y) :
    u.walkWith follow onLink' x steps = t.walkWith follow onLink x steps := by
  induction steps using steps_induction generalizing x with
  | nil =>
    rw [walkWith, walkWith, h x List.mem_cons_self]
  | dot rest ih =>
    rw [moves_dot] at h
    rw [walkWith_dot, walkWith_dot]
    exact ih h
  | up rest ih =>
    rw [moves_up, Place.seen_up] at h
    rw [walkWith_up, walkWith_up]
    exact ih h
  | name step rest hdot hup ih =>
    rw [moves_name hdot, Place.seen_name hup, List.forall_mem_cons] at h
    obtain ⟨hx, h⟩ := h
    have hnext : u.find? (x ++ [step]) = t.find? (x ++ [step]) :=
      h _ (Place.self_mem_passed _ _)
    -- only the one tree is known to have no links, so the steps are compared as they are
    rw [walkWith, walkWith, if_neg hdot, if_neg hdot, if_neg hup, if_neg hup, hx]
    simp only [hnext]
    split
    · rfl
    split
    · rfl
    · exact ih fun y hy => h y (Place.seen_subset_passed _ _ hy)
    · rfl
    · rename_i target hlink
      exact absurd hlink (ht.linkless _ target)

theorem locate_congr (ht : t.Regular) (h : AgreeOn (t.passes p) t u) (follow : Bool) :
    u.locate follow p = t.locate follow p := by
  rw [locate, locate, h.here]
  split
  · rfl
  · exact walkWith_congr ht h.find?

theorem stat_congr (ht : t.Regular) (h : AgreeOn (t.passes p) t u) : u.stat p = t.stat p := by
  rw [stat, stat, locate_congr ht h]
  cases hq : t.locate true p with
  | error e => rfl
  | ok q =>
    obtain ⟨rfl, -, -⟩ := of_locate ht hq
    rw [ok_bind, ok_bind, h.find? _ (placeOf_mem_passes t p)]

theorem isDirectory_congr (ht : t.Regular) (h : AgreeOn (t.passes p) t u) :
    u.isDirectory p = t.isDirectory p := by
  rw [isDirectory, isDirectory, stat_congr ht h]

/-- Creating a directory fails in both trees in the same way, or both get it at the same place. -/
theorem makeDirectory_congr (ht : t.Regular) (h : AgreeOn (t.passes p) t u) :
    (∃ e, t.makeDirectory p = .error e ∧ u.makeDirectory p = .error e) ∨
      ∃ q, q ≠ [] ∧ t.makeDirectory p = .ok (t.put q .directory) ∧
        u.makeDirectory p = .ok (u.put q .directory) := by
  rw [makeDirectory, makeDirectory, locate_congr ht h]
  cases hq : t.locate false p with
  | error e => exact Or.inl ⟨e, rfl, rfl⟩
  | ok q =>
    obtain ⟨rfl, -, -⟩ := of_locate ht hq
    rw [ok_bind, ok_bind, h.find? _ (placeOf_mem_passes t p)]
    cases hfind : t.find? (t.placeOf p) with
    | some e => exact Or.inl ⟨.exists, rfl, rfl⟩
    | none =>
      right
      refine ⟨t.placeOf p, ?_, rfl, rfl⟩
      intro hroot
      rw [hroot, find?_root] at hfind
      cases hfind

/-- Whether something on the way is missing is the same in both trees. -/
theorem missing_congr (ht : t.Regular) (h : AgreeOn (t.passes p) t u) :
    u.makeDirectory p = .error .notFound ↔ t.makeDirectory p = .error .notFound := by
  rcases makeDirectory_congr ht h with ⟨e, het, heu⟩ | ⟨q, -, hqt, hqu⟩
  · rw [het, heu]
  · rw [hqt, hqu]
    simp

/-- An attempt has the same result in both trees, and they still agree. -/
theorem ensureDirectory_congr {s : Set Place} (ht : t.Regular) (h : AgreeOn s t u)
    (hs : t.passes p ⊆ s) :
    (u.ensureDirectory p).1 = (t.ensureDirectory p).1 ∧
      AgreeOn s (t.ensureDirectory p).2 (u.ensureDirectory p).2 := by
  rcases makeDirectory_congr ht (h.mono hs) with ⟨e, het, heu⟩ | ⟨q, hq, hqt, hqu⟩
  · rw [ensureDirectory_of_error het, ensureDirectory_of_error heu, isDirectory_congr ht (h.mono hs)]
    exact ⟨rfl, h⟩
  · rw [ensureDirectory_of_ok hqt, ensureDirectory_of_ok hqu]
    exact ⟨rfl, h.put hq _⟩

/-! #### Nothing but double dots -/

theorem walkWith_of_dots {follow : Bool} {onLink : Place → List String → Except Errno Place}
    {x : Place} {steps : List String} (h : ∀ m ∈ steps.filter (· ≠ "."), m = "..") :
    t.walkWith follow onLink x steps =
      if t.find? (Place.along x (steps.filter (· ≠ "."))) = some .directory then
        .ok (Place.along x (steps.filter (· ≠ "."))) else .error .notFound := by
  induction steps using steps_induction generalizing x with
  | nil => rfl
  | dot rest ih =>
    rw [moves_dot] at h ⊢
    rw [walkWith_dot]
    exact ih h
  | up rest ih =>
    rw [moves_up] at h ⊢
    rw [walkWith_up, Place.along_up]
    exact ih (List.forall_mem_cons.mp h).2
  | name step rest hdot hup ih =>
    rw [moves_name hdot] at h
    exact absurd (h step List.mem_cons_self) hup

section
variable (hdots : ∀ m ∈ p.moves, m = "..") (htext : p.text ≠ "")
include hdots htext

theorem locate_of_dots (follow : Bool) :
    t.locate follow p =
      if t.find? (t.placeOf p) = some .directory then .ok (t.placeOf p) else .error .notFound := by
  rw [locate, if_neg (by simpa using htext)]
  exact walkWith_of_dots hdots

/-- What double dots lead to cannot be created. -/
theorem makeDirectory_of_dots :
    t.makeDirectory p =
      .error (if t.find? (t.placeOf p) = some .directory then .exists else .notFound) := by
  rw [makeDirectory, locate_of_dots hdots htext]
  by_cases hdir : t.find? (t.placeOf p) = some .directory
  · rw [if_pos hdir, if_pos hdir, ok_bind, hdir]
    rfl
  · rw [if_neg hdir, if_neg hdir]
    rfl

/-- If something is missing, that is because there is no directory where they lead to. -/
theorem find?_ne_of_dots (h : t.makeDirectory p = .error .notFound) :
    t.find? (t.placeOf p) ≠ some .directory := by
  intro hdir
  rw [makeDirectory_of_dots hdots htext, if_pos hdir] at h
  cases h

theorem isDirectory_of_dots : t.isDirectory p = true ↔ t.find? (t.placeOf p) = some .directory := by
  rw [isDirectory, stat, locate_of_dots hdots htext]
  by_cases hdir : t.find? (t.placeOf p) = some .directory
  · rw [if_pos hdir, ok_bind, hdir]
    exact iff_of_true rfl rfl
  · rw [if_neg hdir]
    exact iff_of_false Bool.false_ne_true hdir

theorem ensureDirectory_of_dots :
    t.ensureDirectory p =
      (if t.find? (t.placeOf p) = some .directory then .ok () else .error .notFound, t) := by
  have hsettled := isDirectory_of_dots (t := t) hdots htext
  rw [ensureDirectory_of_error (makeDirectory_of_dots hdots htext)]
  by_cases hdir : t.find? (t.placeOf p) = some .directory
  · rw [if_pos (hsettled.mpr hdir), if_pos hdir]
  · rw [if_neg (mt hsettled.mp hdir), if_neg hdir, if_neg hdir]

end

theorem dots_parent {parent : Path} (h : p.parent? = some parent)
    (hdots : ∀ m ∈ p.moves, m = "..") : ∀ m ∈ parent.moves, m = ".." := by
  rcases Path.parent?_cases h with hempty | ⟨-, move, hmoves⟩
  · rw [Path.moves_of_empty hempty]
    exact List.forall_mem_nil _
  · rw [hmoves] at hdots
    exact fun m hm => hdots m (List.mem_append_left _ hm)

/-- Along double dots nothing is created, and that succeeds if they lead to a directory. -/
theorem makeDirectories_of_dots (fuel : Nat) (hdots : ∀ m ∈ p.moves, m = "..")
    (htext : p.text ≠ "") :
    makeDirectories fuel t p =
      (if t.find? (t.placeOf p) = some .directory then .ok () else .error .notFound, t) := by
  induction fuel, p using makeDirectories_induction t with
  | empty _ p hempty => exact absurd hempty htext
  | here _ p _ _ => exact ensureDirectory_of_dots hdots htext
  | orphan _ p _ hmissing _ => rw [if_neg (find?_ne_of_dots hdots htext hmissing)]
  | child fuel p parent _ hmissing hparent ih =>
    -- the parent may be there, but that does not help
    have hagain := ensureDirectory_of_dots (t := t) hdots htext
    rw [if_neg (find?_ne_of_dots hdots htext hmissing)] at hagain ⊢
    by_cases hempty : parent.text = ""
    · rw [makeDirectories_of_empty fuel t hempty]
      exact hagain
    · rw [ih (dots_parent hparent hdots) hempty]
      split
      · exact hagain
      · rfl

/-- Creating directories in trees that agree where the path passes: it has the same result, and the
trees still agree. -/
theorem makeDirectories_congr (fuel : Nat) {s : Set Place} (ht : t.Regular) (h : AgreeOn s t u)
    (hs : p.text ≠ "" → t.passes p ⊆ s) :
    (makeDirectories fuel u p).1 = (makeDirectories fuel t p).1 ∧
      AgreeOn s (makeDirectories fuel t p).2 (makeDirectories fuel u p).2 := by
  induction fuel, p using makeDirectories_induction t with
  | empty _ p hempty =>
    rw [makeDirectories_of_empty _ u hempty]
    exact ⟨rfl, h⟩
  | here _ p htext hthere =>
    rw [makeDirectories_of_ne htext (mt (missing_congr ht (h.mono (hs htext))).mp hthere)]
    exact ensureDirectory_congr ht h (hs htext)
  | orphan _ p htext hmissing horphan =>
    rw [makeDirectories_orphan htext ((missing_congr ht (h.mono (hs htext))).mpr hmissing) horphan]
    exact ⟨rfl, h⟩
  | child fuel p parent htext hmissing hparent ih =>
    have hs := hs htext
    have hmissing' := (missing_congr ht (h.mono hs)).mpr hmissing
    by_cases hdots : ∀ m ∈ p.moves, m = ".."
    · rw [← makeDirectories_child htext hmissing hparent, makeDirectories_of_dots _ hdots htext,
        makeDirectories_of_dots _ hdots htext, placeOf_congr h.here,
        h.find? _ (hs (placeOf_mem_passes t p))]
      exact ⟨rfl, h⟩
    -- with a name in it, a path passes all that its parent does
    obtain ⟨hresult, hagree⟩ := ih fun hne => (passes_parent hparent hne hdots t).trans hs
    have hedit := (of_makeDirectories fuel ht parent).1
    rw [makeDirectories_child htext hmissing' hparent]
    rcases hrun : makeDirectories fuel t parent with ⟨r, t₁⟩
    rcases hrun' : makeDirectories fuel u parent with ⟨r', u₁⟩
    rw [hrun, hrun'] at hresult hagree
    rw [hrun] at hedit
    obtain rfl : r' = r := hresult
    cases r' with
    | error e => exact ⟨rfl, hagree⟩
    | ok =>
      refine ensureDirectory_congr hedit.regular hagree ?_
      rw [passes_congr hedit.here]
      exact hs

theorem createDirectories_congr (ht : t.Regular) (h : AgreeOn (t.passes p) t u) :
    (u.createDirectories p).1 = (t.createDirectories p).1 :=
  (makeDirectories_congr _ ht h fun _ => subset_rfl).1

end

/-! ### Apart from one directory -/

/-- A path can be followed, apart from what is at a name in a directory or below: everything else
on its way and at its end is a directory. -/
structure EntersBut (t : FileTree) (front : Place) (name : String) (p : Path) : Prop where
  above : t.find? front = some .directory
  way : ∀ x ∈ t.way p, x ∈ below (front ++ [name]) ∨ t.find? x = some .directory
  last : t.placeOf p ∈ below (front ++ [name]) ∨ t.find? (t.placeOf p) = some .directory

section
variable {t u : FileTree} {front : Place} {name : String} {p : Path}

theorem EntersBut.directory (h : t.EntersBut front name p) (ht : t.Regular) {x : Place}
    (hx : x ∈ t.passes p) (hout : x ∉ below (front ++ [name])) :
    t.find? x = some .directory := by
  rcases Place.isPrefix_of_mem_seen hx with rfl | ⟨y, hy, hxy⟩
  · exact h.last.resolve_left hout
  -- what is above a directory is one, and what is above the name is above its directory
  rcases h.way y hy with hbelow | hdir
  · rcases List.prefix_or_prefix_of_prefix hxy hbelow with hup | hdown
    · rcases List.prefix_concat_iff.mp hup with heq | hup
      · rw [heq] at hout
        exact absurd List.prefix_rfl hout
      by_cases heq : x = front
      · rw [heq]
        exact h.above
      · exact ht.directory_of_isPrefix hup heq h.above
    · exact absurd hdown hout
  · by_cases heq : x = y
    · rw [heq]
      exact hdir
    · exact ht.directory_of_isPrefix hxy heq hdir

/-- The path can still be followed where the directories are still there. -/
theorem EntersBut.mono (h : t.EntersBut front name p) (hhere : u.here = t.here)
    (hdir : ∀ x ∉ below (front ++ [name]), t.find? x = some .directory →
      u.find? x = some .directory) : u.EntersBut front name p := by
  have hkept {x : Place} (hx : x ∈ below (front ++ [name]) ∨ t.find? x = some .directory) :
      x ∈ below (front ++ [name]) ∨ u.find? x = some .directory := by
    by_cases hmem : x ∈ below (front ++ [name])
    · exact Or.inl hmem
    · exact Or.inr (hdir x hmem (hx.resolve_left hmem))
  constructor
  case above => exact hdir front (not_mem_below_self front name) h.above
  case way =>
    rw [way_congr hhere]
    exact fun x hx => hkept (h.way x hx)
  case last =>
    rw [placeOf_congr hhere]
    exact hkept h.last

/-- Trees agree along a path that can be followed in both, if they agree at the name and below. -/
theorem EntersBut.agreeOn (h : t.EntersBut front name p) (h' : u.EntersBut front name p)
    (ht : t.Regular) (hu : u.Regular) (hhere : u.here = t.here)
    (hbelow : ∀ x ∈ below (front ++ [name]), u.find? x = t.find? x) :
    AgreeOn (t.passes p) t u := by
  refine ⟨hhere, fun x hx => ?_⟩
  by_cases hmem : x ∈ below (front ++ [name])
  · exact hbelow x hmem
  · rw [h.directory ht hx hmem]
    rw [← passes_congr hhere] at hx
    exact h'.directory hu hx hmem

end

/-! ### Directories that are there -/

/-- Where everything on the way is a directory, a walk gets to its end. -/
theorem walkWith_of_directories {t : FileTree} (ht : t.Regular) {follow : Bool}
    {onLink : Place → List String → Except Errno Place} {x : Place} {steps : List String}
    (hway : ∀ y ∈ Place.trail x (steps.filter (· ≠ ".")), t.find? y = some .directory)
    (hend : t.find? (Place.along x (steps.filter (· ≠ "."))) = some .directory) :
    t.walkWith follow onLink x steps = .ok (Place.along x (steps.filter (· ≠ "."))) := by
  induction steps using steps_induction generalizing x with
  | nil => exact if_pos hend
  | dot rest ih =>
    rw [moves_dot] at hway hend ⊢
    rw [walkWith_dot]
    exact ih hway hend
  | up rest ih =>
    rw [moves_up, Place.along_up] at hend ⊢
    rw [moves_up, Place.trail_up] at hway
    rw [walkWith_up]
    exact ih hway hend
  | name step rest hdot hup ih =>
    rw [moves_name hdot, Place.along_name hup] at hend ⊢
    rw [moves_name hdot, Place.trail_name hup, List.forall_mem_cons] at hway
    rw [walkWith_name ht hdot hup, if_pos hway.1]
    exact ih hway.2 hend

/-- A directory that can be entered need not be created. -/
theorem createDirectories_of_enters {t : FileTree} (ht : t.Regular) {p : Path} (h : t.Enters p)
    (hp : p.moves ≠ []) : t.createDirectories p = (.ok (), t) := by
  have htext : p.text ≠ "" := mt Path.moves_of_empty hp
  have hlocate (follow : Bool) : t.locate follow p = .ok (t.placeOf p) := by
    rw [locate, if_neg (by simpa using htext)]
    exact walkWith_of_directories ht h.1 h.2
  have hmake : t.makeDirectory p = .error .exists := by
    rw [makeDirectory, hlocate, ok_bind, h.2]
    rfl
  have hdir : t.isDirectory p = true := by
    rw [isDirectory, stat, hlocate, ok_bind, h.2]
    rfl
  rw [createDirectories, makeDirectories_of_ne htext (by rw [hmake]; simp),
    ensureDirectory_of_error hmake, if_pos hdir]

/-! ### Reading the same -/

theorem find?_directory_of_held {t u : FileTree} {q : Place} (h : u.held q = t.held q)
    (hq : t.find? q = some .directory) : u.find? q = some .directory := by
  rw [held_of_find? hq, held, Option.map_eq_some_iff] at h
  obtain ⟨e, he, hplain⟩ := h
  cases e with
  | directory => exact he
  | file contents executable => cases hplain
  | link target => cases hplain

theorem find?_file_of_held {t u : FileTree} {q : Place} (h : u.held q = t.held q)
    {contents : ByteArray} {executable : Bool} (hq : t.find? q = some (.file contents executable)) :
    ∃ executable', u.find? q = some (.file contents executable') := by
  rw [held_of_find? hq, held, Option.map_eq_some_iff] at h
  obtain ⟨e, he, hplain⟩ := h
  cases e with
  | file contents' executable' =>
    obtain ⟨rfl, -⟩ := Entry.file.inj hplain
    exact ⟨executable', he⟩
  | directory => cases hplain
  | link target => cases hplain

/-- A tree that holds the same everywhere. -/
structure SameAs (t u : FileTree) : Prop where
  regular : u.Regular
  here : u.here = t.here
  held : ∀ q, u.held q = t.held q

theorem SameAs.trans {t u v : FileTree} (h : SameAs t u) (h' : SameAs u v) : SameAs t v :=
  ⟨h'.regular, h'.here.trans h.here, fun q => (h'.held q).trans (h.held q)⟩

theorem SameAs.enters {t u : FileTree} (h : SameAs t u) {p : Path} (hp : t.Enters p) :
    u.Enters p :=
  hp.mono h.here (fun x _ => find?_directory_of_held (h.held x))
    (find?_directory_of_held (h.held _))

/-- Replacing a file by what it is changes nothing. -/
theorem replaceFile_again {t : FileTree} (ht : t.Regular) {name : String} (hn : IsEntryName name)
    {p : Path} (hp : t.Enters p) {contents : ByteArray}
    (hfile : t.held (t.placeOf p ++ [name]) = some (.file contents false))
    (hfree : t.held (t.placeOf p ++ [temporary name]) = none) :
    ∃ t', t.replaceFile (p.child name) contents = (.ok (), t') ∧ SameAs t t' := by
  have hdir : t.find? (t.placeOf p ++ [name]) ≠ some .directory := by
    intro hdir
    rw [held_of_find? hdir] at hfile
    cases hfile
  obtain ⟨t', hreplace, hedit, hself, hkept⟩ := replaceFile_over ht hn p contents hp hfree hdir
  refine ⟨t', hreplace, hedit.regular, hedit.here, fun x => ?_⟩
  by_cases hx : x = t.placeOf p ++ [name]
  · rw [hx, hself, hfile]
  · exact hkept x hx

section
variable {t u : FileTree} (ht : t.Regular) (hu : u.Regular)
include ht hu

/-- A walk that finds something finds it in every tree with the same kinds on the way. -/
theorem walkWith_of_held {follow : Bool} {onLink onLink' : Place → List String → Except Errno Place}
    {x q : Place} {steps : List String} {e : Entry}
    (h : t.walkWith follow onLink x steps = .ok q) (hq : t.find? q = some e)
    (hway : ∀ y ∈ Place.trail x (steps.filter (· ≠ ".")), u.held y = t.held y)
    (hend : u.held q = t.held q) : u.walkWith follow onLink' x steps = .ok q := by
  induction steps using steps_induction generalizing x with
  | nil =>
    rw [walkWith] at h ⊢
    split at h
    · rename_i hx
      obtain rfl := Except.ok.inj h
      rw [if_pos (find?_directory_of_held hend hx)]
    · cases h
  | dot rest ih =>
    rw [walkWith_dot] at h ⊢
    rw [moves_dot] at hway
    exact ih h hway
  | up rest ih =>
    rw [walkWith_up] at h ⊢
    rw [moves_up, Place.trail_up] at hway
    exact ih h hway
  | name step rest hdot hup ih =>
    rw [moves_name hdot, Place.trail_name hup, List.forall_mem_cons] at hway
    rw [walkWith_name ht hdot hup] at h
    rw [walkWith_name hu hdot hup]
    split at h
    · rename_i hdir
      rw [if_pos (find?_directory_of_held hway.1 hdir)]
      exact ih h hway.2
    split at h
    · rename_i hdir hlast
      obtain rfl := Except.ok.inj h
      -- what is there in the one tree is there in the other one, with a directory above it
      have hdir' : ¬u.find? (x ++ [step]) = some .directory := fun hdir' =>
        hdir (find?_directory_of_held hend.symm hdir')
      obtain ⟨e', hfound⟩ : ∃ e', u.find? (x ++ [step]) = some e' := by
        rw [← Option.ne_none_iff_exists', ne_eq, ← held_eq_none_iff, hend, held_eq_none_iff, hq]
        exact Option.some_ne_none e
      rw [if_neg hdir', if_pos ⟨hu.directory_of_isSome hfound, hlast.2⟩]
    · cases h

variable (hhere : u.here = t.here) {p : Path} (hway : ∀ y ∈ t.trailOf p, u.held y = t.held y)
  (hend : u.held (t.placeOf p) = t.held (t.placeOf p))
include hhere hway hend

/-- What a path names in one tree it names in every tree with the same kinds on the way and the
same at the end. -/
theorem stat_of_held {e : Entry} (h : t.stat p = .ok e) :
    ∃ e', u.stat p = .ok e' ∧ e'.plain = e.plain := by
  obtain ⟨hlocate, hfind⟩ := of_stat ht h
  have hlocate' : u.locate true p = .ok (t.placeOf p) := by
    rw [locate] at hlocate ⊢
    split at hlocate
    · cases hlocate
    · rename_i htext
      rw [if_neg htext, hhere]
      exact walkWith_of_held ht hu hlocate hfind hway hend
  obtain ⟨e', hfind', hplain⟩ : ∃ e', u.find? (t.placeOf p) = some e' ∧ e'.plain = e.plain := by
    rw [held_of_find? hfind] at hend
    exact Option.map_eq_some_iff.mp hend
  refine ⟨e', ?_, hplain⟩
  rw [stat, hlocate, ok_bind, hfind] at h
  rw [stat, hlocate', ok_bind, hfind']
  cases e with
  | file contents executable =>
    cases e' with
    | file contents' executable' =>
      simp only at h ⊢
      split at h
      · exact absurd h throw_ne_ok
      · rename_i hslash
        rw [if_neg hslash]
        rfl
    | directory => cases hplain
    | link target => cases hplain
  | directory =>
    cases e' with
    | directory => rfl
    | file contents' executable' => cases hplain
    | link target => cases hplain
  | link target => exact absurd hfind (ht.linkless _ target)

end

section
variable {t u : FileTree} (ht : t.Regular) (hu : u.Regular) (hhere : u.here = t.here) {p : Path}
  (hway : ∀ y ∈ t.trailOf p, u.held y = t.held y)
  (hend : u.held (t.placeOf p) = t.held (t.placeOf p))
include ht hu hhere hway hend

theorem exists?_of_held : u.exists? p = t.exists? p := by
  have hforth {e : Entry} (h : t.stat p = .ok e) := stat_of_held ht hu hhere hway hend h
  have hback {e : Entry} (h : u.stat p = .ok e) : ∃ e', t.stat p = .ok e' ∧ e'.plain = e.plain := by
    apply stat_of_held hu ht hhere.symm
    · rw [trailOf_congr hhere]
      exact fun y hy => (hway y hy).symm
    · rw [placeOf_congr hhere]
      exact hend.symm
    · exact h
  rw [exists?, exists?]
  cases htstat : t.stat p with
  | ok e =>
    obtain ⟨e', hustat, -⟩ := hforth htstat
    rw [hustat]
  | error e =>
    cases hustat : u.stat p with
    | error e' => rfl
    | ok e' =>
      obtain ⟨e'', htstat', -⟩ := hback hustat
      rw [htstat] at htstat'
      cases htstat'

/-- A file that is there is read with the same result. -/
theorem fileBytes_of_held (hthere : t.exists? p = true) : u.fileBytes p = t.fileBytes p := by
  rw [exists?] at hthere
  split at hthere
  · rename_i e hstat
    obtain ⟨e', hstat', hplain⟩ := stat_of_held ht hu hhere hway hend hstat
    rw [fileBytes, fileBytes, hstat, hstat', ok_bind, ok_bind]
    cases e <;> cases e' <;> simp_all [Entry.plain]
  · cases hthere

end

end FileTree

end TokenSheets
