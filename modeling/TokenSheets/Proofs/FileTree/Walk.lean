/-
TokenSheets/Proofs/FileTree/Walk.lean

Walks in a tree with links.

A walk uses only the directories and the links on its way.  So in a tree that
has the same directories and links (`KeepsWays`) it leads to the same place
(`walk_of_keepsWays`), and a walk to another name in the directory where it ends
leads there as well (`exists_front`).  The proofs are inductions over the steps
of a walk, which start anew behind a link with one link less to follow
(`walk_induction`); at a name they go by what is found there (`Proceeds`).
-/
import TokenSheets.Proofs.FileTree.Operations

namespace TokenSheets

namespace FileTree

/-! ### Steps of a walk -/

section Steps

variable {t u : FileTree} {follow : Bool} {links : Nat} {x w : Place} {rest : List String}

/-- How a walk goes on behind a link. -/
def beyond (t : FileTree) (follow : Bool) : Nat → Place → List String → Except Errno Place
  | 0 => fun _ _ => .error .tooManyLinks
  | links + 1 => t.walk follow links

theorem walk_eq (t : FileTree) (follow : Bool) (links : Nat) :
    t.walk follow links = t.walkWith follow (t.beyond follow links) := by
  cases links with
  | zero => rfl
  | succ links => rfl

theorem beyond_eq_ok {steps : List String} :
    t.beyond follow links x steps = .ok w ↔
      ∃ k, links = k + 1 ∧ t.walk follow k x steps = .ok w := by
  cases links with
  | zero => simp [beyond]
  | succ links => simp [beyond]

theorem walk_dot : t.walk follow links x ("." :: rest) = t.walk follow links x rest := by
  rw [walk_eq, walkWith_dot]

theorem walk_up : t.walk follow links x (".." :: rest) = t.walk follow links x.dropLast rest := by
  rw [walk_eq, walkWith_up]

/-- The directory that the target of a link is looked up from. -/
def base (x : Place) (target : Path) : Place := if target.isAbsolute then [] else x

section Name

variable {name : String} (hdot : name ≠ ".") (hup : name ≠ "..")
include hdot hup

/-- A step to a name that is not the last one. -/
theorem walk_name (hrest : rest ≠ []) :
    t.walk follow links x (name :: rest) =
      if t.find? x = some .directory then
        match t.find? (x ++ [name]) with
        | none => .error .notFound
        | some .directory => t.walk follow links (x ++ [name]) rest
        | some (.file _ _) => .error .notDirectory
        | some (.link target) => t.beyond follow links (base x target) (target.steps ++ rest)
      else .error .notFound := by
  have hempty : rest.isEmpty = false := by simpa using hrest
  rw [walk_eq, walkWith, if_neg hdot, if_neg hup]
  by_cases hx : t.find? x = some .directory
  · rw [if_neg (not_not.mpr hx), if_pos hx]
    simp only [hempty, Bool.false_and, Bool.false_eq_true, if_false]
    rfl
  · rw [if_pos hx, if_neg hx]

theorem find?_of_walk_name (h : t.walk follow links x (name :: rest) = .ok w) :
    t.find? x = some .directory := by
  by_contra hx
  rw [walk_eq, walkWith, if_neg hdot, if_neg hup, if_pos hx] at h
  cases h

variable (hx : t.find? x = some .directory)
include hx

/-- A step into a directory. -/
theorem walk_enter (hnext : t.find? (x ++ [name]) = some .directory) :
    t.walk follow links x (name :: rest) = t.walk follow links (x ++ [name]) rest := by
  rw [walk_eq, walkWith, if_neg hdot, if_neg hup, if_neg (not_not.mpr hx)]
  simp only [hnext]

/-- A step to a link, unless it is the last one and links are not followed. -/
theorem walk_link {target : Path} (hnext : t.find? (x ++ [name]) = some (.link target))
    (hfollow : rest ≠ [] ∨ follow = true) :
    t.walk follow links x (name :: rest) =
      t.beyond follow links (base x target) (target.steps ++ rest) := by
  have hlast : ¬(rest.isEmpty && !follow) = true := by simpa [imp_iff_not_or] using hfollow
  rw [walk_eq, walkWith, if_neg hdot, if_neg hup, if_neg (not_not.mpr hx)]
  simp only [hnext]
  rw [if_neg hlast]
  rfl

/-- The last step to a name. -/
theorem walk_last (hlink : follow = false ∨ ∀ target, t.find? (x ++ [name]) ≠ some (.link target)) :
    t.walk follow links x [name] = .ok (x ++ [name]) := by
  rw [walk_eq, walkWith, if_neg hdot, if_neg hup, if_neg (not_not.mpr hx)]
  simp only
  cases hfound : t.find? (x ++ [name]) with
  | none => rfl
  | some e =>
    cases e with
    | file contents executable => rfl
    | directory => rw [walkWith, if_pos hfound]
    | link target =>
      rcases hlink with rfl | hlink
      · rfl
      · exact absurd hfound (hlink target)

end Name

/-- How a walk to `w` goes on with a name: it ends there, it enters a directory, or it follows a
link. -/
inductive Proceeds (t : FileTree) (follow : Bool) (links : Nat) (x : Place) (name : String)
    (rest : List String) (w : Place) : Prop where
  | ends (hrest : rest = []) (hw : x ++ [name] = w)
      (hlink : follow = false ∨ ∀ target, t.find? w ≠ some (.link target))
  | enters (hrest : rest ≠ []) (hnext : t.find? (x ++ [name]) = some .directory)
      (h : t.walk follow links (x ++ [name]) rest = .ok w)
  | follows {k : Nat} {target : Path} (hlinks : links = k + 1)
      (hnext : t.find? (x ++ [name]) = some (.link target))
      (h : t.walk follow k (base x target) (target.steps ++ rest) = .ok w)

/-- These are all the ways in which a walk succeeds. -/
theorem proceeds_of_walk {name : String} (hdot : name ≠ ".") (hup : name ≠ "..")
    (h : t.walk follow links x (name :: rest) = .ok w) :
    Proceeds t follow links x name rest w := by
  have hx := find?_of_walk_name hdot hup h
  by_cases hrest : rest = []
  · subst hrest
    by_cases hlink : follow = false ∨ ∀ target, t.find? (x ++ [name]) ≠ some (.link target)
    · rw [walk_last hdot hup hx hlink] at h
      obtain rfl := Except.ok.inj h
      exact .ends rfl rfl hlink
    · push Not at hlink
      obtain ⟨hfollow, target, hnext⟩ := hlink
      rw [walk_link hdot hup hx hnext (.inr (by simpa using hfollow)), beyond_eq_ok] at h
      obtain ⟨k, hk, h⟩ := h
      exact .follows hk hnext h
  · rw [walk_name hdot hup hrest, if_pos hx] at h
    split at h
    · cases h
    · rename_i hnext
      exact .enters hrest hnext h
    · cases h
    · rename_i target hnext
      obtain ⟨k, hk, h⟩ := beyond_eq_ok.mp h
      exact .follows hk hnext h

theorem walk_nil_eq_ok (h : t.walk follow links x [] = .ok w) :
    x = w ∧ t.find? w = some .directory := by
  rw [walk_eq, walkWith] at h
  split at h
  · rename_i hx
    obtain rfl := Except.ok.inj h
    exact ⟨rfl, hx⟩
  · cases h

/-- Induction along a walk: over the steps, and behind a link over the links that may still be
followed. -/
theorem walk_induction {motive : Nat → Place → List String → Prop}
    (nil : ∀ links x, motive links x [])
    (dot : ∀ links x rest, motive links x rest → motive links x ("." :: rest))
    (up : ∀ links x rest, motive links x.dropLast rest → motive links x (".." :: rest))
    (name : ∀ links x name rest, name ≠ "." → name ≠ ".." → (∀ y, motive links y rest) →
      (∀ k, links = k + 1 → ∀ y steps, motive k y steps) → motive links x (name :: rest))
    (links : Nat) (x : Place) (steps : List String) : motive links x steps := by
  have hsteps (links : Nat) (hlinks : ∀ k, links = k + 1 → ∀ y steps, motive k y steps) :
      ∀ x steps, motive links x steps := by
    intro x steps
    induction steps using steps_induction generalizing x with
    | nil => exact nil links x
    | dot rest ih => exact dot links x rest (ih x)
    | up rest ih => exact up links x rest (ih _)
    | name step rest hdot hup ih => exact name links x step rest hdot hup ih hlinks
  induction links generalizing x steps with
  | zero => exact hsteps 0 (fun k hk => absurd hk k.succ_ne_zero.symm) x steps
  | succ links ih => exact hsteps (links + 1) (fun k hk => Nat.succ.inj hk ▸ ih) x steps

/-- A walk that ends in a dot ends in a directory. -/
theorem find?_of_walk_dot {steps : List String} (hlast : steps.getLast? = some ".")
    (h : t.walk follow links x steps = .ok w) : t.find? w = some .directory := by
  induction links, x, steps using walk_induction with
  | nil => cases hlast
  | dot links x rest ih =>
    rw [walk_dot] at h
    by_cases hrest : rest = []
    · subst hrest
      exact (walk_nil_eq_ok h).2
    · exact ih (by rwa [List.getLast?_cons_of_ne_nil hrest] at hlast) h
  | up links x rest ih =>
    rw [walk_up] at h
    by_cases hrest : rest = []
    · subst hrest
      exact absurd hlast (by decide)
    · exact ih (by rwa [List.getLast?_cons_of_ne_nil hrest] at hlast) h
  | name links x name rest hdot hup ih hlinks =>
    have hrest : rest ≠ [] := by
      rintro rfl
      exact hdot (Option.some.inj hlast)
    rw [List.getLast?_cons_of_ne_nil hrest] at hlast
    cases proceeds_of_walk hdot hup h with
    | ends hnil => exact absurd hnil hrest
    | enters _ _ h => exact ih _ hlast h
    | follows hk _ h =>
      exact hlinks _ hk _ _ (by rwa [List.getLast?_append_of_ne_nil _ hrest]) h

/-- No link is at the end of a walk that follows it. -/
theorem find?_ne_link_of_walk {steps : List String} (h : t.walk true links x steps = .ok w)
    (target : Path) : t.find? w ≠ some (.link target) := by
  induction links, x, steps using walk_induction with
  | nil links x =>
    rw [(walk_nil_eq_ok h).2]
    nofun
  | dot links x rest ih =>
    rw [walk_dot] at h
    exact ih h
  | up links x rest ih =>
    rw [walk_up] at h
    exact ih h
  | name links x name rest hdot hup ih hlinks =>
    cases proceeds_of_walk hdot hup h with
    | ends _ _ hlink => exact hlink.resolve_left (by simp) target
    | enters _ _ h => exact ih _ h
    | follows hk _ h => exact hlinks _ hk _ _ h

/-- Dots on the way to a name do not matter. -/
theorem walk_filter (other : String) (front : List String) :
    t.walk follow links x (front ++ [other]) =
      t.walk follow links x (front.filter (· ≠ ".") ++ [other]) := by
  induction links, x, front using walk_induction with
  | nil => rfl
  | dot links x rest ih =>
    rw [List.filter_cons_of_neg (by simp), List.cons_append, walk_dot]
    exact ih
  | up links x rest ih =>
    rw [List.filter_cons_of_pos (by decide), List.cons_append, List.cons_append, walk_up, walk_up]
    exact ih
  | name links x name rest hdot hup ih hlinks =>
    rw [List.filter_cons_of_pos (by simpa using hdot), List.cons_append, List.cons_append,
      walk_name hdot hup (by simp), walk_name hdot hup (by simp), ih]
    have hlink (target : Path) :
        t.beyond follow links (base x target) (target.steps ++ (rest ++ [other])) =
          t.beyond follow links (base x target)
            (target.steps ++ (rest.filter (· ≠ ".") ++ [other])) := by
      cases links with
      | zero => rfl
      | succ links =>
        rw [beyond, ← List.append_assoc, ← List.append_assoc, hlinks links rfl,
          hlinks links rfl _ (_ ++ rest.filter _), List.filter_append, List.filter_append,
          List.filter_filter]
        simp
    simp only [hlink]

end Steps

/-! ### The way to a name -/

/-- What is passed on a way: directories and links. -/
def isWay : Option Entry → Bool
  | some .directory => true
  | some (.link _) => true
  | _ => false

/-- A tree with all the directories and links of another one. -/
def KeepsWays (t u : FileTree) : Prop := ∀ y, isWay (t.find? y) = true → u.find? y = t.find? y

theorem KeepsWays.find? {t u : FileTree} (h : t.KeepsWays u) {y : Place} {e : Entry}
    (hy : t.find? y = some e) (hway : isWay (some e) = true) : u.find? y = some e := by
  rw [h y (by rwa [hy]), hy]

theorem keepsWays_refl (t : FileTree) : t.KeepsWays t := fun _ _ => rfl

theorem keepsWays_put {t : FileTree} {place : Place} (h : isWay (t.find? place) = false)
    (e : Entry) : t.KeepsWays (t.put place e) := by
  intro y hy
  refine find?_put_of_ne t ?_ e
  rintro rfl
  rw [h] at hy
  cases hy

/-- A walk leads to the same place in a tree with the same ways, unless a link is there then. -/
theorem walk_of_keepsWays {t u : FileTree} (hways : t.KeepsWays u) {follow : Bool} {links : Nat}
    {x w : Place} {steps : List String} (h : t.walk follow links x steps = .ok w)
    (hw : ∀ target, u.find? w ≠ some (.link target)) : u.walk true links x steps = .ok w := by
  induction links, x, steps using walk_induction with
  | nil links x =>
    obtain ⟨rfl, hx⟩ := walk_nil_eq_ok h
    rw [walk_eq, walkWith, if_pos (hways.find? hx rfl)]
  | dot links x rest ih =>
    rw [walk_dot] at h ⊢
    exact ih h
  | up links x rest ih =>
    rw [walk_up] at h ⊢
    exact ih h
  | name links x name rest hdot hup ih hlinks =>
    have hx := hways.find? (find?_of_walk_name hdot hup h) rfl
    cases proceeds_of_walk hdot hup h with
    | ends hrest hend =>
      subst hrest hend
      exact walk_last hdot hup hx (.inr hw)
    | enters _ hnext h =>
      rw [walk_enter hdot hup hx (hways.find? hnext rfl)]
      exact ih _ h
    | follows hk hnext hthere =>
      subst hk
      rw [walk_link hdot hup hx (hways.find? hnext rfl) (.inr rfl)]
      exact hlinks _ rfl _ _ hthere

theorem find?_ne_link_of_locate {t : FileTree} {p : Path} {w : Place}
    (h : t.locate true p = .ok w) (target : Path) : t.find? w ≠ some (.link target) := by
  rw [locate] at h
  split at h
  · cases h
  · exact find?_ne_link_of_walk h target

theorem locate_of_keepsWays {t u : FileTree} (hways : t.KeepsWays u) (hhere : u.here = t.here)
    {follow : Bool} {p : Path} {w : Place} (h : t.locate follow p = .ok w)
    (hw : ∀ target, u.find? w ≠ some (.link target)) : u.locate true p = .ok w := by
  rw [locate] at h ⊢
  split at h
  · cases h
  · rename_i htext
    rw [if_neg htext, hhere]
    exact walk_of_keepsWays hways h hw

/-- A walk to a name arrives in a directory, from where any name is one step away, also in a tree
that has been changed elsewhere. -/
theorem exists_front {t : FileTree} {follow : Bool} {links : Nat} {x w : Place}
    {front : List String} {last : String} (hn : IsEntryName last)
    (h : t.walk follow links x (front ++ [last]) = .ok w) :
    ∃ d left, t.find? d = some .directory ∧
      ∀ u, t.KeepsWays u → ∀ follow' other, IsEntryName other →
        u.walk follow' links x (front ++ [other]) = u.walk follow' left d [other] := by
  induction links, x, front using walk_induction with
  | nil links x =>
    exact ⟨x, links, find?_of_walk_name hn.2.1 hn.2.2.1 h, fun u _ follow' other _ => rfl⟩
  | dot links x rest ih =>
    rw [List.cons_append, walk_dot] at h
    obtain ⟨d, left, hd, hu⟩ := ih h
    refine ⟨d, left, hd, fun u hways follow' other hother => ?_⟩
    rw [List.cons_append, walk_dot, hu u hways follow' other hother]
  | up links x rest ih =>
    rw [List.cons_append, walk_up] at h
    obtain ⟨d, left, hd, hu⟩ := ih h
    refine ⟨d, left, hd, fun u hways follow' other hother => ?_⟩
    rw [List.cons_append, walk_up, hu u hways follow' other hother]
  | name links x name rest hdot hup ih hlinks =>
    rw [List.cons_append] at h
    have hx := find?_of_walk_name hdot hup h
    -- the entry decides how the walk goes on, and it is the same in the other tree
    cases proceeds_of_walk hdot hup h with
    | ends hrest => exact absurd hrest (by simp)
    | enters _ hnext h =>
      obtain ⟨d, left, hd, hu⟩ := ih _ h
      refine ⟨d, left, hd, fun u hways follow' other hother => ?_⟩
      rw [List.cons_append, walk_enter hdot hup (hways.find? hx rfl) (hways.find? hnext rfl)]
      exact hu u hways follow' other hother
    | follows hk hnext hthere =>
      subst hk
      rw [← List.append_assoc] at hthere
      obtain ⟨d, left, hd, hu⟩ := hlinks _ rfl _ _ hthere
      refine ⟨d, left, hd, fun u hways follow' other hother => ?_⟩
      rw [List.cons_append, walk_link hdot hup (hways.find? hx rfl) (hways.find? hnext rfl)
        (.inl (by simp)), beyond, ← List.append_assoc]
      exact hu u hways follow' other hother

end FileTree

end TokenSheets
