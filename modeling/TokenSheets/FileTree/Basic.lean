/-
TokenSheets/FileTree/Basic.lean

A file system as a value.

A tree holds an entry at every place that exists, a place being the names from
the root down to it.  The root is a directory that needs no entry.  Entries are
independent of each other, so that a change at one place is visibly a change at
no other (`find?_put_of_ne`, `find?_erase_of_ne`).  Nothing here fails; what an
operation refuses is the business of `FileTree.Operations`.
-/
import TokenSheets.Path

namespace TokenSheets

/-- Names from the root down. -/
abbrev Place := List String

/-- What is at a place. -/
inductive Entry where
  | file (contents : ByteArray) (executable : Bool)
  | directory
  | link (target : Path)

/-- What tells two entries apart, in types that are compared by their parts. -/
def Entry.key : Entry → Option (Array UInt8 × Bool) × Option Path
  | .file contents executable => (some (contents.data, executable), none)
  | .directory => (none, none)
  | .link target => (none, some target)

theorem Entry.key_inj {a b : Entry} : a.key = b.key ↔ a = b := by
  cases a <;> cases b <;> simp [Entry.key, ByteArray.ext_iff]

instance : DecidableEq Entry := fun _ _ => decidable_of_iff _ Entry.key_inj

def Entry.isFile : Entry → Bool
  | .file _ _ => true
  | _ => false

/-- A file system and the directory that relative paths start from. -/
structure FileTree where
  entries : List (Place × Entry)
  here : Place

namespace FileTree

/-! ### Entries -/

/-- The entry that comes first for a place. -/
def findIn (place : Place) : List (Place × Entry) → Option Entry
  | [] => none
  | (p, e) :: rest => if p = place then some e else findIn place rest

/-- What is at a place. -/
def find? (t : FileTree) (place : Place) : Option Entry :=
  if place = [] then some .directory else findIn place t.entries

/-- Replaces the entry of a place where it stands, or appends it. -/
def putIn (place : Place) (entry : Entry) : List (Place × Entry) → List (Place × Entry)
  | [] => [(place, entry)]
  | (p, e) :: rest =>
    if p = place then (place, entry) :: rest else (p, e) :: putIn place entry rest

/-- The tree with an entry at a place. -/
def put (t : FileTree) (place : Place) (entry : Entry) : FileTree :=
  { t with entries := putIn place entry t.entries }

/-- The tree with nothing at a place. -/
def erase (t : FileTree) (place : Place) : FileTree :=
  { t with entries := t.entries.filter fun e => e.1 ≠ place }

/-- The tree with nothing at a place or below it. -/
def eraseAll (t : FileTree) (place : Place) : FileTree :=
  { t with entries := t.entries.filter fun e => !place.isPrefixOf e.1 }

/-- A named entry before the first one whose name is not smaller. -/
def insertByName (x : String × Entry) : List (String × Entry) → List (String × Entry)
  | [] => [x]
  | y :: ys => if x.1 ≤ y.1 then x :: y :: ys else y :: insertByName x ys

/-- The names in a directory with their entries, sorted by name. -/
def children (t : FileTree) (place : Place) : List (String × Entry) :=
  let found := t.entries.filterMap fun e =>
    match e.1.getLast? with
    | none => none
    | some name => if e.1.dropLast = place then some (name, e.2) else none
  found.foldr insertByName []

theorem mem_insertByName {x y : String × Entry} {ys : List (String × Entry)} :
    x ∈ insertByName y ys ↔ x = y ∨ x ∈ ys := by
  induction ys with
  | nil => simp [insertByName]
  | cons z zs ih =>
    rw [insertByName]
    split
    · simp
    · rw [List.mem_cons, ih, List.mem_cons]
      exact or_left_comm

theorem mem_foldr_insertByName {x : String × Entry} {xs : List (String × Entry)} :
    x ∈ xs.foldr insertByName [] ↔ x ∈ xs := by
  induction xs with
  | nil => rfl
  | cons y ys ih => rw [List.foldr_cons, mem_insertByName, ih, List.mem_cons]

/-! ### Reading back -/

@[simp] theorem find?_root (t : FileTree) : t.find? [] = some .directory := rfl

theorem findIn_putIn_self (place : Place) (entry : Entry) (es : List (Place × Entry)) :
    findIn place (putIn place entry es) = some entry := by
  induction es with
  | nil => simp [putIn, findIn]
  | cons e rest ih =>
    unfold putIn
    split
    · simp [findIn]
    · simp [findIn, *]

theorem findIn_putIn_of_ne {place other : Place} (h : other ≠ place) (entry : Entry)
    (es : List (Place × Entry)) : findIn other (putIn place entry es) = findIn other es := by
  induction es with
  | nil => simp [putIn, findIn, Ne.symm h]
  | cons e rest ih =>
    unfold putIn
    split
    · rename_i hp
      simp [findIn, hp, Ne.symm h]
    · simp [findIn, ih]

theorem findIn_filter_of_keeps {place : Place} (keeps : Place × Entry → Bool)
    (h : ∀ e, keeps (place, e) = true) (es : List (Place × Entry)) :
    findIn place (es.filter keeps) = findIn place es := by
  induction es with
  | nil => rfl
  | cons e rest ih =>
    obtain ⟨p, x⟩ := e
    by_cases hp : p = place
    · subst hp
      simp [findIn, h]
    · by_cases hk : keeps (p, x) = true <;> simp [findIn, hk, hp, ih]

theorem findIn_filter_of_drops {place : Place} (keeps : Place × Entry → Bool)
    (h : ∀ e, keeps (place, e) = false) (es : List (Place × Entry)) :
    findIn place (es.filter keeps) = none := by
  induction es with
  | nil => rfl
  | cons e rest ih =>
    obtain ⟨p, x⟩ := e
    by_cases hp : p = place
    · subst hp
      simp [h, ih]
    · by_cases hk : keeps (p, x) = true <;> simp [findIn, hk, hp, ih]

theorem find?_put_self (t : FileTree) {place : Place} (h : place ≠ []) (entry : Entry) :
    (t.put place entry).find? place = some entry := by
  simp [find?, put, h, findIn_putIn_self]

theorem find?_put_of_ne (t : FileTree) {place other : Place} (h : other ≠ place) (entry : Entry) :
    (t.put place entry).find? other = t.find? other := by
  simp [find?, put, findIn_putIn_of_ne h]

theorem find?_erase_self (t : FileTree) {place : Place} (h : place ≠ []) :
    (t.erase place).find? place = none := by
  simp only [find?, erase, if_neg h]
  exact findIn_filter_of_drops _ (by simp) _

theorem find?_erase_of_ne (t : FileTree) {place other : Place} (h : other ≠ place) :
    (t.erase place).find? other = t.find? other := by
  unfold find? erase
  split
  · rfl
  · exact findIn_filter_of_keeps _ (by simp [h]) _

end FileTree

end TokenSheets
