/-
TokenSheets/Proofs/FileTree/Regular.lean

File trees of regular files and directories.

The entries of a tree are independent of each other, so a tree can be written
down that no disk holds: a file below a file, or a place with two entries.  A
*regular* tree is one that a disk holds and that has no links: no place has two
entries, and everything stands under a proper name in a directory.  What the
operations do to entries keeps a tree regular: putting a file or a directory
under a name in a directory, erasing what is not a directory, and erasing a
directory with all that is below it.
-/
import Mathlib.Data.List.Nodup
import Mathlib.Data.List.Infix
import TokenSheets.Proofs.Path.Steps

namespace TokenSheets

namespace FileTree

/-! ### Entries and their places -/

theorem mem_of_findIn_eq_some {place : Place} {entry : Entry} {es : List (Place × Entry)}
    (h : findIn place es = some entry) : (place, entry) ∈ es := by
  induction es with
  | nil => cases h
  | cons e rest ih =>
    obtain ⟨p, x⟩ := e
    unfold findIn at h
    split at h
    · rename_i hp
      rw [hp, Option.some.inj h]
      exact List.mem_cons_self
    · exact List.mem_cons_of_mem _ (ih h)

theorem findIn_eq_some_of_mem {place : Place} {entry : Entry} {es : List (Place × Entry)}
    (hes : (es.map Prod.fst).Nodup) (h : (place, entry) ∈ es) : findIn place es = some entry := by
  induction es with
  | nil => cases h
  | cons e rest ih =>
    obtain ⟨p, x⟩ := e
    rw [List.map_cons, List.nodup_cons] at hes
    rcases List.mem_cons.mp h with heq | hmem
    · obtain ⟨rfl, rfl⟩ := Prod.mk.inj heq
      simp [findIn]
    · have hne : p ≠ place := by
        rintro rfl
        exact hes.1 (List.mem_map.mpr ⟨_, hmem, rfl⟩)
      rw [findIn, if_neg hne]
      exact ih hes.2 hmem

/-- Replacing the entry of a place keeps the places, and a new one comes last. -/
theorem places_putIn (place : Place) (entry : Entry) (es : List (Place × Entry)) :
    (putIn place entry es).map Prod.fst =
      if place ∈ es.map Prod.fst then es.map Prod.fst else es.map Prod.fst ++ [place] := by
  induction es with
  | nil => rfl
  | cons e rest ih =>
    obtain ⟨p, x⟩ := e
    unfold putIn
    by_cases hp : p = place
    · simp [hp]
    · rw [if_neg hp, List.map_cons, List.map_cons, ih]
      by_cases hmem : place ∈ rest.map Prod.fst
      · rw [if_pos hmem, if_pos (List.mem_cons_of_mem _ hmem)]
      · have hnot : place ∉ p :: rest.map Prod.fst := by
          rw [List.mem_cons, not_or]
          exact ⟨Ne.symm hp, hmem⟩
        rw [if_neg hmem, if_neg hnot]
        rfl

theorem find?_eq_findIn (t : FileTree) {place : Place} (h : place ≠ []) :
    t.find? place = findIn place t.entries := if_neg h

/-- What is at the place or below it is gone. -/
theorem find?_eraseAll_of_isPrefix (t : FileTree) {place other : Place} (h : place <+: other)
    (hne : other ≠ []) : (t.eraseAll place).find? other = none := by
  rw [find?_eq_findIn _ hne]
  refine findIn_filter_of_drops _ (fun e => ?_) _
  simpa using h

theorem find?_eraseAll_of_not_isPrefix (t : FileTree) {place other : Place}
    (h : ¬ place <+: other) : (t.eraseAll place).find? other = t.find? other := by
  unfold find? eraseAll
  split
  · rfl
  · exact findIn_filter_of_keeps _ (fun e => by simpa [← List.isPrefixOf_iff_prefix] using h) _

/-! ### Regular trees -/

/-- A tree that a disk can hold, without links. -/
structure Regular (t : FileTree) : Prop where
  /-- No place has two entries. -/
  distinct : (t.entries.map Prod.fst).Nodup
  /-- Everything but the root stands under a name in a directory. -/
  named : ∀ place entry, t.find? place = some entry → place ≠ [] →
    ∃ front name, place = front ++ [name] ∧ IsEntryName name ∧
      t.find? front = some .directory
  linkless : ∀ place target, t.find? place ≠ some (.link target)

namespace Regular

variable {t : FileTree}

theorem directory_of_isSome (ht : t.Regular) {front : Place} {name : String} {entry : Entry}
    (h : t.find? (front ++ [name]) = some entry) : t.find? front = some .directory := by
  obtain ⟨front', name', hplace, -, hfront⟩ := ht.named _ _ h (by simp)
  rw [(List.append_inj' hplace rfl).1]
  exact hfront

theorem isEntryName_of_isSome (ht : t.Regular) {front : Place} {name : String} {entry : Entry}
    (h : t.find? (front ++ [name]) = some entry) : IsEntryName name := by
  obtain ⟨front', name', hplace, hname, -⟩ := ht.named _ _ h (by simp)
  rw [List.singleton_inj.mp (List.append_inj' hplace rfl).2]
  exact hname

/-- Everything above something that is there is a directory. -/
theorem directory_of_isPrefix (ht : t.Regular) {above place : Place} (h : above <+: place)
    (hne : above ≠ place) {entry : Entry} (hplace : t.find? place = some entry) :
    t.find? above = some .directory := by
  obtain ⟨moves, rfl⟩ := h
  induction moves using List.reverseRecOn generalizing entry with
  | nil => simp at hne
  | append_singleton moves name ih =>
    rw [← List.append_assoc] at hplace
    have hfront := ht.directory_of_isSome hplace
    by_cases hmoves : above = above ++ moves
    · rw [hmoves]
      exact hfront
    · exact ih hmoves hfront

/-- Nothing is below a place where nothing is. -/
theorem find?_eq_none_of_isPrefix (ht : t.Regular) {above place : Place} (h : above <+: place)
    (habove : t.find? above = none) : t.find? place = none := by
  by_contra hplace
  obtain ⟨entry, hentry⟩ := Option.ne_none_iff_exists'.mp hplace
  by_cases heq : above = place
  · rw [heq] at habove
    exact hplace habove
  · rw [ht.directory_of_isPrefix h heq hentry] at habove
    cases habove

/-- Where nothing is, nothing is erased. -/
theorem eraseAll_of_free (ht : t.Regular) {place : Place} (h : t.find? place = none) :
    t.eraseAll place = t := by
  have hkept : t.entries.filter (fun e => !place.isPrefixOf e.1) = t.entries := by
    rw [List.filter_eq_self]
    intro e he
    rw [Bool.not_eq_true', Bool.eq_false_iff]
    intro habove
    have hbelow := ht.find?_eq_none_of_isPrefix (by simpa using habove) h
    by_cases hroot : e.1 = []
    · rw [hroot, find?_root] at hbelow
      cases hbelow
    · rw [find?_eq_findIn t hroot, findIn_eq_some_of_mem ht.distinct he] at hbelow
      cases hbelow
  rw [FileTree.eraseAll, hkept]

/-- A tree that is written down is checked entry by entry. -/
theorem of_entries (hdistinct : (t.entries.map Prod.fst).Nodup)
    (hnamed : ∀ e ∈ t.entries, IsEntryName (e.1.getLastD "") ∧
      t.find? e.1.dropLast = some .directory)
    (hlinkless : ∀ e ∈ t.entries, ∀ target, e.2 ≠ .link target) : t.Regular := by
  have hmem {place : Place} {entry : Entry} (hne : place ≠ [])
      (h : t.find? place = some entry) : (place, entry) ∈ t.entries := by
    rw [find?_eq_findIn t hne] at h
    exact mem_of_findIn_eq_some h
  refine ⟨hdistinct, ?_, ?_⟩
  · intro place entry h hne
    obtain ⟨hname, hfront⟩ := hnamed _ (hmem hne h)
    refine ⟨place.dropLast, place.getLastD "", ?_, hname, hfront⟩
    rw [List.getLastD_eq_getLast?, List.getLast?_eq_some_getLast hne]
    exact (List.dropLast_append_getLast hne).symm
  · intro place target h
    by_cases hne : place = []
    · rw [hne, find?_root] at h
      cases h
    · exact hlinkless _ (hmem hne h) target rfl

/-! ### Changes that keep a tree regular -/

/-- A file or a directory under a name in a directory, unless it takes the place of a directory. -/
theorem put (ht : t.Regular) {front : Place} {name : String} {entry : Entry}
    (hname : IsEntryName name) (hfront : t.find? front = some .directory)
    (hold : t.find? (front ++ [name]) ≠ some .directory)
    (hentry : ∀ target, entry ≠ .link target) : (t.put (front ++ [name]) entry).Regular := by
  have hne : front ++ [name] ≠ [] := by simp
  -- directories are where they were, since none was replaced
  have hkeep {place : Place} (h : t.find? place = some .directory) :
      (t.put (front ++ [name]) entry).find? place = some .directory := by
    rw [find?_put_of_ne t fun heq => hold (by rw [← heq, h])]
    exact h
  refine ⟨?_, ?_, ?_⟩
  · rw [FileTree.put, places_putIn]
    split
    · exact ht.distinct
    · rename_i hmem
      exact List.nodup_append.mpr ⟨ht.distinct, List.nodup_singleton _, by
        intro a ha b hb
        rw [List.mem_singleton.mp hb]
        exact fun heq => hmem (heq ▸ ha)⟩
  · intro place found hfind hplace
    by_cases heq : place = front ++ [name]
    · exact ⟨front, name, heq, hname, hkeep hfront⟩
    · rw [find?_put_of_ne t heq] at hfind
      obtain ⟨front', name', hp, hn, hf⟩ := ht.named _ _ hfind hplace
      exact ⟨front', name', hp, hn, hkeep hf⟩
  · intro place target hfind
    by_cases heq : place = front ++ [name]
    · rw [heq, find?_put_self t hne, Option.some.injEq] at hfind
      exact hentry target hfind
    · rw [find?_put_of_ne t heq] at hfind
      exact ht.linkless place target hfind

/-- Erasing what is not a directory. -/
theorem erase (ht : t.Regular) {place : Place} (h : t.find? place ≠ some .directory) :
    (t.erase place).Regular := by
  have hne : place ≠ [] := by
    rintro rfl
    exact h (find?_root t)
  refine ⟨?_, ?_, ?_⟩
  · exact ht.distinct.sublist (List.filter_sublist.map _)
  · intro other found hfind hother
    have heq : other ≠ place := by
      rintro rfl
      rw [find?_erase_self t hne] at hfind
      cases hfind
    rw [find?_erase_of_ne t heq] at hfind
    obtain ⟨front, name, hp, hn, hf⟩ := ht.named _ _ hfind hother
    refine ⟨front, name, hp, hn, ?_⟩
    rw [find?_erase_of_ne t fun hfront => h (by rw [← hfront, hf])]
    exact hf
  · intro other target hfind
    by_cases heq : other = place
    · rw [heq, find?_erase_self t hne] at hfind
      cases hfind
    · rw [find?_erase_of_ne t heq] at hfind
      exact ht.linkless other target hfind

/-- Erasing a place with everything below it. -/
theorem eraseAll (ht : t.Regular) (place : Place) : (t.eraseAll place).Regular := by
  have hother {other : Place} {found : Entry} (hne : other ≠ [])
      (hfind : (t.eraseAll place).find? other = some found) :
      ¬ place <+: other ∧ t.find? other = some found := by
    by_cases hfront : place <+: other
    · rw [find?_eraseAll_of_isPrefix t hfront hne] at hfind
      cases hfind
    · rw [find?_eraseAll_of_not_isPrefix t hfront] at hfind
      exact ⟨hfront, hfind⟩
  refine ⟨?_, ?_, ?_⟩
  · exact ht.distinct.sublist (List.filter_sublist.map _)
  · intro other found hfind hne
    obtain ⟨hfront, hfind⟩ := hother hne hfind
    obtain ⟨front, name, rfl, hn, hf⟩ := ht.named _ _ hfind hne
    refine ⟨front, name, rfl, hn, ?_⟩
    rw [find?_eraseAll_of_not_isPrefix t fun h => hfront (h.trans (List.prefix_append _ _))]
    exact hf
  · intro other target hfind
    by_cases hne : other = []
    · rw [hne, find?_root] at hfind
      cases hfind
    · exact ht.linkless other target (hother hne hfind).2

end Regular

/-! ### What is in a directory -/

/-- The listed names are those that have an entry in the directory. -/
theorem mem_children_iff {t : FileTree} (ht : t.Regular) {place : Place} {name : String}
    {entry : Entry} :
    (name, entry) ∈ t.children place ↔ t.find? (place ++ [name]) = some entry := by
  have hne : place ++ [name] ≠ [] := by simp
  rw [children, mem_foldr_insertByName, List.mem_filterMap, find?_eq_findIn t hne]
  constructor
  · rintro ⟨⟨p, e⟩, hmem, hfound⟩
    cases hlast : p.getLast? with
    | none => simp [hlast] at hfound
    | some last =>
      simp only [hlast] at hfound
      split at hfound
      · rename_i hplace
        obtain ⟨rfl, rfl⟩ := Prod.mk.inj (Option.some.inj hfound)
        obtain ⟨front, rfl⟩ := List.getLast?_eq_some_iff.mp hlast
        rw [List.dropLast_concat] at hplace
        exact findIn_eq_some_of_mem ht.distinct (hplace ▸ hmem)
      · cases hfound
  · intro hfind
    refine ⟨_, mem_of_findIn_eq_some hfind, ?_⟩
    simp

theorem pairwise_insertByName {x : String × Entry} {ys : List (String × Entry)}
    (hys : ys.Pairwise fun a b => a.1 < b.1) (hx : ∀ y ∈ ys, x.1 ≠ y.1) :
    (insertByName x ys).Pairwise fun a b => a.1 < b.1 := by
  induction ys with
  | nil => simp [insertByName]
  | cons y ys ih =>
    obtain ⟨hne, hx⟩ := List.forall_mem_cons.mp hx
    obtain ⟨hy, hys⟩ := List.pairwise_cons.mp hys
    rw [insertByName]
    split
    · rename_i hle
      have hlt : x.1 < y.1 := String.not_le.mp fun hge => hne (String.le_antisymm hle hge)
      refine .cons (List.forall_mem_cons.mpr ⟨hlt, fun z hz => String.lt_trans hlt (hy z hz)⟩) ?_
      exact .cons hy hys
    · rename_i hgt
      refine .cons (fun z hz => ?_) (ih hys hx)
      rcases mem_insertByName.mp hz with rfl | hz
      · exact String.not_le.mp hgt
      · exact hy z hz

/-- A directory is listed by name, and no name comes twice. -/
theorem pairwise_children {t : FileTree} (ht : t.Regular) (place : Place) :
    (t.children place).Pairwise fun a b => a.1 < b.1 := by
  have hsort {xs : List (String × Entry)} (h : xs.Pairwise fun a b => a.1 ≠ b.1) :
      (xs.foldr insertByName []).Pairwise fun a b => a.1 < b.1 := by
    induction h with
    | nil => exact .nil
    | cons hx _ ih => exact pairwise_insertByName ih fun y hy => hx y (mem_foldr_insertByName.mp hy)
  rw [children]
  apply hsort
  refine (List.pairwise_map.mp ht.distinct).filterMap _ ?_
  rintro ⟨p, e⟩ ⟨p', e'⟩ hne x hx x' hx' heq
  -- two entries of the directory with one name would have one place
  simp only at hx hx'
  split at hx
  · cases hx
  · rename_i name hname
    split at hx'
    · cases hx'
    · rename_i name' hname'
      simp only [Option.ite_none_right_eq_some, Option.some.injEq] at hx hx'
      obtain ⟨hfront, rfl⟩ := hx
      obtain ⟨hfront', rfl⟩ := hx'
      obtain ⟨front, rfl⟩ := List.getLast?_eq_some_iff.mp hname
      obtain ⟨front', rfl⟩ := List.getLast?_eq_some_iff.mp hname'
      rw [List.dropLast_concat] at hfront hfront'
      obtain rfl : name = name' := heq
      exact hne (by rw [hfront, hfront'])

end FileTree

end TokenSheets
