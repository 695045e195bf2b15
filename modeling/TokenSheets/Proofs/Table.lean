/-
TokenSheets/Proofs/Table.lean

Tables: keys, look-up and insertion.

A table is a list of named entries, and nothing in its type keeps a name from
coming twice.  Look-up takes the first entry of a name.  The lemmas say how
look-up and the list of keys behave under everything that is done to tables;
where a name must not come twice, `keys.Nodup` is asked for, and `insert` keeps
it (`nodup_keys_insert`).  A table without repeated names is determined by its
keys and its look-ups (`eq_of_get?_eq`).
-/
import Mathlib.Data.List.Nodup
import TokenSheets.Json.Value

namespace TokenSheets

namespace Table

variable {α β : Type}

/-! ### Keys -/

@[simp] theorem keys_nil : keys ([] : Table α) = [] := rfl

@[simp] theorem keys_cons (k : String) (v : α) (t : Table α) :
    keys ((k, v) :: t) = k :: keys t := rfl

@[simp] theorem keys_append (s t : Table α) : keys (s ++ t) = keys s ++ keys t :=
  List.map_append

@[simp] theorem keys_map_snd (t : Table α) (f : String × α → β) :
    keys (t.map fun e => (e.1, f e)) = keys t := by
  simp [keys, List.map_map, Function.comp_def]

theorem keys_filter (t : Table α) (p : String → Bool) :
    keys (t.filter fun e => p e.1) = (keys t).filter p := by
  induction t with
  | nil => rfl
  | cons e rest ih => cases h : p e.1 <;> simp_all [keys]

/-! ### Look-up -/

@[simp] theorem get?_nil (j : String) : get? ([] : Table α) j = none := rfl

theorem get?_cons (k : String) (v : α) (t : Table α) (j : String) :
    get? ((k, v) :: t) j = if k = j then some v else get? t j := rfl

/-- A name has an entry exactly when it is among the keys. -/
theorem get?_eq_none_iff {t : Table α} {j : String} : t.get? j = none ↔ j ∉ t.keys := by
  induction t with
  | nil => simp
  | cons e rest ih =>
    obtain ⟨k, v⟩ := e
    by_cases h : k = j
    · simp [get?_cons, h]
    · simp [get?_cons, h, ih, Ne.symm h]

theorem isSome_get?_iff {t : Table α} {j : String} : (t.get? j).isSome = true ↔ j ∈ t.keys := by
  rw [← not_iff_not, ← get?_eq_none_iff]
  simp

theorem exists_get?_of_mem_keys {t : Table α} {j : String} (h : j ∈ t.keys) :
    ∃ v, t.get? j = some v :=
  Option.isSome_iff_exists.mp (isSome_get?_iff.mpr h)

theorem has_iff {t : Table α} {j : String} : t.has j = true ↔ j ∈ t.keys := isSome_get?_iff

theorem has_eq_false_iff {t : Table α} {j : String} : t.has j = false ↔ j ∉ t.keys := by
  rw [← has_iff, Bool.not_eq_true]

theorem mem_of_get?_eq_some {t : Table α} {j : String} {v : α} (h : t.get? j = some v) :
    (j, v) ∈ t := by
  induction t with
  | nil => simp at h
  | cons e rest ih =>
    obtain ⟨k, w⟩ := e
    rw [get?_cons] at h
    by_cases hk : k = j
    · rw [if_pos hk] at h
      rw [← hk, ← Option.some.inj h]
      exact List.mem_cons_self
    · rw [if_neg hk] at h
      exact List.mem_cons_of_mem _ (ih h)

theorem mem_keys_of_mem {t : Table α} {e : String × α} (h : e ∈ t) : e.1 ∈ t.keys :=
  List.mem_map_of_mem h

/-- Without repeated names every entry is the one that is found. -/
theorem get?_eq_some_of_mem {t : Table α} (ht : t.keys.Nodup) {j : String} {v : α}
    (h : (j, v) ∈ t) : t.get? j = some v := by
  induction t with
  | nil => simp at h
  | cons e rest ih =>
    obtain ⟨k, w⟩ := e
    rw [keys_cons, List.nodup_cons] at ht
    rw [get?_cons]
    rcases List.mem_cons.mp h with heq | hrest
    · obtain ⟨rfl, rfl⟩ := Prod.mk.injEq .. ▸ heq
      rw [if_pos rfl]
    · have hne : k ≠ j := by
        rintro rfl
        exact ht.1 (mem_keys_of_mem hrest)
      rw [if_neg hne]
      exact ih ht.2 hrest

theorem get?_append (s t : Table α) (j : String) :
    (s ++ t).get? j = (s.get? j).or (t.get? j) := by
  induction s with
  | nil => simp
  | cons e rest ih =>
    obtain ⟨k, v⟩ := e
    by_cases h : k = j <;> simp [get?_cons, h, ih]

/-- Entries may be dropped by name; the others are found as before. -/
theorem get?_filter (t : Table α) (p : String → Bool) (j : String) :
    get? (t.filter fun e => p e.1) j = if p j = true then t.get? j else none := by
  induction t with
  | nil => simp
  | cons e rest ih =>
    obtain ⟨k, v⟩ := e
    by_cases hk : k = j
    · subst hk
      cases hp : p k <;> simp [hp, get?_cons, ih]
    · cases hp : p k <;> simp [hp, get?_cons, hk, ih]

/-- Entries that are changed one by one are found changed. -/
theorem get?_map_snd (t : Table α) (f : String × α → β) (j : String) :
    get? (t.map fun e => (e.1, f e)) j = (t.get? j).map fun v => f (j, v) := by
  induction t with
  | nil => rfl
  | cons e rest ih =>
    obtain ⟨k, v⟩ := e
    rw [List.map_cons, get?_cons, get?_cons, ih]
    by_cases h : k = j
    · rw [if_pos h, if_pos h, h, Option.map_some]
    · rw [if_neg h, if_neg h]

/-! ### Two tables -/

/-- Two tables without repeated names are equal if they list the same names in the same order
and find the same entries. -/
theorem eq_of_get?_eq {s t : Table α} (hs : s.keys.Nodup) (hk : s.keys = t.keys)
    (hg : ∀ j ∈ s.keys, s.get? j = t.get? j) : s = t := by
  induction s generalizing t with
  | nil => exact (List.map_eq_nil_iff.mp hk.symm).symm
  | cons e rest ih =>
    obtain ⟨k, v⟩ := e
    cases t with
    | nil => simp at hk
    | cons e' rest' =>
      obtain ⟨k', v'⟩ := e'
      rw [keys_cons, keys_cons] at hk
      obtain ⟨rfl, hrest⟩ := List.cons.inj hk
      rw [keys_cons, List.nodup_cons] at hs
      have hv : v = v' := by
        have := hg k (by simp)
        simpa [get?_cons] using this
      have htail : rest = rest' := by
        refine ih hs.2 hrest ?_
        intro j hj
        have hne : k ≠ j := fun h => hs.1 (h ▸ hj)
        have := hg j (by simp [hj])
        simpa [get?_cons, hne] using this
      rw [hv, htail]

/-- Two tables without repeated names that find the same entries have the same entries. -/
theorem perm_of_get?_eq {s t : Table α} (hs : s.keys.Nodup) (ht : t.keys.Nodup)
    (h : ∀ j, s.get? j = t.get? j) : s.Perm t := by
  rw [List.perm_ext_iff_of_nodup (hs.of_map _) (ht.of_map _)]
  intro e
  constructor
  · intro he
    exact mem_of_get?_eq_some ((h e.1).symm.trans (get?_eq_some_of_mem hs he))
  · intro he
    exact mem_of_get?_eq_some ((h e.1).trans (get?_eq_some_of_mem ht he))

/-- Tables with the same names have entries that belong together, or none, at each name. -/
theorem rel_get? {s : Table α} {t : Table β} {R : α → β → Prop} (hk : s.keys.Perm t.keys)
    {j : String} (h : ∀ v w, s.get? j = some v → t.get? j = some w → R v w) :
    Option.Rel R (s.get? j) (t.get? j) := by
  have hnone : s.get? j = none ↔ t.get? j = none := by
    rw [get?_eq_none_iff, get?_eq_none_iff, hk.mem_iff]
  cases hs : s.get? j with
  | none =>
    rw [hnone.mp hs]
    exact .none
  | some v =>
    cases ht : t.get? j with
    | none => simp [hnone.mpr ht] at hs
    | some w => exact .some (h v w hs ht)

/-! ### Insertion -/

theorem get?_insert (t : Table α) (k : String) (v : α) (j : String) :
    (t.insert k v).get? j = if k = j then some v else t.get? j := by
  induction t with
  | nil => rfl
  | cons e rest ih =>
    obtain ⟨k', v'⟩ := e
    unfold insert
    by_cases hk : k' = k
    · subst hk
      by_cases hj : k' = j <;> simp [get?_cons, hj]
    · rw [if_neg hk, get?_cons, get?_cons, ih]
      by_cases hj : k' = j
      · subst hj
        rw [if_pos rfl, if_neg (Ne.symm hk), if_pos rfl]
      · rw [if_neg hj, if_neg hj]

theorem get?_insert_self (t : Table α) (k : String) (v : α) : (t.insert k v).get? k = some v := by
  rw [get?_insert, if_pos rfl]

/-- A new name comes last; a known one stays where it is. -/
theorem keys_insert (t : Table α) (k : String) (v : α) :
    (t.insert k v).keys = if k ∈ t.keys then t.keys else t.keys ++ [k] := by
  induction t with
  | nil => rfl
  | cons e rest ih =>
    obtain ⟨k', v'⟩ := e
    unfold insert
    by_cases hk : k' = k
    · simp [hk]
    · rw [if_neg hk, keys_cons, ih]
      by_cases hr : k ∈ keys rest <;> simp [hr, Ne.symm hk]

theorem mem_keys_insert {t : Table α} {k j : String} {v : α} :
    j ∈ (t.insert k v).keys ↔ j = k ∨ j ∈ t.keys := by
  rw [keys_insert]
  by_cases h : k ∈ t.keys
  · rw [if_pos h]
    constructor
    · exact Or.inr
    · rintro (rfl | hj)
      · exact h
      · exact hj
  · rw [if_neg h, List.mem_append, List.mem_singleton, or_comm]

theorem nodup_keys_insert {t : Table α} (ht : t.keys.Nodup) (k : String) (v : α) :
    (t.insert k v).keys.Nodup := by
  rw [keys_insert]
  by_cases h : k ∈ t.keys
  · rw [if_pos h]
    exact ht
  · rw [if_neg h]
    rw [List.nodup_append]
    refine ⟨ht, List.nodup_singleton k, ?_⟩
    intro a ha b hb hab
    rw [List.mem_singleton] at hb
    rw [hab, hb] at ha
    exact h ha

/-- A new name is appended with its entry. -/
theorem insert_of_notMem {t : Table α} {k : String} (h : k ∉ t.keys) (v : α) :
    t.insert k v = t ++ [(k, v)] := by
  induction t with
  | nil => rfl
  | cons e rest ih =>
    obtain ⟨k', v'⟩ := e
    rw [keys_cons, List.mem_cons, not_or] at h
    rw [insert, if_neg (Ne.symm h.1), ih h.2, List.cons_append]

/-- Names that are still to come stay new when another name comes first. -/
theorem forall_notMem_keys_insert {t : Table α} {k : String} {names : List String}
    (hk : k ∉ names) (h : ∀ j ∈ names, j ∉ t.keys) (v : α) :
    ∀ j ∈ names, j ∉ (t.insert k v).keys := by
  intro j hj
  rw [mem_keys_insert]
  rintro (rfl | hold)
  · exact hk hj
  · exact h j hj hold

/-- Only the last of two values for a name is kept. -/
theorem insert_insert (t : Table α) (k : String) (v w : α) :
    (t.insert k v).insert k w = t.insert k w := by
  induction t with
  | nil => simp [insert]
  | cons e rest ih =>
    obtain ⟨k', v'⟩ := e
    by_cases hk : k' = k
    · simp [insert, hk]
    · simp [insert, hk, ih]

/-- What is inserted or was there before is all there is. -/
theorem mem_insert {t : Table α} {k : String} {v : α} {e : String × α} (h : e ∈ t.insert k v) :
    e = (k, v) ∨ e ∈ t := by
  induction t with
  | nil => exact Or.inl (List.mem_singleton.mp h)
  | cons e' rest ih =>
    obtain ⟨k', v'⟩ := e'
    unfold insert at h
    by_cases hk : k' = k
    · rw [if_pos hk, List.mem_cons] at h
      rcases h with rfl | h
      · exact Or.inl (by rw [hk])
      · exact Or.inr (List.mem_cons_of_mem _ h)
    · rw [if_neg hk, List.mem_cons] at h
      rcases h with rfl | h
      · exact Or.inr List.mem_cons_self
      · exact (ih h).imp_right (List.mem_cons_of_mem _)

end Table

end TokenSheets
