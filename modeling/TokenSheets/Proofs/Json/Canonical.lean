/-
TokenSheets/Proofs/Json/Canonical.lean

The canonical form does not see the order of keys.

Two documents are *reordered* if they have the same keys in each object, in any
order, and reordered values under each key; inside of arrays, too, but the items
themselves stay in place (`Reordered`).  Such documents have one canonical text
(`Reordered.canonical_eq`).

The proof needs that sorting leaves no choice.  The order by 16-bit units is
total, and it tells any two keys apart, since a text can be read off its units:
a unit of a surrogate pair never stands for a character of its own
(`units16_append_inj`).  This order is not that of the characters, so nothing
about the order of texts could be used instead.

A value without a canonical form is one with a number that is not finite.  No
document has such a number, so a digest that is asked for is there
(`WellFormed.fingerprint_eq`).
-/
import Mathlib.Data.List.Lex
import Mathlib.Data.List.Sort
import TokenSheets.Proofs.Number.Finite
import TokenSheets.Json.Canonical

namespace TokenSheets

/-! ### Texts and their units -/

/-- The units of a text. -/
def unitsOf (s : List Char) : List Nat := s.flatMap units16

theorem toNat_lt_or_gt (c : Char) :
    c.toNat < 0xD800 ∨ 0xDFFF < c.toNat ∧ c.toNat < 0x110000 := c.valid

/-- The first character of a text, and the units of what comes after it, can be read off the
units. -/
theorem units16_append_inj {c d : Char} {us vs : List Nat}
    (h : units16 c ++ us = units16 d ++ vs) : c = d ∧ us = vs := by
  have hc := toNat_lt_or_gt c
  have hd := toNat_lt_or_gt d
  suffices hnat : c.toNat = d.toNat ∧ us = vs from ⟨Char.toNat_inj.mp hnat.1, hnat.2⟩
  unfold units16 at h
  by_cases hc16 : c.toNat < 0x10000 <;> by_cases hd16 : d.toNat < 0x10000 <;>
    simp only [hc16, hd16, if_true, if_false, List.cons_append, List.nil_append,
      List.cons.injEq] at h
  · exact h
  -- with one unit on one side and a pair on the other, a character would be a surrogate
  · omega
  · omega
  · obtain ⟨hhigh, hlow, htail⟩ := h
    exact ⟨by omega, htail⟩

theorem units16_ne_nil (c : Char) : units16 c ≠ [] := by
  unfold units16
  by_cases h : c.toNat < 0x10000 <;> simp [h]

theorem unitsOf_inj {s t : List Char} (h : unitsOf s = unitsOf t) : s = t := by
  induction s generalizing t with
  | nil =>
    cases t with
    | nil => rfl
    | cons d t => simp [unitsOf, units16_ne_nil] at h
  | cons c s ih =>
    cases t with
    | nil => simp [unitsOf, units16_ne_nil] at h
    | cons d t =>
      obtain ⟨hcd, hrest⟩ := units16_append_inj h
      rw [hcd, ih hrest]

/-! ### The order of keys -/

/-- The order of units is the lexicographic order of lists of numbers. -/
theorem unitsLe_iff_le {as bs : List Nat} : unitsLe as bs = true ↔ as ≤ bs := by
  induction as generalizing bs with
  | nil => simp [unitsLe, ← not_lt]
  | cons a as ih =>
    cases bs with
    | nil => simp [unitsLe, ← not_lt]
    | cons b bs =>
      rw [unitsLe, ← not_lt, List.cons_lt_cons_iff]
      by_cases hlt : a < b
      · simp [hlt, hlt.ne', hlt.not_gt]
      · by_cases hgt : b < a
        · simp [hlt, hgt]
        · obtain rfl : a = b := Nat.le_antisymm (not_lt.mp hgt) (not_lt.mp hlt)
          simp [ih]

theorem keyLe_iff {a b : String} : keyLe a b = true ↔ unitsOf a.toList ≤ unitsOf b.toList :=
  unitsLe_iff_le

theorem keyLe_trans {a b c : String} (hab : keyLe a b = true) (hbc : keyLe b c = true) :
    keyLe a c = true :=
  keyLe_iff.mpr ((keyLe_iff.mp hab).trans (keyLe_iff.mp hbc))

theorem keyLe_total (a b : String) : (keyLe a b || keyLe b a) = true := by
  rw [Bool.or_eq_true, keyLe_iff, keyLe_iff]
  exact le_total _ _

/-- Two keys that come before each other are one. -/
theorem keyLe_antisymm {a b : String} (hab : keyLe a b = true) (hba : keyLe b a = true) :
    a = b :=
  String.toList_inj.mp (unitsOf_inj (le_antisymm (keyLe_iff.mp hab) (keyLe_iff.mp hba)))

/-- The order by units is not the order by characters. -/
example : keyLe "😀" "\uffff" = true ∧ '\uffff' < '😀' := by decide

/-! ### Sorted tables -/

namespace Table

variable {α : Type}

/-- A table sorted by its keys. -/
def sorted (t : Table α) : Table α := t.mergeSort fun a b => keyLe a.1 b.1

theorem pairwise_sorted (t : Table α) :
    (sorted t).Pairwise fun a b => keyLe a.1 b.1 = true := by
  unfold sorted
  apply List.pairwise_mergeSort
  · exact fun a b c => keyLe_trans
  · exact fun a b => keyLe_total a.1 b.1

/-- Tables without repeated names that find the same entries are one table when they are
sorted. -/
theorem sorted_eq_of_get?_eq {s t : Table α} (hs : s.keys.Nodup) (ht : t.keys.Nodup)
    (h : ∀ k, s.get? k = t.get? k) : sorted s = sorted t := by
  -- both are permutations of one list, and sorted
  have hperm : s.Perm t := perm_of_get?_eq hs ht h
  refine List.Perm.eq_of_pairwise ?_ (pairwise_sorted s) (pairwise_sorted t)
    ((List.mergeSort_perm s _).trans (hperm.trans (List.mergeSort_perm t _).symm))
  -- entries of one key are one entry, because the key is not repeated
  rintro ⟨k, v⟩ ⟨k', v'⟩ hv hv' hle hge
  obtain rfl : k = k' := keyLe_antisymm hle hge
  have hk : s.get? k = some v := get?_eq_some_of_mem hs (List.mem_mergeSort.mp hv)
  have hk' : t.get? k = some v' := get?_eq_some_of_mem ht (List.mem_mergeSort.mp hv')
  rw [h k, hk'] at hk
  rw [Option.some.inj hk]

end Table

namespace Json.Value

/-! ### Documents in another order -/

/-- The same document up to the order of keys, at every depth and also inside of arrays. -/
inductive Reordered : Value → Value → Prop where
  | null : Reordered .null .null
  | bool (b : Bool) : Reordered (.bool b) (.bool b)
  | number (n : Number) : Reordered (.number n) (.number n)
  | string (s : String) : Reordered (.string s) (.string s)
  /-- The items of an array stay in place. -/
  | array {vs ws : List Value} (length_eq : vs.length = ws.length)
      (items : ∀ (i : Nat) (v w : Value), vs[i]? = some v → ws[i]? = some w → Reordered v w) :
      Reordered (.array vs) (.array ws)
  /-- The keys of an object come in any order. -/
  | object {ms ns : Table Value} (keys_perm : ms.keys.Perm ns.keys)
      (members : ∀ (k : String) (v w : Value), ms.get? k = some v → ns.get? k = some w →
        Reordered v w) :
      Reordered (.object ms) (.object ns)

namespace Reordered

theorem refl : ∀ v : Value, Reordered v v
  | .null => .null
  | .bool b => .bool b
  | .number n => .number n
  | .string s => .string s
  | .array vs => by
    refine .array rfl fun i v w hv hw => ?_
    have hsize : sizeOf v < sizeOf vs := List.sizeOf_lt_of_mem (List.mem_of_getElem? hv)
    rw [← Option.some.inj (hv.symm.trans hw)]
    exact refl v
  | .object ms => by
    refine .object (List.Perm.refl _) fun k v w hv hw => ?_
    have hsize : sizeOf v < 1 + sizeOf ms := object.sizeOf_spec ms ▸ sizeOf_lt_of_get? hv
    rw [← Option.some.inj (hv.symm.trans hw)]
    exact refl v

/-- The members of an object may be listed in another order. -/
theorem of_perm {ms ns : Table Value} (hk : ms.keys.Nodup) (h : ms.Perm ns) :
    Reordered (.object ms) (.object ns) := by
  have hkeys : ms.keys.Perm ns.keys := h.map _
  refine .object hkeys fun k v w hv hw => ?_
  have hmem : (k, w) ∈ ms := h.mem_iff.mpr (Table.mem_of_get?_eq_some hw)
  rw [← Option.some.inj (hv.symm.trans (Table.get?_eq_some_of_mem hk hmem))]
  exact refl v

/-- Reordering repeats no key and changes no number. -/
theorem wellFormed {v w : Value} (h : Reordered v w) (hv : v.WellFormed) : w.WellFormed := by
  induction h with
  | null => exact hv
  | bool b => exact hv
  | number n => exact hv
  | string s => exact hv
  | @array vs ws length_eq items ih =>
    rw [wellFormed_array] at hv ⊢
    intro w hw
    obtain ⟨i, hi⟩ := List.mem_iff_getElem?.mp hw
    have hlt : i < vs.length := length_eq ▸ (List.getElem?_eq_some_iff.mp hi).1
    exact ih i vs[i] w (List.getElem?_eq_getElem hlt) hi (hv _ (List.getElem_mem hlt))
  | @object ms ns keys_perm members ih =>
    have hns : ns.keys.Nodup := keys_perm.nodup_iff.mp (wellFormed_object.mp hv).1
    refine .object hns ?_
    rintro ⟨k, w⟩ hw
    have hget : ns.get? k = some w := Table.get?_eq_some_of_mem hns hw
    have hk : k ∈ ms.keys := keys_perm.mem_iff.mpr (Table.mem_keys_of_mem hw)
    obtain ⟨v, hget'⟩ := Table.exists_get?_of_mem_keys hk
    exact ih k v w hget' hget (hv.of_get? hget')

end Reordered

/-! ### The canonical text -/

/-- The text of one member. -/
def writtenMember (k : String) (v : Value) : List Char := quoteText k.toList ++ ':' :: v.canonical

theorem writtenMembers_eq_map (ms : Table Value) :
    writtenMembers ms = ms.map fun m => (m.1, writtenMember m.1 m.2) := by
  induction ms with
  | nil => rfl
  | cons m rest ih =>
    obtain ⟨k, v⟩ := m
    rw [writtenMembers, ih]
    rfl

theorem keys_writtenMembers (ms : Table Value) :
    Table.keys (writtenMembers ms) = Table.keys ms := by
  rw [writtenMembers_eq_map]
  exact Table.keys_map_snd ms fun m => writtenMember m.1 m.2

theorem get?_writtenMembers (ms : Table Value) (k : String) :
    Table.get? (writtenMembers ms) k = (Table.get? ms k).map (writtenMember k) := by
  rw [writtenMembers_eq_map]
  exact Table.get?_map_snd ms (fun m => writtenMember m.1 m.2) k

theorem canonical_object (ms : Table Value) :
    canonical (.object ms) =
      '\x7b' :: (joinMembers (Table.sorted (writtenMembers ms)) ++ ['\x7d']) := by
  rw [canonical]
  rfl

/-- The text of an array follows from the texts of its items. -/
theorem canonical_array_congr {vs ws : List Value} (h : vs.map canonical = ws.map canonical) :
    canonical (.array vs) = canonical (.array ws) := by
  have items : ∀ vs : List Value,
      canonicalItems vs = (vs.map canonical).flatMap fun text => ',' :: text := by
    intro vs
    induction vs with
    | nil => rfl
    | cons v vs ih => rw [canonicalItems, ih]; rfl
  cases vs with
  | nil =>
    rw [List.map_nil, eq_comm, List.map_eq_nil_iff] at h
    rw [h]
  | cons v vs =>
    cases ws with
    | nil => cases h
    | cons w ws =>
      obtain ⟨hhead, htail⟩ := List.cons.inj h
      rw [canonical, canonical, items, items, hhead, htail]

/-- **The canonical text does not depend on the order of keys.** -/
theorem Reordered.canonical_eq {v w : Value} (h : Reordered v w) (hv : v.WellFormed) :
    v.canonical = w.canonical := by
  induction h with
  | null => rfl
  | bool b => rfl
  | number n => rfl
  | string s => rfl
  | @array vs ws length_eq items ih =>
    refine canonical_array_congr (List.ext_getElem? fun i => ?_)
    rw [List.getElem?_map, List.getElem?_map]
    by_cases hi : i < vs.length
    · have hi' : i < ws.length := length_eq ▸ hi
      have hvi : vs[i]? = some vs[i] := List.getElem?_eq_getElem hi
      have hwi : ws[i]? = some ws[i] := List.getElem?_eq_getElem hi'
      rw [hvi, hwi, Option.map_some, Option.map_some,
        ih i _ _ hvi hwi (wellFormed_array.mp hv _ (List.getElem_mem hi))]
    · rw [List.getElem?_eq_none (Nat.le_of_not_lt hi),
        List.getElem?_eq_none (length_eq ▸ Nat.le_of_not_lt hi)]
  | @object ms ns keys_perm members ih =>
    have hms : ms.keys.Nodup := (wellFormed_object.mp hv).1
    have hsorted : Table.sorted (writtenMembers ms) = Table.sorted (writtenMembers ns) := by
      -- quoting the members keeps the keys, and by induction the texts under each key agree
      apply Table.sorted_eq_of_get?_eq
      · rw [keys_writtenMembers]
        exact hms
      · rw [keys_writtenMembers]
        exact keys_perm.nodup_iff.mp hms
      intro k
      have htexts : Option.Rel (fun v w => writtenMember k v = writtenMember k w) (ms.get? k)
          (ns.get? k) := by
        refine Table.rel_get? keys_perm fun v w hk hk' => ?_
        rw [writtenMember, writtenMember, ih k v w hk hk' (hv.of_get? hk)]
      rw [get?_writtenMembers, get?_writtenMembers]
      exact match ms.get? k, ns.get? k, htexts with
        | none, none, .none => rfl
        | some _, some _, .some h => congrArg some h
    rw [canonical_object, canonical_object, hsorted]

/-! ### The digest -/

theorem areFinite_iff {vs : List Value} : areFinite vs = true ↔ ∀ v ∈ vs, v.isFinite = true := by
  induction vs with
  | nil => simp [areFinite]
  | cons v vs ih => rw [areFinite, Bool.and_eq_true, ih, List.forall_mem_cons]

theorem membersFinite_iff {ms : Table Value} :
    membersFinite ms = true ↔ ∀ m ∈ ms, m.2.isFinite = true := by
  induction ms with
  | nil => simp [membersFinite]
  | cons m ms ih => rw [membersFinite, Bool.and_eq_true, ih, List.forall_mem_cons]

/-- Every number of a document is finite. -/
theorem WellFormed.isFinite {v : Value} (h : v.WellFormed) : v.isFinite = true := by
  induction h with
  | null => rfl
  | bool b => rfl
  | number inRange => exact Number.isFinite_toDouble inRange
  | string s => rfl
  | array items_wf ih => exact areFinite_iff.mpr ih
  | object nodup members_wf ih => exact membersFinite_iff.mpr ih

/-- So a document has a digest. -/
theorem WellFormed.fingerprint_eq {v : Value} (h : v.WellFormed) :
    v.fingerprint = .ok (Sha256.hexOfText (String.ofList v.canonical)) := by
  rw [fingerprint, if_pos h.isFinite]

/-- A value that no document holds. -/
example : (array [.number (.double .nan)]).fingerprint = .error notCanonical := by rfl

end Json.Value

end TokenSheets
