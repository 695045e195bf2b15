/-
TokenSheets/Proofs/Json/Read.lean

Values that are read are well-formed.

The scanner makes integers of 64 bits and finite doubles only, wherever a number
stands in the text (`inRange_value`).  Reading an outline then inserts the
members of an object one by one, so no key comes twice.  Merging keeps both
facts, and so the configuration tree that the program works on has them
(`wellFormed_of_resolve`), whatever the files on disk contain.
-/
import TokenSheets.Proofs.Outcome
import TokenSheets.Proofs.Number.Finite
import TokenSheets.Json.Scan

namespace TokenSheets

namespace Json

open Outcome

/-! ### Outlines -/

/-- Every number that an outline shows is in range. -/
inductive Outline.InRange : Outline → Prop where
  | null : InRange .null
  | bool (b : Bool) : InRange (.bool b)
  | number {n : Number} (inRange : n.InRange) : InRange (.number n)
  | string (s : String) : InRange (.string s)
  | array {items : List Outline} {cut : Option Fault} (items_in : ∀ o ∈ items, InRange o) :
    InRange (.array items cut)
  | object {members : List (Except Fault String × Outline)} {cut : Option Fault}
      (members_in : ∀ m ∈ members, InRange m.2) : InRange (.object members cut)
  | refused (fault : Fault) (inner : Outline) : InRange (.refused fault inner)
  | broken (fault : Fault) : InRange (.broken fault)

namespace Scan

/-! ### Numbers -/

theorem inRange_stop (f : Fault) : (stop f).1.InRange := .broken f

theorem inRange_real (negative : Bool) (n : Nat) (e : Int) (rest : List Piece) :
    (real negative n e rest).1.InRange := by
  unfold real
  simp only
  split
  · rename_i hfinite
    exact .number hfinite
  · exact .refused _ _

theorem inRange_exponent (negative : Bool) (n places : Nat) (s : List Piece) :
    (exponent negative n places s).1.InRange := by
  unfold exponent
  split
  split
  · exact inRange_stop _
  · split
    · exact inRange_stop _
    · split
      · exact inRange_real _ _ _ _
      · split
        · exact .refused _ _
        · exact .number (Double.isFinite_zero negative)

theorem inRange_integer (negative : Bool) (n : Nat) (rest : List Piece) :
    (integer negative n rest).1.InRange := by
  unfold integer
  split
  · split
    · rename_i hn
      exact .number ⟨by omega, by omega⟩
    · exact inRange_real _ _ _ _
  · split
    · rename_i hn
      exact .number ⟨by omega, by omega⟩
    · exact inRange_real _ _ _ _

theorem inRange_afterInteger (negative : Bool) (whole : List Nat) (s : List Piece) :
    (afterInteger negative whole s).1.InRange := by
  unfold afterInteger
  split
  · split
    · exact inRange_stop _
    · exact inRange_stop _
    · exact inRange_exponent _ _ _ _
    · exact inRange_exponent _ _ _ _
    · exact inRange_real _ _ _ _
  · exact inRange_exponent _ _ _ _
  · exact inRange_exponent _ _ _ _
  · exact inRange_integer _ _ _

theorem inRange_number (negative : Bool) (s : List Piece) : (number negative s).1.InRange := by
  unfold number
  split
  · exact inRange_stop _
  · split
    · exact inRange_stop _
    · split
      · split
        · exact inRange_stop _
        · exact inRange_afterInteger _ _ _
      · exact inRange_afterInteger _ _ _
    · exact inRange_afterInteger _ _ _

theorem inRange_string (s : List Piece) : (string s).1.InRange := by
  unfold string
  split
  · split
    · exact .string _
    · exact .refused _ _
  · exact .refused _ _
  · exact inRange_stop _
  · exact .refused _ _

/-! ### Values -/

theorem inRange_guardDepth {depth : Nat} {opening : List Piece} {o : Outline} (h : o.InRange) :
    (guardDepth depth opening o).InRange := by
  unfold guardDepth
  split
  · exact .refused _ _
  · exact h

/-- An item, and the items after it. -/
def itemThen (fuel depth : Nat) (s : List Piece) :
    List Outline × Option Fault × Option (List Piece) :=
  match value fuel depth s with
  | (o, none) => ([o], none, none)
  | (o, some rest) =>
    let (os, cut, rest') := items fuel depth false rest
    (o :: os, cut, rest')

theorem inRange_itemThen {fuel depth : Nat} (hvalue : ∀ depth s, (value fuel depth s).1.InRange)
    (hitems : ∀ depth first s, ∀ o ∈ (items fuel depth first s).1, o.InRange) (s : List Piece) :
    ∀ o ∈ (itemThen fuel depth s).1, o.InRange := by
  have hv := hvalue depth s
  unfold itemThen
  split
  · rename_i o hval
    rw [hval] at hv
    simpa using hv
  · rename_i o rest hval
    rw [hval] at hv
    simp only [List.forall_mem_cons]
    exact ⟨hv, hitems _ _ _⟩

theorem inRange_items {fuel : Nat} (hvalue : ∀ depth s, (value fuel depth s).1.InRange)
    (hitems : ∀ depth first s, ∀ o ∈ (items fuel depth first s).1, o.InRange) (depth : Nat)
    (first : Bool) (s : List Piece) : ∀ o ∈ (items (fuel + 1) depth first s).1, o.InRange := by
  rw [items]
  split
  · simp
  · simp
  · split
    · exact inRange_itemThen hvalue hitems _
    · split
      · split
        · simp
        · simp
        · exact inRange_itemThen hvalue hitems _
      · simp

/-- What follows a key: its value, and the members after it. -/
def memberThen (fuel depth : Nat) (key : Except Fault String) (s : List Piece) :
    List (Except Fault String × Outline) × Option Fault × Option (List Piece) :=
  match skipGap s with
  | [] => ([(key, .broken (.before .endInObject []))], none, none)
  | .scalar ':' :: rest =>
    match value fuel depth rest with
    | (o, none) => ([(key, o)], none, none)
    | (o, some rest) =>
      let (ms, cut, rest') := members fuel depth false rest
      ((key, o) :: ms, cut, rest')
  | p :: rest => ([(key, .broken (.after .expectedColon 1 (p :: rest)))], none, none)

/-- A key whose opening quote is taken, and what follows it. -/
def keyThen (fuel depth : Nat) (s : List Piece) :
    List (Except Fault String × Outline) × Option Fault × Option (List Piece) :=
  match text none s with
  | .closed text none rest => memberThen fuel depth (completeText text rest) rest
  | .closed _ (some f) rest => memberThen fuel depth (.error f) rest
  | .stopped none fault => ([], some fault, none)
  | .stopped (some f) fault => ([(.error f, .broken fault)], none, none)

theorem inRange_memberThen {fuel depth : Nat}
    (hvalue : ∀ depth s, (value fuel depth s).1.InRange)
    (hmembers : ∀ depth first s, ∀ m ∈ (members fuel depth first s).1, m.2.InRange)
    (key : Except Fault String) (s : List Piece) :
    ∀ m ∈ (memberThen fuel depth key s).1, m.2.InRange := by
  unfold memberThen
  split
  · simpa using .broken _
  · rename_i rest _
    have hv := hvalue depth rest
    split
    · rename_i o hval
      rw [hval] at hv
      simpa using hv
    · rename_i o rest' hval
      rw [hval] at hv
      simp only [List.forall_mem_cons]
      exact ⟨hv, hmembers _ _ _⟩
  · simpa using .broken _

theorem inRange_keyThen {fuel depth : Nat}
    (hvalue : ∀ depth s, (value fuel depth s).1.InRange)
    (hmembers : ∀ depth first s, ∀ m ∈ (members fuel depth first s).1, m.2.InRange)
    (s : List Piece) : ∀ m ∈ (keyThen fuel depth s).1, m.2.InRange := by
  unfold keyThen
  split
  · exact inRange_memberThen hvalue hmembers _ _
  · exact inRange_memberThen hvalue hmembers _ _
  · simp
  · simpa using .broken _

theorem inRange_members {fuel : Nat} (hvalue : ∀ depth s, (value fuel depth s).1.InRange)
    (hmembers : ∀ depth first s, ∀ m ∈ (members fuel depth first s).1, m.2.InRange) (depth : Nat)
    (first : Bool) (s : List Piece) : ∀ m ∈ (members (fuel + 1) depth first s).1, m.2.InRange := by
  have hkey := @inRange_keyThen fuel depth hvalue hmembers
  rw [members]
  split
  · simp
  · simp
  · split
    · split
      · exact hkey _
      · simp
    · split
      · split
        · simp
        · exact hkey _
        · simp
        · simp
      · simp
/-- Whatever the text is, the scanner shows numbers that are in range. -/
theorem inRange_value (fuel : Nat) :
    (∀ depth s, (value fuel depth s).1.InRange) ∧
      (∀ depth first s, ∀ o ∈ (items fuel depth first s).1, o.InRange) ∧
      ∀ depth first s, ∀ m ∈ (members fuel depth first s).1, m.2.InRange := by
  induction fuel with
  | zero =>
    refine ⟨?_, by simp [items], by simp [members]⟩
    intro depth s
    rw [value]
    exact inRange_stop _
  | succ fuel ih =>
    obtain ⟨hvalue, hitems, hmembers⟩ := ih
    refine ⟨?_, inRange_items hvalue hitems, inRange_members hvalue hmembers⟩
    intro depth s
    rw [value]
    split
    · exact inRange_stop _
    · split
      · exact .null
      · exact inRange_stop _
    · split
      · exact .bool true
      · exact inRange_stop _
    · split
      · exact .bool false
      · exact inRange_stop _
    · exact inRange_number _ _
    · exact inRange_string _
    · exact inRange_guardDepth (.array (hitems _ _ _))
    · exact inRange_guardDepth (.object (hmembers _ _ _))
    · split
      · exact inRange_number _ _
      · exact inRange_stop _

end Scan

theorem inRange_outline (s : List Piece) : (outline s).1.InRange := by
  have hvalue := (Scan.inRange_value (2 * s.length + 2)).1 0 s
  unfold outline
  split
  rename_i o rest hval
  rw [hval] at hvalue
  split
  · exact hvalue
  · split <;> exact hvalue

/-! ### Reading -/

namespace Outline

mutual

/-- Reading keeps the numbers, and inserts members one by one. -/
theorem wellFormed_of_read : ∀ (o : Outline) {v : Value}, o.InRange → o.read = .ok v → v.WellFormed
  | .null, v, _, h => by
    rw [read] at h
    rw [← Except.ok.inj h]
    exact .null
  | .bool b, v, _, h => by
    rw [read] at h
    rw [← Except.ok.inj h]
    exact .bool b
  | .number n, v, .number hn, h => by
    rw [read] at h
    rw [← Except.ok.inj h]
    exact .number hn
  | .string s, v, _, h => by
    rw [read] at h
    rw [← Except.ok.inj h]
    exact .string s
  | .array items cut, v, .array hitems, h => by
    simp only [read, bind_eq_ok, pure_eq_ok] at h
    obtain ⟨vs, hvs, -, -, rfl⟩ := h
    exact .array (wellFormed_of_readItems items hitems hvs)
  | .object members cut, v, .object hmembers, h => by
    simp only [read, bind_eq_ok, pure_eq_ok] at h
    obtain ⟨ms, hms, -, -, rfl⟩ := h
    have hempty : (Value.object []).WellFormed := by simp
    exact wellFormed_of_readMembers members hmembers hempty hms
  | .refused f inner, v, _, h => by
    rw [read] at h
    cases h
  | .broken f, v, _, h => by
    rw [read] at h
    cases h

theorem wellFormed_of_readItems : ∀ (os : List Outline) {vs : List Value},
    (∀ o ∈ os, o.InRange) → readItems os = .ok vs → ∀ v ∈ vs, v.WellFormed
  | [], vs, _, h => by
    rw [readItems] at h
    rw [← Except.ok.inj h]
    simp
  | o :: os, vs, hin, h => by
    rw [List.forall_mem_cons] at hin
    simp only [readItems, bind_eq_ok, pure_eq_ok] at h
    obtain ⟨v, hv, vs', hvs, rfl⟩ := h
    rw [List.forall_mem_cons]
    exact ⟨wellFormed_of_read o hin.1 hv, wellFormed_of_readItems os hin.2 hvs⟩

theorem wellFormed_of_readMembers : ∀ (ms : List (Except Fault String × Outline))
    {sofar t : Table Value}, (∀ m ∈ ms, m.2.InRange) → (Value.object sofar).WellFormed →
    readMembers ms sofar = .ok t → (Value.object t).WellFormed
  | [], sofar, t, _, hsofar, h => by
    rw [readMembers] at h
    rw [← Except.ok.inj h]
    exact hsofar
  | (key, o) :: rest, sofar, t, hin, hsofar, h => by
    rw [List.forall_mem_cons] at hin
    simp only [readMembers, bind_eq_ok] at h
    obtain ⟨k, -, v, hv, h⟩ := h
    have hvalue : v.WellFormed := wellFormed_of_read o hin.1 hv
    -- the members read so far stay well-formed when one is inserted
    refine wellFormed_of_readMembers rest hin.2 ?_ h
    rw [Value.wellFormed_object] at hsofar ⊢
    refine ⟨Table.nodup_keys_insert hsofar.1 k v, ?_⟩
    intro m hm
    rcases Table.mem_insert hm with rfl | hm
    · exact hvalue
    · exact hsofar.2 m hm

end

end Outline

theorem wellFormed_of_readPieces {s : List Piece} {v : Value} (h : readPieces s = .ok v) :
    v.WellFormed := by
  simp only [readPieces, bind_eq_ok, pure_eq_ok] at h
  obtain ⟨v', hv, -, -, rfl⟩ := h
  exact Outline.wellFormed_of_read _ (inRange_outline s) hv

theorem wellFormed_of_readBytes {bytes : List UInt8} {v : Value} (h : readBytes bytes = .ok v) :
    v.WellFormed :=
  wellFormed_of_readPieces (mapError_eq_ok.mp h)

end Json

end TokenSheets
