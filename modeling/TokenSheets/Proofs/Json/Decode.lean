/-
TokenSheets/Proofs/Json/Decode.lean

What a typed reader gives when it succeeds.

A record is built from the fields that `Form.entries` lets through, and each of
these is a part of the outline that was read (`mem_parts_of_entries`).  So a
fact about a field of the record follows from what its own reader ensures, or
from its default (`Entries.getD_eq_ok`).  Tables never repeat a name, whatever
the text does, since entries are inserted one by one (`nodup_keys_of_table`).
-/
import TokenSheets.Proofs.Outcome
import TokenSheets.Proofs.Number.Finite
import TokenSheets.Json.Decode

namespace TokenSheets.Json

open Outcome

/-! ### Parts of outlines -/

/-- The outlines directly inside a container. -/
def Outline.parts : Outline → List Outline
  | .array items _ => items
  | .object members _ => members.map Prod.snd
  | _ => []

/-- What is seen of a value without a text: nothing is missing in it. -/
def Outline.ShowsWellFormed (o : Outline) : Prop := ∃ v : Value, v.WellFormed ∧ o = v.outline

theorem Value.outlines_eq_map (vs : List Value) : outlines vs = vs.map outline := by
  induction vs with
  | nil => rfl
  | cons v vs ih => rw [outlines, ih, List.map_cons]

theorem Value.outlineMembers_eq_map (ms : List (String × Value)) :
    outlineMembers ms = ms.map fun m => (.ok m.1, m.2.outline) := by
  induction ms with
  | nil => rfl
  | cons m rest ih =>
    obtain ⟨k, v⟩ := m
    rw [outlineMembers, ih, List.map_cons]

/-- The parts of a well-formed value are well-formed. -/
theorem Outline.ShowsWellFormed.of_mem_parts {o c : Outline} (h : o.ShowsWellFormed)
    (hc : c ∈ o.parts) : c.ShowsWellFormed := by
  obtain ⟨v, hv, rfl⟩ := h
  cases v with
  | array items =>
    simp only [Value.outline, parts, Value.outlines_eq_map, List.mem_map] at hc
    obtain ⟨w, hw, rfl⟩ := hc
    exact ⟨w, Value.wellFormed_array.mp hv w hw, rfl⟩
  | object ms =>
    simp only [Value.outline, parts, Value.outlineMembers_eq_map, List.map_map,
      List.mem_map] at hc
    obtain ⟨m, hm, rfl⟩ := hc
    exact ⟨m.2, (Value.wellFormed_object.mp hv).2 m hm, rfl⟩
  | null => simp [Value.outline, parts] at hc
  | bool b => simp [Value.outline, parts] at hc
  | number n => simp [Value.outline, parts] at hc
  | string s => simp [Value.outline, parts] at hc

/-- What is refused is never read. -/
theorem refuse_ne_ok {α : Type} {expected : String} {o : Outline} {a : α} :
    (refuse expected o : Except Mismatch α) ≠ .ok a := by
  unfold refuse
  cases o.found <;> simp

/-! ### Records -/

namespace Form

theorem mem_of_fromMembers {form : Form} {ms : List (Except Fault String × Outline)}
    {sofar es : Entries} (h : form.fromMembers ms sofar = .ok es) {e : String × Outline}
    (he : e ∈ es) : e ∈ sofar ∨ e.2 ∈ ms.map Prod.snd := by
  induction ms generalizing sofar with
  | nil =>
    rw [← Except.ok.inj h] at he
    exact Or.inl he
  | cons m rest ih =>
    obtain ⟨key, o⟩ := m
    rw [fromMembers, bind_eq_ok] at h
    obtain ⟨k, -, h⟩ := h
    have hrest {s : Entries} (hs : form.fromMembers rest s = .ok es) :
        e ∈ s ∨ e.2 ∈ (((key, o) :: rest).map Prod.snd) :=
      (ih hs).imp_right (List.mem_cons_of_mem _)
    cases hfield : form.field? k with
    | none =>
      simp only [hfield] at h
      split at h
      · simp [bind_eq_ok, throw_ne_ok] at h
      · simp only [bind_eq_ok] at h
        obtain ⟨-, -, h⟩ := h
        exact hrest h
    | some field =>
      simp only [hfield] at h
      split at h
      · simp [bind_eq_ok, throw_ne_ok] at h
      · simp only [bind_eq_ok] at h
        obtain ⟨-, -, h⟩ := h
        rcases hrest h with hnew | hlater
        · rcases List.mem_append.mp hnew with hold | hlast
          · exact Or.inl hold
          · rw [List.mem_singleton.mp hlast]
            exact Or.inr (by simp)
        · exact Or.inr hlater

theorem mem_of_fromItems {fields : List Field} {os : List Outline} {es : Entries}
    (h : fromItems fields os = .ok es) {e : String × Outline} (he : e ∈ es) : e.2 ∈ os := by
  induction fields generalizing os es with
  | nil =>
    rw [fromItems] at h
    · rw [← Except.ok.inj h] at he
      simp at he
    · simp
  | cons f fs ih =>
    cases os with
    | nil =>
      rw [fromItems] at h
      · rw [← Except.ok.inj h] at he
        simp at he
      · simp
    | cons o os =>
      simp only [fromItems, bind_eq_ok, pure_eq_ok] at h
      obtain ⟨-, -, rest, hrest, rfl⟩ := h
      rcases List.mem_cons.mp he with rfl | hlater
      · exact List.mem_cons_self
      · exact List.mem_cons_of_mem _ (ih hrest hlater)

/-- The fields that are present are parts of what was read. -/
theorem mem_parts_of_entries {form : Form} {o : Outline} {es : Entries}
    (h : form.entries o = .ok es) {e : String × Outline} (he : e ∈ es) : e.2 ∈ o.parts := by
  unfold entries at h
  split at h
  · simp only [bind_eq_ok] at h
    obtain ⟨es', hes, -, -, h⟩ := h
    split at h
    · exact absurd h throw_ne_ok
    · rw [← pure_eq_ok.mp h] at he
      exact (mem_of_fromMembers hes he).resolve_left List.not_mem_nil
  · simp only [bind_eq_ok] at h
    obtain ⟨es', hes, h⟩ := h
    have hsame : es' = es := by
      split at h
      · simp only [bind_eq_ok] at h
        obtain ⟨-, -, h⟩ := h
        split at h
        · exact absurd h throw_ne_ok
        · exact pure_eq_ok.mp h
      · simp only [bind_eq_ok] at h
        obtain ⟨-, -, h⟩ := h
        exact pure_eq_ok.mp h
    rw [← hsame] at he
    exact mem_of_fromItems hes he
  · cases h
  · exact absurd h refuse_ne_ok

namespace Entries

variable {α : Type} {es : Entries} {name : String} {d : Decoder α}

theorem get_eq_ok {a : α} (h : es.get name d = .ok a) : ∃ o, (name, o) ∈ es ∧ d o = .ok a := by
  unfold get at h
  split at h
  · exact ⟨_, Table.mem_of_get?_eq_some ‹_›, h⟩
  · cases h

/-- A field is what its reader gives, or its default. -/
theorem getD_eq_ok {default a : α} (h : es.getD name d default = .ok a) :
    a = default ∨ ∃ o, (name, o) ∈ es ∧ d o = .ok a := by
  unfold getD at h
  split at h
  · exact Or.inr ⟨_, Table.mem_of_get?_eq_some ‹_›, h⟩
  · exact Or.inl (Except.ok.inj h).symm

/-- What the default has and the reader ensures, the field has. -/
theorem getD_ensures {P : α → Prop} {default a : α} (h : es.getD name d default = .ok a)
    (hdefault : P default) (hd : ∀ {o b}, d o = .ok b → P b) : P a := by
  rcases getD_eq_ok h with rfl | ⟨o, -, ho⟩
  · exact hdefault
  · exact hd ho

end Entries

end Form

/-! ### Collections -/

namespace Decode

variable {α : Type} {d : Decoder α}

theorem nodup_keys_of_entries {ms : List (Except Fault String × Outline)} {sofar t : Table α}
    (hs : sofar.keys.Nodup) (h : entries d ms sofar = .ok t) : t.keys.Nodup := by
  induction ms generalizing sofar with
  | nil =>
    rw [← Except.ok.inj h]
    exact hs
  | cons m rest ih =>
    obtain ⟨key, o⟩ := m
    simp only [entries, bind_eq_ok] at h
    obtain ⟨k, -, a, -, h⟩ := h
    exact ih (Table.nodup_keys_insert hs k a) h

theorem mem_of_entries {ms : List (Except Fault String × Outline)} {sofar t : Table α}
    (h : entries d ms sofar = .ok t) {e : String × α} (he : e ∈ t) :
    e ∈ sofar ∨ ∃ o ∈ ms.map Prod.snd, d o = .ok e.2 := by
  induction ms generalizing sofar with
  | nil =>
    rw [← Except.ok.inj h] at he
    exact Or.inl he
  | cons m rest ih =>
    obtain ⟨key, o⟩ := m
    simp only [entries, bind_eq_ok] at h
    obtain ⟨k, -, a, ha, h⟩ := h
    rcases ih h with hnew | ⟨o', ho', hd⟩
    · rcases Table.mem_insert hnew with rfl | hold
      · exact Or.inr ⟨o, by simp, ha⟩
      · exact Or.inl hold
    · exact Or.inr ⟨o', List.mem_cons_of_mem _ ho', hd⟩

/-- A table that was read does not repeat a name. -/
theorem nodup_keys_of_table {o : Outline} {t : Table α} (h : table d o = .ok t) :
    t.keys.Nodup := by
  unfold table at h
  split at h
  · simp only [bind_eq_ok, pure_eq_ok] at h
    obtain ⟨t', ht, -, -, rfl⟩ := h
    exact nodup_keys_of_entries (by simp) ht
  · exact absurd h refuse_ne_ok

/-- The entries of a table were read from the parts of the object. -/
theorem mem_of_table {o : Outline} {t : Table α} (h : table d o = .ok t) {e : String × α}
    (he : e ∈ t) : ∃ c ∈ o.parts, d c = .ok e.2 := by
  unfold table at h
  split at h
  · simp only [bind_eq_ok, pure_eq_ok] at h
    obtain ⟨t', ht, -, -, rfl⟩ := h
    exact (mem_of_entries ht he).resolve_left List.not_mem_nil
  · exact absurd h refuse_ne_ok

/-- A value that may be absent was read, if it is there. -/
theorem optional_eq_some {o : Outline} {a : α} (h : optional d o = .ok (some a)) :
    d o = .ok a := by
  unfold optional at h
  split at h
  · cases h
  · obtain ⟨b, hb, hsome⟩ := map_eq_ok.mp h
    rw [hb, Option.some.inj hsome]

/-- Numbers of well-formed documents are finite as doubles. -/
theorem finite_of_double {o : Outline} {x : Double} (ho : o.ShowsWellFormed)
    (h : double o = .ok x) : x.isFinite = true := by
  obtain ⟨v, hv, rfl⟩ := ho
  cases v with
  | number n =>
    rw [← Except.ok.inj h]
    exact Number.isFinite_toDouble (Value.wellFormed_number.mp hv)
  | _ => simp [Value.outline, double, refuse, Outline.found] at h

end Decode

end TokenSheets.Json
