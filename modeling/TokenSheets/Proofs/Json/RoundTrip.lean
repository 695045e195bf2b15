/-
TokenSheets/Proofs/Json/RoundTrip.lean

Typed documents read back.

A record is written as an object with one member for each field, or none where a
field is left out.  Its reader checks the members against the form and then looks
them up.  For what was written both steps come down to one fact for each field:
what its reader makes of its member.  So a record reads back if its fields do
(`Form.entries_of_fits`), and so does a list of records (`Decode.list_map`).

`WritesBack` says the same in one place for readers that accept more than what
is written, such as those with defaults.
-/
import TokenSheets.Proofs.Json.Record
import TokenSheets.Proofs.Json.Written
import TokenSheets.Proofs.Time.Instant
import TokenSheets.Document.Effective

namespace TokenSheets.Json

open Outcome

/-! ### Texts -/

/-- A reader of a text that was written works on the value. -/
theorem decodeText_prettyText {α : Type} (d : Decoder α) {v : Value} (hv : v.WellFormed)
    (hdepth : v.depth < Scan.depthLimit) : decodeText d v.prettyText = d v.outline := by
  rw [decodeText, Value.prettyText, String.toList_ofList, outline_pretty hv hdepth]
  dsimp only
  cases d v.outline with
  | error e => rfl
  | ok a => rfl

/-! ### Records -/

namespace Form

variable {form : Form}

section Members

variable {k : String} {f : Field} {o : Outline} {rest : List (Except Fault String × Outline)}
variable {sofar : Entries} (hfield : form.field? k = some f) (hfresh : Table.has sofar k = false)
include hfield hfresh

/-- A member that fits its field is kept. -/
theorem fromMembers_cons_of_ok (hcheck : f.check o = .ok ()) :
    form.fromMembers ((.ok k, o) :: rest) sofar = form.fromMembers rest (sofar ++ [(k, o)]) := by
  rw [fromMembers, faulty, ok_bind]
  simp only [hfield, hfresh, Bool.false_eq_true, if_false]
  rw [hcheck, ok_bind]

/-- A member that does not fit is the end of it. -/
theorem fromMembers_cons_of_error {m : Mismatch} (hcheck : f.check o = .error m) :
    form.fromMembers ((.ok k, o) :: rest) sofar = .error m := by
  rw [fromMembers, faulty, ok_bind]
  simp only [hfield, hfresh, Bool.false_eq_true, if_false]
  rw [hcheck]
  rfl

end Members

/-- Members with fields are checked one by one and kept, whether the form is closed or not. -/
theorem fromMembers_of_fields {ms : Table Value} (hms : ms.keys.Nodup) {sofar : Entries}
    (hs : ∀ k ∈ ms.keys, k ∉ Table.keys sofar)
    (hfields : ∀ m ∈ ms, ∃ f, form.field? m.1 = some f ∧ f.check m.2.outline = .ok ()) :
    form.fromMembers (Value.outlineMembers ms) sofar = .ok (sofar ++ (Value.object ms).shown) := by
  induction ms generalizing sofar with
  | nil => simp [Value.outlineMembers, fromMembers, Value.shown]
  | cons m rest ih =>
    obtain ⟨k, w⟩ := m
    obtain ⟨⟨f, hfield, hcheck⟩, hrest⟩ := List.forall_mem_cons.mp hfields
    rw [Table.keys_cons, List.nodup_cons] at hms
    rw [Table.keys_cons, List.forall_mem_cons] at hs
    have hnew := Table.forall_notMem_keys_insert hms.1 hs.2 w.outline
    rw [Table.insert_of_notMem hs.1] at hnew
    have hfresh : Table.has sofar k = false := Table.has_eq_false_iff.mpr hs.1
    rw [Value.outlineMembers, fromMembers_cons_of_ok hfield hfresh hcheck, ih hms.2 hnew hrest]
    simp [Value.shown]

/-- The entries of an object with known keys where every field fits are its members. -/
theorem entries_of_fits (hnames : form.names.Nodup) {v : Value} (hv : v.WellFormed)
    (hkeys : v.HasOnly form.names) (hfits : ∀ f ∈ form.fields, f.Fits v) :
    form.entries v.outline = .ok v.shown := by
  obtain ⟨ms, rfl, hkeys⟩ := hkeys
  have hms := (Value.wellFormed_object.mp hv).1
  have hmembers := @fromMembers_of_fields form ms hms [] (by simp)
    ((forall_mem_field?_iff hnames hms).mpr ⟨hkeys, fun f hf => (hfits f hf).2⟩)
  rw [Value.outline, entries, hmembers, List.nil_append, ok_bind]
  simp only [faulty, endOf, ok_bind, absent?_shown_iff.mpr fun f hf => (hfits f hf).1]
  rfl

end Form

/-! ### Values -/

namespace Decode

theorem natural_number {bound n : Nat} (h : n < bound) (expected : String) :
    natural bound expected (Value.number (.int n)).outline = .ok n := by
  have hrange : (0 : Int) ≤ n ∧ (n : Int) < bound := by omega
  rw [Value.outline, natural, if_pos hrange, Int.toNat_natCast]

theorem text_string (s : String) : text (Value.string s).outline = .ok s := rfl

theorem instant_write {i : Instant} (hi : i.IsCommon) :
    instant (Value.string (String.ofList i.write)).outline = .ok i := by
  rw [Value.outline, instant, textAs, ok_bind, String.toList_ofList, Instant.read_write hi]
  rfl

theorem optional_some {α : Type} {d : Decoder α} {v : Value} {a : α} (hv : v ≠ .null)
    (h : d v.outline = .ok a) : optional d v.outline = .ok (some a) := by
  rw [optional_outline_of_ne d hv, h]
  rfl

/-- Items that read back make a list that does. -/
theorem items_map {α : Type} {d : Decoder α} {write : α → Value} {as : List α}
    (h : ∀ a ∈ as, d (write a).outline = .ok a) :
    items d (Value.outlines (as.map write)) = .ok as := by
  induction as with
  | nil => rfl
  | cons a rest ih =>
    obtain ⟨ha, hrest⟩ := List.forall_mem_cons.mp h
    rw [List.map_cons, Value.outlines, items, ha, ok_bind, ih hrest]
    rfl

theorem list_map {α : Type} {d : Decoder α} {write : α → Value} {as : List α}
    (h : ∀ a ∈ as, d (write a).outline = .ok a) :
    list d (Value.array (as.map write)).outline = .ok as := by
  rw [Value.outline, list, items_map h]
  rfl

end Decode

/-! ### Readers with their writers -/

/-- What the reader gives for a well-formed value can be written as a well-formed value, and what is
written so reads back.  The reader may accept other ways to write the same. -/
structure WritesBack {α : Type} (d : Decoder α) (write : α → Value) : Prop where
  wellFormed : ∀ {o a}, o.ShowsWellFormed → d o = .ok a → (write a).WellFormed
  reads : ∀ {a}, (write a).WellFormed → d (write a).outline = .ok a

namespace WritesBack

variable {α : Type} {d : Decoder α} {write : α → Value}

theorem boolean : WritesBack Decode.boolean .bool where
  wellFormed := fun _ _ => Value.wellFormed_bool _
  reads := fun _ => rfl

theorem text : WritesBack Decode.text .string where
  wellFormed := fun _ _ => Value.wellFormed_string _
  reads := fun _ => rfl

/-- Numbers of every kind are written as doubles. -/
theorem double : WritesBack Decode.double fun x => .number (.double x) where
  wellFormed := fun ho h => Value.wellFormed_number.mpr (Decode.finite_of_double ho h)
  reads := fun _ => rfl

/-- Nothing is written as `null`, which must not be how something is written. -/
theorem optional (h : WritesBack d write) (hwrite : ∀ a, write a ≠ .null) :
    WritesBack (Decode.optional d) fun a => a.elim .null write where
  wellFormed := by
    intro o a ho ha
    cases a with
    | none => exact Value.wellFormed_null
    | some a => exact h.wellFormed ho (Decode.optional_eq_some ha)
  reads := by
    intro a ha
    cases a with
    | none => rfl
    | some a => exact Decode.optional_some (hwrite a) (h.reads ha)

/-- Tables keep their order. -/
theorem table (h : WritesBack d write) :
    WritesBack (Decode.table d) fun t => .object (t.map fun e => (e.1, write e.2)) where
  wellFormed := by
    intro o t ho ht
    rw [Value.wellFormed_object, Table.keys_map_snd]
    refine ⟨Decode.nodup_keys_of_table ht, ?_⟩
    intro m hm
    obtain ⟨e, he, rfl⟩ := List.mem_map.mp hm
    obtain ⟨c, hc, hread⟩ := Decode.mem_of_table ht he
    exact h.wellFormed (ho.of_mem_parts hc) hread
  reads := by
    intro t ht
    obtain ⟨hnodup, hmembers⟩ := Value.wellFormed_object.mp ht
    rw [Decode.table_outline hnodup, List.forall₂_map_left_iff, List.forall₂_same]
    intro e he
    exact ⟨rfl, h.reads (hmembers _ (List.mem_map_of_mem he))⟩

end WritesBack

/-! ### Fields with their writers -/

namespace Form.Entries

variable {α : Type} {d : Decoder α} {write : α → Value} {name : String} {a : α}

/-- A field of a well-formed record can be written. -/
theorem wellFormed_of_get {form : Form} {o : Outline} {es : Entries} (hes : form.entries o = .ok es)
    (ho : o.ShowsWellFormed) (hd : WritesBack d write) (h : get es name d = .ok a) :
    (write a).WellFormed := by
  obtain ⟨o', hmem, ho'⟩ := get_eq_ok h
  exact hd.wellFormed (ho.of_mem_parts (Form.mem_parts_of_entries hes hmem)) ho'

/-- So can a field with a default that can be written. -/
theorem wellFormed_of_getD {form : Form} {o : Outline} {es : Entries}
    (hes : form.entries o = .ok es) (ho : o.ShowsWellFormed) (hd : WritesBack d write)
    {default : α} (h : getD es name d default = .ok a) (hdefault : (write default).WellFormed) :
    (write a).WellFormed := by
  rcases getD_eq_ok h with rfl | ⟨o', hmem, ho'⟩
  · exact hdefault
  · exact hd.wellFormed (ho.of_mem_parts (Form.mem_parts_of_entries hes hmem)) ho'

/-- A field that was written reads back. -/
theorem get_written {v : Value} (hv : v.WellFormed) (hd : WritesBack d write)
    (h : v.member? name = some (write a)) : get v.shown name d = .ok a :=
  get_shown.mpr ⟨_, h, hd.reads (hv.of_member? h)⟩

/-- It does so whatever its default is. -/
theorem getD_written {v : Value} (hv : v.WellFormed) (hd : WritesBack d write) {default : α}
    (h : v.member? name = some (write a)) : getD v.shown name d default = .ok a :=
  getD_shown.mpr (Or.inr ⟨_, h, hd.reads (hv.of_member? h)⟩)

end Form.Entries

end TokenSheets.Json
