/-
TokenSheets/Proofs/Json/Record.lean

Which values the typed readers accept.

A reader works on outlines, and most outlines are of texts that break off or go
wrong somewhere.  On the outline of a value nothing of this can happen, and what
a reader accepts is a condition on the value alone.  For a record it is the
condition that one would write down: an object with known keys only, where every
field that is there has its form, and every field that must be there is there
(`Form.entries_outline`).  A list in the place of a record is another way to
write it, which the condition leaves out.

The readers of a record look its fields up again after all of them have been
checked, so the look-ups are stated for the entries that the check lets through
(`Value.shown`): one lemma for a field that must be there, one for a field with a
default.
-/
import TokenSheets.Proofs.Json.Decode

namespace TokenSheets.Json

open Outcome

/-! ### Shapes of values -/

namespace Value

def IsFlag (v : Value) : Prop := ∃ b, v = .bool b

def IsText (v : Value) : Prop := ∃ s, v = .string s

def IsNumber (v : Value) : Prop := ∃ n, v = .number n

/-- `null`, or a value of a given shape. -/
def IsNullOr (P : Value → Prop) (v : Value) : Prop := v = .null ∨ P v

/-- A text that obeys a rule. -/
def IsTextWith (rule : String → Prop) (v : Value) : Prop := ∃ s, v = .string s ∧ rule s

/-- An object whose names obey a rule and whose members have a given shape. -/
def IsTable (rule : String → Prop) (P : Value → Prop) (v : Value) : Prop :=
  ∃ ms : Table Value, v = .object ms ∧ ∀ m ∈ ms, rule m.1 ∧ P m.2

/-- An object with no other keys than these. -/
def HasOnly (names : List String) (v : Value) : Prop :=
  ∃ ms : Table Value, v = .object ms ∧ ms.keys ⊆ names

/-- A member that must be there and have a given shape. -/
def Needs (v : Value) (key : String) (P : Value → Prop) : Prop :=
  ∃ w, v.member? key = some w ∧ P w

/-- A member that has a given shape if it is there. -/
def Allows (v : Value) (key : String) (P : Value → Prop) : Prop :=
  ∀ w, v.member? key = some w → P w

/-- The members of a well-formed value are well-formed. -/
theorem WellFormed.of_member? {v w : Value} (hv : v.WellFormed) {key : String}
    (h : v.member? key = some w) : w.WellFormed := by
  cases v with
  | object ms => exact hv.of_get? h
  | _ => cases h

/-- The members of an object as a reader sees them. -/
def shown : Value → Form.Entries
  | .object ms => ms.map fun m => (m.1, m.2.outline)
  | _ => []

theorem get?_shown (v : Value) (key : String) :
    Table.get? v.shown key = (v.member? key).map outline := by
  cases v with
  | object ms => exact Table.get?_map_snd ms (fun m => m.2.outline) key
  | _ => rfl

end Value

/-! ### Simple values -/

/-- A reader accepts a value and gives something with a given property. -/
def Reads {α : Type} (d : Decoder α) (G : α → Prop) (v : Value) : Prop :=
  ∃ a, d v.outline = .ok a ∧ G a

namespace Decode

variable {v : Value}

theorem text_outline {s : String} : text v.outline = .ok s ↔ v = .string s := by
  cases v with
  | string t => simp [Value.outline, text, textAs]
  | _ => simp [Value.outline, text, textAs, refuse_ne_ok]

theorem boolean_outline {b : Bool} : boolean v.outline = .ok b ↔ v = .bool b := by
  cases v with
  | bool c => simp [Value.outline, boolean]
  | _ => simp [Value.outline, boolean, refuse_ne_ok]

theorem reads_text : Reads text (fun _ => True) v ↔ v.IsText := by
  simp only [Reads, text_outline, Value.IsText, and_true]

theorem reads_textWith {rule : String → Prop} : Reads text rule v ↔ v.IsTextWith rule := by
  simp only [Reads, text_outline, Value.IsTextWith]

theorem reads_boolean : Reads boolean (fun _ => True) v ↔ v.IsFlag := by
  simp only [Reads, boolean_outline, Value.IsFlag, and_true]

theorem reads_double : Reads double (fun _ => True) v ↔ v.IsNumber := by
  cases v with
  | number n => simp [Reads, Value.outline, double, Value.IsNumber]
  | _ => simp [Reads, Value.outline, double, Value.IsNumber, refuse_ne_ok]

theorem outline_eq_null : v.outline = .null ↔ v = .null := by
  cases v <;> simp [Value.outline]

theorem optional_outline_of_ne {α : Type} (d : Decoder α) (h : v ≠ .null) :
    optional d v.outline = (d v.outline).map some := by
  rw [optional]
  intro hnull
  exact h (outline_eq_null.mp hnull)

/-- A value that may be `null` is read as nothing or as what its reader gives. -/
theorem reads_optional {α : Type} {d : Decoder α} {G : Option α → Prop} {P : Value → Prop}
    (hnone : G none) (h : Reads d (fun a => G (some a)) v ↔ P v) :
    Reads (optional d) G v ↔ v.IsNullOr P := by
  rw [Value.IsNullOr, ← h]
  by_cases hv : v = .null
  · subst hv
    exact ⟨fun _ => Or.inl rfl, fun _ => ⟨none, rfl, hnone⟩⟩
  · simp only [Reads, optional_outline_of_ne d hv, map_eq_ok, hv, false_or]
    constructor
    · rintro ⟨-, ⟨a, ha, rfl⟩, hG⟩
      exact ⟨a, ha, hG⟩
    · rintro ⟨a, ha, hG⟩
      exact ⟨some a, ⟨a, ha, rfl⟩, hG⟩

/-! ### Any value -/

theorem readItems_outlines {vs : List Value} (h : ∀ v ∈ vs, v.outline.read = .ok v) :
    Outline.readItems (Value.outlines vs) = .ok vs := by
  induction vs with
  | nil => rfl
  | cons v rest ih =>
    obtain ⟨hv, hrest⟩ := List.forall_mem_cons.mp h
    rw [Value.outlines, Outline.readItems, hv, ok_bind, ih hrest]
    rfl

theorem readMembers_outlineMembers {ms : Table Value} (hms : ms.keys.Nodup)
    (h : ∀ m ∈ ms, m.2.outline.read = .ok m.2) (sofar : Table Value)
    (hs : ∀ k ∈ ms.keys, k ∉ sofar.keys) :
    Outline.readMembers (Value.outlineMembers ms) sofar = .ok (sofar ++ ms) := by
  induction ms generalizing sofar with
  | nil => rw [Value.outlineMembers, Outline.readMembers, List.append_nil]
  | cons m rest ih =>
    obtain ⟨k, w⟩ := m
    rw [Table.keys_cons, List.nodup_cons] at hms
    rw [Table.keys_cons, List.forall_mem_cons] at hs
    obtain ⟨hw, hrest⟩ := List.forall_mem_cons.mp h
    have hnew := Table.forall_notMem_keys_insert hms.1 hs.2 w
    rw [Value.outlineMembers, Outline.readMembers, ok_bind, hw, ok_bind, ih hms.2 hrest _ hnew,
      Table.insert_of_notMem hs.1, List.append_assoc]
    rfl

/-- A value is what is read from its outline. -/
theorem read_outline (hv : v.WellFormed) : v.outline.read = .ok v := by
  induction hv with
  | null => rfl
  | bool b => rfl
  | number _ => rfl
  | string s => rfl
  | array _ ih =>
    rw [Value.outline, Outline.read, readItems_outlines ih]
    rfl
  | object hnodup _ ih =>
    rw [Value.outline, Outline.read, readMembers_outlineMembers hnodup ih [] (by simp)]
    rfl

theorem any_outline (hv : v.WellFormed) : any v.outline = .ok v := by
  rw [any, read_outline hv]
  rfl

/-! ### Collections -/

/-- Entries of new names are read one by one and appended. -/
theorem entries_outline {α : Type} {d : Decoder α} {ms : Table Value} (hms : ms.keys.Nodup)
    (sofar : Table α) (hs : ∀ k ∈ ms.keys, k ∉ sofar.keys) {t : Table α} :
    entries d (Value.outlineMembers ms) sofar = .ok t ↔
      ∃ t', t = sofar ++ t' ∧
        List.Forall₂ (fun m e => e.1 = m.1 ∧ d m.2.outline = .ok e.2) ms t' := by
  induction ms generalizing sofar with
  | nil =>
    rw [Value.outlineMembers, entries, Except.ok.injEq, eq_comm]
    simp
  | cons m rest ih =>
    obtain ⟨k, w⟩ := m
    rw [Table.keys_cons, List.nodup_cons] at hms
    rw [Table.keys_cons, List.forall_mem_cons] at hs
    have hnew := Table.forall_notMem_keys_insert hms.1 hs.2
    simp only [Value.outlineMembers, entries, faulty, ok_bind, bind_eq_ok]
    constructor
    · rintro ⟨a, ha, h⟩
      obtain ⟨t', rfl, ht'⟩ := (ih hms.2 _ (hnew a)).mp h
      refine ⟨(k, a) :: t', ?_, .cons ⟨rfl, ha⟩ ht'⟩
      rw [Table.insert_of_notMem hs.1, List.append_assoc]
      rfl
    · rintro ⟨t', rfl, ht'⟩
      cases ht' with
      | @cons _ e _ t' he ht' =>
        refine ⟨e.2, he.2, (ih hms.2 _ (hnew e.2)).mpr ⟨t', ?_, ht'⟩⟩
        rw [Table.insert_of_notMem hs.1, List.append_assoc]
        have hkey : e.1 = k := he.1
        rw [← hkey]
        rfl

/-- The entries of a table are the members in order, each as its reader gives it. -/
theorem table_outline {α : Type} {d : Decoder α} {ms : Table Value} (hms : ms.keys.Nodup)
    {t : Table α} :
    table d (Value.object ms).outline = .ok t ↔
      List.Forall₂ (fun m e => e.1 = m.1 ∧ d m.2.outline = .ok e.2) ms t := by
  rw [Value.outline, table]
  simp only [bind_eq_ok, pure_eq_ok, endOf, faulty, entries_outline hms [] (by simp),
    List.nil_append]
  simp

/-- A table is read if all of its members are, and its entries are those. -/
theorem reads_table {α : Type} {d : Decoder α} {v : Value} (hv : v.WellFormed)
    {rule : String → Prop} {G : α → Prop} {P : Value → Prop}
    (h : ∀ name w, v.member? name = some w → (Reads d G w ↔ P w)) :
    Reads (table d) (fun t => ∀ e ∈ t, rule e.1 ∧ G e.2) v ↔ v.IsTable rule P := by
  cases v with
  | object ms =>
    have hnodup := (Value.wellFormed_object.mp hv).1
    have hmembers : ∀ m ∈ ms, Reads d G m.2 ↔ P m.2 := fun m hm =>
      h m.1 m.2 (Table.get?_eq_some_of_mem hnodup hm)
    simp only [Reads, Value.IsTable, table_outline hnodup, Value.object.injEq, exists_eq_left']
    clear hv hnodup h
    induction ms with
    | nil => simp
    | cons m rest ih =>
      rw [List.forall_mem_cons] at hmembers ⊢
      rw [← hmembers.1, ← propext (ih hmembers.2)]
      constructor
      · rintro ⟨t, ht, hG⟩
        cases ht with
        | cons he hrest =>
          rw [List.forall_mem_cons, he.1] at hG
          exact ⟨⟨hG.1.1, _, he.2, hG.1.2⟩, _, hrest, hG.2⟩
      · rintro ⟨⟨hrule, a, ha, hG⟩, t, ht, hGt⟩
        exact ⟨(m.1, a) :: t, .cons ⟨rfl, ha⟩ ht, List.forall_mem_cons.mpr ⟨⟨hrule, hG⟩, hGt⟩⟩
  | _ => simp [Reads, Value.IsTable, Value.outline, table, refuse_ne_ok]

end Decode

/-! ### Records -/

/-- A value of a field: it is there if it must be, and it passes the check if it is there. -/
def Field.Fits (f : Field) (v : Value) : Prop :=
  (f.optional = false → v.member? f.name ≠ none) ∧
    v.Allows f.name fun w => f.check w.outline = .ok ()

namespace Form

variable {form : Form}

/-- Without repeated names every field is the one that its name finds. -/
theorem field?_of_mem (hnames : form.names.Nodup) {f : Field} (hf : f ∈ form.fields) :
    form.field? f.name = some f := by
  have hfind (fields : List Field) (hnodup : (fields.map (·.name)).Nodup) (hf : f ∈ fields) :
      fields.find? (·.name = f.name) = some f := by
    induction fields with
    | nil => cases hf
    | cons g gs ih =>
      rw [List.map_cons, List.nodup_cons] at hnodup
      rcases List.mem_cons.mp hf with rfl | hrest
      · simp
      · have hne : g.name ≠ f.name := by
          intro heq
          exact hnodup.1 (heq ▸ List.mem_map_of_mem hrest)
        rw [List.find?_cons_of_neg (by simpa using hne)]
        exact ih hnodup.2 hrest
  exact hfind form.fields hnames hf

theorem mem_of_field?_eq_some {k : String} {f : Field} (h : form.field? k = some f) :
    f ∈ form.fields ∧ f.name = k :=
  ⟨List.mem_of_find?_eq_some h, by simpa using List.find?_some h⟩

/-- Members of new names are checked one by one and appended. -/
theorem fromMembers_outline (hclosed : form.closed = true) {ms : Table Value}
    (hms : ms.keys.Nodup) {sofar es : Entries} (hs : ∀ k ∈ ms.keys, k ∉ Table.keys sofar) :
    form.fromMembers (Value.outlineMembers ms) sofar = .ok es ↔
      (∀ m ∈ ms, ∃ f, form.field? m.1 = some f ∧ f.check m.2.outline = .ok ()) ∧
        es = sofar ++ (Value.object ms).shown := by
  induction ms generalizing sofar with
  | nil => simp [Value.outlineMembers, fromMembers, Value.shown, eq_comm]
  | cons m rest ih =>
    obtain ⟨k, w⟩ := m
    rw [Table.keys_cons, List.nodup_cons] at hms
    rw [Table.keys_cons, List.forall_mem_cons] at hs
    have hnew := Table.forall_notMem_keys_insert hms.1 hs.2 w.outline
    rw [Table.insert_of_notMem hs.1] at hnew
    rw [Value.outlineMembers, fromMembers, List.forall_mem_cons, faulty, ok_bind]
    cases hfield : form.field? k with
    | none => simp [hclosed, bind_eq_ok, throw_ne_ok]
    | some f =>
      have hfresh : Table.has sofar k = false := Table.has_eq_false_iff.mpr hs.1
      simp only [hfresh, Bool.false_eq_true, if_false, Option.some.injEq, exists_eq_left']
      rw [bind_eq_ok]
      constructor
      · rintro ⟨⟨⟩, hcheck, h⟩
        obtain ⟨hrest, rfl⟩ := (ih hms.2 hnew).mp h
        exact ⟨⟨hcheck, hrest⟩, by simp [Value.shown]⟩
      · rintro ⟨⟨hcheck, hrest⟩, rfl⟩
        exact ⟨(), hcheck, (ih hms.2 hnew).mpr ⟨hrest, by simp [Value.shown]⟩⟩

/-- The members fit their fields if each field fits the members. -/
theorem forall_mem_field?_iff (hnames : form.names.Nodup) {ms : Table Value}
    (hms : ms.keys.Nodup) :
    (∀ m ∈ ms, ∃ f, form.field? m.1 = some f ∧ f.check m.2.outline = .ok ()) ↔
      ms.keys ⊆ form.names ∧
        ∀ f ∈ form.fields, (Value.object ms).Allows f.name fun w => f.check w.outline = .ok () := by
  constructor
  · intro h
    refine ⟨fun k hk => ?_, fun f hf w hw => ?_⟩
    · obtain ⟨m, hm, rfl⟩ := List.mem_map.mp hk
      obtain ⟨f, hfield, -⟩ := h m hm
      obtain ⟨hf, hname⟩ := mem_of_field?_eq_some hfield
      exact hname ▸ List.mem_map_of_mem hf
    · obtain ⟨f', hfield, hcheck⟩ := h (f.name, w) (Table.mem_of_get?_eq_some hw)
      rw [field?_of_mem hnames hf] at hfield
      rw [Option.some.inj hfield]
      exact hcheck
  · rintro ⟨hkeys, hfields⟩ ⟨k, w⟩ hm
    obtain ⟨f, hf, rfl⟩ := List.mem_map.mp (hkeys (Table.mem_keys_of_mem hm))
    refine ⟨f, field?_of_mem hnames hf, hfields f hf w ?_⟩
    exact Table.get?_eq_some_of_mem hms hm

theorem absent?_shown_iff {v : Value} :
    form.absent? v.shown = none ↔
      ∀ f ∈ form.fields, f.optional = false → v.member? f.name ≠ none := by
  have hhas (name : String) : Table.has v.shown name = false ↔ v.member? name = none := by
    rw [Table.has, Value.get?_shown]
    cases v.member? name <;> simp
  simp only [absent?, Option.map_eq_none_iff, List.find?_eq_none, Bool.and_eq_true,
    Bool.not_eq_true', hhas, not_and, Ne]

/-- The entries of a record are read from an object with known keys only where every field fits,
and they are its members. -/
theorem entries_outline (hclosed : form.closed = true) (hnames : form.names.Nodup) {v : Value}
    (hv : v.WellFormed) (hitems : ∀ items, v ≠ .array items) {es : Entries} :
    form.entries v.outline = .ok es ↔
      v.HasOnly form.names ∧ (∀ f ∈ form.fields, f.Fits v) ∧ es = v.shown := by
  cases v with
  | array items => exact absurd rfl (hitems items)
  | object ms =>
    have hnodup := (Value.wellFormed_object.mp hv).1
    have hmembers (es : Entries) :
        form.fromMembers (Value.outlineMembers ms) [] = .ok es ↔
          (Table.keys ms ⊆ form.names ∧ ∀ f ∈ form.fields,
            (Value.object ms).Allows f.name fun w => f.check w.outline = .ok ()) ∧
          es = (Value.object ms).shown := by
      rw [fromMembers_outline hclosed hnodup (by simp), forall_mem_field?_iff hnames hnodup,
        List.nil_append]
    rw [Value.outline, entries]
    simp only [bind_eq_ok, hmembers, faulty, endOf]
    constructor
    · rintro ⟨es', ⟨⟨hkeys, hallows⟩, rfl⟩, -, -, h⟩
      cases habsent : form.absent? (Value.object ms).shown with
      | some name => rw [habsent] at h; cases h
      | none =>
        rw [habsent] at h
        refine ⟨⟨ms, rfl, hkeys⟩, fun f hf => ⟨?_, hallows f hf⟩, (pure_eq_ok.mp h).symm⟩
        exact absent?_shown_iff.mp habsent f hf
    · rintro ⟨⟨ms', hms', hkeys⟩, hfits, rfl⟩
      obtain rfl := Value.object.inj hms'
      refine ⟨_, ⟨⟨hkeys, fun f hf => (hfits f hf).2⟩, rfl⟩, (), trivial, ?_⟩
      rw [absent?_shown_iff.mpr fun f hf => (hfits f hf).1]
      rfl
  | _ => simp [Value.outline, entries, refuse_ne_ok, Value.HasOnly]

namespace Entries

variable {α : Type} {v : Value} {name : String} {d : Decoder α}

/-- A field that must be there is read from its member. -/
theorem get_shown {a : α} :
    get v.shown name d = .ok a ↔ ∃ w, v.member? name = some w ∧ d w.outline = .ok a := by
  rw [get, Value.get?_shown]
  cases v.member? name <;> simp

/-- A field that may be absent is read from its member if there is one. -/
theorem getD_shown {default a : α} :
    getD v.shown name d default = .ok a ↔
      (v.member? name = none ∧ default = a) ∨
        ∃ w, v.member? name = some w ∧ d w.outline = .ok a := by
  rw [getD, Value.get?_shown]
  cases v.member? name <;> simp

theorem exists_get_iff {G : α → Prop} {P : Value → Prop}
    (h : ∀ w, v.member? name = some w → (Reads d G w ↔ P w)) :
    (∃ a, get v.shown name d = .ok a ∧ G a) ↔ v.Needs name P := by
  simp only [get_shown, Value.Needs]
  constructor
  · rintro ⟨a, ⟨w, hw, ha⟩, hG⟩
    exact ⟨w, hw, (h w hw).mp ⟨a, ha, hG⟩⟩
  · rintro ⟨w, hw, hP⟩
    obtain ⟨a, ha, hG⟩ := (h w hw).mpr hP
    exact ⟨a, ⟨w, hw, ha⟩, hG⟩

theorem exists_getD_iff {default : α} {G : α → Prop} {P : Value → Prop} (hdefault : G default)
    (h : ∀ w, v.member? name = some w → (Reads d G w ↔ P w)) :
    (∃ a, getD v.shown name d default = .ok a ∧ G a) ↔ v.Allows name P := by
  simp only [getD_shown, Value.Allows]
  cases hw : v.member? name with
  | none => simp [hdefault]
  | some w => simpa [Reads] using h w hw

/-- What can be read fits its field. -/
theorem fits_of_get {a : α} (h : get v.shown name d = .ok a) : (Field.required name d).Fits v := by
  obtain ⟨w, hw, ha⟩ := get_shown.mp h
  simp [Field.Fits, Value.Allows, Field.required, hw, ha, Except.map]

theorem fits_of_getD {a default : α} (h : getD v.shown name d default = .ok a) :
    (Field.defaulted name d).Fits v := by
  rcases getD_shown.mp h with ⟨hnone, -⟩ | ⟨w, hw, ha⟩
  · simp [Field.Fits, Value.Allows, Field.defaulted, hnone]
  · simp [Field.Fits, Value.Allows, Field.defaulted, hw, ha, Except.map]

end Entries

end Form

end TokenSheets.Json
