/-
TokenSheets/Proofs/Config/Acceptance.lean

Which documents are accepted.

`Config.Shape` writes down what a configuration document has to look like: the
keys of every section, the shape of every member, and the rules that texts and
names obey.  It speaks of the value alone and knows nothing of readers.  The
theorem is that acceptance is exactly that (`exists_ofValue_iff`), so nothing
slips through, be it a misspelt key or a mistyped member, and no document of the
right shape is turned away.

Acceptance is decided in two passes, a typed reading and then the rules, and the
rules see what was read and not the document.  So each section is taken through
both at once: `Reads d G v` says that the reader accepts the member and that what
it gives obeys the rules `G` of its section, and one lemma for each section turns
this into the shape of the member.  The one rule that hangs on another field, the
separator of breakpoints that are switched on, stays inside its section.

A list may stand for a record, with the fields in order; such documents are left
out by the condition on record positions.
-/
import Mathlib.Data.List.TakeWhile
import TokenSheets.Proofs.Json.Record
import TokenSheets.Proofs.Config.Accepted
import TokenSheets.Document.Effective

namespace TokenSheets

open Json Outcome

/-! ### Texts and names -/

/-- A letter, an underscore or a hyphen, then such characters and digits. -/
def IsClassPrefix (s : String) : Prop :=
  ∃ c cs, s.toList = c :: cs ∧ (c.isAlpha = true ∨ c = '_' ∨ c = '-') ∧
    ∀ d ∈ cs, d.isAlphanum = true ∨ d = '_' ∨ d = '-'

/-- One character that is not white space. -/
def IsOneVisible (s : String) : Prop := ∃ c, s.toList = [c] ∧ isBlank c = false

/-- Not all white space. -/
def IsVisible (s : String) : Prop := ∃ c ∈ s.toList, isBlank c = false

/-- A letter, then letters and digits. -/
def IsCamelName (s : String) : Prop :=
  ∃ c cs, s.toList = c :: cs ∧ c.isAlpha = true ∧ ∀ d ∈ cs, d.isAlphanum = true

/-- Lower-case letters and percent signs, at least one. -/
def IsUnitName (s : String) : Prop :=
  s.toList ≠ [] ∧ ∀ c ∈ s.toList, c.isLower = true ∨ c = '%'

theorem isName_iff {s : String} : isName s.toList = true ↔ IsClassPrefix s := by
  rw [IsClassPrefix]
  cases s.toList with
  | nil => simp [isName]
  | cons c cs => simp [isName, isNameStart, isNameChar, or_assoc]

theorem isSeparator_iff {s : String} : isSeparator s = true ↔ IsOneVisible s := by
  rw [isSeparator, IsOneVisible]
  split <;> simp_all

/-- Trimming leaves nothing of a text of blanks, and of no other. -/
theorem trim_eq_nil_iff {s : List Char} : trim s = [] ↔ ∀ c ∈ s, isBlank c = true := by
  rw [← List.dropWhile_eq_nil_iff, trim, trimStart]
  cases h : s.dropWhile isBlank with
  | nil => simp
  | cons c cs =>
    have hc : isBlank c = false := by
      have hhead := List.head?_dropWhile_not isBlank s
      rw [h] at hhead
      simpa using hhead
    simp [trimEnd_cons_of_not_blank hc]

theorem isBlankName_eq_false_iff {s : String} : isBlankName s = false ↔ IsVisible s := by
  rw [isBlankName, List.isEmpty_eq_false_iff, ne_eq, trim_eq_nil_iff, IsVisible]
  simp

theorem isUtilityName_iff {s : String} : Naming.isUtilityName s.toList = true ↔ IsCamelName s := by
  rw [IsCamelName]
  cases s.toList with
  | nil => simp [Naming.isUtilityName]
  | cons c cs => simp [Naming.isUtilityName]

theorem isMeasureUnit_iff {s : String} : isMeasureUnit s = true ↔ IsUnitName s := by
  simp [isMeasureUnit, IsUnitName]

/-! ### Shapes of the sections -/

def Token.Shape (v : Value) : Prop := v.IsText ∨ v.IsNumber

/-- The only section that takes any further members. -/
structure RootVars.Shape (v : Value) : Prop where
  object : ∃ ms, v = .object ms
  enabled : v.Allows "enabled" Value.IsFlag

structure Setup.Shape (v : Value) : Prop where
  keys : v.HasOnly ["prefix", "separator", "defaultFontSize", "rootVars"]
  classPrefix : v.Needs "prefix" (Value.IsTextWith IsClassPrefix)
  separator : v.Needs "separator" (Value.IsTextWith IsOneVisible)
  defaultFontSize : v.Needs "defaultFontSize" Token.Shape
  rootVars : v.Allows "rootVars" RootVars.Shape

structure BreakpointSettings.Shape (v : Value) : Prop where
  keys : v.HasOnly ["enabled", "separator", "breakpoints"]
  enabled : v.Allows "enabled" Value.IsFlag
  separator : v.Allows "separator" Value.IsText
  breakpoints : v.Allows "breakpoints" (Value.IsTable IsVisible Token.Shape)
  /-- The separator matters only where breakpoints are in use. -/
  visible : v.member? "enabled" = some (.bool true) →
    v.Allows "separator" (Value.IsTextWith IsOneVisible)

structure ColorSettings.Shape (v : Value) : Prop where
  keys : v.HasOnly ["enabled", "includeHTMLColors", "colors", "colorAlias"]
  enabled : v.Allows "enabled" Value.IsFlag
  includesNamed : v.Allows "includeHTMLColors" Value.IsFlag
  colors : v.Allows "colors" (Value.IsTable IsVisible Token.Shape)
  aliases : v.Allows "colorAlias" (Value.IsTable IsVisible Value.IsText)

structure SpacingSettings.Shape (v : Value) : Prop where
  keys : v.HasOnly ["enabled", "defaultSpacingValue", "spacements"]
  enabled : v.Allows "enabled" Value.IsFlag
  base : v.Allows "defaultSpacingValue" (Value.IsNullOr Value.IsText)
  factors : v.Allows "spacements" (Value.IsTable IsVisible Value.IsNumber)

structure Settings.Shape (v : Value) : Prop where
  keys : v.HasOnly ["breakpoints", "colors", "spacing"]
  breakpoints : v.Allows "breakpoints" BreakpointSettings.Shape
  colors : v.Allows "colors" ColorSettings.Shape
  spacing : v.Allows "spacing" SpacingSettings.Shape

structure UtilityDefinition.Shape (v : Value) : Prop where
  keys : v.HasOnly ["enabled", "initial", "rules", "measureUnit"]
  enabled : v.Allows "enabled" Value.IsFlag
  initial : v.Needs "initial" Token.Shape
  rules : v.Allows "rules" (Value.IsNullOr (Value.IsTable (fun _ => True) Token.Shape))
  measureUnit : v.Allows "measureUnit" (Value.IsNullOr (Value.IsTextWith IsUnitName))

structure UtilitiesDocument.Shape (v : Value) : Prop where
  keys : v.HasOnly ["enabled", "utilities"]
  enabled : v.Allows "enabled" Value.IsFlag
  utilities : v.Allows "utilities" (Value.IsTable IsCamelName UtilityDefinition.Shape)

/-- What a configuration document looks like. -/
structure Config.Shape (v : Value) : Prop where
  keys : v.HasOnly ["setup", "settings", "utilities"]
  setup : v.Needs "setup" Setup.Shape
  settings : v.Allows "settings" Settings.Shape
  utilities : v.Allows "utilities" UtilitiesDocument.Shape

/-! ### Records written as lists -/

/-- Where a document has a record of known fields. -/
inductive IsRecordPath : List String → Prop
  | root : IsRecordPath []
  | setup : IsRecordPath ["setup"]
  | settings : IsRecordPath ["settings"]
  | domain {name : String} (h : name ∈ ["breakpoints", "colors", "spacing"]) :
    IsRecordPath ["settings", name]
  | utilities : IsRecordPath ["utilities"]
  | definition (name : String) : IsRecordPath ["utilities", "utilities", name]

/-- No record is written as the list of its fields. -/
def Config.WritesObjects (v : Value) : Prop :=
  ∀ path, IsRecordPath path → ∀ items, Effective.descend v path ≠ some (.array items)

/-! ### Reading a section -/

section
variable {v : Value}

theorem Token.reads (hv : v.WellFormed) :
    Reads Token.decode (fun _ => True) v ↔ Token.Shape v := by
  rw [Reads, Token.decode, Decode.any_outline hv, ok_bind, Token.Shape, Value.IsText,
    Value.IsNumber]
  cases v <;> simp [pure_eq_ok, throw_ne_ok]

/-- What is not the main switch is taken as it is. -/
theorem RootVars.exists_decodeMembers_iff {ms : Table Value} (hms : ms.keys.Nodup)
    (hwf : ∀ m ∈ ms, m.2.WellFormed) (r : RootVars) {seen : Bool}
    (hseen : seen = true → "enabled" ∉ ms.keys) :
    (∃ r', decodeMembers (Value.outlineMembers ms) r seen = .ok r') ↔
      ∀ w, ms.get? "enabled" = some w → w.IsFlag := by
  induction ms generalizing r seen with
  | nil => simp [Value.outlineMembers, decodeMembers]
  | cons m rest ih =>
    obtain ⟨k, w⟩ := m
    rw [Table.keys_cons, List.nodup_cons] at hms
    obtain ⟨hw, hrest⟩ := List.forall_mem_cons.mp hwf
    rw [Value.outlineMembers, decodeMembers]
    simp only [faulty, ok_bind, Table.get?_cons]
    by_cases hk : k = "enabled"
    · subst hk
      have hfresh : seen = false := by
        cases seen with
        | false => rfl
        | true => simp at hseen
      have hlater : ∀ w', Table.get? rest "enabled" = some w' → w'.IsFlag := by
        intro w' hw'
        exact absurd (Table.mem_keys_of_mem (Table.mem_of_get?_eq_some hw')) hms.1
      simp only [hfresh, if_true, Bool.false_eq_true, if_false, Option.some.injEq,
        forall_eq']
      constructor
      · rintro ⟨r', h⟩
        obtain ⟨b, hb, -⟩ := bind_eq_ok.mp h
        exact ⟨b, Decode.boolean_outline.mp hb⟩
      · rintro ⟨b, rfl⟩
        exact (ih hms.2 hrest _ fun _ => hms.1).mpr hlater
    · simp only [hk, if_false, Decode.any_outline hw, ok_bind]
      exact ih hms.2 hrest _ fun h => List.not_mem_of_not_mem_cons (hseen h)

theorem RootVars.reads (hv : v.WellFormed) :
    Reads RootVars.decode (fun _ => True) v ↔ RootVars.Shape v := by
  constructor
  · rintro ⟨r, hr, -⟩
    cases v with
    | object ms =>
      obtain ⟨hnodup, hmembers⟩ := Value.wellFormed_object.mp hv
      rw [Value.outline, RootVars.decode] at hr
      obtain ⟨r', hr', -⟩ := bind_eq_ok.mp hr
      exact ⟨⟨ms, rfl⟩, (exists_decodeMembers_iff hnodup hmembers .off (by simp)).mp ⟨r', hr'⟩⟩
    | _ => simp [Value.outline, RootVars.decode, refuse_ne_ok] at hr
  · rintro ⟨⟨ms, rfl⟩, henabled⟩
    obtain ⟨hnodup, hmembers⟩ := Value.wellFormed_object.mp hv
    have hfresh : false = true → "enabled" ∉ Table.keys ms := fun h => absurd h Bool.false_ne_true
    obtain ⟨r, hr⟩ := (exists_decodeMembers_iff hnodup hmembers .off hfresh).mpr henabled
    exact ⟨r, by rw [Value.outline, RootVars.decode, hr]; rfl, trivial⟩

/-! ### Reading fields -/

open Form.Entries

theorem flag_iff {name : String} :
    (∃ b, getD v.shown name Decode.boolean false = .ok b ∧ True) ↔ v.Allows name Value.IsFlag :=
  exists_getD_iff trivial fun _ _ => Decode.reads_boolean

/-- A section is switched on by its member alone. -/
theorem enabled_iff {e : Bool} (he : getD v.shown "enabled" Decode.boolean false = .ok e) :
    e = true ↔ v.member? "enabled" = some (.bool true) := by
  rcases getD_shown.mp he with ⟨hnone, rfl⟩ | ⟨w, hw, hread⟩
  · simp [hnone]
  · rw [hw, Decode.boolean_outline.mp hread]
    simp

variable (hv : v.WellFormed)
include hv

/-- A table whose names obey a rule. -/
theorem names_iff {α : Type} {d : Decoder α} {name : String} {rule : String → Prop}
    {P : Value → Prop} (h : ∀ w, w.WellFormed → (Reads d (fun _ => True) w ↔ P w)) :
    (∃ t, getD v.shown name (Decode.table d) [] = .ok t ∧ ∀ n ∈ Table.keys t, rule n) ↔
      v.Allows name (Value.IsTable rule P) := by
  refine exists_getD_iff (by simp) fun w hw => ?_
  have hwf := hv.of_member? hw
  rw [← Decode.reads_table hwf fun _ _ hmember => h _ (hwf.of_member? hmember)]
  simp [Table.keys]

/-! ### Reading the sections -/

/-- The rules for the setup. -/
def Setup.Obeys (s : Setup) : Prop := IsClassPrefix s.classPrefix ∧ IsOneVisible s.separator

theorem Setup.reads (hitems : ∀ items, v ≠ .array items) :
    Reads Setup.decode Setup.Obeys v ↔ Setup.Shape v := by
  have hentries (es : Form.Entries) :=
    @Form.entries_outline Setup.form rfl (by decide) v hv hitems es
  simp only [Reads, Setup.decode, bind_eq_ok, pure_eq_ok, hentries]
  constructor
  · rintro ⟨s, ⟨es, ⟨hkeys, -, rfl⟩, a, ha, b, hb, c, hc, r, hr, rfl⟩, hclasses, hseparator⟩
    exact {
      keys := hkeys
      classPrefix := (exists_get_iff fun _ _ => Decode.reads_textWith).mp ⟨a, ha, hclasses⟩
      separator := (exists_get_iff fun _ _ => Decode.reads_textWith).mp ⟨b, hb, hseparator⟩
      defaultFontSize :=
        (exists_get_iff fun _ hw => Token.reads (hv.of_member? hw)).mp ⟨c, hc, trivial⟩
      rootVars :=
        (exists_getD_iff trivial fun _ hw => RootVars.reads (hv.of_member? hw)).mp
          ⟨r, hr, trivial⟩ }
  · intro h
    obtain ⟨a, ha, hclasses⟩ := (exists_get_iff fun _ _ => Decode.reads_textWith).mpr h.classPrefix
    obtain ⟨b, hb, hseparator⟩ := (exists_get_iff fun _ _ => Decode.reads_textWith).mpr h.separator
    obtain ⟨c, hc, -⟩ :=
      (exists_get_iff fun _ hw => Token.reads (hv.of_member? hw)).mpr h.defaultFontSize
    obtain ⟨r, hr, -⟩ :=
      (exists_getD_iff trivial fun _ hw => RootVars.reads (hv.of_member? hw)).mpr h.rootVars
    refine ⟨_, ⟨_, ⟨h.keys, ?_, rfl⟩, a, ha, b, hb, c, hc, r, hr, rfl⟩, hclasses, hseparator⟩
    simpa [Setup.form, sectionForm] using
      ⟨fits_of_get ha, fits_of_get hb, fits_of_get hc, fits_of_getD hr⟩

/-- The rules for breakpoints. -/
def BreakpointSettings.Obeys (b : BreakpointSettings) : Prop :=
  (b.enabled = true → IsOneVisible b.separator) ∧ ∀ n ∈ b.breakpoints.keys, IsVisible n

theorem BreakpointSettings.reads (hitems : ∀ items, v ≠ .array items) :
    Reads BreakpointSettings.decode BreakpointSettings.Obeys v ↔ BreakpointSettings.Shape v := by
  have hentries (es : Form.Entries) :=
    @Form.entries_outline BreakpointSettings.form rfl (by decide) v hv hitems es
  have hdefault : IsOneVisible "@" := ⟨'@', rfl, by decide⟩
  simp only [Reads, BreakpointSettings.decode, bind_eq_ok, pure_eq_ok, hentries]
  constructor
  · rintro ⟨s, ⟨es, ⟨hkeys, -, rfl⟩, e, he, a, ha, t, ht, rfl⟩, hvisible, hnames⟩
    exact {
      keys := hkeys
      enabled := flag_iff.mp ⟨e, he, trivial⟩
      separator := (exists_getD_iff trivial fun _ _ => Decode.reads_text).mp ⟨a, ha, trivial⟩
      breakpoints := (names_iff hv fun _ => Token.reads).mp ⟨t, ht, hnames⟩
      visible := fun hon =>
        (exists_getD_iff hdefault fun _ _ => Decode.reads_textWith).mp
          ⟨a, ha, hvisible ((enabled_iff he).mpr hon)⟩ }
  · intro h
    obtain ⟨e, he, -⟩ := flag_iff.mpr h.enabled
    obtain ⟨a, ha, -⟩ := (exists_getD_iff trivial fun _ _ => Decode.reads_text).mpr h.separator
    obtain ⟨t, ht, hnames⟩ := (names_iff hv fun _ => Token.reads).mpr h.breakpoints
    refine ⟨_, ⟨_, ⟨h.keys, ?_, rfl⟩, e, he, a, ha, t, ht, rfl⟩, fun hon => ?_, hnames⟩
    · simpa [BreakpointSettings.form, sectionForm] using
        ⟨fits_of_getD he, fits_of_getD ha, fits_of_getD ht⟩
    · -- the separator is looked up once more, now with its rule
      obtain ⟨a', ha', hvisible⟩ :=
        (exists_getD_iff hdefault fun _ _ => Decode.reads_textWith).mpr
          (h.visible ((enabled_iff he).mp hon))
      rw [ha] at ha'
      rw [Except.ok.inj ha']
      exact hvisible

/-- The rules for colors. -/
def ColorSettings.Obeys (c : ColorSettings) : Prop :=
  (∀ n ∈ c.colors.keys, IsVisible n) ∧ ∀ n ∈ c.aliases.keys, IsVisible n

theorem ColorSettings.reads (hitems : ∀ items, v ≠ .array items) :
    Reads ColorSettings.decode ColorSettings.Obeys v ↔ ColorSettings.Shape v := by
  have hentries (es : Form.Entries) :=
    @Form.entries_outline ColorSettings.form rfl (by decide) v hv hitems es
  simp only [Reads, ColorSettings.decode, bind_eq_ok, pure_eq_ok, hentries]
  constructor
  · rintro ⟨s, ⟨es, ⟨hkeys, -, rfl⟩, e, he, n, hn, t, ht, a, ha, rfl⟩, hcolors, haliases⟩
    exact {
      keys := hkeys
      enabled := flag_iff.mp ⟨e, he, trivial⟩
      includesNamed := flag_iff.mp ⟨n, hn, trivial⟩
      colors := (names_iff hv fun _ => Token.reads).mp ⟨t, ht, hcolors⟩
      aliases := (names_iff hv fun _ _ => Decode.reads_text).mp ⟨a, ha, haliases⟩ }
  · intro h
    obtain ⟨e, he, -⟩ := flag_iff.mpr h.enabled
    obtain ⟨n, hn, -⟩ := flag_iff.mpr h.includesNamed
    obtain ⟨t, ht, hcolors⟩ := (names_iff hv fun _ => Token.reads).mpr h.colors
    obtain ⟨a, ha, haliases⟩ := (names_iff hv fun _ _ => Decode.reads_text).mpr h.aliases
    refine ⟨_, ⟨_, ⟨h.keys, ?_, rfl⟩, e, he, n, hn, t, ht, a, ha, rfl⟩, hcolors, haliases⟩
    simpa [ColorSettings.form, sectionForm] using
      ⟨fits_of_getD he, fits_of_getD hn, fits_of_getD ht, fits_of_getD ha⟩

/-- The rules for spacing. -/
def SpacingSettings.Obeys (s : SpacingSettings) : Prop := ∀ n ∈ s.factors.keys, IsVisible n

theorem SpacingSettings.reads (hitems : ∀ items, v ≠ .array items) :
    Reads SpacingSettings.decode SpacingSettings.Obeys v ↔ SpacingSettings.Shape v := by
  have hentries (es : Form.Entries) :=
    @Form.entries_outline SpacingSettings.form rfl (by decide) v hv hitems es
  have hbase (w : Value) : Reads (Decode.optional Decode.text) (fun _ => True) w ↔
      w.IsNullOr Value.IsText :=
    Decode.reads_optional trivial Decode.reads_text
  simp only [Reads, SpacingSettings.decode, bind_eq_ok, pure_eq_ok, hentries]
  constructor
  · rintro ⟨s, ⟨es, ⟨hkeys, -, rfl⟩, e, he, b, hb, t, ht, rfl⟩, hnames⟩
    exact {
      keys := hkeys
      enabled := flag_iff.mp ⟨e, he, trivial⟩
      base := (exists_getD_iff trivial fun w _ => hbase w).mp ⟨b, hb, trivial⟩
      factors := (names_iff hv fun _ _ => Decode.reads_double).mp ⟨t, ht, hnames⟩ }
  · intro h
    obtain ⟨e, he, -⟩ := flag_iff.mpr h.enabled
    obtain ⟨b, hb, -⟩ := (exists_getD_iff trivial fun w _ => hbase w).mpr h.base
    obtain ⟨t, ht, hnames⟩ := (names_iff hv fun _ _ => Decode.reads_double).mpr h.factors
    refine ⟨_, ⟨_, ⟨h.keys, ?_, rfl⟩, e, he, b, hb, t, ht, rfl⟩, hnames⟩
    simpa [SpacingSettings.form, sectionForm] using
      ⟨fits_of_getD he, fits_of_getD hb, fits_of_getD ht⟩

/-- The rules for the settings are those for the domains. -/
def Settings.Obeys (s : Settings) : Prop :=
  s.breakpoints.Obeys ∧ s.colors.Obeys ∧ s.spacing.Obeys

omit hv in
/-- What is left out breaks no rule. -/
theorem Settings.obeys_off : Settings.Obeys .off := by
  simp [Settings.Obeys, Settings.off, BreakpointSettings.Obeys, BreakpointSettings.off,
    ColorSettings.Obeys, ColorSettings.off, SpacingSettings.Obeys, SpacingSettings.off]

theorem Settings.reads (hitems : ∀ items, v ≠ .array items)
    (hdomains : ∀ name ∈ ["breakpoints", "colors", "spacing"], ∀ items,
      v.member? name ≠ some (.array items)) :
    Reads Settings.decode Settings.Obeys v ↔ Settings.Shape v := by
  have hentries (es : Form.Entries) :=
    @Form.entries_outline Settings.form rfl (by decide) v hv hitems es
  have hdomain {name : String} (hname : name ∈ ["breakpoints", "colors", "spacing"]) {w : Value}
      (hw : v.member? name = some w) (items : List Value) : w ≠ .array items := by
    rintro rfl
    exact hdomains name hname items hw
  obtain ⟨hbreakpoints, hcolors, hspacing⟩ := Settings.obeys_off
  simp only [Reads, Settings.decode, bind_eq_ok, pure_eq_ok, hentries]
  constructor
  · rintro ⟨s, ⟨es, ⟨hkeys, -, rfl⟩, b, hb, c, hc, p, hp, rfl⟩, hbrules, hcrules, hprules⟩
    exact {
      keys := hkeys
      breakpoints :=
        (exists_getD_iff hbreakpoints fun _ hw =>
          BreakpointSettings.reads (hv.of_member? hw) (hdomain (by simp) hw)).mp ⟨b, hb, hbrules⟩
      colors :=
        (exists_getD_iff hcolors fun _ hw =>
          ColorSettings.reads (hv.of_member? hw) (hdomain (by simp) hw)).mp ⟨c, hc, hcrules⟩
      spacing :=
        (exists_getD_iff hspacing fun _ hw =>
          SpacingSettings.reads (hv.of_member? hw) (hdomain (by simp) hw)).mp ⟨p, hp, hprules⟩ }
  · intro h
    obtain ⟨b, hb, hbrules⟩ :=
      (exists_getD_iff hbreakpoints fun _ hw =>
        BreakpointSettings.reads (hv.of_member? hw) (hdomain (by simp) hw)).mpr h.breakpoints
    obtain ⟨c, hc, hcrules⟩ :=
      (exists_getD_iff hcolors fun _ hw =>
        ColorSettings.reads (hv.of_member? hw) (hdomain (by simp) hw)).mpr h.colors
    obtain ⟨p, hp, hprules⟩ :=
      (exists_getD_iff hspacing fun _ hw =>
        SpacingSettings.reads (hv.of_member? hw) (hdomain (by simp) hw)).mpr h.spacing
    refine ⟨_, ⟨_, ⟨h.keys, ?_, rfl⟩, b, hb, c, hc, p, hp, rfl⟩, hbrules, hcrules, hprules⟩
    simpa [Settings.form, sectionForm] using
      ⟨fits_of_getD hb, fits_of_getD hc, fits_of_getD hp⟩

/-- The rule for a definition. -/
def UtilityDefinition.Obeys (d : UtilityDefinition) : Prop :=
  ∀ u, d.measureUnit = some u → IsUnitName u

theorem UtilityDefinition.reads (hitems : ∀ items, v ≠ .array items) :
    Reads UtilityDefinition.decode UtilityDefinition.Obeys v ↔ UtilityDefinition.Shape v := by
  have hentries (es : Form.Entries) :=
    @Form.entries_outline UtilityDefinition.form rfl (by decide) v hv hitems es
  have hrules (w : Value) (hw : w.WellFormed) :
      Reads (Decode.optional (Decode.table Token.decode)) (fun _ => True) w ↔
        w.IsNullOr (Value.IsTable (fun _ => True) Token.Shape) := by
    refine Decode.reads_optional trivial ?_
    rw [← Decode.reads_table hw fun _ _ hmember => Token.reads (hw.of_member? hmember)]
    simp
  have hunit (w : Value) :
      Reads (Decode.optional Decode.text) (fun o => ∀ u, o = some u → IsUnitName u) w ↔
        w.IsNullOr (Value.IsTextWith IsUnitName) := by
    refine Decode.reads_optional nofun ?_
    rw [← Decode.reads_textWith]
    simp
  have hnone : ∀ u, (none : Option String) = some u → IsUnitName u := nofun
  simp only [Reads, UtilityDefinition.decode, bind_eq_ok, pure_eq_ok, hentries]
  constructor
  · rintro ⟨d, ⟨es, ⟨hkeys, -, rfl⟩, e, he, i, hi, r, hr, m, hm, rfl⟩, hname⟩
    exact {
      keys := hkeys
      enabled := flag_iff.mp ⟨e, he, trivial⟩
      initial := (exists_get_iff fun _ hw => Token.reads (hv.of_member? hw)).mp ⟨i, hi, trivial⟩
      rules :=
        (exists_getD_iff trivial fun w hw => hrules w (hv.of_member? hw)).mp ⟨r, hr, trivial⟩
      measureUnit := (exists_getD_iff hnone fun w _ => hunit w).mp ⟨m, hm, hname⟩ }
  · intro h
    obtain ⟨e, he, -⟩ := flag_iff.mpr h.enabled
    obtain ⟨i, hi, -⟩ :=
      (exists_get_iff fun _ hw => Token.reads (hv.of_member? hw)).mpr h.initial
    obtain ⟨r, hr, -⟩ :=
      (exists_getD_iff trivial fun w hw => hrules w (hv.of_member? hw)).mpr h.rules
    obtain ⟨m, hm, hname⟩ := (exists_getD_iff hnone fun w _ => hunit w).mpr h.measureUnit
    refine ⟨_, ⟨_, ⟨h.keys, ?_, rfl⟩, e, he, i, hi, r, hr, m, hm, rfl⟩, hname⟩
    simpa [UtilityDefinition.form, sectionForm] using
      ⟨fits_of_getD he, fits_of_get hi, fits_of_getD hr, fits_of_getD hm⟩

/-- The rules for the utilities. -/
def UtilitiesDocument.Obeys (u : UtilitiesDocument) : Prop :=
  ∀ e ∈ u.utilities, IsCamelName e.1 ∧ e.2.Obeys

theorem UtilitiesDocument.reads (hitems : ∀ items, v ≠ .array items)
    (hdefinitions : ∀ name items, Effective.descend v ["utilities", name] ≠ some (.array items)) :
    Reads UtilitiesDocument.decode UtilitiesDocument.Obeys v ↔ UtilitiesDocument.Shape v := by
  have hentries (es : Form.Entries) :=
    @Form.entries_outline UtilitiesDocument.form rfl (by decide) v hv hitems es
  have htable (w : Value) (hw : v.member? "utilities" = some w) :
      Reads (Decode.table UtilityDefinition.decode)
          (fun t => ∀ e ∈ t, IsCamelName e.1 ∧ e.2.Obeys) w ↔
        w.IsTable IsCamelName UtilityDefinition.Shape := by
    have hwf := hv.of_member? hw
    refine Decode.reads_table hwf fun name w' hmember => ?_
    refine UtilityDefinition.reads (hwf.of_member? hmember) ?_
    rintro items rfl
    refine hdefinitions name items ?_
    simp [Effective.descend, hw, hmember]
  have hempty : ∀ e ∈ ([] : Table UtilityDefinition), IsCamelName e.1 ∧ e.2.Obeys := nofun
  simp only [Reads, UtilitiesDocument.decode, bind_eq_ok, pure_eq_ok, hentries]
  constructor
  · rintro ⟨u, ⟨es, ⟨hkeys, -, rfl⟩, e, he, t, ht, rfl⟩, hrules⟩
    exact {
      keys := hkeys
      enabled := flag_iff.mp ⟨e, he, trivial⟩
      utilities := (exists_getD_iff hempty htable).mp ⟨t, ht, hrules⟩ }
  · intro h
    obtain ⟨e, he, -⟩ := flag_iff.mpr h.enabled
    obtain ⟨t, ht, hrules⟩ := (exists_getD_iff hempty htable).mpr h.utilities
    refine ⟨_, ⟨_, ⟨h.keys, ?_, rfl⟩, e, he, t, ht, rfl⟩, hrules⟩
    simpa [UtilitiesDocument.form, sectionForm] using ⟨fits_of_getD he, fits_of_getD ht⟩

/-- The rules for a document. -/
def ConfigDocument.Obeys (d : ConfigDocument) : Prop :=
  d.setup.Obeys ∧ d.settings.Obeys ∧ d.utilities.Obeys

theorem ConfigDocument.reads (hobjects : Config.WritesObjects v) :
    Reads ConfigDocument.decode ConfigDocument.Obeys v ↔ Config.Shape v := by
  have hitems : ∀ items, v ≠ .array items := by
    rintro items rfl
    exact hobjects [] .root items rfl
  have hentries (es : Form.Entries) :=
    @Form.entries_outline ConfigDocument.form rfl (by decide) v hv hitems es
  have hmember {name : String} (hpath : IsRecordPath [name]) {w : Value}
      (hw : v.member? name = some w) (items : List Value) : w ≠ .array items := by
    rintro rfl
    refine hobjects [name] hpath items ?_
    simp [Effective.descend, hw]
  have hsetup (w : Value) (hw : v.member? "setup" = some w) :
      Reads Setup.decode Setup.Obeys w ↔ Setup.Shape w :=
    Setup.reads (hv.of_member? hw) (hmember .setup hw)
  have hsettings (w : Value) (hw : v.member? "settings" = some w) :
      Reads Settings.decode Settings.Obeys w ↔ Settings.Shape w := by
    refine Settings.reads (hv.of_member? hw) (hmember .settings hw) fun name hname items h => ?_
    refine hobjects ["settings", name] (.domain hname) items ?_
    simp [Effective.descend, hw, h]
  have hutilities (w : Value) (hw : v.member? "utilities" = some w) :
      Reads UtilitiesDocument.decode UtilitiesDocument.Obeys w ↔ UtilitiesDocument.Shape w := by
    refine UtilitiesDocument.reads (hv.of_member? hw) (hmember .utilities hw)
      fun name items h => ?_
    refine hobjects ["utilities", "utilities", name] (.definition name) items ?_
    rw [Effective.descend, hw]
    exact h
  have hempty : UtilitiesDocument.Obeys ⟨false, []⟩ := nofun
  simp only [Reads, ConfigDocument.decode, bind_eq_ok, pure_eq_ok, hentries]
  constructor
  · rintro ⟨d, ⟨es, ⟨hkeys, -, rfl⟩, s, hs, t, ht, u, hu, rfl⟩, hsrules, htrules, hurules⟩
    exact {
      keys := hkeys
      setup := (exists_get_iff hsetup).mp ⟨s, hs, hsrules⟩
      settings := (exists_getD_iff Settings.obeys_off hsettings).mp ⟨t, ht, htrules⟩
      utilities := (exists_getD_iff hempty hutilities).mp ⟨u, hu, hurules⟩ }
  · intro h
    obtain ⟨s, hs, hsrules⟩ := (exists_get_iff hsetup).mpr h.setup
    obtain ⟨t, ht, htrules⟩ := (exists_getD_iff Settings.obeys_off hsettings).mpr h.settings
    obtain ⟨u, hu, hurules⟩ := (exists_getD_iff hempty hutilities).mpr h.utilities
    refine ⟨_, ⟨_, ⟨h.keys, ?_, rfl⟩, s, hs, t, ht, u, hu, rfl⟩, hsrules, htrules, hurules⟩
    simpa [ConfigDocument.form, sectionForm] using
      ⟨fits_of_get hs, fits_of_getD ht, fits_of_getD hu⟩

end

/-! ### Both passes -/

theorem Utility.exists_ofDefinition_iff {name : String} {d : UtilityDefinition} :
    (∃ u, Utility.ofDefinition name d = .ok u) ↔ IsCamelName name ∧ d.Obeys := by
  rw [← isUtilityName_iff, Utility.ofDefinition, UtilityDefinition.Obeys]
  cases hname : Naming.isUtilityName name.toList with
  | false => simp
  | true =>
    cases hunit : d.measureUnit with
    | none => simp
    | some u => cases hu : isMeasureUnit u <;> simp [← isMeasureUnit_iff, hu]

theorem exists_utilitiesOf_iff {t : Table UtilityDefinition} :
    (∃ us, utilitiesOf t = .ok us) ↔ ∀ e ∈ t, IsCamelName e.1 ∧ e.2.Obeys := by
  induction t with
  | nil => simp [utilitiesOf]
  | cons e rest ih =>
    obtain ⟨name, d⟩ := e
    rw [List.forall_mem_cons, ← ih, ← Utility.exists_ofDefinition_iff]
    simp only [utilitiesOf, bind_eq_ok, pure_eq_ok]
    constructor
    · rintro ⟨-, u, hu, us, hus, -⟩
      exact ⟨⟨u, hu⟩, us, hus⟩
    · rintro ⟨⟨u, hu⟩, us, hus⟩
      exact ⟨_, u, hu, us, hus, rfl⟩

theorem Config.violation?_eq_none_iff {c : Config} :
    c.violation? = none ↔ c.setup.Obeys ∧ c.settings.Obeys := by
  have hnames : (∀ n ∈ c.settings.names, isBlankName n = false) ↔
      (∀ n ∈ c.settings.breakpoints.breakpoints.keys, IsVisible n) ∧
        c.settings.colors.Obeys ∧ c.settings.spacing.Obeys := by
    simp only [Settings.names, List.forall_mem_append, isBlankName_eq_false_iff,
      ColorSettings.Obeys, SpacingSettings.Obeys, and_assoc]
  rw [Setup.Obeys, Settings.Obeys, BreakpointSettings.Obeys, ← isName_iff, ← isSeparator_iff,
    ← isSeparator_iff]
  constructor
  · intro h
    obtain ⟨hclasses, hseparator, hbreakpoints, hvisible⟩ := rules_of_violation?_eq_none h
    obtain ⟨hb, hc, hp⟩ := hnames.mp hvisible
    exact ⟨⟨hclasses, hseparator⟩, ⟨hbreakpoints, hb⟩, hc, hp⟩
  · rintro ⟨⟨hclasses, hseparator⟩, ⟨hbreakpoints, hb⟩, hc, hp⟩
    have hvisible := hnames.mpr ⟨hb, hc, hp⟩
    have hany : c.settings.names.any isBlankName = false := by simpa using hvisible
    have hon : (c.settings.breakpoints.enabled &&
        !isSeparator c.settings.breakpoints.separator) = false := by
      cases he : c.settings.breakpoints.enabled with
      | false => rfl
      | true => simp [hbreakpoints he]
    simp [violation?, hclasses, hseparator, hon, hany]

/-- The rules are checked in two places, which together ask for all of them. -/
theorem Config.exists_ofValue_iff_reads {v : Value} :
    (∃ c, Config.ofValue v = .ok c) ↔ Reads ConfigDocument.decode ConfigDocument.Obeys v := by
  constructor
  · rintro ⟨c, hc⟩
    obtain ⟨d, us, hd, hus, rfl, hnone⟩ := parts_of_ofValue hc
    obtain ⟨hsetup, hsettings⟩ := violation?_eq_none_iff.mp hnone
    exact ⟨d, hd, hsetup, hsettings, exists_utilitiesOf_iff.mp ⟨us, hus⟩⟩
  · rintro ⟨d, hd, hsetup, hsettings, hutilities⟩
    obtain ⟨us, hus⟩ := exists_utilitiesOf_iff.mpr hutilities
    have hnone : (⟨d.setup, d.settings, ⟨d.utilities.enabled, us⟩⟩ : Config).violation? = none :=
      violation?_eq_none_iff.mpr ⟨hsetup, hsettings⟩
    refine ⟨⟨d.setup, d.settings, ⟨d.utilities.enabled, us⟩⟩, ?_⟩
    simp only [ofValue, hd, hus, Except.mapError, ok_bind, hnone]
    rfl

/-! ### The result -/

/-- **Which documents are accepted.**  A document that writes its records as objects is accepted
exactly if it has the shape of a configuration: known keys only outside `rootVars`, nothing
missing that must be there, every member of its type, and every text and name within its rule. -/
theorem Config.exists_ofValue_iff {v : Value} (hv : v.WellFormed) (hobjects : WritesObjects v) :
    (∃ c, Config.ofValue v = .ok c) ↔ Config.Shape v := by
  rw [exists_ofValue_iff_reads, ConfigDocument.reads hv hobjects]

/-- The small document has the shape, since it is accepted. -/
theorem Config.shape_sampleDocument :
    sampleDocument.WellFormed ∧ WritesObjects sampleDocument ∧
      (∃ c, Config.ofValue sampleDocument = .ok c) ∧ Config.Shape sampleDocument := by
  have hobjects : WritesObjects sampleDocument := by
    intro path hpath items
    cases hpath with
    | domain h =>
      simp only [List.mem_cons, List.not_mem_nil, or_false] at h
      rcases h with rfl | rfl | rfl <;>
        simp [sampleDocument, Effective.descend, Value.member?, Value.members?, Table.get?]
    | definition name =>
      simp only [sampleDocument, Effective.descend, Value.member?, Value.members?,
        Table.get?_cons, String.reduceEq, if_true, if_false, Option.bind_some, Table.get?_nil]
      split_ifs <;> simp
    | _ => simp [sampleDocument, Effective.descend, Value.member?, Value.members?, Table.get?]
  have haccepted : ∃ c, Config.ofValue sampleDocument = .ok c := ⟨sample, ofValue_sampleDocument⟩
  refine ⟨wellFormed_sampleDocument, hobjects, haccepted, ?_⟩
  exact (exists_ofValue_iff wellFormed_sampleDocument hobjects).mp haccepted

end TokenSheets
