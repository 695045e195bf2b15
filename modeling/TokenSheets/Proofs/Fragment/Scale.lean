/-
TokenSheets/Proofs/Fragment/Scale.lean

Spacing values.

A spacing map declares the multiples of one length.  Each is the text of a
number directly followed by the unit, and since a unit is never empty and has no
blanks, the literal holds just that.  So what is said of the texts of numbers
carries over to the map: a multiple is a plain decimal with the unit, unless it
is too large to be counted in ten-thousandths.
-/
import TokenSheets.Proofs.Number.Places
import TokenSheets.Proofs.Fragment.Settings

namespace TokenSheets

namespace SettingsSheets

/-- The text of a scaled length needs no trimming. -/
theorem toList_trimmed_scale {raw : String} {base : Length} (h : Length.ofString? raw = .ok base)
    (factor : Double) :
    (trimmed (base.scale factor)).toList =
      (base.magnitude.mul factor).placesText ++ base.unit.toList := by
  rw [trimmed, String.toList_ofList, trim_of_plain (Length.plain_scale h factor), Length.scale,
    String.toList_ofList]

/-- A map entry with a multiple of a length.  It is a plain decimal followed by the unit exactly if
the product fits; otherwise the name of the infinity of the product's sign takes its place. -/
structure DeclaresMultiple (base : Length) (factor : String × Double) (entry : String × Expr) :
    Prop where
  name : entry.1 = factor.1
  literal : ∃ l : Literal, entry.2 = .literal l ∧
    ((∃ number, IsPlainDecimal number ∧ l.text.toList = number ++ base.unit.toList) ↔
      (base.magnitude.mul factor.2).FitsPlaces) ∧
    (¬ (base.magnitude.mul factor.2).FitsPlaces →
      l.text.toList = (base.magnitude.mul factor.2).nonFiniteName.toList ++ base.unit.toList)

theorem declaresMultiple_of_writesText {raw : String} {base : Length}
    (h : Length.ofString? raw = .ok base) {factor : String × Double} {entry : String × Expr}
    (hentry : WritesText (factor.1, base.scale factor.2) entry) :
    DeclaresMultiple base factor entry := by
  obtain ⟨hname, l, hl, htext⟩ := hentry
  have htext' : l.text.toList =
      (base.magnitude.mul factor.2).placesText ++ base.unit.toList := by
    rw [htext, toList_trimmed_scale h]
  refine ⟨hname, l, hl, ?_, ?_⟩
  · rw [← Double.isPlainDecimal_placesText_iff, htext']
    constructor
    · rintro ⟨number, hplain, heq⟩
      rwa [List.append_cancel_right heq]
    · exact fun hplain => ⟨_, hplain, rfl⟩
  · intro hlarge
    rw [htext', Double.placesText_of_not_fits hlarge]

/-- The map that a spacing sheet declares. -/
theorem assign_spacing_mem_iff {exports : Bool} {entries : List (String × Expr)} {x : Expr} :
    Item.assign spacing x ∈ (generatedSheet (spacingItems exports entries)).items ↔
      x = .map entries := by
  have hname : rootVars ≠ spacing := by decide
  cases exports <;> simp [generatedSheet, spacingItems, exportAs, hname.symm]

end SettingsSheets

open SettingsSheets in
/-- **Texts of numbers.**  The text of a number is a plain decimal exactly if the number is finite
and does not overflow when it is counted in ten-thousandths; otherwise it is the name of an infinity
or of no number.  For every base length that is read and all finite factors there is a spacing
sheet, and what it declares are the multiples in order, each a plain decimal followed by the unit
exactly if the product fits. -/
theorem placesText_and_multiples (d : Double) :
    (IsPlainDecimal d.placesText ↔ d.FitsPlaces) ∧
    (¬ d.FitsPlaces → d.placesText = d.nonFiniteName.toList) ∧
    ∀ (p : SpacingSettings) (capabilities : List String) (raw : String) (base : Length),
      p.base = some raw → baseLength raw = .ok base → (∀ f ∈ p.factors, f.2.isFinite = true) →
      ∃ s entries, spacingSheet p capabilities = .ok s ∧
        (∀ x, Item.assign spacing x ∈ s.items ↔ x = .map entries) ∧
        List.Forall₂ (DeclaresMultiple base) p.factors entries := by
  refine ⟨d.isPlainDecimal_placesText_iff, Double.placesText_of_not_fits, ?_⟩
  intro p capabilities raw base hraw hbase hfactors
  have hlength : Length.ofString? raw = .ok base := Outcome.mapError_eq_ok.mp hbase
  obtain ⟨s, hs⟩ := (exists_spacingSheet_iff capabilities hfactors).mpr ⟨raw, base, hraw, hlength⟩
  obtain ⟨raw', base', entries, hraw', hbase', hentries, rfl⟩ := sheet_of_spacingSheet hs
  obtain rfl : raw' = raw := Option.some.inj (hraw'.symm.trans hraw)
  obtain rfl : base' = base := Except.ok.inj (hbase'.symm.trans hlength)
  refine ⟨_, entries, hs, fun x => assign_spacing_mem_iff, ?_⟩
  exact (List.forall₂_map_left_iff.mp hentries).imp fun _ _ =>
    declaresMultiple_of_writesText hlength

open SettingsSheets in
/-- Three tenths and the greatest power of ten, multiplied by sixteen: the first product is written
in digits, the second one overflows. -/
theorem placesText_and_multiples_tenths :
    ((⟨0x4030000000000000⟩ : Double).mul ⟨0x3FD3333333333333⟩).FitsPlaces ∧
    IsPlainDecimal ((⟨0x4030000000000000⟩ : Double).mul ⟨0x3FD3333333333333⟩).placesText ∧
    ¬ ((⟨0x4030000000000000⟩ : Double).mul ⟨0x7FE1CCF385EBC8A0⟩).FitsPlaces ∧
    baseLength " 16px" = .ok ⟨⟨0x4030000000000000⟩, "px"⟩ ∧
    ∃ s entries,
      spacingSheet ⟨true, some " 16px",
        [("small", ⟨0x3FD3333333333333⟩), ("huge", ⟨0x7FE1CCF385EBC8A0⟩)]⟩ ["spacements"] =
          .ok s ∧
      (∀ x, Item.assign spacing x ∈ s.items ↔ x = .map entries) ∧
      List.Forall₂ (DeclaresMultiple ⟨⟨0x4030000000000000⟩, "px"⟩)
        [("small", ⟨0x3FD3333333333333⟩), ("huge", ⟨0x7FE1CCF385EBC8A0⟩)] entries := by
  have hbase : baseLength " 16px" = .ok ⟨⟨0x4030000000000000⟩, "px"⟩ := by decide +kernel
  have hfits : ((⟨0x4030000000000000⟩ : Double).mul ⟨0x3FD3333333333333⟩).FitsPlaces := by
    decide +kernel
  obtain ⟨hplain, -, hsheet⟩ :=
    placesText_and_multiples ((⟨0x4030000000000000⟩ : Double).mul ⟨0x3FD3333333333333⟩)
  exact ⟨hfits, hplain.mpr hfits, by decide +kernel, hbase,
    hsheet _ _ " 16px" _ rfl hbase (by decide)⟩

open SettingsSheets in
/-- The greatest finite number has the text of infinity, and a finite factor makes a spacing value
of it. -/
theorem exists_finite_without_numeral :
    (⟨0x7FEFFFFFFFFFFFFF⟩ : Double).isFinite = true ∧
    (⟨0x7FEFFFFFFFFFFFFF⟩ : Double).placesText = "inf".toList ∧
    ¬ IsPlainDecimal (⟨0x7FEFFFFFFFFFFFFF⟩ : Double).placesText ∧
    baseLength "16px" = .ok ⟨⟨0x4030000000000000⟩, "px"⟩ ∧
    (⟨0x7FE1CCF385EBC8A0⟩ : Double).isFinite = true ∧
    ∃ s l, spacingSheet ⟨true, some "16px", [("huge", ⟨0x7FE1CCF385EBC8A0⟩)]⟩ [] = .ok s ∧
      Item.assign spacing (.map [("huge", .literal l)]) ∈ s.items ∧ l.text = "infpx" := by
  have hbase : Length.ofString? "16px" = .ok ⟨⟨0x4030000000000000⟩, "px"⟩ := by decide +kernel
  refine ⟨by decide, by decide +kernel, ?_, by decide +kernel, by decide, ?_⟩
  · exact mt (Double.isPlainDecimal_placesText_iff _).mp (by decide +kernel)
  · obtain ⟨s, hs⟩ := (exists_spacingSheet_iff (p :=
      ⟨true, some "16px", [("huge", ⟨0x7FE1CCF385EBC8A0⟩)]⟩) [] (by decide)).mpr ⟨_, _, rfl, hbase⟩
    obtain ⟨raw, base, entries, hraw, hbase', hentries, rfl⟩ := sheet_of_spacingSheet hs
    obtain rfl := Option.some.inj hraw
    obtain rfl := Except.ok.inj (hbase.symm.trans hbase')
    obtain ⟨entry, rest, ⟨hname, l, hl, htext⟩, hrest, rfl⟩ := List.forall₂_cons_left_iff.mp hentries
    obtain rfl := List.forall₂_nil_left_iff.mp hrest
    obtain rfl : entry = ("huge", .literal l) := Prod.ext hname hl
    exact ⟨_, l, hs, assign_spacing_mem_iff.mpr rfl, htext.trans (by decide +kernel)⟩

end TokenSheets
