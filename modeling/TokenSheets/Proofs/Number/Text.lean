/-
TokenSheets/Proofs/Number/Text.lean

The texts of numbers are plain.

Whatever the layout, a number is written with digits, signs, points and the mark
of an exponent, or by a name in letters when it is not finite.  None of these is
blank or ends a statement, and there is always at least one of them.  So the
text of a number can stand in a sheet, and so can a number with a unit.
-/
import TokenSheets.Proofs.Text.Plain
import TokenSheets.Fragment.Length
import TokenSheets.Json.Write

namespace TokenSheets

theorem isPlain_of_mem_toDigits {n : Nat} {c : Char} (h : c ∈ Nat.toDigits 10 n) : IsPlain c :=
  isPlain_of_isDigit (Nat.isDigit_of_mem_toDigits (by decide) (by decide) h)

/-! ### Numbers of documents -/

namespace NumberStyle

theorem isPlain_of_mem_zeros {n : Nat} {c : Char} (h : c ∈ zeros n) : IsPlain c := by
  rw [List.eq_of_mem_replicate h]
  decide

theorem isPlain_of_mem_positional {st : NumberStyle} {digits : List Char} {pointAt : Int}
    (hd : ∀ c ∈ digits, IsPlain c) : ∀ c ∈ st.positional digits pointAt, IsPlain c := by
  have hzero : IsPlain '0' := by decide
  have hpoint : IsPlain '.' := by decide
  intro c hc
  unfold positional at hc
  split at hc
  · simp only [List.mem_cons, List.mem_append] at hc
    rcases hc with rfl | rfl | hc | hc
    · exact hzero
    · exact hpoint
    · exact isPlain_of_mem_zeros hc
    · exact hd c hc
  · simp only at hc
    split at hc
    · simp only [List.mem_append] at hc
      rcases hc with (hc | hc) | hc
      · exact hd c hc
      · exact isPlain_of_mem_zeros hc
      · split at hc
        · simp only [List.mem_cons, List.not_mem_nil, or_false] at hc
          rcases hc with rfl | rfl
          · exact hpoint
          · exact hzero
        · simp at hc
    · simp only [List.mem_append, List.mem_cons] at hc
      rcases hc with hc | rfl | hc
      · exact hd c (List.mem_of_mem_take hc)
      · exact hpoint
      · exact hd c (List.mem_of_mem_drop hc)

theorem positional_ne_nil {st : NumberStyle} {digits : List Char} {pointAt : Int}
    (hd : digits ≠ []) : st.positional digits pointAt ≠ [] := by
  unfold positional
  split
  · simp
  · simp only
    split <;> simp [hd]

theorem isPlain_of_mem_scientific {digits : List Char} {e : Int} (hd : ∀ c ∈ digits, IsPlain c) :
    ∀ c ∈ scientific digits e, IsPlain c := by
  have hexp : ∀ c ∈ (if e < 0 then '-' else '+') :: Nat.toDigits 10 e.natAbs, IsPlain c := by
    intro c hc
    rcases List.mem_cons.mp hc with rfl | hc
    · split
      · decide
      · decide
    · exact isPlain_of_mem_toDigits hc
  have hmark : IsPlain 'e' := by decide
  have hpoint : IsPlain '.' := by decide
  intro c hc
  unfold scientific at hc
  simp only at hc
  split at hc
  · simp at hc
  · rcases List.mem_cons.mp hc with rfl | hc
    · exact hd _ (by simp)
    · rcases List.mem_cons.mp hc with rfl | hc
      · exact hmark
      · exact hexp c hc
  · rename_i d ds _
    rcases List.mem_cons.mp hc with rfl | hc
    · exact hd _ (by simp)
    · rcases List.mem_cons.mp hc with rfl | hc
      · exact hpoint
      · rcases List.mem_append.mp hc with hc | hc
        · exact hd c (List.mem_cons_of_mem _ hc)
        · rcases List.mem_cons.mp hc with rfl | hc
          · exact hmark
          · exact hexp c hc

theorem scientific_ne_nil {digits : List Char} {e : Int} (hd : digits ≠ []) :
    scientific digits e ≠ [] := by
  unfold scientific
  simp only
  split <;> simp_all

theorem isPlain_of_mem_write {st : NumberStyle} {d : Double} : ∀ c ∈ st.write d, IsPlain c := by
  have hminus : IsPlain '-' := by decide
  have hsign {b : Bool} {c : Char} (hc : c ∈ if b then ['-'] else []) : IsPlain c := by
    cases b with
    | false => simp at hc
    | true => simpa using (List.mem_singleton.mp hc) ▸ hminus
  intro c hc
  unfold write at hc
  split at hc
  · rcases List.mem_append.mp hc with hc | hc
    · exact hsign hc
    · refine isPlain_of_mem_positional ?_ c hc
      intro x hx
      rw [List.mem_singleton.mp hx]
      decide
  · have hdigits : ∀ x ∈ d.shortest.text, IsPlain x := fun x hx => isPlain_of_mem_toDigits hx
    rcases List.mem_append.mp hc with hc | hc
    · exact hsign hc
    · split at hc
      · exact isPlain_of_mem_positional hdigits c hc
      · exact isPlain_of_mem_scientific hdigits c hc

theorem write_ne_nil {st : NumberStyle} {d : Double} : st.write d ≠ [] := by
  have hdigits : d.shortest.text ≠ [] := Nat.toDigits_ne_nil
  have hright {s t : List Char} (ht : t ≠ []) : s ++ t ≠ [] := by simp [ht]
  unfold write
  simp only
  split
  · exact hright (positional_ne_nil (by simp))
  · apply hright
    split
    · exact positional_ne_nil hdigits
    · exact scientific_ne_nil hdigits

end NumberStyle

namespace Json

theorem isPlain_of_mem_writeInt {n : Int} : ∀ c ∈ writeInt n, IsPlain c := by
  intro c hc
  rcases List.mem_append.mp hc with hc | hc
  · split at hc
    · rw [List.mem_singleton.mp hc]
      decide
    · simp at hc
  · exact isPlain_of_mem_toDigits hc

/-- The text of a number of a document can stand for a value. -/
theorem Number.isUsable_write (n : Number) : isUsable n.write = true := by
  cases n with
  | int i =>
    refine isUsable_of_plain ?_ isPlain_of_mem_writeInt
    simp [Number.write, writeInt, Nat.toDigits_ne_nil]
  | double d => exact isUsable_of_plain NumberStyle.write_ne_nil NumberStyle.isPlain_of_mem_write

end Json

/-! ### Numbers of sheets -/

theorem mem_of_mem_dropTrailingZeros {s : List Char} {c : Char}
    (h : c ∈ dropTrailingZeros s) : c ∈ s := by
  induction s with
  | nil => exact h
  | cons d ds ih =>
    unfold dropTrailingZeros at h
    split at h
    · split at h
      · simp at h
      · rw [List.mem_singleton.mp h]
        exact List.mem_cons_self
    · rename_i x xs hrest
      rw [hrest] at ih
      rcases List.mem_cons.mp h with rfl | h
      · exact List.mem_cons_self
      · exact List.mem_cons_of_mem _ (ih h)

/-- A letter, a digit, a point or a minus, which is all that a number in a sheet consists of. -/
def IsNumberChar (c : Char) : Prop := c.isAlphanum = true ∨ c = '.' ∨ c = '-'

theorem isNumberChar_of_isDigit {c : Char} (h : c.isDigit = true) : IsNumberChar c := by
  left
  simp [Char.isAlphanum, h]

theorem isPlain_of_isNumberChar {c : Char} (h : IsNumberChar c) : IsPlain c := by
  rcases h with h | rfl | rfl
  · rw [Char.isAlphanum, Bool.or_eq_true] at h
    rcases h with h | h
    · exact isPlain_of_isAlpha h
    · exact isPlain_of_isDigit h
  · decide
  · decide

theorem isNumberChar_of_mem_toDigits {n : Nat} {c : Char} (h : c ∈ Nat.toDigits 10 n) :
    IsNumberChar c :=
  isNumberChar_of_isDigit (Nat.isDigit_of_mem_toDigits (by decide) (by decide) h)

theorem isNumberChar_of_mem_placeDigits {n : Nat} {c : Char} (h : c ∈ placeDigits n) :
    IsNumberChar c := by
  have hdigit (k : Nat) : IsNumberChar (Nat.digitChar (k % 10)) := by
    apply isNumberChar_of_isDigit
    simp [Nat.isDigit_digitChar, Nat.mod_lt]
  simp only [placeDigits, List.map_cons, List.map_nil, List.mem_cons, List.not_mem_nil,
    or_false] at h
  rcases h with rfl | rfl | rfl | rfl
  · exact hdigit (n / 1000)
  · exact hdigit (n / 100)
  · exact hdigit (n / 10)
  · exact hdigit n

theorem isNumberChar_of_mem_writePlaces {negative : Bool} {n : Nat} {c : Char}
    (h : c ∈ writePlaces negative n) : IsNumberChar c := by
  unfold writePlaces at h
  simp only at h
  rcases List.mem_append.mp h with h | h
  · split at h
    · exact .inr (.inr (List.mem_singleton.mp h))
    · simp at h
  · split at h
    · exact isNumberChar_of_mem_toDigits h
    · rcases List.mem_append.mp h with h | h
      · exact isNumberChar_of_mem_toDigits h
      · rcases List.mem_cons.mp h with rfl | h
        · exact .inr (.inl rfl)
        · exact isNumberChar_of_mem_placeDigits (mem_of_mem_dropTrailingZeros h)

theorem writePlaces_ne_nil {negative : Bool} {n : Nat} : writePlaces negative n ≠ [] := by
  have hwhole : Nat.toDigits 10 (n / placesScale) ≠ [] := Nat.toDigits_ne_nil
  intro h
  have hright := (List.append_eq_nil_iff.mp h).2
  split at hright
  · exact hwhole hright
  · exact hwhole (List.append_eq_nil_iff.mp hright).1

namespace Double

theorem isNumberChar_of_mem_placesText {d : Double} : ∀ c ∈ d.placesText, IsNumberChar c := by
  have hname : ∀ c ∈ ['N', 'a', 'i', 'n', 'f', '-'], IsNumberChar c := by
    unfold IsNumberChar
    exact forall_mem_of_all (by decide)
  intro c hc
  unfold placesText at hc
  simp only at hc
  split at hc
  · exact hname c (List.subset_def.mp (by decide) hc)
  · split at hc
    · exact isNumberChar_of_mem_writePlaces hc
    · split at hc
      · exact hname c (List.subset_def.mp (by decide) hc)
      · exact hname c (List.subset_def.mp (by decide) hc)

theorem isPlain_of_mem_placesText {d : Double} : ∀ c ∈ d.placesText, IsPlain c :=
  fun c hc => isPlain_of_isNumberChar (isNumberChar_of_mem_placesText c hc)

theorem placesText_ne_nil {d : Double} : d.placesText ≠ [] := by
  unfold placesText
  simp only
  split
  · decide
  · split
    · exact writePlaces_ne_nil
    · split <;> decide

end Double

/-! ### Lengths -/

namespace Length

theorem isPlain_of_isUnitChar {c : Char} (h : isUnitChar c = true) : IsPlain c := by
  simp only [isUnitChar, Bool.or_eq_true, decide_eq_true_eq] at h
  rcases h with h | rfl
  · exact isPlain_of_isAlpha h
  · decide

/-- The unit of a length that was read is made of unit characters. -/
theorem isUnitChar_of_ofString? {raw : String} {l : Length} (h : ofString? raw = .ok l) :
    ∀ c ∈ l.unit.toList, isUnitChar c = true := by
  unfold ofString? at h
  simp only at h
  split at h
  · cases h
  · split at h
    · cases h
    · rename_i parts hparts
      split at h
      · cases h
      · rw [← Except.ok.inj h]
        unfold split? at hparts
        split at hparts
        · rename_i hvalid
          rw [← Option.some.inj hparts]
          simp only [Split.valid, Bool.and_eq_true, List.all_eq_true] at hvalid
          simpa using hvalid.1.1.2
        · cases hparts

/-- Multiples of a length that was read can stand for values, and trimming leaves them alone. -/
theorem plain_scale {raw : String} {l : Length} (h : ofString? raw = .ok l) (factor : Double) :
    ∀ c ∈ (l.scale factor).toList, IsPlain c := by
  intro c hc
  simp only [scale, String.toList_ofList, List.mem_append] at hc
  rcases hc with hc | hc
  · exact Double.isPlain_of_mem_placesText c hc
  · exact isPlain_of_isUnitChar (isUnitChar_of_ofString? h c hc)

theorem isUsable_scale {raw : String} {l : Length} (h : ofString? raw = .ok l)
    (factor : Double) : isUsable (l.scale factor).toList = true := by
  refine isUsable_of_plain ?_ (plain_scale h factor)
  simp [scale, Double.placesText_ne_nil]

end Length

end TokenSheets
