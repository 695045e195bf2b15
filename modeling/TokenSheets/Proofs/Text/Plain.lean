/-
TokenSheets/Proofs/Text/Plain.lean

Plain characters: neither blank nor able to end a statement.

A text of plain characters can stand in a sheet as it is, and trimming leaves it
alone.  All letters, digits and signs that numbers and units are made of lie in
one range of code points in which the semicolon is the only exception
(`isPlain_of_range`), so that each of them is settled by its code point.
-/
import TokenSheets.Sheet.Basic

namespace TokenSheets

/-- Neither blank nor the end of a statement. -/
def IsPlain (c : Char) : Prop := isBlank c = false ∧ breaksStatement c = false

instance : DecidablePred IsPlain := fun c =>
  inferInstanceAs (Decidable (isBlank c = false ∧ breaksStatement c = false))

/-! ### Which characters are plain -/

/-- The code points from the exclamation mark to the last letter, the semicolon apart. -/
theorem isPlain_of_range {c : Char} (hlow : 0x21 ≤ c.toNat) (hhigh : c.toNat ≤ 0x7a)
    (hne : c ≠ ';') : IsPlain c := by
  constructor
  · simp only [isBlank, blankRanges, List.any_cons, List.any_nil, Bool.or_false,
      Bool.or_eq_false_iff, Bool.and_eq_false_iff, decide_eq_false_iff_not]
    omega
  · have hbrace {b : Char} (hb : c.toNat ≠ b.toNat) : c ≠ b := fun h => hb (congrArg Char.toNat h)
    simp only [breaksStatement, Bool.or_eq_false_iff, decide_eq_false_iff_not]
    refine ⟨⟨⟨⟨hne, ?_⟩, ?_⟩, ?_⟩, ?_⟩
    all_goals
      apply hbrace
      simp only [Char.reduceToNat]
      omega

theorem isPlain_of_isDigit {c : Char} (h : c.isDigit = true) : IsPlain c := by
  obtain ⟨hlow, hhigh⟩ := Char.isDigit_iff_toNat.mp h
  simp only [Char.reduceToNat] at hlow hhigh
  refine isPlain_of_range (by omega) (by omega) ?_
  rintro rfl
  simp at hhigh

/-- The code points of letters. -/
theorem toNat_of_isAlpha {c : Char} (h : c.isAlpha = true) :
    (65 ≤ c.toNat ∧ c.toNat ≤ 90) ∨ (97 ≤ c.toNat ∧ c.toNat ≤ 122) := by
  have hcase : (decide (c.val ≥ 'A'.val ∧ c.val ≤ 'Z'.val) ||
      decide (c.val ≥ 'a'.val) && decide (c.val ≤ 'z'.val)) = true := h
  rw [Bool.or_eq_true, Bool.and_eq_true, decide_eq_true_eq, decide_eq_true_eq,
    decide_eq_true_eq] at hcase
  exact hcase

theorem isPlain_of_isAlpha {c : Char} (h : c.isAlpha = true) : IsPlain c := by
  have hrange := toNat_of_isAlpha h
  refine isPlain_of_range (by omega) (by omega) ?_
  rintro rfl
  simp at hrange

/-! ### Plain texts -/

/-- For a fixed text it can be computed.  Deciding the statement as it stands may go over all
characters that there are. -/
theorem forall_mem_of_all {P : Char → Prop} [DecidablePred P] {s : List Char}
    (h : s.all (fun c => decide (P c)) = true) : ∀ c ∈ s, P c := by
  intro c hc
  exact of_decide_eq_true (List.all_eq_true.mp h c hc)

theorem mem_trimStart_of_not_blank {s : List Char} {c : Char} (h : c ∈ s)
    (hc : isBlank c = false) : c ∈ trimStart s := by
  induction s with
  | nil => exact h
  | cons d ds ih =>
    cases hd : isBlank d with
    | false => rwa [trimStart, List.dropWhile_cons_of_neg (by simp [hd])]
    | true =>
      rw [trimStart, List.dropWhile_cons_of_pos hd]
      rcases List.mem_cons.mp h with rfl | h
      · rw [hc] at hd
        cases hd
      · exact ih h

theorem mem_trimEnd_of_not_blank {s : List Char} {c : Char} (h : c ∈ s)
    (hc : isBlank c = false) : c ∈ trimEnd s := by
  induction s with
  | nil => exact h
  | cons d ds ih =>
    rcases trimEnd_cons d ds with ⟨_, hd, hds⟩ | hkept
    · rcases List.mem_cons.mp h with rfl | h
      · rw [hc] at hd
        cases hd
      · rw [hds] at ih
        exact absurd (ih h) List.not_mem_nil
    · rw [hkept]
      rcases List.mem_cons.mp h with rfl | h
      · exact List.mem_cons_self
      · exact List.mem_cons_of_mem _ (ih h)

/-- Trimming takes blank characters only. -/
theorem mem_trim_of_not_blank {s : List Char} {c : Char} (h : c ∈ s) (hc : isBlank c = false) :
    c ∈ trim s :=
  mem_trimEnd_of_not_blank (mem_trimStart_of_not_blank h hc) hc

/-- No character of a literal ends a statement or a block, not even in the blanks around it. -/
theorem Literal.not_mem_text (l : Literal) {c : Char} (hblank : isBlank c = false)
    (hc : breaksStatement c = true) : c ∉ l.text.toList := by
  intro h
  have husable := l.isUsable
  simp only [TokenSheets.isUsable, Bool.and_eq_true, Bool.not_eq_true',
    List.any_eq_false] at husable
  exact husable.2 c (mem_trim_of_not_blank h hblank) hc

theorem trimStart_of_plain {s : List Char} (h : ∀ c ∈ s, IsPlain c) : trimStart s = s := by
  cases s with
  | nil => rfl
  | cons c cs => simp [trimStart, (h c (by simp)).1]

theorem trimEnd_of_plain {s : List Char} (h : ∀ c ∈ s, IsPlain c) : trimEnd s = s := by
  induction s with
  | nil => rfl
  | cons c cs ih =>
    have hc : isBlank c = false := (h c (by simp)).1
    have hcs : ∀ d ∈ cs, IsPlain d := fun d hd => h d (List.mem_cons_of_mem _ hd)
    rw [trimEnd_cons_of_not_blank hc, ih hcs]

theorem trim_of_plain {s : List Char} (h : ∀ c ∈ s, IsPlain c) : trim s = s := by
  rw [trim, trimStart_of_plain h, trimEnd_of_plain h]

/-- A plain text that is not empty can stand for a value. -/
theorem isUsable_of_plain {s : List Char} (hs : s ≠ []) (h : ∀ c ∈ s, IsPlain c) :
    isUsable s = true := by
  rw [isUsable, trim_of_plain h]
  have hany : s.any breaksStatement = false := by
    rw [List.any_eq_false]
    intro c hc
    simp [(h c hc).2]
  simp [hs, hany]

end TokenSheets
