/-
TokenSheets/Text/Blank.lean

White space and trimming.

A character is *blank* when it has the property of the standard that is named
white space: twenty-five code points, listed here as ranges.  Trimming takes
the blank characters off one end of a text or off both.  `trimEnd` is written
as a recursion on the text, so that the three functions commute and repeat
harmlessly (`trimStart_trimEnd`, `trim_trim`).
-/
namespace TokenSheets

/-! ### Blank characters -/

/-- The code points of white space, as inclusive ranges in increasing order. -/
def blankRanges : List (Nat × Nat) :=
  [(0x09, 0x0D), (0x20, 0x20), (0x85, 0x85), (0xA0, 0xA0), (0x1680, 0x1680),
   (0x2000, 0x200A), (0x2028, 0x2029), (0x202F, 0x202F), (0x205F, 0x205F),
   (0x3000, 0x3000)]

/-- Whether a character is white space. -/
def isBlank (c : Char) : Bool :=
  blankRanges.any fun r => decide (r.1 ≤ c.toNat) && decide (c.toNat ≤ r.2)

/-! ### Trimming -/

/-- The text without the blanks it starts with. -/
def trimStart (s : List Char) : List Char := s.dropWhile isBlank

/-- The text without the blanks it ends with. -/
def trimEnd : List Char → List Char
  | [] => []
  | c :: cs =>
    match trimEnd cs with
    | [] => if isBlank c then [] else [c]
    | d :: ds => c :: d :: ds

/-- The text without the blanks at either end. -/
def trim (s : List Char) : List Char := trimEnd (trimStart s)

@[simp] theorem trimStart_nil : trimStart [] = [] := rfl

@[simp] theorem trimEnd_nil : trimEnd [] = [] := rfl

/-- A character that is not blank protects itself from `trimEnd`. -/
theorem trimEnd_cons_of_not_blank {c : Char} (h : isBlank c = false) (cs : List Char) :
    trimEnd (c :: cs) = c :: trimEnd cs := by
  rw [trimEnd]
  split <;> simp_all

/-- `trimEnd` of a text is empty or keeps its first character. -/
theorem trimEnd_cons (c : Char) (cs : List Char) :
    trimEnd (c :: cs) = [] ∧ isBlank c = true ∧ trimEnd cs = [] ∨
      trimEnd (c :: cs) = c :: trimEnd cs := by
  rw [trimEnd]
  split
  · rename_i h
    cases hb : isBlank c <;> simp [h]
  · rename_i h
    simp [h]

theorem trimEnd_trimEnd (s : List Char) : trimEnd (trimEnd s) = trimEnd s := by
  induction s with
  | nil => rfl
  | cons c cs ih =>
    rcases trimEnd_cons c cs with ⟨h, _, _⟩ | h
    · simp [h]
    · rw [h]
      rcases trimEnd_cons c (trimEnd cs) with ⟨h', hb, he⟩ | h'
      · rw [ih] at he
        simp [trimEnd, he, hb] at h
      · rw [h', ih]

theorem trimStart_trimStart (s : List Char) : trimStart (trimStart s) = trimStart s := by
  induction s with
  | nil => rfl
  | cons c cs ih =>
    unfold trimStart at ih ⊢
    cases hb : isBlank c <;> simp [hb, ih]

/-- The two ends are trimmed independently. -/
theorem trimStart_trimEnd (s : List Char) : trimStart (trimEnd s) = trimEnd (trimStart s) := by
  induction s with
  | nil => rfl
  | cons c cs ih =>
    cases hb : isBlank c with
    | false =>
      have h : trimStart (c :: cs) = c :: cs := by simp [trimStart, hb]
      rw [h, trimEnd_cons_of_not_blank hb]
      simp [trimStart, hb]
    | true =>
      have h : trimStart (c :: cs) = trimStart cs := by simp [trimStart, hb]
      rw [h, ← ih]
      rcases trimEnd_cons c cs with ⟨h', _, he⟩ | h'
      · rw [h', he]
      · rw [h']
        simp [trimStart, hb]

/-- Trimming twice is trimming once. -/
theorem trim_trim (s : List Char) : trim (trim s) = trim s := by
  unfold trim
  rw [trimStart_trimEnd, trimStart_trimStart, trimEnd_trimEnd]

end TokenSheets
