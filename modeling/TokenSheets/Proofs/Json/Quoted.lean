/-
TokenSheets/Proofs/Json/Quoted.lean

Strings read back.

The writer escapes what would end a string or is no part of one; the scanner
undoes each escape on its own (`text_escapeChar`), so a quoted string is read up
to its closing quote and gives the text it was made from, whatever characters
that has.
-/
import Mathlib.Data.List.TakeWhile
import TokenSheets.Json.Write
import TokenSheets.Json.Scan

namespace TokenSheets

theorem piecesOfText_append (s t : List Char) :
    piecesOfText (s ++ t) = piecesOfText s ++ piecesOfText t :=
  List.map_append

@[simp] theorem piecesOfText_cons (c : Char) (s : List Char) :
    piecesOfText (c :: s) = .scalar c :: piecesOfText s :=
  rfl

@[simp] theorem piecesOfText_nil : piecesOfText [] = [] :=
  rfl

theorem hexValue?_hexDigit : ∀ {n : Nat}, n < 16 → hexValue? (hexDigit n) = some n := by
  decide

namespace Json

namespace Scan

/-- The escape of a control character by its number. -/
theorem text_unit {c : Char} (hc : c.toNat < 0x20) (rest : List Piece) :
    text none (piecesOfText
        ['\\', 'u', '0', '0', hexDigit (c.toNat / 16), hexDigit (c.toNat % 16)] ++ rest) =
      (text none rest).push (.scalar c) := by
  have hunit : hexUnit? (.scalar '0') (.scalar '0') (.scalar (hexDigit (c.toNat / 16)))
      (.scalar (hexDigit (c.toNat % 16))) = some c.toNat := by
    have hhigh := hexValue?_hexDigit (n := c.toNat / 16) (by omega)
    have hlow := hexValue?_hexDigit (n := c.toNat % 16) (by omega)
    have hzero : hexValue? '0' = some 0 := by decide
    simp only [hexUnit?, hzero, hhigh, hlow, Option.bind_eq_bind, Option.bind_some, Option.pure_def,
      Option.some.injEq]
    omega
  have hsmall : isLowSurrogate c.toNat = false ∧ isHighSurrogate c.toNat = false := by
    simp only [isLowSurrogate, isHighSurrogate, Bool.and_eq_false_iff, decide_eq_false_iff_not]
    omega
  simp [text, hunit, hsmall.1, hsmall.2]

/-- A character is read as it was before it was escaped. -/
theorem text_escapeChar (c : Char) (rest : List Piece) :
    text none (piecesOfText (escapeChar c) ++ rest) = (text none rest).push (.scalar c) := by
  unfold escapeChar
  -- seven characters have an escape of one letter
  iterate 7
    split
    · subst c
      rfl
  split
  · rename_i hcontrol
    exact text_unit hcontrol rest
  · rename_i hquote hslash _ _ _ _ _ hcontrol
    rw [piecesOfText_cons, piecesOfText_nil, List.singleton_append, text.eq_def]
    simp [TextSeen.unpaired, hquote, hslash, hcontrol]

/-- A quoted string is read to its closing quote. -/
theorem text_quoteText (s : List Char) (rest : List Piece) :
    text none (piecesOfText (s.flatMap escapeChar ++ ['"']) ++ rest) =
      .closed (piecesOfText s) none rest := by
  induction s with
  | nil =>
    rw [List.flatMap_nil, List.nil_append, piecesOfText_cons, List.cons_append, text.eq_def]
    rfl
  | cons c s ih =>
    rw [List.flatMap_cons, List.append_assoc, piecesOfText_append, List.append_assoc,
      text_escapeChar, ih]
    rfl

/-- All of it is text. -/
theorem completeText_piecesOfText (s : List Char) (rest : List Piece) :
    completeText (piecesOfText s) rest = .ok (String.ofList s) := by
  have hscalars : (piecesOfText s).dropWhile isScalar = [] := by
    rw [List.dropWhile_eq_nil_iff]
    intro p hp
    obtain ⟨c, -, rfl⟩ := List.mem_map.mp hp
    rfl
  have hlossy : (piecesOfText s).map Piece.lossy = s := by
    rw [piecesOfText, List.map_map]
    exact List.map_id _
  rw [completeText, hscalars, hlossy]

/-- **Strings read back.**  Behind its opening quote, a quoted text is that text, and what follows
it is left. -/
theorem string_quoteText (s : String) (rest : List Piece) :
    string (piecesOfText (s.toList.flatMap escapeChar ++ ['"']) ++ rest) =
      (.string s, some rest) := by
  rw [string, text_quoteText]
  simp only [completeText_piecesOfText, String.ofList_toList]

end Scan

end Json

end TokenSheets
