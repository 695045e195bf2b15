/-
TokenSheets/Proofs/Sheet/Quoted.lean

Quoted strings as string tokens.

A reader of stylesheets takes in a string character by character
(`readString`).  A quotation mark ends it; a line feed, a carriage return or a
form feed breaks it off; a backslash stands in front of a character that is
meant as it is, or of up to six hexadecimal digits that give a code point, and
one blank after these belongs to the escape.

What is written for one character is read as that character, whatever follows
it (`readString_quoteChar`), except for two: of the three characters that break
a string off, only the line feed is written by its code point.  So the quoted
text of a string is one token that denotes the string exactly if the string has
no carriage return and no form feed, and is no token at all otherwise
(`stringToken?_quote`).

For a writer the two characters are like any others.  A quoted text shows where
it ends and what it was made from, in front of any text (`quote_append_inj`).
-/
import Mathlib.Tactic.SplitIfs
import TokenSheets.Sheet.Render

namespace TokenSheets

/-! ### Reading a string -/

/-- A character that breaks a string off. -/
def breaksString (c : Char) : Bool := c = '\n' || c = '\r' || c = '\x0c'

/-- A blank that may end an escape by code point. -/
def endsEscape (c : Char) : Bool := c = ' ' || c = '\t' || breaksString c

/-- The character of a code point; what no character has stands for the replacement character. -/
def ofCodePoint (n : Nat) : Char :=
  if n ≠ 0 ∧ n.isValidChar then Char.ofNat n else '\ufffd'

/-- Where a reader of a string is. -/
inductive StringMode where
  | text
  /-- Behind a backslash. -/
  | escape
  /-- In an escape by code point, with its value so far and the digits it may still have. -/
  | digits (value left : Nat)

/-- A string and what follows its closing quote; nothing if the string is broken off. -/
abbrev StringSeen := Option (List Char × List Char)

/-- One more character in front. -/
def StringSeen.push (c : Char) (seen : StringSeen) : StringSeen :=
  seen.map fun r => (c :: r.1, r.2)

/-- A character outside escapes, with what is seen after it in a text and in an escape. -/
def readPlain (c : Char) (rest : List Char) (text escape : StringSeen) : StringSeen :=
  if c = '"' then some ([], rest)
  else if c = '\\' then escape
  else if breaksString c then none
  else text.push c

/-- A string up to its closing quote. -/
def readString : StringMode → List Char → StringSeen
  | _, [] => none
  | .text, c :: s => readPlain c s (readString .text s) (readString .escape s)
  | .escape, c :: s =>
    match hexValue? c with
    | some d => readString (.digits d 5) s
    | none => StringSeen.push c (readString .text s)
  | .digits n left, c :: s =>
    match left, hexValue? c with
    | k + 1, some d => readString (.digits (16 * n + d) k) s
    | _, _ =>
      StringSeen.push (ofCodePoint n)
        (if endsEscape c then readString .text s
        else readPlain c s (readString .text s) (readString .escape s))

/-- The string token that a text begins with, and what follows it. -/
def stringToken? : List Char → StringSeen
  | '"' :: s => readString .text s
  | _ => none

/-! ### Quoted strings as tokens -/

/-- A character that breaks a string off and is nevertheless written as it is. -/
def IsRawBreak (c : Char) : Prop := c = '\r' ∨ c = '\x0c'

instance : DecidablePred IsRawBreak := fun c => inferInstanceAs (Decidable (c = '\r' ∨ c = '\x0c'))

/-- What is written for a character is read as that character, or breaks the string off. -/
theorem readString_quoteChar (c : Char) (rest : List Char) :
    readString .text (quoteChar c ++ rest) =
      if IsRawBreak c then none else StringSeen.push c (readString .text rest) := by
  unfold quoteChar
  split
  · subst c
    rfl
  · split
    · subst c
      rfl
    · split
      -- the escape of the line feed brings the blank along that ends it
      · subst c
        rfl
      · rename_i hquote hescape hfeed
        rw [List.singleton_append, readString, readPlain, if_neg hquote, if_neg hescape]
        by_cases hbreak : IsRawBreak c
        · rcases hbreak with rfl | rfl
          · rfl
          · rfl
        · have hplain : breaksString c = false := by
            simp only [IsRawBreak, not_or] at hbreak
            simp [breaksString, hfeed, hbreak]
          rw [hplain, if_neg Bool.false_ne_true, if_neg hbreak]

theorem readString_flatMap_quoteChar (s rest : List Char) :
    readString .text (s.flatMap quoteChar ++ '"' :: rest) =
      if '\r' ∈ s ∨ '\x0c' ∈ s then none else some (s, rest) := by
  induction s with
  | nil =>
    rw [if_neg (by simp)]
    rfl
  | cons c s ih =>
    rw [List.flatMap_cons, List.append_assoc, readString_quoteChar, ih]
    by_cases hc : IsRawBreak c
    · have hmem : '\r' ∈ c :: s ∨ '\x0c' ∈ c :: s := by
        rcases hc with rfl | rfl <;> simp
      rw [if_pos hc, if_pos hmem]
    · have hmem : ('\r' ∈ c :: s ∨ '\x0c' ∈ c :: s) ↔ ('\r' ∈ s ∨ '\x0c' ∈ s) := by
        obtain ⟨hreturn, hform⟩ := not_or.mp hc
        simp [Ne.symm hreturn, Ne.symm hform]
      rw [if_neg hc]
      simp only [hmem]
      split <;> rfl

/-- **Quoted strings as tokens.**  What is written for a string is one token, which denotes the
string, and nothing is left behind it; unless the string has a carriage return or a form feed:
then it is no token. -/
theorem stringToken?_quote (depth : Nat) (s : String) :
    stringToken? ((Expr.str s).render depth) =
      if '\r' ∈ s.toList ∨ '\x0c' ∈ s.toList then none else some (s.toList, []) := by
  rw [Expr.render, quote, stringToken?, readString_flatMap_quoteChar]

/-- A string may hold a carriage return: its sheet is built without an error, and what stands
there for the string is no token. -/
theorem stringToken?_return :
    (Item.assign? "a" (.str "\r")).map (fun i => (Sheet.mk [i]).text) = .ok "$a: \"\r\";\n" ∧
      stringToken? ((Expr.str "\r").render 0) = none := by
  exact ⟨rfl, rfl⟩

/-! ### Quoted strings in front of a text -/

theorem quoteChar_append_inj {c d : Char} {s t : List Char}
    (h : quoteChar c ++ s = quoteChar d ++ t) : c = d ∧ s = t := by
  unfold quoteChar at h
  split_ifs at h <;> simp only [List.cons_append, List.nil_append, List.cons.injEq] at h <;> grind

/-- No character is written like the closing quote. -/
theorem quoteChar_append_ne (c : Char) (s t : List Char) : quoteChar c ++ s ≠ '"' :: t := by
  unfold quoteChar
  split_ifs <;> simp_all

theorem flatMap_quoteChar_append_inj {s t u v : List Char}
    (h : s.flatMap quoteChar ++ '"' :: u = t.flatMap quoteChar ++ '"' :: v) : s = t ∧ u = v := by
  induction s generalizing t with
  | nil =>
    cases t with
    | nil => simpa using h
    | cons d t =>
      rw [List.flatMap_cons, List.append_assoc] at h
      exact absurd h.symm (quoteChar_append_ne d _ _)
  | cons c s ih =>
    rw [List.flatMap_cons, List.append_assoc] at h
    cases t with
    | nil => exact absurd h (quoteChar_append_ne c _ _)
    | cons d t =>
      rw [List.flatMap_cons, List.append_assoc] at h
      obtain ⟨rfl, hrest⟩ := quoteChar_append_inj h
      obtain ⟨rfl, rfl⟩ := ih hrest
      exact ⟨rfl, rfl⟩

/-- Quoted strings differ, whatever stands behind them. -/
theorem quote_append_inj {s t u v : List Char} (h : quote s ++ u = quote t ++ v) :
    s = t ∧ u = v := by
  simp only [quote, List.cons_append, List.append_assoc, List.nil_append, List.cons.injEq,
    true_and] at h
  exact flatMap_quoteChar_append_inj h

end TokenSheets
