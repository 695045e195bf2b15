/-
TokenSheets/Proofs/Sheet/Scan.lean

The text of a sheet as a reader of stylesheets scans it.

A reader goes through a text from left to right and keeps track of where it is
(`ScanMode`): outside, inside a quoted string, inside a comment, or behind a
backslash, which takes the next character with it.  A comment behind two slashes
goes up to the line feed.  Only what the reader meets outside strings and comments
can end a statement or open or shut a block.

The pieces that sheets are made of are taken in from either of the two modes in
which the reader rests, since a slash may have come last.  A text that leads from
rest to rest and shows no structure on the way is `Steady`, and steady texts
compose without side conditions (`Steady.append`).  Texts between quotes are
steady whatever they hold (`steady_quote`); names and numbers are steady because
none of their characters means anything to the reader (`steady_of_inert`).
-/
import TokenSheets.Proofs.Number.Text
import TokenSheets.Proofs.Path.Steps
import TokenSheets.Sheet.Render

namespace TokenSheets

/-! ### Scanning -/

/-- Where a reader of a stylesheet is. -/
inductive ScanMode where
  /-- Outside strings and comments. -/
  | outside
  /-- Outside, with a slash just before. -/
  | slash
  /-- Outside, with a backslash just before. -/
  | escape
  | string
  /-- In a string, with a backslash just before. -/
  | stringEscape
  /-- In a comment up to the end of the line. -/
  | lineComment
  | blockComment
  /-- In a comment, with a star just before. -/
  | star
deriving DecidableEq, Repr

namespace ScanMode

/-- One character outside. -/
def enter (c : Char) : ScanMode :=
  if c = '"' then .string else if c = '\\' then .escape else if c = '/' then .slash else .outside

/-- One character. -/
def step : ScanMode → Char → ScanMode
  | .outside, c => enter c
  | .slash, c => if c = '/' then .lineComment else if c = '*' then .blockComment else enter c
  | .escape, _ => .outside
  | .string, c => if c = '"' then .outside else if c = '\\' then .stringEscape else .string
  | .stringEscape, _ => .string
  | .lineComment, c => if c = '\n' then .outside else .lineComment
  | .blockComment, c => if c = '*' then .star else .blockComment
  | .star, c => if c = '/' then .outside else if c = '*' then .star else .blockComment

/-- Where the reader is after a text. -/
def after (m : ScanMode) (s : List Char) : ScanMode := s.foldl step m

/-- Outside strings and comments, and not behind a backslash. -/
def Rests : ScanMode → Prop
  | .outside => True
  | .slash => True
  | _ => False

instance : DecidablePred Rests
  | .outside => inferInstanceAs (Decidable True)
  | .slash => inferInstanceAs (Decidable True)
  | .escape => inferInstanceAs (Decidable False)
  | .string => inferInstanceAs (Decidable False)
  | .stringEscape => inferInstanceAs (Decidable False)
  | .lineComment => inferInstanceAs (Decidable False)
  | .blockComment => inferInstanceAs (Decidable False)
  | .star => inferInstanceAs (Decidable False)

/-- How often the reader meets a character outside strings and comments. -/
def met (x : Char) : ScanMode → List Char → Nat
  | _, [] => 0
  | m, c :: s => (if m.Rests ∧ c = x then 1 else 0) + met x (m.step c) s

@[simp] theorem after_nil (m : ScanMode) : m.after [] = m := rfl

@[simp] theorem after_cons (m : ScanMode) (c : Char) (s : List Char) :
    m.after (c :: s) = (m.step c).after s := rfl

@[simp] theorem after_append (m : ScanMode) (s t : List Char) :
    m.after (s ++ t) = (m.after s).after t :=
  List.foldl_append

@[simp] theorem met_nil (x : Char) (m : ScanMode) : met x m [] = 0 := rfl

@[simp] theorem met_append (x : Char) (m : ScanMode) (s t : List Char) :
    met x m (s ++ t) = met x m s + met x (m.after s) t := by
  induction s generalizing m with
  | nil => simp
  | cons c s ih => rw [List.cons_append, met, met, ih, after_cons, Nat.add_assoc]

/-- What is not in a text is not met in it. -/
theorem met_eq_zero {x : Char} {s : List Char} (h : x ∉ s) (m : ScanMode) : met x m s = 0 := by
  induction s generalizing m with
  | nil => rfl
  | cons c s ih =>
    rw [List.mem_cons, not_or] at h
    rw [met, if_neg fun hc => h.1 hc.2.symm, ih h.2]

end ScanMode

open ScanMode

/-! ### Steady texts -/

/-- The characters that make structure. -/
def structureChars : List Char := [';', '\x7b', '\x7d']

/-- A text that leaves a reader outside and shows it no structure. -/
def Steady (s : List Char) : Prop :=
  ∀ m : ScanMode, m.Rests → (m.after s).Rests ∧ ∀ x ∈ structureChars, met x m s = 0

/-- A character without a meaning of its own for a reader. -/
def IsInert (c : Char) : Prop := c ∉ ['"', '\\', '/', '*', ';', '\x7b', '\x7d']

instance : DecidablePred IsInert := fun c =>
  inferInstanceAs (Decidable (c ∉ ['"', '\\', '/', '*', ';', '\x7b', '\x7d']))

theorem steady_nil : Steady [] := fun _ hm => ⟨hm, fun _ _ => rfl⟩

theorem Steady.append {s t : List Char} (hs : Steady s) (ht : Steady t) : Steady (s ++ t) := by
  intro m hm
  obtain ⟨hrests, hmet⟩ := hs m hm
  obtain ⟨hrests', hmet'⟩ := ht _ hrests
  refine ⟨by rwa [after_append], fun x hx => ?_⟩
  rw [met_append, hmet x hx, hmet' x hx]

/-- An inert character leads outside from any resting mode. -/
theorem step_of_inert {m : ScanMode} (hm : m.Rests) {c : Char} (hc : IsInert c) :
    m.step c = .outside := by
  simp only [IsInert, List.mem_cons, List.not_mem_nil, or_false, not_or] at hc
  cases m <;> simp_all [Rests, step, enter]

/-- So does a character that makes structure, but the reader has met it. -/
theorem step_of_mem_structureChars {m : ScanMode} (hm : m.Rests) {c : Char}
    (hc : c ∈ structureChars) : m.step c = .outside := by
  simp only [structureChars, List.mem_cons, List.not_mem_nil, or_false] at hc
  rcases hc with rfl | rfl | rfl
  all_goals cases m <;> simp_all [Rests, step, enter]

theorem steady_cons {c : Char} (hc : IsInert c) {s : List Char}
    (h : (after .outside s).Rests ∧ ∀ x ∈ structureChars, met x .outside s = 0) :
    Steady (c :: s) := by
  intro m hm
  rw [after_cons, step_of_inert hm hc]
  refine ⟨h.1, fun x hx => ?_⟩
  have hinert : ∀ y ∈ structureChars, ¬IsInert y := forall_mem_of_all (by decide)
  have hne : c ≠ x := by
    rintro rfl
    exact hinert c hx hc
  rw [met, step_of_inert hm hc, if_neg fun h => hne h.2, h.2 x hx]

theorem Steady.cons {c : Char} (hc : IsInert c) {s : List Char} (h : Steady s) :
    Steady (c :: s) :=
  steady_cons hc (h .outside trivial)

theorem steady_of_inert {s : List Char} (h : ∀ c ∈ s, IsInert c) : Steady s := by
  induction s with
  | nil => exact steady_nil
  | cons c s ih =>
    obtain ⟨hc, hs⟩ := List.forall_mem_cons.mp h
    exact (ih hs).cons hc

theorem steady_of_all {s : List Char} (h : s.all (fun c => decide (IsInert c)) = true) :
    Steady s :=
  steady_of_inert (forall_mem_of_all h)

/-! ### Strings, names and numbers -/

/-- What is written for a character of a string keeps the reader in the string. -/
theorem after_quoteChar (c : Char) :
    after .string (quoteChar c) = .string ∧ ∀ x, met x .string (quoteChar c) = 0 := by
  unfold quoteChar
  split
  · exact ⟨rfl, fun _ => by simp [met, step, Rests]⟩
  · split
    · exact ⟨rfl, fun _ => by simp [met, step, Rests]⟩
    · split
      · exact ⟨rfl, fun _ => by simp [met, step, Rests]⟩
      · rename_i hquote hescape _
        simp [met, step, Rests, hquote, hescape]

theorem after_flatMap_quoteChar (s : List Char) :
    after .string (s.flatMap quoteChar) = .string ∧
      ∀ x, met x .string (s.flatMap quoteChar) = 0 := by
  induction s with
  | nil => exact ⟨rfl, fun _ => rfl⟩
  | cons c s ih =>
    obtain ⟨hmode, hmet⟩ := after_quoteChar c
    rw [List.flatMap_cons]
    refine ⟨by rw [after_append, hmode, ih.1], fun x => ?_⟩
    rw [met_append, hmet, hmode, ih.2]

/-- Whatever a quoted text holds, it is a string and no more. -/
theorem steady_quote (s : List Char) : Steady (quote s) := by
  intro m hm
  obtain ⟨hmode, hmet⟩ := after_flatMap_quoteChar s
  have hopen : m.step '"' = .string := by
    cases m <;> simp_all [Rests, step, enter]
  rw [quote, after_cons, hopen, after_append, hmode]
  refine ⟨trivial, fun x hx => ?_⟩
  have hquote : '"' ≠ x := by
    rintro rfl
    simp [structureChars] at hx
  rw [met, hopen, met_append, hmet, hmode]
  simp [met, Rests, hquote]

theorem isInert_of_isAlphanum {c : Char} (h : c.isAlphanum = true) : IsInert c := by
  intro hmem
  have hall : ∀ d ∈ ['"', '\\', '/', '*', ';', '\x7b', '\x7d'], d.isAlphanum = false :=
    forall_mem_of_all (by decide)
  rw [hall c hmem] at h
  cases h

theorem isInert_of_isNameChar {c : Char} (h : isNameChar c = true) : IsInert c := by
  simp only [isNameChar, Bool.or_eq_true, decide_eq_true_eq] at h
  rcases h with (h | rfl) | rfl
  · exact isInert_of_isAlphanum h
  · decide
  · decide

theorem isNameChar_of_isNameStart {c : Char} (h : isNameStart c = true) : isNameChar c = true := by
  simp only [isNameStart, Bool.or_eq_true] at h
  simp only [isNameChar, Char.isAlphanum, Bool.or_eq_true]
  rcases h with (hletter | hmark) | hmark
  · exact .inl (.inl (.inl hletter))
  · exact .inl (.inr hmark)
  · exact .inr hmark

theorem isNameChar_of_isName {s : List Char} (h : isName s = true) :
    ∀ c ∈ s, isNameChar c = true := by
  cases s with
  | nil => cases h
  | cons c cs =>
    rw [isName, Bool.and_eq_true, List.all_eq_true] at h
    exact List.forall_mem_cons.mpr ⟨isNameChar_of_isNameStart h.1, h.2⟩

theorem isInert_of_isName {s : List Char} (h : isName s = true) : ∀ c ∈ s, IsInert c :=
  fun c hc => isInert_of_isNameChar (isNameChar_of_isName h c hc)

theorem Ident.steady (name : Ident) : Steady name.text.toList :=
  steady_of_inert (isInert_of_isName name.isName)

/-- The pieces of the name of a function are names, with points between them. -/
theorem FunctionName.isNameChar_of_mem (f : FunctionName) {c : Char} (hc : c ∈ f.text.toList) :
    c = '.' ∨ isNameChar c = true := by
  by_cases hpoint : c = '.'
  · exact .inl hpoint
  · obtain ⟨piece, hpiece, hmem⟩ := exists_mem_splitAt hc hpoint
    have hname : TokenSheets.isName piece = true := List.all_eq_true.mp f.isName piece hpiece
    exact .inr (isNameChar_of_isName hname c hmem)

theorem FunctionName.steady (f : FunctionName) : Steady f.text.toList := by
  apply steady_of_inert
  intro c hc
  rcases f.isNameChar_of_mem hc with rfl | h
  · decide
  · exact isInert_of_isNameChar h

theorem Double.steady_placesText (d : Double) : Steady d.placesText := by
  apply steady_of_inert
  intro c hc
  rcases isNumberChar_of_mem_placesText c hc with h | rfl | rfl
  · exact isInert_of_isAlphanum h
  · decide
  · decide

/-- The space before a statement. -/
theorem steady_indent (depth : Nat) : Steady (indent depth) := by
  apply steady_of_inert
  intro c hc
  rw [List.eq_of_mem_replicate hc]
  decide

end TokenSheets
