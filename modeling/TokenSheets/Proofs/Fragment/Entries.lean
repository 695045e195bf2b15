/-
TokenSheets/Proofs/Fragment/Entries.lean

Maps of literals.

Breakpoints, colors, spacing and listed rules are all written in the same way:
the entries of a table become entries of a map, in order and under their names,
and the first text that cannot stand for a value is an error.  So the three
functions that do it are one step (`named`) over a list.  When it succeeds, the
map writes the texts of the table (`WritesTexts`), and this relation is all
that the meaning of the sheets depends on.
-/
import TokenSheets.Proofs.Outcome
import TokenSheets.Proofs.Table
import TokenSheets.Proofs.Number.Text
import TokenSheets.Fragment.Utilities

namespace TokenSheets

open Outcome

/-! ### Literals -/

/-- The text that a literal holds. -/
def trimmed (s : String) : String := String.ofList (trim s.toList)

theorem isUsable_trimmed {s : String} (h : isUsable s.toList = true) :
    isUsable (trimmed s).toList = true := by
  rw [trimmed, String.toList_ofList]
  exact isUsable_trim h

theorem literal?_eq_ok {s : String} {x : Expr} :
    Expr.literal? s = .ok x ↔
      isUsable s.toList = true ∧ ∃ l : Literal, x = .literal l ∧ l.text = trimmed s := by
  unfold Expr.literal? Literal.ofString?
  by_cases hs : isUsable s.toList = true
  · rw [dif_pos hs]
    constructor
    · intro h
      exact ⟨hs, _, (Except.ok.inj h).symm, rfl⟩
    · rintro ⟨-, l, rfl, hl⟩
      refine congrArg (fun l => Except.ok (Expr.literal l)) ?_
      cases l
      simp_all [trimmed]
  · rw [dif_neg hs]
    simp [Except.map, hs]

theorem literal?_eq_error {s : String} {e : SheetError} :
    Expr.literal? s = .error e ↔ isUsable s.toList = false ∧ e = .invalidLiteral s := by
  unfold Expr.literal? Literal.ofString?
  by_cases hs : isUsable s.toList = true
  · simp [Except.map, hs]
  · rw [dif_neg hs]
    simp only [Except.map, Except.error.injEq]
    simp [hs, eq_comm]

theorem exists_literal?_iff {s : String} :
    (∃ x, Expr.literal? s = .ok x) ↔ isUsable s.toList = true := by
  simp only [literal?_eq_ok]
  constructor
  · rintro ⟨-, h, -⟩
    exact h
  · intro h
    exact ⟨_, h, ⟨trimmed s, isUsable_trimmed h⟩, rfl, rfl⟩

theorem inContext_eq_ok {α : Type} {ctx : SheetContext} {x : Except SheetError α} {a : α} :
    inContext ctx x = .ok a ↔ x = .ok a := by
  cases x <;> simp [inContext]

theorem inContext_eq_error {α : Type} {ctx : SheetContext} {x : Except SheetError α}
    {e : GenerateError} : inContext ctx x = .error e ↔ ∃ s, x = .error s ∧ e = .sheet ctx s := by
  cases x <;> simp [inContext, eq_comm]

/-! ### Entries of a map -/

section
variable {ε α : Type} {f : String × α → Except ε Expr} {a : String × α}

/-- An entry of a map, under the name of an entry of a table. -/
def named (f : String × α → Except ε Expr) (a : String × α) : Except ε (String × Expr) :=
  (f a).map fun x => (a.1, x)

theorem named_eq_ok {y : String × Expr} : named f a = .ok y ↔ y.1 = a.1 ∧ f a = .ok y.2 := by
  obtain ⟨k, x⟩ := y
  rw [named, map_eq_ok]
  constructor
  · rintro ⟨x', hx, h⟩
    obtain ⟨rfl, rfl⟩ := Prod.mk.inj h
    exact ⟨rfl, hx⟩
  · rintro ⟨rfl, hx⟩
    exact ⟨x, hx, rfl⟩

theorem exists_named_iff : (∃ y, named f a = .ok y) ↔ ∃ x, f a = .ok x := by
  simp only [named_eq_ok]
  constructor
  · rintro ⟨y, -, hx⟩
    exact ⟨y.2, hx⟩
  · rintro ⟨x, hx⟩
    exact ⟨(a.1, x), rfl, hx⟩

theorem named_eq_error {e : ε} : named f a = .error e ↔ f a = .error e := map_eq_error

end

/-! ### Maps that write texts -/

/-- A map entry that writes a text as a literal, under the same name. -/
structure WritesText (e : String × String) (x : String × Expr) : Prop where
  name : x.1 = e.1
  literal : ∃ l : Literal, x.2 = .literal l ∧ l.text = trimmed e.2

/-- A map that writes the texts of a table in order. -/
abbrev WritesTexts (t : Table String) (es : List (String × Expr)) : Prop :=
  List.Forall₂ WritesText t es

/-- Every expression of such a map is a literal. -/
theorem WritesTexts.literal_of_mem {t : Table String} {es : List (String × Expr)}
    (h : WritesTexts t es) {x : String × Expr} (hx : x ∈ es) : ∃ l, x.2 = .literal l := by
  induction h with
  | nil => simp at hx
  | cons hy _ ih =>
    rcases List.mem_cons.mp hx with rfl | hx
    · obtain ⟨l, hl, -⟩ := hy.literal
      exact ⟨l, hl⟩
    · exact ih hx

/-- If every entry is made by writing its text, the map writes the texts. -/
theorem writesTexts_of_mapM {ε α : Type} {f : String × α → Except ε Expr} {text : α → String}
    {t : Table α} {es : List (String × Expr)} (h : t.mapM (named f) = .ok es)
    (hf : ∀ a x, f a = .ok x → Expr.literal? (text a.2) = .ok x) :
    WritesTexts (t.map fun a => (a.1, text a.2)) es := by
  rw [mapM_eq_ok] at h
  induction h with
  | nil => exact .nil
  | cons hx _ ih =>
    obtain ⟨hname, hx⟩ := named_eq_ok.mp hx
    exact .cons ⟨hname, (literal?_eq_ok.mp (hf _ _ hx)).2⟩ ih

/-! ### The functions that write maps -/

namespace SettingsSheets

theorem tokenEntries_eq (ctx : String → SheetContext) (t : Table String) :
    tokenEntries ctx t = t.mapM (named fun e => inContext (ctx e.1) (Expr.literal? e.2)) := by
  induction t with
  | nil => rfl
  | cons e rest ih =>
    obtain ⟨name, text⟩ := e
    rw [tokenEntries, List.mapM_cons, ih, named]
    cases inContext (ctx name) (Expr.literal? text) <;> rfl

/-- One scaled length. -/
def lengthEntry (base : Length) (f : String × Double) : Except GenerateError Expr :=
  if !f.2.isFinite then throw (.invalidSpacingFactor f.1)
  else inContext (.spacing f.1) (Expr.literal? (base.scale f.2))

theorem lengthEntries_eq (base : Length) (t : Table Double) :
    lengthEntries base t = t.mapM (named (lengthEntry base)) := by
  induction t with
  | nil => rfl
  | cons e rest ih =>
    obtain ⟨name, factor⟩ := e
    rw [lengthEntries, List.mapM_cons, ih, named, lengthEntry]
    split
    · rfl
    · cases inContext (.spacing name) (Expr.literal? (base.scale factor)) <;> rfl

end SettingsSheets

namespace UtilitySheets

theorem ruleEntries_eq (t : Table Token) :
    ruleEntries t = t.mapM (named fun e => Expr.literal? e.2.show) := by
  induction t with
  | nil => rfl
  | cons e rest ih =>
    obtain ⟨name, token⟩ := e
    rw [ruleEntries, List.mapM_cons, ih, named]
    cases Expr.literal? token.show <;> rfl

end UtilitySheets

end TokenSheets
