/-
TokenSheets/Proofs/Sheet/Scope.lean

Scopes of variables and modules.

Sheets are imported one after the other and share their variables, so what a
sheet may read has been set in an earlier sheet, or earlier in the sheet
itself; inside a mixin the parameters and what its body has set come in
addition (`Item.ScopedIn`).  Modules are not shared: a sheet calls functions of
a module only after it has taken the module into use (`CallsAfterUse`).  Both
are properties of all the expressions in a sheet, so they are stated on the
parts of an expression (`Expr.All`).
-/
import TokenSheets.Proofs.Outcome
import TokenSheets.Sheet.Basic

namespace TokenSheets

/-! ### Parts of expressions -/

namespace Expr

mutual

/-- An expression with all expressions inside of it. -/
def parts : Expr → List Expr
  | .map entries => .map entries :: entriesParts entries
  | .call f args => .call f args :: argsParts args
  | .str s => [.str s]
  | .literal l => [.literal l]
  | .number d h => [.number d h]
  | .var name => [.var name]
  | .null => [.null]
  | .escaped c => [.escaped c]

def entriesParts : List (String × Expr) → List Expr
  | [] => []
  | (_, e) :: rest => e.parts ++ entriesParts rest

def argsParts : List Expr → List Expr
  | [] => []
  | e :: rest => e.parts ++ argsParts rest

end

theorem mem_entriesParts {es : List (String × Expr)} {x : Expr} :
    x ∈ entriesParts es ↔ ∃ e ∈ es, x ∈ e.2.parts := by
  induction es with
  | nil => simp [entriesParts]
  | cons e rest ih =>
    obtain ⟨k, e⟩ := e
    rw [entriesParts, List.mem_append, ih]
    simp

theorem mem_argsParts {es : List Expr} {x : Expr} :
    x ∈ argsParts es ↔ ∃ e ∈ es, x ∈ e.parts := by
  induction es with
  | nil => simp [argsParts]
  | cons e rest ih =>
    rw [argsParts, List.mem_append, ih]
    simp

/-- A property of all parts. -/
def All (p : Expr → Prop) (e : Expr) : Prop := ∀ x ∈ e.parts, p x

section
variable {p : Expr → Prop}

theorem all_map {es : List (String × Expr)} :
    All p (.map es) ↔ p (.map es) ∧ ∀ e ∈ es, All p e.2 := by
  simp only [All, parts, List.forall_mem_cons, mem_entriesParts]
  refine and_congr_right fun _ => ?_
  constructor
  · intro h e he x hx
    exact h x ⟨e, he, hx⟩
  · rintro h x ⟨e, he, hx⟩
    exact h e he x hx

theorem all_call {f : FunctionName} {args : List Expr} :
    All p (.call f args) ↔ p (.call f args) ∧ ∀ e ∈ args, All p e := by
  simp only [All, parts, List.forall_mem_cons, mem_argsParts]
  refine and_congr_right fun _ => ?_
  constructor
  · intro h e he x hx
    exact h x ⟨e, he, hx⟩
  · rintro h x ⟨e, he, hx⟩
    exact h e he x hx

theorem all_var {name : Ident} : All p (.var name) ↔ p (.var name) := by simp [All, parts]

theorem all_str {s : String} : All p (.str s) ↔ p (.str s) := by simp [All, parts]

theorem all_literal {l : Literal} : All p (.literal l) ↔ p (.literal l) := by simp [All, parts]

theorem all_number {d : Double} {h : d.isFinite = true} :
    All p (.number d h) ↔ p (.number d h) := by
  simp [All, parts]

theorem all_null : All p .null ↔ p .null := by simp [All, parts]

theorem all_escaped {c : Char} : All p (.escaped c) ↔ p (.escaped c) := by simp [All, parts]

theorem All.mono {q : Expr → Prop} (hpq : ∀ x, p x → q x) {e : Expr} (h : All p e) : All q e :=
  fun x hx => hpq x (h x hx)

end

/-! ### Variables -/

/-- Every variable that an expression reads is among the known ones. -/
def ScopedIn (known : List Ident) (e : Expr) : Prop :=
  e.All fun x => ∀ name, x = .var name → name ∈ known

section
variable {known : List Ident}

@[simp] theorem scopedIn_var {name : Ident} : ScopedIn known (.var name) ↔ name ∈ known := by
  simp [ScopedIn, all_var]

@[simp] theorem scopedIn_map {es : List (String × Expr)} :
    ScopedIn known (.map es) ↔ ∀ e ∈ es, e.2.ScopedIn known := by
  simp [ScopedIn, all_map]

@[simp] theorem scopedIn_call {f : FunctionName} {args : List Expr} :
    ScopedIn known (.call f args) ↔ ∀ e ∈ args, e.ScopedIn known := by
  simp [ScopedIn, all_call]

@[simp] theorem scopedIn_str {s : String} : ScopedIn known (.str s) := by
  simp [ScopedIn, all_str]

@[simp] theorem scopedIn_literal {l : Literal} : ScopedIn known (.literal l) := by
  simp [ScopedIn, all_literal]

@[simp] theorem scopedIn_number {d : Double} {h : d.isFinite = true} :
    ScopedIn known (.number d h) := by
  simp [ScopedIn, all_number]

@[simp] theorem scopedIn_null : ScopedIn known .null := by
  simp [ScopedIn, all_null]

@[simp] theorem scopedIn_escaped {c : Char} : ScopedIn known (.escaped c) := by
  simp [ScopedIn, all_escaped]

theorem ScopedIn.mono {known' : List Ident} (hk : known ⊆ known') {e : Expr}
    (h : e.ScopedIn known) : e.ScopedIn known' :=
  All.mono (fun _ hx name hname => hk (hx name hname)) h

end

end Expr

/-! ### Statements -/

/-- Whatever is set in front, more variables may be known behind it. -/
theorem known_append_mono {known known' : List Ident} (hk : known ⊆ known') (xs : List Ident) :
    xs ++ known ⊆ xs ++ known' := by
  intro x hx
  rcases List.mem_append.mp hx with hx | hx
  · exact List.mem_append_left _ hx
  · exact List.mem_append_right _ (hk hx)

/-- Each default reads known variables or earlier parameters. -/
def ParamsScopedIn (known : List Ident) : List Param → Prop
  | [] => True
  | p :: ps =>
    (∀ e, p.default = some e → e.ScopedIn known) ∧ ParamsScopedIn (p.name :: known) ps

namespace Item

/-- The variables that a statement sets for what follows it.  What a mixin sets stays in it. -/
def declares : Item → List Ident
  | .assign name _ => [name]
  | _ => []

mutual

/-- Every variable that a statement reads, at any depth, is known where it is read. -/
def ScopedIn (known : List Ident) : Item → Prop
  | .assign _ value => value.ScopedIn known
  | .defineMixin _ params body =>
    ParamsScopedIn known params ∧ AllScopedIn (params.map (·.name) ++ known) body
  | .includeMixin _ args => ∀ e ∈ args, e.ScopedIn known
  | .useModule _ => True
  | .importSheet _ => True
  | .comment _ => True

/-- Statements in order: what one of them sets is known after it. -/
def AllScopedIn (known : List Ident) : List Item → Prop
  | [] => True
  | i :: is => i.ScopedIn known ∧ AllScopedIn (i.declares ++ known) is

end

/-- The variables that statements set. -/
def declared (items : List Item) : List Ident := items.flatMap declares

end Item

theorem ParamsScopedIn.mono {known known' : List Ident} (hk : known ⊆ known') {ps : List Param}
    (h : ParamsScopedIn known ps) : ParamsScopedIn known' ps := by
  induction ps generalizing known known' with
  | nil => trivial
  | cons p ps ih =>
    obtain ⟨hp, hps⟩ := h
    refine ⟨fun e he => (hp e he).mono hk, ?_⟩
    exact ih (List.cons_subset_cons _ hk) hps

namespace Item

mutual

/-- More variables may be known. -/
theorem ScopedIn.mono {known known' : List Ident} (hk : known ⊆ known') :
    ∀ i : Item, i.ScopedIn known → i.ScopedIn known'
  | .assign _ _, h => by
    rw [ScopedIn] at h ⊢
    exact h.mono hk
  | .defineMixin _ params body, h => by
    rw [ScopedIn] at h ⊢
    refine ⟨h.1.mono hk, ?_⟩
    exact AllScopedIn.mono (known_append_mono hk _) body h.2
  | .includeMixin _ _, h => by
    rw [ScopedIn] at h ⊢
    exact fun e he => (h e he).mono hk
  | .useModule _, _ => by rw [ScopedIn]; trivial
  | .importSheet _, _ => by rw [ScopedIn]; trivial
  | .comment _, _ => by rw [ScopedIn]; trivial

theorem AllScopedIn.mono {known known' : List Ident} (hk : known ⊆ known') :
    ∀ is : List Item, AllScopedIn known is → AllScopedIn known' is
  | [], _ => by rw [AllScopedIn]; trivial
  | i :: is, h => by
    rw [AllScopedIn] at h ⊢
    refine ⟨ScopedIn.mono hk i h.1, ?_⟩
    exact AllScopedIn.mono (known_append_mono hk _) is h.2

end

/-- Statements that each read known variables only are scoped in any order. -/
theorem allScopedIn_of_forall {known : List Ident} {is : List Item}
    (h : ∀ i ∈ is, i.ScopedIn known) : AllScopedIn known is := by
  induction is with
  | nil => trivial
  | cons i is ih =>
    rw [List.forall_mem_cons] at h
    exact ⟨h.1, AllScopedIn.mono (List.subset_append_right _ _) is (ih h.2)⟩

end Item

/-! ### Sheets -/

/-- The variables that a sheet sets. -/
def Sheet.declared (s : Sheet) : List Ident := Item.declared s.items

/-- Sheets in import order: what one of them sets is known in the later ones. -/
def SheetsScopedIn (known : List Ident) : List Sheet → Prop
  | [] => True
  | s :: ss => Item.AllScopedIn known s.items ∧ SheetsScopedIn (s.declared ++ known) ss

theorem SheetsScopedIn.mono {known known' : List Ident} (hk : known ⊆ known') {ss : List Sheet}
    (h : SheetsScopedIn known ss) : SheetsScopedIn known' ss := by
  induction ss generalizing known known' with
  | nil => trivial
  | cons s ss ih =>
    refine ⟨Item.AllScopedIn.mono hk s.items h.1, ?_⟩
    exact ih (known_append_mono hk _) h.2

theorem sheetsScopedIn_append {known : List Ident} {ss ts : List Sheet} :
    SheetsScopedIn known (ss ++ ts) ↔
      SheetsScopedIn known ss ∧ SheetsScopedIn (ss.flatMap Sheet.declared ++ known) ts := by
  induction ss generalizing known with
  | nil => simp [SheetsScopedIn]
  | cons s ss ih =>
    rw [List.cons_append, SheetsScopedIn, SheetsScopedIn, ih, and_assoc]
    refine and_congr_right fun _ => and_congr_right fun _ => ?_
    have hperm : (ss.flatMap Sheet.declared ++ (s.declared ++ known)).Perm
        ((s :: ss).flatMap Sheet.declared ++ known) := by
      rw [List.flatMap_cons, List.append_assoc]
      exact List.perm_append_comm_assoc _ _ _
    exact ⟨SheetsScopedIn.mono hperm.subset, SheetsScopedIn.mono hperm.symm.subset⟩

/-- Sheets that each read known variables only are scoped in any order. -/
theorem sheetsScopedIn_of_forall {known : List Ident} {ss : List Sheet}
    (h : ∀ s ∈ ss, Item.AllScopedIn known s.items) : SheetsScopedIn known ss := by
  induction ss with
  | nil => trivial
  | cons s ss ih =>
    rw [List.forall_mem_cons] at h
    exact ⟨h.1, (ih h.2).mono (List.subset_append_right _ _)⟩

/-! ### Modules -/

/-- The module of a function, if its name says one: what stands before the first point. -/
def FunctionName.module? (f : FunctionName) : Option String :=
  match TokenSheets.splitAt '.' f.text.toList with
  | m :: _ :: _ => some (String.ofList m)
  | _ => none

/-- Every function that an expression calls from a module is from one in use. -/
def Expr.CallsWithin (used : List String) (e : Expr) : Prop :=
  e.All fun x => ∀ f args, x = .call f args → ∀ m, f.module? = some m → "sass:" ++ m ∈ used

namespace Expr

section
variable {used : List String}

theorem CallsWithin.mono {used' : List String} (hu : used ⊆ used') {e : Expr}
    (h : e.CallsWithin used) : e.CallsWithin used' :=
  All.mono (fun _ hx f args hcall m hm => hu (hx f args hcall m hm)) h

@[simp] theorem callsWithin_call {f : FunctionName} {args : List Expr} :
    CallsWithin used (.call f args) ↔
      (∀ m, f.module? = some m → "sass:" ++ m ∈ used) ∧ ∀ e ∈ args, e.CallsWithin used := by
  simp only [CallsWithin, all_call, Expr.call.injEq]
  refine and_congr_left fun _ => ?_
  constructor
  · intro h
    exact h f args ⟨rfl, rfl⟩
  · rintro h g bs ⟨rfl, rfl⟩
    exact h

@[simp] theorem callsWithin_map {es : List (String × Expr)} :
    CallsWithin used (.map es) ↔ ∀ e ∈ es, e.2.CallsWithin used := by
  simp [CallsWithin, all_map]

@[simp] theorem callsWithin_var {name : Ident} : CallsWithin used (.var name) := by
  simp [CallsWithin, all_var]

@[simp] theorem callsWithin_str {s : String} : CallsWithin used (.str s) := by
  simp [CallsWithin, all_str]

@[simp] theorem callsWithin_literal {l : Literal} : CallsWithin used (.literal l) := by
  simp [CallsWithin, all_literal]

@[simp] theorem callsWithin_number {d : Double} {h : d.isFinite = true} :
    CallsWithin used (.number d h) := by
  simp [CallsWithin, all_number]

@[simp] theorem callsWithin_null : CallsWithin used .null := by
  simp [CallsWithin, all_null]

@[simp] theorem callsWithin_escaped {c : Char} : CallsWithin used (.escaped c) := by
  simp [CallsWithin, all_escaped]

end

end Expr

namespace Item

mutual

/-- The expressions of a statement, also those of a mixin that it defines. -/
def exprs : Item → List Expr
  | .assign _ value => [value]
  | .defineMixin _ params body => params.filterMap (·.default) ++ allExprs body
  | .includeMixin _ args => args
  | .useModule _ => []
  | .importSheet _ => []
  | .comment _ => []

def allExprs : List Item → List Expr
  | [] => []
  | i :: is => i.exprs ++ allExprs is

end

/-- The module that a statement takes into use. -/
def uses : Item → List String
  | .useModule name => [name]
  | _ => []

/-- What may stand before the uses of modules: other uses and comments. -/
def IsHeader : Item → Prop
  | .useModule _ => True
  | .comment _ => True
  | _ => False

/-- A statement that takes no module into use and calls functions of the given ones only. -/
def CallsOnly (used : List String) (i : Item) : Prop :=
  i.uses = [] ∧ ∀ e ∈ i.exprs, e.CallsWithin used

@[simp] theorem callsOnly_assign {used : List String} {name : Ident} {value : Expr} :
    CallsOnly used (.assign name value) ↔ value.CallsWithin used := by
  simp [CallsOnly, uses, exprs]

theorem CallsOnly.mono {used used' : List String} (hu : used ⊆ used') {i : Item}
    (h : i.CallsOnly used) : i.CallsOnly used' :=
  ⟨h.1, fun e he => (h.2 e he).mono hu⟩

/-- Functions of a module are called after the module has been taken into use. -/
def CallsAfterUse (used : List String) : List Item → Prop
  | [] => True
  | i :: is => (∀ e ∈ i.exprs, e.CallsWithin used) ∧ CallsAfterUse (i.uses ++ used) is

theorem callsAfterUse_of_forall {used : List String} {items : List Item}
    (h : ∀ i ∈ items, i.CallsOnly used) : CallsAfterUse used items := by
  induction items with
  | nil => trivial
  | cons i is ih =>
    rw [List.forall_mem_cons] at h
    refine ⟨h.1.2, ?_⟩
    rw [h.1.1, List.nil_append]
    exact ih h.2

/-- The form that sheets have: the modules they need, then everything else. -/
theorem callsAfterUse_useModule {used modules : List String} {rest : List Item}
    (h : ∀ i ∈ rest, i.CallsOnly (modules ++ used)) :
    CallsAfterUse used (modules.map .useModule ++ rest) := by
  induction modules generalizing used with
  | nil => exact callsAfterUse_of_forall h
  | cons m modules ih =>
    refine ⟨by simp [exprs], ?_⟩
    have hperm : (m :: modules ++ used).Perm (modules ++ ([m] ++ used)) :=
      List.perm_append_comm_assoc [m] modules used
    exact ih fun i hi => (h i hi).mono hperm.subset

end Item

/-- A sheet takes its modules into use first, and calls functions of no others. -/
structure Sheet.UsesModules (s : Sheet) : Prop where
  calls : Item.CallsAfterUse [] s.items
  usesFirst : ∃ header rest, s.items = header ++ rest ∧ (∀ i ∈ header, i.IsHeader) ∧
    ∀ i ∈ rest, i.uses = []

end TokenSheets
