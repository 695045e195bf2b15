/-
TokenSheets/Proofs/Sheet/Evaluation.lean

What sheets do when they are run.

A sheet sets variables, and later sheets see what earlier ones have set, so the
state is a table of values by the names of the variables.  Maps are tables too:
`map.set` replaces an entry where it stands or appends it, which is
`Table.insert`, and `map.get` finds an entry.  The semantics is strict: reading
a variable that is not set, looking up a key that is not there and writing a
key twice in one map are faults, and so is everything that settings sheets do
not do.  That a run succeeds therefore says that none of this happens in it.
-/
import TokenSheets.Proofs.Outcome
import TokenSheets.Proofs.Table
import TokenSheets.Sheet.Basic

namespace TokenSheets

open Outcome

/-! ### Values -/

/-- A value of the stylesheet language. -/
inductive StyleValue where
  /-- A text between quotes. -/
  | quoted (s : String)
  /-- A text as it is written. -/
  | plain (text : String)
  | number (d : Double)
  | escaped (c : Char)
  | null
  | map (entries : List (String × StyleValue))

/-- What can go wrong in a run. -/
inductive StyleFault where
  | unsetVariable (name : String)
  | absentKey (key : String)
  | repeatedKey
  /-- A function that is not modelled, or one with arguments of the wrong kind. -/
  | badCall (function : String)
  /-- A statement that settings sheets do not have. -/
  | badStatement

/-- The values of the variables. -/
abbrev StyleEnv := Table StyleValue

/-! ### Running -/

/-- The functions of `sass:map` that the settings use. -/
def FunctionName.apply (f : FunctionName) (args : List StyleValue) :
    Except StyleFault StyleValue :=
  match args with
  | [.map entries, .quoted key] =>
    if f.text = "map.get" then
      match Table.get? entries key with
      | some v => .ok v
      | none => .error (.absentKey key)
    else .error (.badCall f.text)
  | [.map entries, .quoted key, v] =>
    if f.text = "map.set" then .ok (.map (Table.insert entries key v))
    else .error (.badCall f.text)
  | _ => .error (.badCall f.text)

namespace Expr

mutual

/-- The value of an expression. -/
def eval (env : StyleEnv) : Expr → Except StyleFault StyleValue
  | .str s => .ok (.quoted s)
  | .literal l => .ok (.plain l.text)
  | .number d _ => .ok (.number d)
  | .escaped c => .ok (.escaped c)
  | .null => .ok .null
  | .var name =>
    match env.get? name.text with
    | some v => .ok v
    | none => .error (.unsetVariable name.text)
  | .map entries => do
    let vs ← evalEntries env entries
    if (Table.keys vs).Nodup then .ok (.map vs) else .error .repeatedKey
  | .call f args => do
    let vs ← evalArgs env args
    f.apply vs

def evalEntries (env : StyleEnv) : List (String × Expr) → Except StyleFault (Table StyleValue)
  | [] => .ok []
  | (key, e) :: rest => do
    let v ← e.eval env
    let vs ← evalEntries env rest
    return (key, v) :: vs

def evalArgs (env : StyleEnv) : List Expr → Except StyleFault (List StyleValue)
  | [] => .ok []
  | e :: rest => do
    let v ← e.eval env
    let vs ← evalArgs env rest
    return v :: vs

end

end Expr

/-- The variables after a statement.  Taking a module into use and defining a mixin set none. -/
def Item.exec (env : StyleEnv) : Item → Except StyleFault StyleEnv
  | .assign name value => do
    let v ← value.eval env
    return env.insert name.text v
  | .useModule _ => .ok env
  | .comment _ => .ok env
  | .defineMixin _ _ _ => .ok env
  | .importSheet _ => .error .badStatement
  | .includeMixin _ _ => .error .badStatement

/-- The variables after statements in order. -/
def Item.execAll (env : StyleEnv) : List Item → Except StyleFault StyleEnv
  | [] => .ok env
  | i :: is => do
    let env' ← i.exec env
    execAll env' is

/-- The variables after sheets in import order. -/
def Sheet.runAll (env : StyleEnv) : List Sheet → Except StyleFault StyleEnv
  | [] => .ok env
  | s :: ss => do
    let env' ← Item.execAll env s.items
    runAll env' ss

/-! ### Expressions -/

namespace Expr

section
variable {env : StyleEnv}

theorem eval_str (env : StyleEnv) (s : String) : eval env (.str s) = .ok (.quoted s) := by
  rw [eval]

theorem eval_literal (env : StyleEnv) (l : Literal) :
    eval env (.literal l) = .ok (.plain l.text) := by
  rw [eval]

theorem eval_escaped (env : StyleEnv) (c : Char) : eval env (.escaped c) = .ok (.escaped c) := by
  rw [eval]

theorem eval_var {name : Ident} {v : StyleValue} (h : env.get? name.text = some v) :
    eval env (.var name) = .ok v := by
  rw [eval, h]

theorem eval_call {f : FunctionName} {args : List Expr} {vs : List StyleValue}
    (h : evalArgs env args = .ok vs) : eval env (.call f args) = f.apply vs := by
  rw [eval, h]
  rfl

theorem evalArgs_nil : evalArgs env [] = .ok [] := by
  rw [evalArgs]

theorem evalArgs_cons {e : Expr} {rest : List Expr} {v : StyleValue} {vs : List StyleValue}
    (he : e.eval env = .ok v) (hrest : evalArgs env rest = .ok vs) :
    evalArgs env (e :: rest) = .ok (v :: vs) := by
  rw [evalArgs, he, hrest]
  rfl

theorem evalEntries_cons {key : String} {e : Expr} {rest : List (String × Expr)}
    {v : StyleValue} {vs : Table StyleValue} (he : e.eval env = .ok v)
    (hrest : evalEntries env rest = .ok vs) :
    evalEntries env ((key, e) :: rest) = .ok ((key, v) :: vs) := by
  rw [evalEntries, he, hrest]
  rfl

/-- A map without repeated keys has the values of its entries. -/
theorem eval_map {es : List (String × Expr)} {vs : Table StyleValue}
    (h : evalEntries env es = .ok vs) (hk : vs.keys.Nodup) :
    eval env (.map es) = .ok (.map vs) := by
  rw [eval, h]
  exact if_pos hk

end

end Expr

/-! ### Statements and sheets -/

namespace Item

theorem exec_assign {env : StyleEnv} {name : Ident} {value : Expr} {v : StyleValue}
    (h : value.eval env = .ok v) :
    exec env (.assign name value) = .ok (env.insert name.text v) := by
  rw [exec, h]
  rfl

theorem execAll_cons {env env' : StyleEnv} {i : Item} {is : List Item}
    (h : i.exec env = .ok env') : execAll env (i :: is) = execAll env' is := by
  rw [execAll, h]
  rfl

theorem execAll_append {env env' : StyleEnv} {is js : List Item} (h : execAll env is = .ok env') :
    execAll env (is ++ js) = execAll env' js := by
  induction is generalizing env with
  | nil =>
    rw [← Except.ok.inj h]
    rfl
  | cons i is ih =>
    obtain ⟨env₁, hi, his⟩ := bind_eq_ok.mp h
    rw [List.cons_append, execAll_cons hi]
    exact ih his

end Item

theorem Sheet.runAll_append {env env' : StyleEnv} {ss ts : List Sheet}
    (h : runAll env ss = .ok env') : runAll env (ss ++ ts) = runAll env' ts := by
  induction ss generalizing env with
  | nil =>
    rw [← Except.ok.inj h]
    rfl
  | cons s ss ih =>
    obtain ⟨env₁, hs, hss⟩ := bind_eq_ok.mp h
    rw [List.cons_append, runAll, hs]
    exact ih hss

theorem Sheet.runAll_singleton {env env' : StyleEnv} {s : Sheet}
    (h : Item.execAll env s.items = .ok env') : runAll env [s] = .ok env' := by
  rw [runAll, h]
  rfl

end TokenSheets
