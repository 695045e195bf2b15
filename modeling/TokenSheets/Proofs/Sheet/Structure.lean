/-
TokenSheets/Proofs/Sheet/Structure.lean

The structure that a reader finds in the text of a sheet.

Whatever the configuration says, a sheet is meant to show as many semicolons as it
has statements and as many braces of either kind as it has mixins, and to leave
nothing open (`Sheet.KeepsStructure`).  Strings, keys, escaped characters, names,
numbers and comments cannot spoil this.  Literals can: they are written as they are,
and the check that they pass looks for the characters that end statements and blocks
only, not for quotes, backslashes and comments, which swallow what comes after them.

So the structure depends on the literals alone.  If each of them is closed, that is,
a reader who scans it by itself ends outside, the structure is kept, and no weaker
condition on literals would do (`Sheet.keepsStructure_iff_isClosed`).

An expression is steady together with the character in front of it
(`Expr.steady_cons_render`): a literal is taken in from outside only, and that
character is what leads there.
-/
import TokenSheets.Proofs.Sheet.Scan
import TokenSheets.Proofs.Sheet.Scope

namespace TokenSheets

open ScanMode

/-! ### Statements and mixins -/

namespace Item

mutual

/-- The statements that end with a semicolon, those in mixins included. -/
def statements : Item → Nat
  | .useModule _ => 1
  | .importSheet _ => 1
  | .assign _ _ => 1
  | .defineMixin _ _ body => allStatements body
  | .includeMixin _ _ => 1
  | .comment _ => 0

def allStatements : List Item → Nat
  | [] => 0
  | i :: is => i.statements + allStatements is

end

mutual

/-- The mixins, those in mixins included. -/
def mixins : Item → Nat
  | .defineMixin _ _ body => allMixins body + 1
  | .useModule _ => 0
  | .importSheet _ => 0
  | .assign _ _ => 0
  | .includeMixin _ _ => 0
  | .comment _ => 0

def allMixins : List Item → Nat
  | [] => 0
  | i :: is => i.mixins + allMixins is

end

end Item

/-- What a reader finds is what the sheet consists of, and nothing is left open. -/
structure Sheet.KeepsStructure (s : Sheet) : Prop where
  closed : (after .outside s.render).Rests
  semicolons : met ';' .outside s.render = Item.allStatements s.items
  opened : met '\x7b' .outside s.render = Item.allMixins s.items
  shut : met '\x7d' .outside s.render = Item.allMixins s.items

/-! ### Closed literals -/

/-- A literal that leaves a reader outside. -/
def Literal.IsClosed (l : Literal) : Prop := (after .outside l.text.toList).Rests

/-- The literal stands somewhere in the sheet. -/
def Sheet.Carries (s : Sheet) (l : Literal) : Prop :=
  ∃ e ∈ Item.allExprs s.items, Expr.literal l ∈ e.parts

/-- A literal shows no structure, wherever the reader is. -/
theorem Literal.met_text (l : Literal) (m : ScanMode) {x : Char} (hx : x ∈ structureChars) :
    met x m l.text.toList = 0 := by
  have hends : ∀ y ∈ structureChars, isBlank y = false ∧ breaksStatement y = true :=
    forall_mem_of_all (by decide)
  exact met_eq_zero (l.not_mem_text (hends x hx).1 (hends x hx).2) m

/-- A character of an escape is taken with the backslash in front of it. -/
theorem steady_escaped (c : Char) : Steady ['\\', c] := by
  intro m hm
  have hescape : m.step '\\' = .escape := by
    cases m <;> simp_all [Rests, step, enter]
  refine ⟨by rw [after_cons, hescape]; trivial, fun x hx => ?_⟩
  have hne : '\\' ≠ x := (ne_of_mem_of_not_mem hx (by decide)).symm
  simp [met, hescape, hne, Rests]

/-! ### Expressions -/

namespace Expr

/-- All literals of an expression are closed. -/
def IsClosed (e : Expr) : Prop := e.All fun x => ∀ l, x = .literal l → l.IsClosed

@[simp] theorem isClosed_literal {l : Literal} : IsClosed (.literal l) ↔ l.IsClosed := by
  simp [IsClosed, all_literal]

@[simp] theorem isClosed_map {es : List (String × Expr)} :
    IsClosed (.map es) ↔ ∀ e ∈ es, e.2.IsClosed := by
  simp [IsClosed, all_map]

@[simp] theorem isClosed_call {f : FunctionName} {args : List Expr} :
    IsClosed (.call f args) ↔ ∀ e ∈ args, e.IsClosed := by
  simp [IsClosed, all_call]

/-- An entry of a map, from the space before its key to its line end. -/
theorem steady_entry (depth : Nat) (key : List Char) {value rest : List Char}
    (hvalue : Steady (' ' :: value)) (hrest : Steady rest) :
    Steady (indent depth ++ quote key ++ ':' :: ' ' :: (value ++ ',' :: '\n' :: rest)) := by
  have hend : Steady (',' :: '\n' :: rest) := (hrest.cons (by decide)).cons (by decide)
  have hbody : Steady (':' :: ((' ' :: value) ++ ',' :: '\n' :: rest)) :=
    (hvalue.append hend).cons (by decide)
  exact ((steady_indent depth).append (steady_quote key)).append hbody

mutual

/-- An expression is steady together with the character in front of it. -/
theorem steady_cons_render {c : Char} (hc : IsInert c) (depth : Nat) :
    ∀ e : Expr, e.IsClosed → Steady (c :: e.render depth)
  | .str s, _ => by
    rw [render]
    exact (steady_quote _).cons hc
  | .literal l, h => by
    rw [render]
    exact steady_cons hc ⟨isClosed_literal.mp h, fun x hx => l.met_text _ hx⟩
  | .number d _, _ => by
    rw [render]
    exact d.steady_placesText.cons hc
  | .var name, _ => by
    rw [render]
    exact (name.steady.cons (by decide)).cons hc
  | .map [], _ => by
    rw [render]
    exact (steady_of_all (by decide)).cons hc
  | .map ((k, e) :: rest), h => by
    rw [isClosed_map, List.forall_mem_cons] at h
    rw [render]
    have hvalue : Steady (' ' :: e.render (depth + 1)) :=
      steady_cons_render (by decide) (depth + 1) e h.1
    have hrest : Steady (renderEntries (depth + 1) rest ++ indent depth ++ [')']) :=
      ((steady_renderEntries (depth + 1) rest h.2).append (steady_indent depth)).append
        (steady_of_all (by decide))
    have hentries := steady_entry (depth + 1) k.toList hvalue hrest
    exact ((hentries.cons (by decide)).cons (by decide)).cons hc
  | .call f args, h => by
    rw [isClosed_call] at h
    rw [render]
    have hargs : Steady ('(' :: renderArgs depth args) :=
      steady_cons_renderArgs (by decide) depth args h
    have hend : Steady [')'] := steady_of_all (by decide)
    exact (f.steady.append (hargs.append hend)).cons hc
  | .null, _ => by
    rw [render]
    exact (steady_of_all (by decide)).cons hc
  | .escaped d, _ => by
    rw [render]
    exact (steady_escaped d).cons hc

theorem steady_renderEntries (depth : Nat) :
    ∀ es : List (String × Expr), (∀ e ∈ es, e.2.IsClosed) → Steady (renderEntries depth es)
  | [], _ => by
    rw [renderEntries]
    exact steady_nil
  | (k, e) :: rest, h => by
    rw [List.forall_mem_cons] at h
    rw [renderEntries]
    exact steady_entry depth k.toList (steady_cons_render (by decide) depth e h.1)
      (steady_renderEntries depth rest h.2)

theorem steady_cons_renderArgs {c : Char} (hc : IsInert c) (depth : Nat) :
    ∀ es : List Expr, (∀ e ∈ es, e.IsClosed) → Steady (c :: renderArgs depth es)
  | [], _ => by
    rw [renderArgs]
    exact steady_nil.cons hc
  | e :: rest, h => by
    rw [List.forall_mem_cons] at h
    rw [renderArgs]
    exact (steady_cons_render hc depth e h.1).append (steady_renderMoreArgs depth rest h.2)

theorem steady_renderMoreArgs (depth : Nat) :
    ∀ es : List Expr, (∀ e ∈ es, e.IsClosed) → Steady (renderMoreArgs depth es)
  | [], _ => by
    rw [renderMoreArgs]
    exact steady_nil
  | e :: rest, h => by
    rw [List.forall_mem_cons] at h
    rw [renderMoreArgs]
    have hfirst : Steady (' ' :: e.render depth) := steady_cons_render (by decide) depth e h.1
    exact (hfirst.append (steady_renderMoreArgs depth rest h.2)).cons (by decide)

end

end Expr

/-! ### Statements -/

/-- A text of whole lines that leads from outside to outside and shows that many semicolons
and that many braces of either kind. -/
structure Tallies (s : List Char) (semicolons blocks : Nat) : Prop where
  back : after .outside s = .outside
  counts : ∀ x ∈ structureChars, met x .outside s = if x = ';' then semicolons else blocks

theorem tallies_nil : Tallies [] 0 0 :=
  ⟨rfl, fun x _ => by simp⟩

theorem Tallies.append {s t : List Char} {a b a' b' : Nat} (hs : Tallies s a b)
    (ht : Tallies t a' b') : Tallies (s ++ t) (a + a') (b + b') := by
  refine ⟨by rw [after_append, hs.back, ht.back], fun x hx => ?_⟩
  rw [met_append, hs.counts x hx, hs.back, ht.counts x hx]
  split
  · rfl
  · rfl

/-- A statement: a steady text, then a semicolon. -/
theorem tallies_statement {s : List Char} (h : Steady s) : Tallies (s ++ [';', '\n']) 1 0 := by
  obtain ⟨hrests, hmet⟩ := h .outside trivial
  have hend : (after .outside s).step ';' = .outside :=
    step_of_mem_structureChars hrests (by decide)
  refine ⟨?_, fun x hx => ?_⟩
  · rw [after_append, after_cons, hend]
    rfl
  · have hfeed : '\n' ≠ x := (ne_of_mem_of_not_mem hx (by decide)).symm
    rw [met_append, hmet x hx, met, hend]
    by_cases h : x = ';'
    · simp [h, met, hrests]
    · simp [h, Ne.symm h, met, hfeed]

/-- A mixin: a steady head, then lines between braces. -/
theorem tallies_block {head body pad : List Char} {n k : Nat} (hhead : Steady head)
    (hbody : Tallies body n k) (hpad : Steady pad) :
    Tallies (head ++ '\x7b' :: '\n' :: (body ++ pad ++ ['\x7d', '\n'])) n (k + 1) := by
  obtain ⟨hrests, hmet⟩ := hhead .outside trivial
  obtain ⟨hrests', hmet'⟩ := hpad .outside trivial
  have hopen : (after .outside head).step '\x7b' = .outside :=
    step_of_mem_structureChars hrests (by decide)
  have hshut : (after .outside pad).step '\x7d' = .outside :=
    step_of_mem_structureChars hrests' (by decide)
  have hfeed : step .outside '\n' = .outside := rfl
  refine ⟨?_, fun x hx => ?_⟩
  · rw [after_append, after_cons, hopen, after_cons, hfeed, after_append, after_append, hbody.back,
      after_cons, hshut, after_cons, hfeed, after_nil]
  · have hne : '\n' ≠ x := (ne_of_mem_of_not_mem hx (by decide)).symm
    rw [met_append, hmet x hx, met, hopen, met, hfeed, met_append, met_append, after_append,
      hbody.back, hbody.counts x hx, hmet' x hx, met, hshut, met, met_nil]
    simp only [structureChars, List.mem_cons, List.not_mem_nil, or_false] at hx
    rcases hx with rfl | rfl | rfl
    · simp
    · simp [hrests]
      omega
    · simp [hrests']

/-! ### Comments -/

/-- A comment line without line feeds in it shows nothing. -/
theorem after_lineComment {s : List Char} (h : '\n' ∉ s) :
    after .lineComment s = .lineComment ∧ ∀ x, met x .lineComment s = 0 := by
  induction s with
  | nil => exact ⟨rfl, fun _ => rfl⟩
  | cons c s ih =>
    rw [List.mem_cons, not_or] at h
    have hstep : step .lineComment c = .lineComment := if_neg (Ne.symm h.1)
    obtain ⟨hmode, hmet⟩ := ih h.2
    refine ⟨by rw [after_cons, hstep, hmode], fun x => ?_⟩
    rw [met, hstep, hmet]
    simp [Rests]

/-- No line of a text has a line feed in it. -/
theorem not_mem_of_mem_lines {s line : List Char} (h : line ∈ lines s) : '\n' ∉ line := by
  induction s using lines.induct generalizing line with
  | case1 => simp [lines] at h
  | case2 cs ih =>
    rw [lines, if_pos rfl, List.mem_cons] at h
    rcases h with rfl | h
    · simp
    · exact ih h
  | case3 c cs hne hreturn ih =>
    rw [lines, if_neg hne, if_pos hreturn] at h
    exact ih h
  | case4 c cs hne hreturn hrest ih =>
    rw [lines, if_neg hne, if_neg hreturn, hrest, List.mem_singleton] at h
    rw [h, List.mem_singleton]
    exact Ne.symm hne
  | case5 c cs hne hreturn l ls hrest ih =>
    rw [lines, if_neg hne, if_neg hreturn, hrest] at h
    rw [hrest] at ih
    rcases List.mem_cons.mp h with rfl | h
    · rw [List.mem_cons, not_or]
      exact ⟨Ne.symm hne, ih List.mem_cons_self⟩
    · exact ih (List.mem_cons_of_mem _ h)

theorem tallies_renderCommentLine (depth : Nat) {line : List Char} (h : '\n' ∉ line) :
    Tallies (renderCommentLine depth line) 0 0 := by
  rw [renderCommentLine]
  have hcontent : '\n' ∉ if line.isEmpty then [] else ' ' :: line := by
    split
    · exact List.not_mem_nil
    · rw [List.mem_cons, not_or]
      exact ⟨by decide, h⟩
  generalize (if line.isEmpty then [] else ' ' :: line) = content at hcontent
  obtain ⟨hrests, hmet⟩ := steady_indent depth .outside trivial
  obtain ⟨hmode, hnone⟩ := after_lineComment hcontent
  -- Even behind a slash it takes no more than the two of the comment to open one.
  have hopen : ((after .outside (indent depth)).step '/').step '/' = .lineComment := by
    generalize after .outside (indent depth) = m at hrests
    cases m <;> simp_all [Rests, step, enter]
  refine ⟨?_, fun x hx => ?_⟩
  · rw [after_append, after_cons, after_cons, hopen, after_append, hmode]
    rfl
  · have hslash : '/' ≠ x := (ne_of_mem_of_not_mem hx (by decide)).symm
    rw [met_append, hmet x hx, met, met, hopen, met_append, hnone, hmode]
    simp [met, Rests, hslash]

theorem tallies_comment (depth : Nat) {ls : List (List Char)} (h : ∀ line ∈ ls, '\n' ∉ line) :
    Tallies (ls.flatMap (renderCommentLine depth)) 0 0 := by
  induction ls with
  | nil => exact tallies_nil
  | cons line ls ih =>
    rw [List.forall_mem_cons] at h
    rw [List.flatMap_cons]
    exact (tallies_renderCommentLine depth h.1).append (ih h.2)

/-! ### Parameters -/

theorem Param.steady_cons_render {c : Char} (hc : IsInert c) (depth : Nat) {p : Param}
    (h : ∀ e, p.default = some e → e.IsClosed) : Steady (c :: p.render depth) := by
  rw [Param.render]
  cases hdefault : p.default with
  | none => exact ((p.name.steady.append steady_nil).cons (by decide)).cons hc
  | some e =>
    have hvalue : Steady (' ' :: e.render depth) :=
      Expr.steady_cons_render (by decide) depth e (h e hdefault)
    have hbody := p.name.steady.append (hvalue.cons (c := ':') (by decide))
    exact (hbody.cons (by decide)).cons hc

theorem steady_cons_renderParams {c : Char} (hc : IsInert c) (depth : Nat) {ps : List Param}
    (h : ∀ p ∈ ps, ∀ e, p.default = some e → e.IsClosed) :
    Steady (c :: renderParams depth ps) := by
  induction ps generalizing c with
  | nil => exact steady_nil.cons hc
  | cons p ps ih =>
    rw [List.forall_mem_cons] at h
    have hfirst : Steady (c :: p.render depth) := Param.steady_cons_render hc depth h.1
    cases ps with
    | nil => exact hfirst
    | cons next rest =>
      have hrest : Steady (' ' :: renderParams depth (next :: rest)) := ih (by decide) h.2
      have hcomma : Steady [','] := steady_of_all (by decide)
      have heq : c :: renderParams depth (p :: next :: rest) =
          (c :: p.render depth) ++ ([','] ++ ' ' :: renderParams depth (next :: rest)) := by
        simp [renderParams, joinWith]
      rw [heq]
      exact hfirst.append (hcomma.append hrest)

/-! ### Sheets -/

namespace Item

mutual

/-- A statement with closed literals shows itself, and what it contains if it is a mixin. -/
theorem tallies_render (depth : Nat) : ∀ i : Item, (∀ e ∈ i.exprs, e.IsClosed) →
    Tallies (i.render depth) i.statements i.mixins
  | .useModule name, _ => by
    rw [render, statements, mixins]
    have hword : Steady "@use ".toList := steady_of_all (by decide)
    exact tallies_statement (((steady_indent depth).append hword).append (steady_quote _))
  | .importSheet path, _ => by
    rw [render, statements, mixins]
    have hword : Steady "@import ".toList := steady_of_all (by decide)
    exact tallies_statement (((steady_indent depth).append hword).append (steady_quote _))
  | .assign name value, h => by
    rw [render, statements, mixins]
    have hvalue : Steady (' ' :: value.render depth) :=
      Expr.steady_cons_render (by decide) depth value (h value (by simp [exprs]))
    have hbody := name.steady.append (hvalue.cons (c := ':') (by decide))
    have htally :=
      tallies_statement ((steady_indent depth).append (hbody.cons (c := '$') (by decide)))
    simpa using htally
  | .defineMixin name params body, h => by
    rw [render, statements, mixins]
    rw [exprs, List.forall_mem_append] at h
    have hword : Steady "@mixin ".toList := steady_of_all (by decide)
    have hparams : Steady ('(' :: renderParams depth params) := by
      apply steady_cons_renderParams (by decide)
      intro p hp e he
      exact h.1 e (List.mem_filterMap.mpr ⟨p, hp, he⟩)
    have hend : Steady [')', ' '] := steady_of_all (by decide)
    have hhead := (((steady_indent depth).append hword).append name.steady).append
      (hparams.append hend)
    have htally :=
      tallies_block hhead (tallies_renderAll (depth + 1) body h.2) (steady_indent depth)
    simpa using htally
  | .includeMixin name [], _ => by
    rw [render, statements, mixins]
    have hword : Steady "@include ".toList := steady_of_all (by decide)
    exact tallies_statement (((steady_indent depth).append hword).append name.steady)
  | .includeMixin name (e :: es), h => by
    rw [render, statements, mixins]
    have hword : Steady "@include ".toList := steady_of_all (by decide)
    have hargs : Steady ('(' :: Expr.renderArgs depth (e :: es)) :=
      Expr.steady_cons_renderArgs (by decide) depth (e :: es) h
    have hend : Steady [')'] := steady_of_all (by decide)
    have htally := tallies_statement
      ((((steady_indent depth).append hword).append name.steady).append (hargs.append hend))
    simpa using htally
  | .comment text, _ => by
    rw [render, statements, mixins]
    exact tallies_comment depth fun line => not_mem_of_mem_lines

theorem tallies_renderAll (depth : Nat) : ∀ is : List Item, (∀ e ∈ allExprs is, e.IsClosed) →
    Tallies (renderAll depth is) (allStatements is) (allMixins is)
  | [], _ => by
    rw [renderAll, allStatements, allMixins]
    exact tallies_nil
  | i :: is, h => by
    rw [allExprs, List.forall_mem_append] at h
    rw [renderAll, allStatements, allMixins]
    exact (tallies_render depth i h.1).append (tallies_renderAll depth is h.2)

end

end Item

/-- The structure is kept if every literal is closed. -/
theorem Sheet.keepsStructure_of_isClosed {s : Sheet} (h : ∀ l, s.Carries l → l.IsClosed) :
    s.KeepsStructure := by
  have hall : ∀ e ∈ Item.allExprs s.items, e.IsClosed := by
    rintro e he x hx l rfl
    exact h l ⟨e, he, hx⟩
  obtain ⟨hback, hcounts⟩ := Item.tallies_renderAll 0 s.items hall
  constructor
  · rw [Sheet.render, hback]
    trivial
  · exact hcounts ';' (by decide)
  · exact hcounts '\x7b' (by decide)
  · exact hcounts '\x7d' (by decide)

/-! ### Literals that are not closed -/

/-- A literal that is not closed swallows the end of its statement. -/
theorem Sheet.not_keepsStructure_of_not_isClosed {l : Literal} (h : ¬l.IsClosed) (name : Ident) :
    ¬(Sheet.mk [.assign name (.literal l)]).KeepsStructure := by
  intro hkeeps
  have hhead : Steady (indent 0 ++ '$' :: (name.text.toList ++ [':'])) :=
    (steady_indent 0).append ((name.steady.append (steady_of_all (by decide))).cons (by decide))
  obtain ⟨hrests, hmet⟩ := hhead .outside trivial
  have hrender : (Sheet.mk [.assign name (.literal l)]).render =
      (indent 0 ++ '$' :: (name.text.toList ++ [':'])) ++
        ' ' :: (l.text.toList ++ [';', '\n']) := by
    simp [Sheet.render, Item.renderAll, Item.render, Expr.render]
  have hspace := step_of_inert hrests (c := ' ') (by decide)
  -- Where the literal leaves the reader, the semicolon is not met, and there is no other one.
  have hend : met ';' (after .outside l.text.toList) [';', '\n'] = 0 := by
    have hopen : ¬(after .outside l.text.toList).Rests := h
    simp [met, hopen]
  have hnone : met ';' .outside (Sheet.mk [.assign name (.literal l)]).render = 0 := by
    rw [hrender, met_append, hmet ';' (by decide), met, hspace, met_append,
      l.met_text _ (by decide), hend]
    simp
  have hone := hkeeps.semicolons
  rw [hnone] at hone
  simp [Item.allStatements, Item.statements] at hone

/-- Sheets keep their structure, whatever else they hold, exactly if their literals are
closed: that all literals of a kind are closed is enough for all sheets with literals of that
kind, and nothing less is. -/
theorem Sheet.keepsStructure_iff_isClosed (kind : Literal → Prop) :
    (∀ s : Sheet, (∀ l, s.Carries l → kind l) → s.KeepsStructure) ↔ ∀ l, kind l → l.IsClosed := by
  constructor
  · intro h l hl
    by_contra hopen
    refine Sheet.not_keepsStructure_of_not_isClosed hopen ⟨"a", by decide⟩ (h _ ?_)
    rintro l' ⟨e, he, hmem⟩
    simp only [Item.allExprs, Item.exprs, List.append_nil, List.mem_singleton] at he
    subst he
    rw [Expr.parts, List.mem_singleton, Expr.literal.injEq] at hmem
    exact hmem ▸ hl
  · intro h s hs
    exact Sheet.keepsStructure_of_isClosed fun l hl => h l (hs l hl)

/-- A literal may open a string: its sheet is built without an error, and its text ends inside
that string. -/
theorem exists_open_literal :
    ∃ s : Sheet,
      (do
        let value ← Expr.literal? "\"Arial"
        let item ← Item.assign? "a" value
        return Sheet.mk [item]) = .ok s ∧
      s.text = "$a: \"Arial;\n" ∧ after .outside s.render = .string ∧ ¬s.KeepsStructure := by
  refine ⟨⟨[.assign ⟨"a", by decide⟩ (.literal ⟨"\"Arial", by decide⟩)]⟩, rfl, by decide, by decide,
    fun h => ?_⟩
  exact absurd h.closed (by decide)

end TokenSheets
