/-
TokenSheets/Proofs/Sheet/Unique.lean

Sheets from their texts.

A literal is written as it is and may be spelled like any other value, a number
is rounded, and a comment without lines leaves no trace.  Apart from these the
text of a sheet shows what the sheet is: two readable sheets with the same text
are the same (`Sheet.text_inj`).

Every boundary can be found from the text alone, so all of it is proved for
texts with something behind them.  An expression is *told* (`Expr.Told`) if its
text, in front of a character that can follow a value, is not the text of another
readable expression in front of such a character, and then leaves the same rest.
Strings end at their closing quote, names at the first character that no name
has.  A word is a call if a parenthesis follows and `null` if not.  Lists of
entries and of arguments are told by what follows them: a parenthesis, which no
entry and no argument separator begins with.

Statements start with a word behind an at sign, assignments with a dollar sign
(`Item.exists_render`), and the body of a mixin ends at the first line that
starts with a brace.
-/
import TokenSheets.Proofs.Sheet.Quoted
import TokenSheets.Proofs.Sheet.Scan
import TokenSheets.Proofs.Sheet.Scope

namespace TokenSheets

/-! ### Words -/

/-- Words are told apart, whatever stands behind them, if it does not go on with the word. -/
theorem word_append_inj {p : Char → Bool} {w w' s s' : List Char} (hw : ∀ c ∈ w, p c = true)
    (hw' : ∀ c ∈ w', p c = true) (hs : ∀ c ∈ s.head?, p c = false)
    (hs' : ∀ c ∈ s'.head?, p c = false) (h : w ++ s = w' ++ s') : w = w' ∧ s = s' := by
  have htake {u v : List Char} (hu : ∀ c ∈ u, p c = true) (hv : ∀ c ∈ v.head?, p c = false) :
      (u ++ v).takeWhile p = u := by
    rw [List.takeWhile_append_of_pos hu]
    cases v with
    | nil => simp
    | cons c v => simp [hv c rfl]
  have hword : w = w' := by rw [← htake hw hs, h, htake hw' hs']
  subst hword
  exact ⟨rfl, List.append_cancel_left h⟩

/-- A character of the name of a function. -/
def isWordChar (c : Char) : Bool := isNameChar c || c = '.'

/-- No word goes on with the text. -/
def EndsWord (s : List Char) : Prop := ∀ c ∈ s.head?, isWordChar c = false

theorem endsWord_cons {c : Char} {s : List Char} (h : isWordChar c = false) :
    EndsWord (c :: s) := by
  rintro d hd
  rw [List.head?_cons, Option.mem_some_iff] at hd
  exact hd ▸ h

theorem endsWord_open (s : List Char) : EndsWord ('(' :: s) := endsWord_cons (by decide)

theorem endsWord_colon (s : List Char) : EndsWord (':' :: s) := endsWord_cons (by decide)

theorem Ident.isWordChar_of_mem (name : Ident) : ∀ c ∈ name.text.toList, isWordChar c = true := by
  intro c hc
  simp [isWordChar, isNameChar_of_isName name.isName c hc]

theorem FunctionName.isWordChar_of_mem (f : FunctionName) :
    ∀ c ∈ f.text.toList, isWordChar c = true := by
  intro c hc
  rcases f.isNameChar_of_mem hc with rfl | h
  · rfl
  · simp [isWordChar, h]

/-- The name of a function begins like a name. -/
theorem FunctionName.exists_cons (f : FunctionName) :
    ∃ c cs, f.text.toList = c :: cs ∧ isNameStart c = true := by
  have hname := f.isName
  generalize f.text.toList = s at hname ⊢
  cases s with
  | nil => simp [isFunctionName, splitAt, TokenSheets.isName] at hname
  | cons c cs =>
    refine ⟨c, cs, rfl, ?_⟩
    simp only [isFunctionName, splitAt] at hname
    split at hname
    · simp [TokenSheets.isName] at hname
    · split at hname
      · simpa [TokenSheets.isName] using hname
      · simp only [List.all_cons, TokenSheets.isName, Bool.and_eq_true] at hname
        exact hname.1.1

/-- Names with something behind them that does not go on with a name. -/
theorem Ident.append_inj {a b : Ident} {s t : List Char} (hs : EndsWord s) (ht : EndsWord t)
    (h : a.text.toList ++ s = b.text.toList ++ t) : a = b ∧ s = t := by
  obtain ⟨htext, hrest⟩ := word_append_inj a.isWordChar_of_mem b.isWordChar_of_mem hs ht h
  cases a
  cases b
  simp_all [String.toList_inj]

theorem FunctionName.append_inj {f g : FunctionName} {s t : List Char} (hs : EndsWord s)
    (ht : EndsWord t) (h : f.text.toList ++ s = g.text.toList ++ t) : f = g ∧ s = t := by
  obtain ⟨htext, hrest⟩ := word_append_inj f.isWordChar_of_mem g.isWordChar_of_mem hs ht h
  cases f
  cases g
  simp_all [String.toList_inj]

/-! ### Space at the start of a line -/

/-- The first character behind the spaces that a text begins with. -/
def firstInk (s : List Char) : Option Char := (s.dropWhile (· = ' ')).head?

theorem firstInk_indent (depth : Nat) (s : List Char) :
    firstInk (indent depth ++ s) = firstInk s := by
  have hspaces : ∀ c ∈ indent depth, decide (c = ' ') = true := by
    intro c hc
    simp [List.eq_of_mem_replicate hc]
  rw [firstInk, firstInk, List.dropWhile_append_of_pos hspaces]

theorem firstInk_cons {c : Char} (h : c ≠ ' ') (s : List Char) : firstInk (c :: s) = some c := by
  simp [firstInk, h]

/-! ### Expressions -/

namespace Expr

/-- An expression whose text shows what it is: it has no literals, no numbers and no escaped
characters. -/
def IsReadable (e : Expr) : Prop :=
  e.All fun x => (∀ l, x ≠ .literal l) ∧ (∀ d h, x ≠ .number d h) ∧ ∀ c, x ≠ .escaped c

@[simp] theorem isReadable_str {s : String} : IsReadable (.str s) := by
  simp [IsReadable, all_str]

@[simp] theorem isReadable_var {name : Ident} : IsReadable (.var name) := by
  simp [IsReadable, all_var]

@[simp] theorem isReadable_null : IsReadable .null := by
  simp [IsReadable, all_null]

@[simp] theorem isReadable_map {es : List (String × Expr)} :
    IsReadable (.map es) ↔ ∀ e ∈ es, e.2.IsReadable := by
  simp [IsReadable, all_map]

@[simp] theorem isReadable_call {f : FunctionName} {args : List Expr} :
    IsReadable (.call f args) ↔ ∀ e ∈ args, e.IsReadable := by
  simp [IsReadable, all_call]

@[simp] theorem not_isReadable_literal {l : Literal} : ¬IsReadable (.literal l) := by
  simp [IsReadable, all_literal]

@[simp] theorem not_isReadable_number {d : Double} {h : d.isFinite = true} :
    ¬IsReadable (.number d h) := by
  simp [IsReadable, all_number, h]

@[simp] theorem not_isReadable_escaped {c : Char} : ¬IsReadable (.escaped c) := by
  simp [IsReadable, all_escaped]

end Expr

/-- A value may end in front of the text. -/
def EndsValue (s : List Char) : Prop := ∃ c t, s = c :: t ∧ c ∈ [',', ')', ';']

theorem endsValue_cons {c : Char} {s : List Char} (h : c ∈ [',', ')', ';']) : EndsValue (c :: s) :=
  ⟨c, s, rfl, h⟩

theorem EndsValue.endsWord {s : List Char} (h : EndsValue s) : EndsWord s := by
  obtain ⟨c, t, rfl, hc⟩ := h
  have hall : ∀ d ∈ [',', ')', ';'], isWordChar d = false := forall_mem_of_all (by decide)
  exact endsWord_cons (hall c hc)

namespace Expr

/-- What an expression begins with. -/
inductive Lead where
  | quote
  | dollar
  | parenthesis
  | word
deriving DecidableEq

/-- The lead that a character shows. -/
def leadOf (c : Char) : Lead :=
  if c = '"' then .quote else if c = '$' then .dollar else if c = '(' then .parenthesis else .word

def lead : Expr → Lead
  | .str _ => .quote
  | .var _ => .dollar
  | .map _ => .parenthesis
  | .call _ _ => .word
  | .null => .word
  | .literal _ => .word
  | .number _ _ => .word
  | .escaped _ => .word

/-- The name of a function shows a word. -/
theorem leadOf_of_isNameStart {c : Char} (h : isNameStart c = true) : leadOf c = .word := by
  have hne : ∀ d ∈ ['"', '$', '('], c ≠ d := by
    rintro d hd rfl
    have hall : ∀ d ∈ ['"', '$', '('], isNameStart d = false := forall_mem_of_all (by decide)
    rw [hall c hd] at h
    cases h
  rw [leadOf, if_neg (hne '"' (by decide)), if_neg (hne '$' (by decide)),
    if_neg (hne '(' (by decide))]

/-- A readable expression begins with its lead, and not like the end of a value. -/
theorem exists_render (depth : Nat) {e : Expr} (he : e.IsReadable) :
    ∃ c t, e.render depth = c :: t ∧ leadOf c = e.lead ∧ c ∉ [',', ')', ';'] := by
  cases e with
  | str s => exact ⟨'"', _, by rw [render, quote], rfl, by decide⟩
  | var name => exact ⟨'$', _, by rw [render], rfl, by decide⟩
  | map es =>
    cases es with
    | nil => exact ⟨'(', _, by rw [render], rfl, by decide⟩
    | cons m rest => exact ⟨'(', _, by rw [render], rfl, by decide⟩
  | call f args =>
    obtain ⟨c, cs, hf, hc⟩ := f.exists_cons
    refine ⟨c, cs ++ '(' :: (renderArgs depth args ++ [')']), by rw [render, hf]; rfl,
      leadOf_of_isNameStart hc, fun hmem => ?_⟩
    have hall : ∀ d ∈ [',', ')', ';'], isNameStart d = false := forall_mem_of_all (by decide)
    rw [hall c hmem] at hc
    cases hc
  | null => exact ⟨'n', _, by rw [render], rfl, by decide⟩
  | literal l => exact absurd he not_isReadable_literal
  | number d h => exact absurd he not_isReadable_number
  | escaped c => exact absurd he not_isReadable_escaped

/-- A readable expression that is known from its text, and so is where it ends. -/
structure Told (e : Expr) : Prop where
  readable : e.IsReadable
  append_inj : ∀ (depth : Nat) {e' : Expr} {s s' : List Char}, e'.IsReadable → EndsValue s →
    EndsValue s' → e.render depth ++ s = e'.render depth ++ s' → e = e' ∧ s = s'

/-- Expressions with the same text begin alike. -/
theorem lead_eq {depth : Nat} {e e' : Expr} (he : e.IsReadable) (he' : e'.IsReadable)
    {s s' : List Char} (h : e.render depth ++ s = e'.render depth ++ s') : e.lead = e'.lead := by
  obtain ⟨c, t, hrender, hlead, -⟩ := exists_render depth he
  obtain ⟨c', t', hrender', hlead', -⟩ := exists_render depth he'
  rw [hrender, hrender'] at h
  rw [← hlead, ← hlead', (List.cons.inj h).1]

theorem told_str (s : String) : Told (.str s) := by
  refine ⟨isReadable_str, fun depth e' r r' he' _ _ h => ?_⟩
  have hlead := lead_eq isReadable_str he' h
  cases e' with
  | str t =>
    rw [render, render] at h
    obtain ⟨htext, rfl⟩ := quote_append_inj h
    rw [String.toList_inj.mp htext]
    exact ⟨rfl, rfl⟩
  | _ => cases hlead

theorem told_var (name : Ident) : Told (.var name) := by
  refine ⟨isReadable_var, fun depth e' r r' he' hr hr' h => ?_⟩
  have hlead := lead_eq isReadable_var he' h
  cases e' with
  | var name' =>
    rw [render, render] at h
    obtain ⟨rfl, rfl⟩ := Ident.append_inj hr.endsWord hr'.endsWord (List.cons.inj h).2
    exact ⟨rfl, rfl⟩
  | _ => cases hlead

/-- The word `null` ends where a value may end, and the name of a function does not. -/
theorem render_null_append_ne {depth : Nat} {f : FunctionName} {args : List Expr}
    {s s' : List Char} (hs : EndsValue s) :
    (Expr.null).render depth ++ s ≠ (Expr.call f args).render depth ++ s' := by
  intro h
  have hnull : ∀ c ∈ ['n', 'u', 'l', 'l'], isWordChar c = true := forall_mem_of_all (by decide)
  rw [render, render, List.append_assoc, List.cons_append] at h
  obtain ⟨-, hrest⟩ := word_append_inj hnull f.isWordChar_of_mem hs.endsWord (endsWord_open _) h
  -- behind the word there is a parenthesis in one text only
  obtain ⟨c, t, rfl, hc⟩ := hs
  rw [(List.cons.inj hrest).1] at hc
  simp at hc

theorem told_null : Told .null := by
  refine ⟨isReadable_null, fun depth e' r r' he' hr hr' h => ?_⟩
  have hlead := lead_eq isReadable_null he' h
  cases e' with
  | null => exact ⟨rfl, List.append_cancel_left h⟩
  | call f args => exact absurd h (render_null_append_ne hr)
  | literal l => exact absurd he' not_isReadable_literal
  | number d h => exact absurd he' not_isReadable_number
  | escaped c => exact absurd he' not_isReadable_escaped
  | _ => cases hlead

/-! ### Lists of expressions -/

/-- An entry of a map begins with its quoted key. -/
theorem firstInk_renderEntries (depth : Nat) (m : String × Expr) (es : List (String × Expr))
    (s : List Char) : firstInk (renderEntries depth (m :: es) ++ s) = some '"' := by
  rw [renderEntries]
  simp only [List.append_assoc]
  rw [firstInk_indent, quote, List.cons_append, firstInk_cons (by decide)]

/-- Entries are told from what stands behind them if that does not begin with a quote. -/
theorem renderEntries_append_inj (depth : Nat) {es es' : List (String × Expr)}
    (hes : ∀ m ∈ es, m.2.Told) (hes' : ∀ m ∈ es', m.2.IsReadable) {s s' : List Char}
    (hs : firstInk s ≠ some '"') (hs' : firstInk s' ≠ some '"')
    (h : renderEntries depth es ++ s = renderEntries depth es' ++ s') : es = es' ∧ s = s' := by
  induction es generalizing es' with
  | nil =>
    cases es' with
    | nil => exact ⟨rfl, h⟩
    | cons m' rest' =>
      rw [renderEntries, List.nil_append] at h
      rw [h, firstInk_renderEntries] at hs
      exact absurd rfl hs
  | cons m rest ih =>
    cases es' with
    | nil =>
      rw [renderEntries.eq_1, List.nil_append] at h
      rw [← h, firstInk_renderEntries] at hs'
      exact absurd rfl hs'
    | cons m' rest' =>
      obtain ⟨k, e⟩ := m
      obtain ⟨k', e'⟩ := m'
      rw [List.forall_mem_cons] at hes hes'
      simp only [renderEntries, List.append_assoc, List.cons_append] at h
      obtain ⟨hkey, hvalue⟩ := quote_append_inj (List.append_cancel_left h)
      simp only [List.cons.injEq, true_and] at hvalue
      obtain ⟨rfl, hrest⟩ := hes.1.append_inj depth hes'.1 (endsValue_cons (by decide))
        (endsValue_cons (by decide)) hvalue
      simp only [List.cons.injEq, true_and] at hrest
      obtain ⟨rfl, rfl⟩ := ih hes.2 hes'.2 hrest
      rw [String.toList_inj.mp hkey]
      exact ⟨rfl, rfl⟩

/-- After an argument comes a comma or the closing parenthesis. -/
theorem endsValue_renderMoreArgs (depth : Nat) (es : List Expr) (s : List Char) :
    EndsValue (renderMoreArgs depth es ++ ')' :: s) := by
  cases es with
  | nil => exact endsValue_cons (by decide)
  | cons e rest => exact endsValue_cons (by decide)

theorem renderMoreArgs_append_inj (depth : Nat) {es es' : List Expr}
    (hes : ∀ e ∈ es, e.Told) (hes' : ∀ e ∈ es', e.IsReadable) {s s' : List Char}
    (h : renderMoreArgs depth es ++ ')' :: s = renderMoreArgs depth es' ++ ')' :: s') :
    es = es' ∧ s = s' := by
  induction es generalizing es' with
  | nil =>
    cases es' with
    | nil => exact ⟨rfl, (List.cons.inj h).2⟩
    | cons e' rest' => simp [renderMoreArgs] at h
  | cons e rest ih =>
    cases es' with
    | nil => simp [renderMoreArgs] at h
    | cons e' rest' =>
      rw [List.forall_mem_cons] at hes hes'
      simp only [renderMoreArgs, List.append_assoc, List.cons_append, List.cons.injEq,
        true_and] at h
      obtain ⟨rfl, hrest⟩ := hes.1.append_inj depth hes'.1 (endsValue_renderMoreArgs depth rest s)
        (endsValue_renderMoreArgs depth rest' s') h
      obtain ⟨rfl, rfl⟩ := ih hes.2 hes'.2 hrest
      exact ⟨rfl, rfl⟩

/-- No argument begins with the closing parenthesis. -/
theorem renderArgs_append_ne (depth : Nat) {e : Expr} (he : e.IsReadable) (rest : List Expr)
    (s s' : List Char) : renderArgs depth (e :: rest) ++ s ≠ ')' :: s' := by
  obtain ⟨c, t, hrender, -, hc⟩ := exists_render depth he
  intro h
  rw [renderArgs, hrender] at h
  rw [(List.cons.inj h).1] at hc
  simp at hc

/-- Arguments up to the closing parenthesis. -/
theorem renderArgs_append_inj (depth : Nat) {es es' : List Expr}
    (hes : ∀ e ∈ es, e.Told) (hes' : ∀ e ∈ es', e.IsReadable) {s s' : List Char}
    (h : renderArgs depth es ++ ')' :: s = renderArgs depth es' ++ ')' :: s') :
    es = es' ∧ s = s' := by
  cases es with
  | nil =>
    cases es' with
    | nil => exact ⟨rfl, (List.cons.inj h).2⟩
    | cons e' rest' => exact absurd h.symm (renderArgs_append_ne depth (hes' e' (by simp)) _ _ _)
  | cons e rest =>
    cases es' with
    | nil => exact absurd h (renderArgs_append_ne depth (hes e (by simp)).readable _ _ _)
    | cons e' rest' =>
      rw [List.forall_mem_cons] at hes hes'
      simp only [renderArgs, List.append_assoc] at h
      obtain ⟨rfl, hrest⟩ := hes.1.append_inj depth hes'.1 (endsValue_renderMoreArgs depth rest s)
        (endsValue_renderMoreArgs depth rest' s') h
      obtain ⟨rfl, rfl⟩ := renderMoreArgs_append_inj depth hes.2 hes'.2 hrest
      exact ⟨rfl, rfl⟩

/-! ### All expressions -/

/-- The text of a map with entries. -/
theorem render_map_cons (depth : Nat) (m : String × Expr) (es : List (String × Expr)) :
    (Expr.map (m :: es)).render depth =
      '(' :: '\n' :: (renderEntries (depth + 1) (m :: es) ++ (indent depth ++ [')'])) := by
  obtain ⟨k, e⟩ := m
  simp [render, renderEntries]

theorem told_map {es : List (String × Expr)} (hes : ∀ m ∈ es, m.2.Told) : Told (.map es) := by
  have hread : (Expr.map es).IsReadable := isReadable_map.mpr fun m hm => (hes m hm).readable
  refine ⟨hread, fun depth e' r r' he' _ _ h => ?_⟩
  have hlead := lead_eq hread he' h
  -- the line that closes the map does not begin like an entry
  have hclose (t : List Char) : firstInk (indent depth ++ ')' :: t) ≠ some '"' := by
    rw [firstInk_indent, firstInk_cons (by decide)]
    simp
  cases e' with
  | map es' =>
    cases es with
    | nil =>
      cases es' with
      | nil => exact ⟨rfl, List.append_cancel_left h⟩
      | cons m' rest' => simp [render] at h
    | cons m rest =>
      cases es' with
      | nil => simp [render] at h
      | cons m' rest' =>
        simp only [render_map_cons, List.cons_append, List.append_assoc, List.nil_append,
          List.cons.injEq, true_and] at h
        obtain ⟨heq, hrest⟩ := renderEntries_append_inj (depth + 1) hes (isReadable_map.mp he')
          (hclose r) (hclose r') h
        exact ⟨congrArg _ heq, (List.cons.inj (List.append_cancel_left hrest)).2⟩
  | _ => cases hlead

theorem told_call (f : FunctionName) {args : List Expr} (hargs : ∀ e ∈ args, e.Told) :
    Told (.call f args) := by
  have hread : (Expr.call f args).IsReadable :=
    isReadable_call.mpr fun e he => (hargs e he).readable
  refine ⟨hread, fun depth e' r r' he' _ hr' h => ?_⟩
  have hlead := lead_eq hread he' h
  cases e' with
  | call f' args' =>
    simp only [render, List.append_assoc, List.cons_append, List.nil_append] at h
    obtain ⟨rfl, hrest⟩ := FunctionName.append_inj (endsWord_open _) (endsWord_open _) h
    obtain ⟨rfl, rfl⟩ := renderArgs_append_inj depth hargs (isReadable_call.mp he')
      (List.cons.inj hrest).2
    exact ⟨rfl, rfl⟩
  | null => exact absurd h.symm (render_null_append_ne hr')
  | literal l => exact absurd he' not_isReadable_literal
  | number d h => exact absurd he' not_isReadable_number
  | escaped c => exact absurd he' not_isReadable_escaped
  | _ => cases hlead

mutual

/-- Every readable expression is known from its text. -/
theorem told : ∀ e : Expr, e.IsReadable → e.Told
  | .str s, _ => told_str s
  | .var name, _ => told_var name
  | .null, _ => told_null
  | .map es, h => told_map (told_entries es (isReadable_map.mp h))
  | .call f args, h => told_call f (told_args args (isReadable_call.mp h))
  | .literal _, h => absurd h not_isReadable_literal
  | .number _ _, h => absurd h not_isReadable_number
  | .escaped _, h => absurd h not_isReadable_escaped

theorem told_entries : ∀ es : List (String × Expr), (∀ m ∈ es, m.2.IsReadable) →
    ∀ m ∈ es, m.2.Told
  | [], _ => nofun
  | (_, e) :: rest, h => by
    rw [List.forall_mem_cons] at h ⊢
    exact ⟨told e h.1, told_entries rest h.2⟩

theorem told_args : ∀ es : List Expr, (∀ e ∈ es, e.IsReadable) → ∀ e ∈ es, e.Told
  | [], _ => nofun
  | e :: rest, h => by
    rw [List.forall_mem_cons] at h ⊢
    exact ⟨told e h.1, told_args rest h.2⟩

end

end Expr

/-! ### Parameters -/

namespace Param

/-- The default is readable if there is one. -/
def IsReadable (p : Param) : Prop := ∀ e, p.default = some e → e.IsReadable

/-- A parameter is known from its text: behind its name a colon shows that it has a default. -/
theorem append_inj (depth : Nat) {p p' : Param} (hp : p.IsReadable) (hp' : p'.IsReadable)
    {s s' : List Char} (hs : EndsValue s) (hs' : EndsValue s')
    (h : p.render depth ++ s = p'.render depth ++ s') : p = p' ∧ s = s' := by
  obtain ⟨name, default⟩ := p
  obtain ⟨name', default'⟩ := p'
  have hne {t t' : List Char} (ht : EndsValue t) : t ≠ ':' :: t' := by
    obtain ⟨c, u, rfl, hc⟩ := ht
    intro heq
    rw [(List.cons.inj heq).1] at hc
    simp at hc
  cases default with
  | none =>
    cases default' with
    | none =>
      simp only [render, List.append_nil, List.cons_append, List.cons.injEq, true_and] at h
      obtain ⟨rfl, rfl⟩ := Ident.append_inj hs.endsWord hs'.endsWord h
      exact ⟨rfl, rfl⟩
    | some e' =>
      simp only [render, List.append_nil, List.append_assoc, List.cons_append, List.cons.injEq,
        true_and] at h
      obtain ⟨-, hrest⟩ := Ident.append_inj hs.endsWord (endsWord_colon _) h
      exact absurd hrest (hne hs)
  | some e =>
    cases default' with
    | none =>
      simp only [render, List.append_nil, List.append_assoc, List.cons_append, List.cons.injEq,
        true_and] at h
      obtain ⟨-, hrest⟩ := Ident.append_inj (endsWord_colon _) hs'.endsWord h
      exact absurd hrest.symm (hne hs')
    | some e' =>
      simp only [render, List.append_assoc, List.cons_append, List.cons.injEq, true_and] at h
      obtain ⟨rfl, hvalue⟩ := Ident.append_inj (endsWord_colon _) (endsWord_colon _) h
      simp only [List.cons.injEq, true_and] at hvalue
      obtain ⟨rfl, rfl⟩ := (Expr.told e (hp e rfl)).append_inj depth (hp' e' rfl) hs hs' hvalue
      exact ⟨rfl, rfl⟩

end Param

theorem renderParams_cons (depth : Nat) (p : Param) (ps : List Param) :
    renderParams depth (p :: ps) =
      p.render depth ++ if ps = [] then [] else ',' :: ' ' :: renderParams depth ps := by
  cases ps with
  | nil => simp [renderParams, joinWith]
  | cons q rest => simp [renderParams, joinWith]

/-- Parameters up to the closing parenthesis. -/
theorem renderParams_append_inj (depth : Nat) {ps ps' : List Param}
    (hps : ∀ p ∈ ps, p.IsReadable) (hps' : ∀ p ∈ ps', p.IsReadable) {s s' : List Char}
    (h : renderParams depth ps ++ ')' :: s = renderParams depth ps' ++ ')' :: s') :
    ps = ps' ∧ s = s' := by
  have hends (qs : List Param) (t : List Char) :
      EndsValue ((if qs = [] then [] else ',' :: ' ' :: renderParams depth qs) ++ ')' :: t) := by
    split
    · exact endsValue_cons (by decide)
    · exact endsValue_cons (by decide)
  induction ps generalizing ps' with
  | nil =>
    cases ps' with
    | nil => exact ⟨rfl, (List.cons.inj h).2⟩
    | cons p' rest' =>
      rw [renderParams_cons, Param.render] at h
      simp [renderParams, joinWith] at h
  | cons p rest ih =>
    cases ps' with
    | nil =>
      rw [renderParams_cons, Param.render] at h
      simp [renderParams, joinWith] at h
    | cons p' rest' =>
      rw [List.forall_mem_cons] at hps hps'
      rw [renderParams_cons, renderParams_cons, List.append_assoc, List.append_assoc] at h
      obtain ⟨rfl, hrest⟩ := p.append_inj depth hps.1 hps'.1 (hends rest s) (hends rest' s') h
      cases rest with
      | nil =>
        cases rest' with
        | nil => simpa using hrest
        | cons q' more' => simp at hrest
      | cons q more =>
        cases rest' with
        | nil => simp at hrest
        | cons q' more' =>
          simp only [reduceCtorEq, if_false, List.cons_append, List.cons.injEq, true_and] at hrest
          obtain ⟨heq, rfl⟩ := ih hps.2 hps'.2 hrest
          rw [heq]
          exact ⟨rfl, rfl⟩

/-! ### Statements -/

namespace Item

mutual

/-- A statement whose text shows what it is: it is no comment and has none in it, and its
expressions are readable. -/
def IsReadable : Item → Prop
  | .useModule _ => True
  | .importSheet _ => True
  | .assign _ value => value.IsReadable
  | .defineMixin _ params body => (∀ p ∈ params, p.IsReadable) ∧ AllReadable body
  | .includeMixin _ args => ∀ e ∈ args, e.IsReadable
  | .comment _ => False

def AllReadable : List Item → Prop
  | [] => True
  | i :: is => i.IsReadable ∧ AllReadable is

end

theorem allReadable_iff {is : List Item} : AllReadable is ↔ ∀ i ∈ is, i.IsReadable := by
  induction is with
  | nil => simp [AllReadable]
  | cons i is ih => rw [AllReadable, ih, List.forall_mem_cons]

end Item

/-- What a readable statement begins with. -/
inductive Keyword where
  | use
  | importing
  | dollar
  | mixin
  | including
deriving DecidableEq

def Keyword.text : Keyword → List Char
  | .use => ['@', 'u', 's', 'e', ' ']
  | .importing => ['@', 'i', 'm', 'p', 'o', 'r', 't', ' ']
  | .dollar => ['$']
  | .mixin => ['@', 'm', 'i', 'x', 'i', 'n', ' ']
  | .including => ['@', 'i', 'n', 'c', 'l', 'u', 'd', 'e', ' ']

/-- No keyword begins like another one in all of its characters. -/
theorem Keyword.append_inj {k k' : Keyword} {s s' : List Char}
    (h : k.text ++ s = k'.text ++ s') : k = k' := by
  cases k <;> cases k' <;> simp [text] at h ⊢

/-- What ends a list of statements: a brace, or the end of the text. -/
def EndsBlock (s : List Char) : Prop := firstInk s ≠ some '@' ∧ firstInk s ≠ some '$'

theorem Keyword.not_endsBlock (k : Keyword) (depth : Nat) (s : List Char) :
    ¬EndsBlock (indent depth ++ (k.text ++ s)) := by
  rw [EndsBlock, firstInk_indent, not_and_or, not_ne_iff, not_ne_iff]
  cases k with
  | dollar => exact .inr (firstInk_cons (by decide) _)
  | _ => exact .inl (firstInk_cons (by decide) _)

namespace Item

def keyword : Item → Keyword
  | .useModule _ => .use
  | .importSheet _ => .importing
  | .assign _ _ => .dollar
  | .defineMixin _ _ _ => .mixin
  | .includeMixin _ _ => .including
  | .comment _ => .use

/-- A readable statement begins with its keyword. -/
theorem exists_render (depth : Nat) {i : Item} (hi : i.IsReadable) :
    ∃ t, i.render depth = indent depth ++ (i.keyword.text ++ t) := by
  cases i with
  | useModule name => exact ⟨_, by rw [render]; simp only [List.append_assoc]; rfl⟩
  | importSheet path => exact ⟨_, by rw [render]; simp only [List.append_assoc]; rfl⟩
  | assign name value => exact ⟨_, by rw [render]; rfl⟩
  | defineMixin name params body => exact ⟨_, by rw [render]; simp only [List.append_assoc]; rfl⟩
  | includeMixin name args =>
    cases args with
    | nil => exact ⟨_, by rw [render]; simp only [List.append_assoc]; rfl⟩
    | cons e rest => exact ⟨_, by rw [render]; simp only [List.append_assoc]; rfl⟩
  | comment text => rw [IsReadable] at hi; exact hi.elim

theorem keyword_eq {depth : Nat} {i i' : Item} (hi : i.IsReadable) (hi' : i'.IsReadable)
    {s s' : List Char} (h : i.render depth ++ s = i'.render depth ++ s') :
    i.keyword = i'.keyword := by
  obtain ⟨t, hrender⟩ := exists_render depth hi
  obtain ⟨t', hrender'⟩ := exists_render depth hi'
  rw [hrender, hrender', List.append_assoc, List.append_assoc, List.append_assoc,
    List.append_assoc] at h
  exact Keyword.append_inj (List.append_cancel_left h)

/-- A readable statement that is known from its text, and so is where it ends. -/
structure Told (i : Item) : Prop where
  readable : i.IsReadable
  append_inj : ∀ (depth : Nat) {i' : Item} {s s' : List Char}, i'.IsReadable →
    i.render depth ++ s = i'.render depth ++ s' → i = i' ∧ s = s'

theorem told_useModule (name : String) : Told (.useModule name) := by
  have hread : (Item.useModule name).IsReadable := by rw [IsReadable]; trivial
  refine ⟨hread, fun depth i' s s' hi' h => ?_⟩
  have hkeyword := keyword_eq hread hi' h
  cases i' with
  | useModule name' =>
    simp only [render, List.append_assoc, List.append_cancel_left_eq] at h
    obtain ⟨htext, hrest⟩ := quote_append_inj h
    rw [String.toList_inj.mp htext]
    exact ⟨rfl, List.append_cancel_left hrest⟩
  | comment text => rw [IsReadable] at hi'; exact hi'.elim
  | _ => cases hkeyword

theorem told_importSheet (path : String) : Told (.importSheet path) := by
  have hread : (Item.importSheet path).IsReadable := by rw [IsReadable]; trivial
  refine ⟨hread, fun depth i' s s' hi' h => ?_⟩
  have hkeyword := keyword_eq hread hi' h
  cases i' with
  | importSheet path' =>
    simp only [render, List.append_assoc, List.append_cancel_left_eq] at h
    obtain ⟨htext, hrest⟩ := quote_append_inj h
    rw [String.toList_inj.mp htext]
    exact ⟨rfl, List.append_cancel_left hrest⟩
  | _ => cases hkeyword

theorem told_assign (name : Ident) {value : Expr} (hvalue : value.IsReadable) :
    Told (.assign name value) := by
  have hread : (Item.assign name value).IsReadable := by rw [IsReadable]; exact hvalue
  refine ⟨hread, fun depth i' s s' hi' h => ?_⟩
  have hkeyword := keyword_eq hread hi' h
  cases i' with
  | assign name' value' =>
    rw [IsReadable] at hi'
    simp only [render, List.append_assoc, List.append_cancel_left_eq, List.cons_append,
      List.nil_append, List.cons.injEq, true_and] at h
    obtain ⟨rfl, hvalues⟩ := Ident.append_inj (endsWord_colon _) (endsWord_colon _) h
    simp only [List.cons.injEq, true_and] at hvalues
    obtain ⟨rfl, hrest⟩ := (Expr.told value hvalue).append_inj depth hi'
      (endsValue_cons (by decide)) (endsValue_cons (by decide)) hvalues
    exact ⟨rfl, (List.cons.inj (List.cons.inj hrest).2).2⟩
  | _ => cases hkeyword

theorem told_includeMixin (name : Ident) {args : List Expr} (hargs : ∀ e ∈ args, e.IsReadable) :
    Told (.includeMixin name args) := by
  have hread : (Item.includeMixin name args).IsReadable := by rw [IsReadable]; exact hargs
  refine ⟨hread, fun depth i' s s' hi' h => ?_⟩
  have hkeyword := keyword_eq hread hi' h
  have hend (t : List Char) : EndsWord (';' :: t) := endsWord_cons (by decide)
  cases i' with
  | includeMixin name' args' =>
    rw [IsReadable] at hi'
    cases args with
    | nil =>
      cases args' with
      | nil =>
        simp only [render, List.append_assoc, List.append_cancel_left_eq, List.cons_append,
          List.nil_append] at h
        obtain ⟨rfl, hrest⟩ := Ident.append_inj (hend _) (hend _) h
        exact ⟨rfl, (List.cons.inj (List.cons.inj hrest).2).2⟩
      | cons e' rest' =>
        simp only [render, List.append_assoc, List.append_cancel_left_eq, List.cons_append,
          List.nil_append] at h
        obtain ⟨-, hrest⟩ := Ident.append_inj (hend _) (endsWord_open _) h
        simp at hrest
    | cons e rest =>
      cases args' with
      | nil =>
        simp only [render, List.append_assoc, List.append_cancel_left_eq, List.cons_append,
          List.nil_append] at h
        obtain ⟨-, hrest⟩ := Ident.append_inj (endsWord_open _) (hend _) h
        simp at hrest
      | cons e' rest' =>
        simp only [render, List.append_assoc, List.append_cancel_left_eq, List.cons_append,
          List.nil_append] at h
        obtain ⟨rfl, hlist⟩ := Ident.append_inj (endsWord_open _) (endsWord_open _) h
        obtain ⟨heq, hrest⟩ := Expr.renderArgs_append_inj depth (Expr.told_args _ hargs) hi'
          (List.cons.inj hlist).2
        exact ⟨congrArg _ heq, (List.cons.inj (List.cons.inj hrest).2).2⟩
  | _ => cases hkeyword

/-! ### Lists of statements -/

/-- Statements are told from what stands behind them if that begins with no keyword. -/
theorem renderAll_append_inj (depth : Nat) {is is' : List Item} (his : ∀ i ∈ is, i.Told)
    (his' : ∀ i ∈ is', i.IsReadable) {s s' : List Char} (hs : EndsBlock s) (hs' : EndsBlock s')
    (h : renderAll depth is ++ s = renderAll depth is' ++ s') : is = is' ∧ s = s' := by
  have hne {i : Item} (hi : i.IsReadable) {t u : List Char} (hu : EndsBlock u) :
      i.render depth ++ t ≠ u := by
    obtain ⟨v, hrender⟩ := exists_render depth hi
    rintro rfl
    rw [hrender, List.append_assoc, List.append_assoc] at hu
    exact i.keyword.not_endsBlock depth _ hu
  induction is generalizing is' with
  | nil =>
    cases is' with
    | nil => exact ⟨rfl, h⟩
    | cons i' rest' =>
      rw [renderAll.eq_2, List.append_assoc] at h
      exact absurd h.symm (hne (his' i' (by simp)) hs)
  | cons i rest ih =>
    cases is' with
    | nil =>
      rw [renderAll.eq_2, List.append_assoc] at h
      exact absurd h (hne (his i (by simp)).readable hs')
    | cons i' rest' =>
      rw [List.forall_mem_cons] at his his'
      rw [renderAll, renderAll, List.append_assoc, List.append_assoc] at h
      obtain ⟨rfl, hrest⟩ := his.1.append_inj depth his'.1 h
      obtain ⟨rfl, rfl⟩ := ih his.2 his'.2 hrest
      exact ⟨rfl, rfl⟩

theorem told_defineMixin (name : Ident) {params : List Param} {body : List Item}
    (hparams : ∀ p ∈ params, p.IsReadable) (hbody : ∀ i ∈ body, i.Told) :
    Told (.defineMixin name params body) := by
  have hread : (Item.defineMixin name params body).IsReadable := by
    rw [IsReadable]
    exact ⟨hparams, allReadable_iff.mpr fun i hi => (hbody i hi).readable⟩
  refine ⟨hread, fun depth i' s s' hi' h => ?_⟩
  have hkeyword := keyword_eq hread hi' h
  have hshut (t : List Char) : EndsBlock (indent depth ++ '\x7d' :: t) := by
    rw [EndsBlock, firstInk_indent, firstInk_cons (by decide)]
    decide
  cases i' with
  | defineMixin name' params' body' =>
    rw [IsReadable] at hi'
    simp only [render, List.append_assoc, List.append_cancel_left_eq, List.cons_append,
      List.nil_append] at h
    obtain ⟨rfl, hlist⟩ := Ident.append_inj (endsWord_open _) (endsWord_open _) h
    obtain ⟨rfl, hblock⟩ := renderParams_append_inj depth hparams hi'.1 (List.cons.inj hlist).2
    simp only [List.cons.injEq, true_and] at hblock
    obtain ⟨rfl, hrest⟩ := renderAll_append_inj (depth + 1) hbody (allReadable_iff.mp hi'.2)
      (hshut _) (hshut _) hblock
    exact ⟨rfl, (List.cons.inj (List.cons.inj (List.append_cancel_left hrest)).2).2⟩
  | _ => cases hkeyword

mutual

/-- Every readable statement is known from its text. -/
theorem told : ∀ i : Item, i.IsReadable → i.Told
  | .useModule name, _ => told_useModule name
  | .importSheet path, _ => told_importSheet path
  | .assign name value, h => told_assign name (by rwa [IsReadable] at h)
  | .defineMixin name params body, h => by
    rw [IsReadable] at h
    exact told_defineMixin name h.1 (told_all body h.2)
  | .includeMixin name args, h => told_includeMixin name (by rwa [IsReadable] at h)
  | .comment _, h => by
    rw [IsReadable] at h
    exact h.elim

theorem told_all : ∀ is : List Item, AllReadable is → ∀ i ∈ is, i.Told
  | [], _ => nofun
  | i :: is, h => by
    rw [AllReadable] at h
    rw [List.forall_mem_cons]
    exact ⟨told i h.1, told_all is h.2⟩

end

end Item

/-! ### Sheets -/

/-- A sheet whose text shows what it is: it has no comments, and all of its expressions are made
of strings, variables, maps, calls and `null`. -/
def Sheet.IsReadable (s : Sheet) : Prop := Item.AllReadable s.items

/-- **Sheets from their texts.**  Readable sheets with the same text are the same. -/
theorem Sheet.text_inj {s t : Sheet} (hs : s.IsReadable) (ht : t.IsReadable) :
    s.text = t.text ↔ s = t := by
  refine ⟨fun h => ?_, congrArg text⟩
  have hrender : s.render = t.render := String.ofList_injective h
  have hend : EndsBlock [] := ⟨by decide, by decide⟩
  obtain ⟨heq, -⟩ := Item.renderAll_append_inj 0 (Item.told_all _ hs) (Item.allReadable_iff.mp ht)
    hend hend (s := []) (by simpa [Sheet.render] using hrender)
  cases s
  cases t
  exact congrArg _ heq

/-- A sheet with a value in several places: as a default, in a map that is an argument, and behind
an empty map. -/
def Sheet.carrying (value : Expr) : Sheet where
  items :=
    [.useModule "sass:\"map\"",
     .defineMixin ⟨"m", rfl⟩ [⟨⟨"x", rfl⟩, none⟩, ⟨⟨"y", rfl⟩, some value⟩]
       [.assign ⟨"z", rfl⟩
          (.call ⟨"map.set", rfl⟩ [.map [("a\n", value), ("", .var ⟨"x", rfl⟩)]]),
        .includeMixin ⟨"m", rfl⟩ [.map [], value], .includeMixin ⟨"m", rfl⟩ []]]

/-- `null` and a call of a function that is called `null` do not make the same text. -/
theorem Sheet.text_inj_null :
    (carrying .null).IsReadable ∧ (carrying (.call ⟨"null", rfl⟩ [])).IsReadable ∧
      (carrying .null).text ≠ (carrying (.call ⟨"null", rfl⟩ [])).text := by
  have hreadable {value : Expr} (h : value.IsReadable) : (carrying value).IsReadable := by
    simp [carrying, Sheet.IsReadable, Item.AllReadable, Item.IsReadable, Param.IsReadable, h]
  have hnull := hreadable Expr.isReadable_null
  have hcall : (carrying (.call ⟨"null", rfl⟩ [])).IsReadable := hreadable (by simp)
  refine ⟨hnull, hcall, fun h => ?_⟩
  have hsheets := (Sheet.text_inj hnull hcall).mp h
  simp [carrying] at hsheets

end TokenSheets
