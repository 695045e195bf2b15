/-
TokenSheets/Proofs/Sheet/Feeds.lean

How many lines the text of a sheet has.

Only the shape of a sheet decides this: which statements it has, which maps are in
their values and how many entries these have, and how many lines its comments have
(`Sheet.shape`).  A shape holds no text at all, so no name, key, string or literal can
add a line or take one away.  Each kind of leaf keeps line feeds out in its own way:
strings and keys escape them, names and numbers have no such character, a comment is
cut at them, and a literal is rejected if one is left after trimming.  An escaped
character is written as it is, and has to be another one.

A literal that exists may still have blanks around it, line feeds among them; those
that are built from a text have none (`Sheet.IsBuilt`).
-/
import TokenSheets.Proofs.Sheet.Structure
import TokenSheets.Proofs.Sheet.Unique

namespace TokenSheets

/-! ### Shapes -/

/-- What is left of an expression without its texts. -/
inductive Expr.Shape where
  | flat
  | map (entries : List Expr.Shape)
  | call (args : List Expr.Shape)

/-- What is left of a statement without its texts. -/
inductive Item.Shape where
  | statement (values : List Expr.Shape)
  | mixin (defaults : List Expr.Shape) (body : List Item.Shape)
  | comment (lines : Nat)

namespace Expr

mutual

def shape : Expr → Shape
  | .map entries => .map (entryShapes entries)
  | .call _ args => .call (shapes args)
  | .str _ => .flat
  | .literal _ => .flat
  | .number _ _ => .flat
  | .var _ => .flat
  | .null => .flat
  | .escaped _ => .flat

def entryShapes : List (String × Expr) → List Shape
  | [] => []
  | (_, e) :: rest => e.shape :: entryShapes rest

def shapes : List Expr → List Shape
  | [] => []
  | e :: rest => e.shape :: shapes rest

end

namespace Shape

mutual

/-- A map with entries has a line feed after its parenthesis and one after each entry. -/
def lineFeeds : Shape → Nat
  | .flat => 0
  | .map entries => (if entries.isEmpty then 0 else 1 + entries.length) + allLineFeeds entries
  | .call args => allLineFeeds args

def allLineFeeds : List Shape → Nat
  | [] => 0
  | s :: ss => s.lineFeeds + allLineFeeds ss

end

end Shape

end Expr

namespace Item

mutual

def shape : Item → Shape
  | .useModule _ => .statement []
  | .importSheet _ => .statement []
  | .assign _ value => .statement [value.shape]
  | .defineMixin _ params body =>
    .mixin (Expr.shapes (params.filterMap (·.default))) (shapes body)
  | .includeMixin _ args => .statement (Expr.shapes args)
  | .comment text => .comment (lines text.toList).length

def shapes : List Item → List Shape
  | [] => []
  | i :: is => i.shape :: shapes is

end

namespace Shape

mutual

/-- One line feed for each statement and for each line of a comment, two for the braces of a
mixin, and those of the maps and of the body. -/
def lineFeeds : Shape → Nat
  | .statement values => 1 + Expr.Shape.allLineFeeds values
  | .mixin defaults body => 2 + Expr.Shape.allLineFeeds defaults + allLineFeeds body
  | .comment lines => lines

def allLineFeeds : List Shape → Nat
  | [] => 0
  | s :: ss => s.lineFeeds + allLineFeeds ss

end

end Shape

end Item

/-- What is left of a sheet without its texts. -/
def Sheet.shape (s : Sheet) : List Item.Shape := Item.shapes s.items

/-! ### Texts without line feeds -/

@[simp] theorem count_indent (depth : Nat) : (indent depth).count '\n' = 0 := by
  rw [List.count_eq_zero]
  intro h
  exact absurd (List.eq_of_mem_replicate h) (by decide)

@[simp] theorem count_quote (s : List Char) : (quote s).count '\n' = 0 := by
  have hchar (c : Char) : '\n' ∉ quoteChar c := by
    unfold quoteChar
    split
    · decide
    split
    · decide
    split
    · decide
    · rename_i hfeed
      rw [List.mem_singleton]
      exact Ne.symm hfeed
  rw [List.count_eq_zero]
  simp [quote, hchar]

@[simp] theorem Ident.count_text (name : Ident) : name.text.toList.count '\n' = 0 := by
  rw [List.count_eq_zero]
  exact fun h => absurd (name.isWordChar_of_mem _ h) (by decide)

@[simp] theorem FunctionName.count_text (f : FunctionName) : f.text.toList.count '\n' = 0 := by
  rw [List.count_eq_zero]
  exact fun h => absurd (f.isWordChar_of_mem _ h) (by decide)

@[simp] theorem Double.count_placesText (d : Double) : d.placesText.count '\n' = 0 := by
  rw [List.count_eq_zero]
  exact fun h => absurd (d.isPlain_of_mem_placesText _ h) (by decide)

/-- The trimmed text of a literal was searched for line feeds. -/
theorem Literal.not_mem_of_ofString? {raw : String} {l : Literal}
    (h : Literal.ofString? raw = .ok l) : '\n' ∉ l.text.toList := by
  unfold Literal.ofString? at h
  split at h
  · rename_i husable
    rw [← Except.ok.inj h, String.toList_ofList]
    simp only [TokenSheets.isUsable, Bool.and_eq_true, Bool.not_eq_true',
      List.any_eq_false] at husable
    exact fun hmem => husable.2 _ hmem (by decide)
  · cases h

/-! ### Expressions -/

namespace Expr

/-- No literal in the expression has a line feed, and none is escaped. -/
def IsFeedless (e : Expr) : Prop :=
  e.All fun x => x ≠ .escaped '\n' ∧ ∀ l, x = .literal l → '\n' ∉ l.text.toList

theorem isFeedless_literal {l : Literal} : IsFeedless (.literal l) ↔ '\n' ∉ l.text.toList := by
  simp [IsFeedless, all_literal]

theorem isFeedless_escaped {c : Char} : IsFeedless (.escaped c) ↔ c ≠ '\n' := by
  simp [IsFeedless, all_escaped]

theorem isFeedless_map {es : List (String × Expr)} :
    IsFeedless (.map es) ↔ ∀ e ∈ es, e.2.IsFeedless := by
  simp [IsFeedless, all_map]

theorem isFeedless_call {f : FunctionName} {args : List Expr} :
    IsFeedless (.call f args) ↔ ∀ e ∈ args, e.IsFeedless := by
  simp [IsFeedless, all_call]

mutual

/-- The text of an expression has the line feeds of its shape. -/
theorem count_render (depth : Nat) :
    ∀ e : Expr, e.IsFeedless → (e.render depth).count '\n' = e.shape.lineFeeds
  | .str s, _ => by
    simp [render, shape, Shape.lineFeeds]
  | .literal l, h => by
    rw [render, shape, Shape.lineFeeds, List.count_eq_zero]
    exact isFeedless_literal.mp h
  | .number d _, _ => by
    simp [render, shape, Shape.lineFeeds]
  | .var name, _ => by
    simp [render, shape, Shape.lineFeeds]
  | .map [], _ => by
    simp [render, shape, entryShapes, Shape.lineFeeds, Shape.allLineFeeds]
  | .map (e :: rest), h => by
    have htext : ((Expr.map (e :: rest)).render depth).count '\n' =
        1 + (renderEntries (depth + 1) (e :: rest)).count '\n' := by
      simp [render_map_cons, Nat.add_comm]
    have hfilled : (entryShapes (e :: rest)).isEmpty = false := by simp [entryShapes]
    rw [htext, count_renderEntries (depth + 1) (e :: rest) (isFeedless_map.mp h), shape,
      Shape.lineFeeds, hfilled, if_neg Bool.false_ne_true, Nat.add_assoc]
  | .call f args, h => by
    rw [isFeedless_call] at h
    have hargs := count_renderArgs depth args h
    simp [render, shape, Shape.lineFeeds, hargs]
  | .null, _ => by
    simp [render, shape, Shape.lineFeeds]
  | .escaped c, h => by
    have hc := isFeedless_escaped.mp h
    simp [render, shape, Shape.lineFeeds, hc]

/-- Entries of a map have one more for each of them. -/
theorem count_renderEntries (depth : Nat) : ∀ es : List (String × Expr),
    (∀ e ∈ es, e.2.IsFeedless) →
    (renderEntries depth es).count '\n' =
      (entryShapes es).length + Shape.allLineFeeds (entryShapes es)
  | [], _ => by
    simp [renderEntries, entryShapes, Shape.allLineFeeds]
  | (k, e) :: rest, h => by
    rw [List.forall_mem_cons] at h
    have htext : (renderEntries depth ((k, e) :: rest)).count '\n' =
        (e.render depth).count '\n' + (renderEntries depth rest).count '\n' + 1 := by
      simp [renderEntries]
      omega
    rw [htext, count_render depth e h.1, count_renderEntries depth rest h.2, entryShapes,
      Shape.allLineFeeds, List.length_cons]
    omega

theorem count_renderArgs (depth : Nat) : ∀ es : List Expr, (∀ e ∈ es, e.IsFeedless) →
    (renderArgs depth es).count '\n' = Shape.allLineFeeds (shapes es)
  | [], _ => by
    simp [renderArgs, shapes, Shape.allLineFeeds]
  | e :: rest, h => by
    rw [List.forall_mem_cons] at h
    have hvalue := count_render depth e h.1
    have hrest := count_renderMoreArgs depth rest h.2
    simp [renderArgs, shapes, Shape.allLineFeeds, hvalue, hrest]

theorem count_renderMoreArgs (depth : Nat) : ∀ es : List Expr, (∀ e ∈ es, e.IsFeedless) →
    (renderMoreArgs depth es).count '\n' = Shape.allLineFeeds (shapes es)
  | [], _ => by
    simp [renderMoreArgs, shapes, Shape.allLineFeeds]
  | e :: rest, h => by
    rw [List.forall_mem_cons] at h
    have hvalue := count_render depth e h.1
    have hrest := count_renderMoreArgs depth rest h.2
    simp [renderMoreArgs, shapes, Shape.allLineFeeds, hvalue, hrest]

end

end Expr

theorem Param.count_render (depth : Nat) {p : Param}
    (h : ∀ e, p.default = some e → e.IsFeedless) :
    (p.render depth).count '\n' =
      Expr.Shape.allLineFeeds (Expr.shapes (p.default.toList)) := by
  rw [Param.render]
  cases hdefault : p.default with
  | none => simp [Expr.shapes, Expr.Shape.allLineFeeds]
  | some e =>
    simp [Expr.shapes, Expr.Shape.allLineFeeds, Expr.count_render depth e (h e hdefault)]

theorem count_renderParams (depth : Nat) {ps : List Param}
    (h : ∀ p ∈ ps, ∀ e, p.default = some e → e.IsFeedless) :
    (renderParams depth ps).count '\n' =
      Expr.Shape.allLineFeeds (Expr.shapes (ps.filterMap (·.default))) := by
  induction ps with
  | nil => rfl
  | cons p ps ih =>
    rw [List.forall_mem_cons] at h
    have hrest : (if ps = [] then [] else ',' :: ' ' :: renderParams depth ps).count '\n' =
        (renderParams depth ps).count '\n' := by
      split
      · rename_i hnil
        rw [hnil]
        rfl
      · simp
    rw [renderParams_cons, List.count_append, hrest, ih h.2, Param.count_render depth h.1,
      List.filterMap_cons]
    cases p.default with
    | none => simp [Expr.shapes, Expr.Shape.allLineFeeds]
    | some e => simp [Expr.shapes, Expr.Shape.allLineFeeds]

/-! ### Statements -/

/-- A text of whole lines, that many. -/
structure FillsLines (s : List Char) (n : Nat) : Prop where
  count : s.count '\n' = n
  ends : s = [] ∨ s.getLast? = some '\n'

theorem FillsLines.append {s t : List Char} {m n : Nat} (hs : FillsLines s m)
    (ht : FillsLines t n) : FillsLines (s ++ t) (m + n) := by
  refine ⟨by rw [List.count_append, hs.count, ht.count], ?_⟩
  rcases ht.ends with rfl | hlast
  · rw [List.append_nil]
    exact hs.ends
  · right
    rw [List.getLast?_append, hlast]
    rfl

/-- A text with a line feed behind it. -/
theorem fillsLines_concat (s : List Char) : FillsLines (s ++ ['\n']) (s.count '\n' + 1) :=
  ⟨by simp, .inr List.getLast?_concat⟩

/-- A statement, up to its semicolon and its line end. -/
theorem fillsLines_statement {s : List Char} {n : Nat} (h : s.count '\n' = n) :
    FillsLines (s ++ [';', '\n']) (1 + n) := by
  have hline := fillsLines_concat (s ++ [';'])
  have hcount : (s ++ [';']).count '\n' + 1 = 1 + n := by simp [h, Nat.add_comm]
  rw [hcount, List.append_assoc] at hline
  exact hline

/-- A mixin: the line with the head, the body, and the line with the brace. -/
theorem fillsLines_block {head body : List Char} {k n : Nat} (hhead : head.count '\n' = k)
    (hbody : FillsLines body n) (depth : Nat) :
    FillsLines (head ++ '\x7b' :: '\n' :: (body ++ indent depth ++ ['\x7d', '\n']))
      (2 + k + n) := by
  have hopen := fillsLines_concat (head ++ ['\x7b'])
  have hshut := fillsLines_concat (indent depth ++ ['\x7d'])
  have hall := (hopen.append hbody).append hshut
  have hcount : (head ++ ['\x7b']).count '\n' + 1 + n +
      ((indent depth ++ ['\x7d']).count '\n' + 1) = 2 + k + n := by
    simp [hhead]
    omega
  rw [hcount] at hall
  simpa using hall

theorem fillsLines_renderCommentLine (depth : Nat) {line : List Char} (h : '\n' ∉ line) :
    FillsLines (renderCommentLine depth line) 1 := by
  have hcontent : (if line.isEmpty then [] else ' ' :: line).count '\n' = 0 := by
    rw [List.count_eq_zero]
    split
    · exact List.not_mem_nil
    · rw [List.mem_cons, not_or]
      exact ⟨by decide, h⟩
  rw [renderCommentLine]
  generalize (if line.isEmpty then [] else ' ' :: line) = content at hcontent
  have hline := fillsLines_concat (indent depth ++ '/' :: '/' :: content)
  have hcount : (indent depth ++ '/' :: '/' :: content).count '\n' + 1 = 1 := by
    simp [hcontent]
  rw [hcount] at hline
  simpa using hline

theorem fillsLines_comment (depth : Nat) {ls : List (List Char)} (h : ∀ line ∈ ls, '\n' ∉ line) :
    FillsLines (ls.flatMap (renderCommentLine depth)) ls.length := by
  induction ls with
  | nil => exact ⟨rfl, .inl rfl⟩
  | cons line ls ih =>
    rw [List.forall_mem_cons] at h
    rw [List.flatMap_cons, List.length_cons, Nat.add_comm]
    exact (fillsLines_renderCommentLine depth h.1).append (ih h.2)

namespace Item

mutual

/-- The text of a statement consists of whole lines, as many as its shape says. -/
theorem fillsLines_render (depth : Nat) : ∀ i : Item, (∀ e ∈ i.exprs, e.IsFeedless) →
    FillsLines (i.render depth) i.shape.lineFeeds
  | .useModule name, _ => by
    rw [render, shape, Shape.lineFeeds, Expr.Shape.allLineFeeds]
    exact fillsLines_statement (by simp)
  | .importSheet path, _ => by
    rw [render, shape, Shape.lineFeeds, Expr.Shape.allLineFeeds]
    exact fillsLines_statement (by simp)
  | .assign name value, h => by
    have hvalue := value.count_render depth (h value (by simp [exprs]))
    have hline : FillsLines
        ((indent depth ++ '$' :: (name.text.toList ++ ':' :: ' ' :: value.render depth)) ++
          [';', '\n']) (1 + value.shape.lineFeeds) :=
      fillsLines_statement (by simp [hvalue])
    rw [render, shape, Shape.lineFeeds, Expr.Shape.allLineFeeds, Expr.Shape.allLineFeeds]
    simpa using hline
  | .defineMixin name params body, h => by
    rw [exprs, List.forall_mem_append] at h
    have hparams : (renderParams depth params).count '\n' =
        Expr.Shape.allLineFeeds (Expr.shapes (params.filterMap (·.default))) :=
      count_renderParams depth fun p hp e he => h.1 e (List.mem_filterMap.mpr ⟨p, hp, he⟩)
    have hhead : (indent depth ++ "@mixin ".toList ++ name.text.toList ++
        '(' :: (renderParams depth params ++ [')', ' '])).count '\n' =
        Expr.Shape.allLineFeeds (Expr.shapes (params.filterMap (·.default))) := by
      simp [hparams]
    have hblock := fillsLines_block hhead (fillsLines_renderAll (depth + 1) body h.2) depth
    rw [render, shape, Shape.lineFeeds]
    simpa using hblock
  | .includeMixin name [], _ => by
    rw [render, shape, Expr.shapes, Shape.lineFeeds, Expr.Shape.allLineFeeds]
    exact fillsLines_statement (by simp)
  | .includeMixin name (e :: es), h => by
    have hargs := Expr.count_renderArgs depth (e :: es) h
    have hline : FillsLines ((indent depth ++ "@include ".toList ++ name.text.toList ++
        '(' :: (Expr.renderArgs depth (e :: es) ++ [')'])) ++ [';', '\n'])
        (1 + Expr.Shape.allLineFeeds (Expr.shapes (e :: es))) :=
      fillsLines_statement (by simp [hargs])
    rw [render, shape, Shape.lineFeeds]
    simpa using hline
  | .comment text, _ => by
    rw [render, shape, Shape.lineFeeds]
    exact fillsLines_comment depth fun line => not_mem_of_mem_lines

theorem fillsLines_renderAll (depth : Nat) : ∀ is : List Item,
    (∀ e ∈ allExprs is, e.IsFeedless) →
    FillsLines (renderAll depth is) (Shape.allLineFeeds (shapes is))
  | [], _ => by
    rw [renderAll, shapes, Shape.allLineFeeds]
    exact ⟨rfl, .inl rfl⟩
  | i :: is, h => by
    rw [allExprs, List.forall_mem_append] at h
    rw [renderAll, shapes, Shape.allLineFeeds]
    exact (fillsLines_render depth i h.1).append (fillsLines_renderAll depth is h.2)

end

end Item

/-! ### Sheets -/

/-- Every literal in the sheet was built from a text.  What else is checked when a sheet is built is
part of its type. -/
def Sheet.IsBuilt (s : Sheet) : Prop := ∀ l, s.Carries l → ∃ raw, Literal.ofString? raw = .ok l

/-- **The lines of a sheet.**  If no line feed is escaped as a character, the text of a sheet has as
many line feeds as its shape says, and is empty or ends with one. -/
theorem Sheet.count_lineFeeds {s : Sheet} (hbuilt : s.IsBuilt)
    (hescaped : ∀ e ∈ Item.allExprs s.items, Expr.escaped '\n' ∉ e.parts) :
    s.text.toList.count '\n' = Item.Shape.allLineFeeds s.shape ∧
      (s.text = "" ∨ s.text.toList.getLast? = some '\n') := by
  have hall : ∀ e ∈ Item.allExprs s.items, e.IsFeedless := by
    intro e he x hx
    constructor
    · rintro rfl
      exact hescaped e he hx
    · rintro l rfl
      obtain ⟨raw, hraw⟩ := hbuilt l ⟨e, he, hx⟩
      exact Literal.not_mem_of_ofString? hraw
  obtain ⟨hcount, hends⟩ := Item.fillsLines_renderAll 0 s.items hall
  rw [Sheet.text, String.toList_ofList]
  refine ⟨hcount, hends.imp_left fun hnil => ?_⟩
  rw [Sheet.render, hnil, String.ofList_nil]

/-- A sheet with line feeds in its texts. -/
def feedsSheet : Sheet where
  items :=
    [.useModule "a\nb", .comment "one\n\ntwo",
     .defineMixin ⟨"m", by decide⟩
       [⟨⟨"p", by decide⟩, some (.map [("k\n", .literal ⟨"16px", by decide⟩)])⟩]
       [.assign ⟨"v", by decide⟩
         (.call ⟨"f", by decide⟩ [.map [("a", .null), ("b", .map [])], .str "\n", .escaped 'n'])]]

/-- One line for the module, three for the comment, two for the mixin with two for its default, and
one for the assignment with three for the map. -/
theorem Sheet.count_lineFeeds_feedsSheet :
    feedsSheet.IsBuilt ∧
    (∀ e ∈ Item.allExprs feedsSheet.items, Expr.escaped '\n' ∉ e.parts) ∧
    feedsSheet.text.toList.count '\n' = 1 + 3 + (2 + 2) + (1 + 3) ∧
    (feedsSheet.text = "" ∨ feedsSheet.text.toList.getLast? = some '\n') := by
  have hbuilt : feedsSheet.IsBuilt := by
    rintro l ⟨e, he, hx⟩
    refine ⟨"16px", ?_⟩
    simp only [feedsSheet, Item.allExprs, Item.exprs, List.filterMap_cons, List.filterMap_nil,
      List.nil_append, List.append_nil, List.cons_append, List.mem_cons, List.not_mem_nil,
      or_false] at he
    rcases he with rfl | rfl
    · obtain rfl : l = ⟨"16px", by decide⟩ := by
        simpa [Expr.parts, Expr.entriesParts] using hx
      rfl
    · simp [Expr.parts, Expr.entriesParts, Expr.argsParts] at hx
  have hescaped : ∀ e ∈ Item.allExprs feedsSheet.items, Expr.escaped '\n' ∉ e.parts := by
    simp [feedsSheet, Item.allExprs, Item.exprs, Expr.parts, Expr.entriesParts, Expr.argsParts]
  exact ⟨hbuilt, hescaped, Sheet.count_lineFeeds hbuilt hescaped⟩

end TokenSheets
