/-
TokenSheets/Proofs/Json/Written.lean

Written values read back.

What the scanner shows of an indented text is what it has to show of the value
that was written (`Shows`), however deep that is: the text is scanned to its end
in any case, and `outline_pretty` is what a reader gets of one that is not too
deep.  The scanner's budget is twice the length of what is left, so the induction
is over the value, with the text that follows it and any budget above that bound.
-/
import TokenSheets.Proofs.Json.Depth
import TokenSheets.Proofs.Json.Number

namespace TokenSheets.Json

open Outcome

/-! ### Steps of the scanner -/

namespace Scan

theorem skipGap_newLine (k : Nat) (s : List Piece) :
    skipGap (piecesOfText (Value.newLine k) ++ s) = skipGap s := by
  have hspaces (n : Nat) : skipGap (piecesOfText (List.replicate n ' ') ++ s) = skipGap s := by
    induction n with
    | zero => rfl
    | succ n ih =>
      rw [List.replicate_succ, piecesOfText_cons, List.cons_append, skipGap,
        List.dropWhile_cons_of_pos (by decide)]
      exact ih
  rw [Value.newLine, piecesOfText_cons, List.cons_append, skipGap,
    List.dropWhile_cons_of_pos (by decide)]
  exact hspaces _

theorem skipGap_cons {p : Piece} (hp : isGap p = false) (s : List Piece) :
    skipGap (p :: s) = p :: s :=
  List.dropWhile_cons_of_neg (by simp [hp])

/-- Gaps before a value do not matter. -/
theorem value_congr {s t : List Piece} (h : skipGap s = skipGap t) (fuel depth : Nat) :
    value (fuel + 1) depth s = value (fuel + 1) depth t := by
  rw [value, value, h]

variable {fuel depth : Nat} {s rest : List Piece} {p : Piece}

theorem items_close (first : Bool) (h : skipGap s = .scalar ']' :: rest) :
    items (fuel + 1) depth first s = ([], none, some rest) := by
  rw [items, h]
  rfl

theorem items_first (h : skipGap s = p :: rest) (hp : p ≠ .scalar ']') :
    items (fuel + 1) depth true s = itemThen fuel depth (p :: rest) := by
  rw [items, h]
  split
  · rename_i heq
    cases heq
  · rename_i heq
    exact absurd (List.cons.inj heq).1 hp
  · rename_i heq
    obtain ⟨rfl, rfl⟩ := List.cons.inj heq
    rfl

theorem items_comma {after : List Piece} (h : skipGap s = .scalar ',' :: after)
    (hafter : skipGap after = p :: rest) (hp : p ≠ .scalar ']') :
    items (fuel + 1) depth false s = itemThen fuel depth (p :: rest) := by
  rw [items, h]
  split
  · rename_i heq
    cases heq
  · rename_i heq
    exact absurd (List.cons.inj heq).1 (by decide)
  · rename_i heq
    obtain ⟨rfl, rfl⟩ := List.cons.inj heq
    rw [if_neg (by decide), if_pos rfl, hafter]
    split
    · rename_i heq
      cases heq
    · rename_i heq
      exact absurd (List.cons.inj heq).1 hp
    · rfl

theorem members_close (first : Bool) (h : skipGap s = .scalar '\x7d' :: rest) :
    members (fuel + 1) depth first s = ([], none, some rest) := by
  rw [members, h]
  rfl

theorem members_first (h : skipGap s = .scalar '"' :: rest) :
    members (fuel + 1) depth true s = keyThen fuel depth rest := by
  rw [members, h]
  rfl

theorem members_comma {after : List Piece} (h : skipGap s = .scalar ',' :: after)
    (hafter : skipGap after = .scalar '"' :: rest) :
    members (fuel + 1) depth false s = keyThen fuel depth rest := by
  rw [members, h]
  split
  · rename_i heq
    cases heq
  · rename_i heq
    exact absurd (List.cons.inj heq).1 (by decide)
  · rename_i heq
    obtain ⟨rfl, rfl⟩ := List.cons.inj heq
    rw [if_neg (by decide), if_pos rfl, hafter]
    rfl

/-- A key, its colon and the gap behind it. -/
theorem keyThen_quoteText (k : String) {o : Outline}
    (h : value (fuel + 1) depth s = (o, some rest)) :
    keyThen (fuel + 1) depth
        (piecesOfText (k.toList.flatMap escapeChar ++ ['"']) ++ .scalar ':' :: .scalar ' ' :: s) =
      ((.ok k, o) :: (members (fuel + 1) depth false rest).1,
        (members (fuel + 1) depth false rest).2) := by
  have hgap : value (fuel + 1) depth (.scalar ' ' :: s) = (o, some rest) := by
    rw [← h]
    exact value_congr (List.dropWhile_cons_of_pos (by decide)) _ _
  rw [keyThen, text_quoteText]
  simp only [completeText_piecesOfText, String.ofList_toList]
  rw [memberThen, skipGap_cons (by decide)]
  simp only [hgap]

theorem itemThen_of_value {o : Outline} (h : value fuel depth s = (o, some rest)) :
    itemThen fuel depth s =
      (o :: (items fuel depth false rest).1, (items fuel depth false rest).2) := by
  rw [itemThen, h]

/-! ### Whole values -/

/-- A value is scanned from the start of a text, and what follows it is left. -/
def ScansValue (fuel depth : Nat) (s : List Piece) (v : Value) (rest : List Piece) : Prop :=
  ∃ o, value fuel depth s = (o, some rest) ∧ (depth < depthLimit → Shows depth v o)

/-- The items of a list are scanned to its closing bracket. -/
def ScansItems (fuel depth : Nat) (first : Bool) (s : List Piece) (vs : List Value)
    (rest : List Piece) : Prop :=
  ∃ os, items fuel depth first s = (os, none, some rest) ∧
    (depth < depthLimit → ShowsItems depth vs os)

/-- The members of an object are scanned to its closing brace. -/
def ScansMembers (fuel depth : Nat) (first : Bool) (s : List Piece) (ms : List (String × Value))
    (rest : List Piece) : Prop :=
  ∃ os, members fuel depth first s = (os, none, some rest) ∧
    (depth < depthLimit → ShowsMembers depth ms os)

theorem scansValue_outline {v : Value} (hv : v.depth = 0)
    (h : value fuel depth s = (v.outline, some rest)) : ScansValue fuel depth s v rest :=
  ⟨_, h, fun hdepth => shows_outline hdepth hv⟩

theorem scansValue_array {vs : List Value} (h : ScansItems fuel (depth + 1) true s vs rest) :
    ScansValue (fuel + 1) depth (.scalar '[' :: s) (.array vs) rest := by
  obtain ⟨os, hos, hshows⟩ := h
  refine ⟨_, ?_, fun hdepth => shows_array hdepth (.scalar '[' :: s) hshows⟩
  rw [value, skipGap_cons (by decide)]
  simp only [hos]

theorem value_object {os : List (Except Fault String × Outline)}
    (h : members fuel (depth + 1) true s = (os, none, some rest)) :
    value (fuel + 1) depth (.scalar '\x7b' :: s) =
      (guardDepth depth (.scalar '\x7b' :: s) (.object os none), some rest) := by
  rw [value, skipGap_cons (by decide)]
  simp only [h]

theorem scansValue_object {ms : List (String × Value)}
    (h : ScansMembers fuel (depth + 1) true s ms rest) :
    ScansValue (fuel + 1) depth (.scalar '\x7b' :: s) (.object ms) rest := by
  obtain ⟨os, hos, hshows⟩ := h
  exact ⟨_, value_object hos, fun hdepth => shows_object hdepth (.scalar '\x7b' :: s) hshows⟩

theorem scansItems_nil (first : Bool) (h : skipGap s = .scalar ']' :: rest) :
    ScansItems (fuel + 1) depth first s [] rest :=
  ⟨[], items_close first h, fun _ => .nil⟩

/-- A first item, or one behind a comma, and the items after it. -/
theorem scansItems_cons {first : Bool} {after : List Piece} {v : Value} {vs : List Value}
    (hitems : items (fuel + 1) depth first s = itemThen fuel depth (p :: rest))
    (hv : ScansValue fuel depth (p :: rest) v after) {last : List Piece}
    (hvs : ScansItems fuel depth false after vs last) :
    ScansItems (fuel + 1) depth first s (v :: vs) last := by
  obtain ⟨o, ho, hshows⟩ := hv
  obtain ⟨os, hos, hshowsItems⟩ := hvs
  refine ⟨o :: os, ?_, fun hdepth => .cons (hshows hdepth) (hshowsItems hdepth)⟩
  rw [hitems, itemThen_of_value ho, hos]

theorem scansMembers_nil (first : Bool) (h : skipGap s = .scalar '\x7d' :: rest) :
    ScansMembers (fuel + 1) depth first s [] rest :=
  ⟨[], members_close first h, fun _ => .nil⟩

/-- A first member, or one behind a comma, and the members after it. -/
theorem scansMembers_cons {first : Bool} {after last : List Piece} {k : String} {v : Value}
    {ms : List (String × Value)}
    (hmembers : members (fuel + 2) depth first s = keyThen (fuel + 1) depth
      (piecesOfText (k.toList.flatMap escapeChar ++ ['"']) ++ .scalar ':' :: .scalar ' ' :: rest))
    (hv : ScansValue (fuel + 1) depth rest v after)
    (hms : ScansMembers (fuel + 1) depth false after ms last) :
    ScansMembers (fuel + 2) depth first s ((k, v) :: ms) last := by
  obtain ⟨o, ho, hshows⟩ := hv
  obtain ⟨os, hos, hshowsMembers⟩ := hms
  refine ⟨(.ok k, o) :: os, ?_, fun hdepth => .cons ⟨rfl, hshows hdepth⟩ (hshowsMembers hdepth)⟩
  rw [hmembers, keyThen_quoteText k ho, hos]

/-- What follows a value in a container goes on with no number. -/
theorem endsNumber_items (k j : Nat) (vs : List Value) (rest : List Piece) :
    EndsNumber (piecesOfText (Value.prettyItems k vs ++ (Value.newLine j ++ [']'])) ++ rest) := by
  cases vs with
  | nil => exact ⟨endsDigits_cons (by decide) _, nofun, nofun, nofun⟩
  | cons v vs => exact ⟨endsDigits_cons (by decide) _, nofun, nofun, nofun⟩

theorem endsNumber_members (k j : Nat) (ms : List (String × Value)) (rest : List Piece) :
    EndsNumber
      (piecesOfText (Value.prettyMembers k ms ++ (Value.newLine j ++ ['\x7d'])) ++ rest) := by
  cases ms with
  | nil => exact ⟨endsDigits_cons (by decide) _, nofun, nofun, nofun⟩
  | cons m ms => exact ⟨endsDigits_cons (by decide) _, nofun, nofun, nofun⟩

/-- The text of a value begins with what is no gap and closes no list. -/
theorem exists_pretty (v : Value) (k : Nat) :
    ∃ c cs, v.pretty k = c :: cs ∧ isGap (.scalar c) = false ∧ c ≠ ']' := by
  cases v with
  | null => exact ⟨_, _, rfl, by decide, by decide⟩
  | bool b => cases b <;> exact ⟨_, _, rfl, by decide, by decide⟩
  | number n =>
    obtain ⟨negative, c, cs, htext, hc⟩ := exists_write n
    cases negative with
    | true => exact ⟨_, _, htext, by decide, by decide⟩
    | false => exact ⟨_, _, htext, isGap_of_isDigit hc, ne_of_isDigit hc (by decide)⟩
  | string s => exact ⟨_, _, rfl, by decide, by decide⟩
  | array vs => cases vs <;> exact ⟨_, _, rfl, by decide, by decide⟩
  | object ms => cases ms <;> exact ⟨_, _, rfl, by decide, by decide⟩

/-- An item on its own line, first in its list or behind a comma. -/
theorem scansItems_line {v : Value} {vs : List Value} {k : Nat} {after : List Piece}
    (hv : ScansValue fuel depth (piecesOfText (v.pretty k) ++ after) v after)
    (hvs : ScansItems fuel depth false after vs rest) :
    ScansItems (fuel + 1) depth true (piecesOfText (Value.newLine k ++ v.pretty k) ++ after)
        (v :: vs) rest ∧
      ScansItems (fuel + 1) depth false
        (.scalar ',' :: (piecesOfText (Value.newLine k ++ v.pretty k) ++ after)) (v :: vs)
        rest := by
  obtain ⟨c, cs, hpretty, hgap, hclose⟩ := exists_pretty v k
  have hline : skipGap (piecesOfText (Value.newLine k ++ v.pretty k) ++ after) =
      .scalar c :: (piecesOfText cs ++ after) := by
    rw [piecesOfText_append, List.append_assoc, skipGap_newLine, hpretty, piecesOfText_cons,
      List.cons_append, skipGap_cons hgap]
  have hne : Piece.scalar c ≠ .scalar ']' := by simpa using hclose
  rw [hpretty, piecesOfText_cons, List.cons_append] at hv
  exact ⟨scansItems_cons (items_first hline hne) hv hvs,
    scansItems_cons (items_comma (skipGap_cons (by decide) _) hline hne) hv hvs⟩

/-- A member on its own line, first in its object or behind a comma. -/
theorem scansMembers_line {key : String} {v : Value} {ms : List (String × Value)} {k : Nat}
    {after : List Piece}
    (hv : ScansValue (fuel + 1) depth (piecesOfText (v.pretty k) ++ after) v after)
    (hms : ScansMembers (fuel + 1) depth false after ms rest) :
    ScansMembers (fuel + 2) depth true
        (piecesOfText (Value.newLine k ++ (quoteText key.toList ++ ':' :: ' ' :: v.pretty k)) ++
          after) ((key, v) :: ms) rest ∧
      ScansMembers (fuel + 2) depth false
        (.scalar ',' ::
          (piecesOfText (Value.newLine k ++ (quoteText key.toList ++ ':' :: ' ' :: v.pretty k)) ++
            after)) ((key, v) :: ms) rest := by
  have hline : skipGap (piecesOfText (Value.newLine k ++
        (quoteText key.toList ++ ':' :: ' ' :: v.pretty k)) ++ after) =
      .scalar '"' :: (piecesOfText (key.toList.flatMap escapeChar ++ ['"']) ++
        .scalar ':' :: .scalar ' ' :: (piecesOfText (v.pretty k) ++ after)) := by
    rw [piecesOfText_append, List.append_assoc, skipGap_newLine, quoteText, List.cons_append,
      piecesOfText_cons, List.cons_append, skipGap_cons (by decide)]
    simp [piecesOfText_append]
  exact ⟨scansMembers_cons (members_first hline) hv hms,
    scansMembers_cons (members_comma (skipGap_cons (by decide) _) hline) hv hms⟩

@[simp] theorem length_piecesOfText (s : List Char) : (piecesOfText s).length = s.length :=
  List.length_map _

theorem length_newLine (k : Nat) : (Value.newLine k).length = 2 * k + 1 := by
  simp [Value.newLine]

mutual

/-- **The scanner undoes the writer.**  With a budget above twice the length of the text, a
written value is scanned to its end. -/
theorem scansValue_pretty : ∀ (v : Value) (k fuel depth : Nat) (rest : List Piece), v.WellFormed →
    EndsNumber rest → 2 * (piecesOfText (v.pretty k) ++ rest).length < fuel →
    ScansValue fuel depth (piecesOfText (v.pretty k) ++ rest) v rest
  | v, k, 0, depth, rest, _, _, hfuel => by omega
  | .null, k, fuel + 1, depth, rest, _, _, _ => scansValue_outline rfl rfl
  | .bool true, k, fuel + 1, depth, rest, _, _, _ => scansValue_outline rfl rfl
  | .bool false, k, fuel + 1, depth, rest, _, _, _ => scansValue_outline rfl rfl
  | .number n, k, fuel + 1, depth, rest, hv, hrest, _ =>
    scansValue_outline rfl (value_write (Value.wellFormed_number.mp hv) hrest fuel depth)
  | .string s, k, fuel + 1, depth, rest, _, _, _ =>
    scansValue_outline rfl (string_quoteText s rest)
  | .array vs, k, fuel + 1, depth, rest, hv, _, hfuel => by
    obtain ⟨s, hs, hscan⟩ := scansItems_opened vs k fuel (depth + 1) rest
      (Value.wellFormed_array.mp hv) hfuel
    exact hs ▸ scansValue_array hscan
  | .object ms, k, fuel + 1, depth, rest, hv, _, hfuel => by
    obtain ⟨s, hs, hscan⟩ := scansMembers_opened ms k fuel (depth + 1) rest
      (Value.wellFormed_object.mp hv).2 hfuel
    exact hs ▸ scansValue_object hscan

/-- Behind its opening bracket, a list is scanned to its end. -/
theorem scansItems_opened : ∀ (vs : List Value) (k fuel depth : Nat) (rest : List Piece),
    (∀ v ∈ vs, v.WellFormed) →
    2 * (piecesOfText ((Value.array vs).pretty k) ++ rest).length < fuel + 1 →
    ∃ s, piecesOfText ((Value.array vs).pretty k) ++ rest = .scalar '[' :: s ∧
      ScansItems fuel depth true s vs rest
  | vs, k, 0, depth, rest, _, hfuel => by
    have hopen : ∃ text, (Value.array vs).pretty k = '[' :: text := by
      cases vs <;> exact ⟨_, rfl⟩
    obtain ⟨text, htext⟩ := hopen
    simp only [htext, List.length_cons, List.length_append, length_piecesOfText] at hfuel
    omega
  | [], k, fuel + 1, depth, rest, _, _ => ⟨_, rfl, scansItems_nil true rfl⟩
  | v :: vs, k, fuel + 1, depth, rest, hvs, hfuel => by
    obtain ⟨hv, hvs⟩ := List.forall_mem_cons.mp hvs
    have htext : piecesOfText ((Value.array (v :: vs)).pretty k) ++ rest =
        .scalar '[' :: (piecesOfText (Value.newLine (k + 1) ++ v.pretty (k + 1)) ++
          (piecesOfText (Value.prettyItems (k + 1) vs ++ (Value.newLine k ++ [']'])) ++ rest)) := by
      simp [Value.pretty, piecesOfText_append]
    rw [htext] at hfuel
    simp only [List.length_cons, List.length_append, List.length_nil, length_piecesOfText,
      length_newLine] at hfuel
    refine ⟨_, htext, (scansItems_line ?_ ?_).1⟩
    · refine scansValue_pretty v (k + 1) fuel depth _ hv (endsNumber_items ..) ?_
      simp only [List.length_cons, List.length_append, List.length_nil, length_piecesOfText,
        length_newLine]
      omega
    · refine scansItems_pretty vs (k + 1) k fuel depth rest hvs ?_
      simp only [List.length_cons, List.length_append, List.length_nil, length_piecesOfText,
        length_newLine]
      omega

/-- Behind its opening brace, an object is scanned to its end. -/
theorem scansMembers_opened : ∀ (ms : List (String × Value)) (k fuel depth : Nat)
    (rest : List Piece), (∀ m ∈ ms, m.2.WellFormed) →
    2 * (piecesOfText ((Value.object ms).pretty k) ++ rest).length < fuel + 1 →
    ∃ s, piecesOfText ((Value.object ms).pretty k) ++ rest = .scalar '\x7b' :: s ∧
      ScansMembers fuel depth true s ms rest
  | ms, k, 0, depth, rest, _, hfuel => by
    have hopen : ∃ text, (Value.object ms).pretty k = '\x7b' :: text := by
      cases ms <;> exact ⟨_, rfl⟩
    obtain ⟨text, htext⟩ := hopen
    simp only [htext, List.length_cons, List.length_append, length_piecesOfText] at hfuel
    omega
  | [], k, fuel + 1, depth, rest, _, _ => ⟨_, rfl, scansMembers_nil true rfl⟩
  | (key, v) :: ms, k, fuel + 1, depth, rest, hms, hfuel => by
    obtain ⟨hv, hms⟩ := List.forall_mem_cons.mp hms
    have htext : piecesOfText ((Value.object ((key, v) :: ms)).pretty k) ++ rest =
        .scalar '\x7b' :: (piecesOfText (Value.newLine (k + 1) ++
            (quoteText key.toList ++ ':' :: ' ' :: v.pretty (k + 1))) ++
          (piecesOfText (Value.prettyMembers (k + 1) ms ++ (Value.newLine k ++ ['\x7d'])) ++
            rest)) := by
      simp [Value.pretty, piecesOfText_append]
    rw [htext] at hfuel
    simp only [List.length_cons, List.length_append, List.length_nil, length_piecesOfText,
      length_newLine] at hfuel
    obtain ⟨fuel, rfl⟩ : ∃ f, fuel = f + 1 := Nat.exists_eq_succ_of_ne_zero (by omega)
    refine ⟨_, htext, (scansMembers_line ?_ ?_).1⟩
    · refine scansValue_pretty v (k + 1) (fuel + 1) depth _ hv (endsNumber_members ..) ?_
      simp only [List.length_cons, List.length_append, List.length_nil, length_piecesOfText,
        length_newLine]
      omega
    · refine scansMembers_pretty ms (k + 1) k (fuel + 1) depth rest hms ?_
      simp only [List.length_cons, List.length_append, List.length_nil, length_piecesOfText,
        length_newLine]
      omega

theorem scansItems_pretty : ∀ (vs : List Value) (k j fuel depth : Nat) (rest : List Piece),
    (∀ v ∈ vs, v.WellFormed) →
    2 * (piecesOfText (Value.prettyItems k vs ++ (Value.newLine j ++ [']'])) ++ rest).length + 1 <
      fuel →
    ScansItems fuel depth false
      (piecesOfText (Value.prettyItems k vs ++ (Value.newLine j ++ [']'])) ++ rest) vs rest
  | vs, k, j, 0, depth, rest, _, hfuel => by omega
  | [], k, j, fuel + 1, depth, rest, _, _ => by
    refine scansItems_nil false ?_
    rw [Value.prettyItems, List.nil_append, piecesOfText_append, List.append_assoc,
      skipGap_newLine]
    rfl
  | v :: vs, k, j, fuel + 1, depth, rest, hvs, hfuel => by
    obtain ⟨hv, hvs⟩ := List.forall_mem_cons.mp hvs
    have htext :
        piecesOfText (Value.prettyItems k (v :: vs) ++ (Value.newLine j ++ [']'])) ++ rest =
        .scalar ',' :: (piecesOfText (Value.newLine k ++ v.pretty k) ++
          (piecesOfText (Value.prettyItems k vs ++ (Value.newLine j ++ [']'])) ++ rest)) := by
      simp [Value.prettyItems, piecesOfText_append]
    rw [htext] at hfuel ⊢
    simp only [List.length_cons, List.length_append, List.length_nil, length_piecesOfText,
      length_newLine] at hfuel
    refine (scansItems_line ?_ ?_).2
    · refine scansValue_pretty v k fuel depth _ hv (endsNumber_items ..) ?_
      simp only [List.length_cons, List.length_append, List.length_nil, length_piecesOfText,
        length_newLine]
      omega
    · refine scansItems_pretty vs k j fuel depth rest hvs ?_
      simp only [List.length_cons, List.length_append, List.length_nil, length_piecesOfText,
        length_newLine]
      omega

theorem scansMembers_pretty : ∀ (ms : List (String × Value)) (k j fuel depth : Nat)
    (rest : List Piece), (∀ m ∈ ms, m.2.WellFormed) →
    2 * (piecesOfText (Value.prettyMembers k ms ++ (Value.newLine j ++ ['\x7d'])) ++ rest).length +
      1 < fuel →
    ScansMembers fuel depth false
      (piecesOfText (Value.prettyMembers k ms ++ (Value.newLine j ++ ['\x7d'])) ++ rest) ms rest
  | ms, k, j, 0, depth, rest, _, hfuel => by omega
  | [], k, j, fuel + 1, depth, rest, _, _ => by
    refine scansMembers_nil false ?_
    rw [Value.prettyMembers, List.nil_append, piecesOfText_append, List.append_assoc,
      skipGap_newLine]
    rfl
  | (key, v) :: ms, k, j, fuel + 1, depth, rest, hms, hfuel => by
    obtain ⟨hv, hms⟩ := List.forall_mem_cons.mp hms
    have htext : piecesOfText (Value.prettyMembers k ((key, v) :: ms) ++
          (Value.newLine j ++ ['\x7d'])) ++ rest =
        .scalar ',' :: (piecesOfText (Value.newLine k ++
            (quoteText key.toList ++ ':' :: ' ' :: v.pretty k)) ++
          (piecesOfText (Value.prettyMembers k ms ++ (Value.newLine j ++ ['\x7d'])) ++ rest)) := by
      simp [Value.prettyMembers, piecesOfText_append]
    rw [htext] at hfuel ⊢
    simp only [List.length_cons, List.length_append, List.length_nil, length_piecesOfText,
      length_newLine] at hfuel
    obtain ⟨fuel, rfl⟩ : ∃ f, fuel = f + 1 := Nat.exists_eq_succ_of_ne_zero (by omega)
    refine (scansMembers_line ?_ ?_).2
    · refine scansValue_pretty v k (fuel + 1) depth _ hv (endsNumber_members ..) ?_
      simp only [List.length_cons, List.length_append, List.length_nil, length_piecesOfText,
        length_newLine]
      omega
    · refine scansMembers_pretty ms k j (fuel + 1) depth rest hms ?_
      simp only [List.length_cons, List.length_append, List.length_nil, length_piecesOfText,
        length_newLine]
      omega

end

end Scan

/-! ### Whole texts -/

/-- The scan of a text that a value was written to leaves nothing behind. -/
theorem outline_of_scansValue {s : List Piece} {v : Value}
    (h : Scan.ScansValue (2 * s.length + 2) 0 s v []) :
    ∃ o, outline s = (o, none) ∧ Shows 0 v o := by
  obtain ⟨o, ho, hshows⟩ := h
  refine ⟨o, ?_, hshows (by decide)⟩
  rw [outline, ho]
  rfl

theorem exists_outline_pretty {v : Value} (hv : v.WellFormed) :
    ∃ o, outline (piecesOfText (v.pretty 0)) = (o, none) ∧ Shows 0 v o := by
  have hscan := Scan.scansValue_pretty v 0 (2 * (piecesOfText (v.pretty 0)).length + 2) 0 [] hv
    Scan.endsNumber_nil
  rw [List.append_nil] at hscan
  exact outline_of_scansValue (hscan (by omega))

/-- **Written values read back.**  The indented text of a value shows the value and nothing else,
unless it is nested deeper than a reader accepts. -/
theorem outline_pretty {v : Value} (hv : v.WellFormed) (hdepth : v.depth < Scan.depthLimit) :
    outline (piecesOfText (v.pretty 0)) = (v.outline, none) := by
  obtain ⟨o, ho, hshows⟩ := exists_outline_pretty hv
  rw [ho, hshows.fits (by omega)]

/-- An object opens the first container, so its members are shown one by one even if one of them
is too deep. -/
theorem exists_outline_pretty_object {ms : Table Value} (hms : (Value.object ms).WellFormed) :
    ∃ os, outline (piecesOfText ((Value.object ms).pretty 0)) = (.object os none, none) ∧
      ShowsMembers 1 ms os := by
  obtain ⟨s, hs, os, hos, hshows⟩ := Scan.scansMembers_opened ms 0
    (2 * (piecesOfText ((Value.object ms).pretty 0)).length + 1) 1 []
    (Value.wellFormed_object.mp hms).2 (by simp only [List.append_nil]; omega)
  rw [List.append_nil] at hs
  have hvalue := Scan.value_object hos
  rw [← hs] at hvalue
  refine ⟨os, ?_, hshows (by decide)⟩
  rw [outline, hvalue]
  rfl

end TokenSheets.Json
