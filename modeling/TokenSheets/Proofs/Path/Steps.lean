/-
TokenSheets/Proofs/Path/Steps.lean

Where a path leads, read off its text.

Operations on files walk along the steps of a path, while parents, file names
and parts are computed from its head and its body.  Both come from the same
segments between the separators: leaving out the steps that stay in place, what
remains are the `moves` of the path, and these are exactly the segments of the
body that are not idle (`moves_eq`).  So a path and the text that `child`,
`parent?` or `append` makes of it can be compared by their moves
(`moves_child`, `parent?_of_getLast?`), and nothing later looks at the text again.
The parts of a path are its head and its moves (`parts_eq`), so they decide more:
paths with the same parts lead the same way (`alike_of_parts`).
-/
import TokenSheets.Text.Lines
import TokenSheets.FileTree.Operations

namespace TokenSheets

/-! ### Pieces of a text -/

section
variable {c : Char}

theorem splitAt_ne_nil (s : List Char) : splitAt c s ≠ [] := by
  cases s with
  | nil => simp [splitAt]
  | cons d s =>
    unfold splitAt
    split
    · simp
    · split <;> simp

theorem splitAt_cons_self (s : List Char) : splitAt c (c :: s) = [] :: splitAt c s := by
  simp [splitAt]

/-- A character that does not separate goes to the first piece. -/
theorem splitAt_cons_of_ne {d : Char} (h : d ≠ c) (s : List Char) :
    ∃ piece rest, splitAt c s = piece :: rest ∧ splitAt c (d :: s) = (d :: piece) :: rest := by
  obtain ⟨piece, rest, hs⟩ := List.exists_cons_of_ne_nil (splitAt_ne_nil (c := c) s)
  refine ⟨piece, rest, hs, ?_⟩
  simp [splitAt, h, hs]

theorem splitAt_of_not_mem {s : List Char} (h : c ∉ s) : splitAt c s = [s] := by
  induction s with
  | nil => rfl
  | cons d s ih =>
    have hd : d ≠ c := fun hd => h (by simp [hd])
    have hs : c ∉ s := fun hs => h (List.mem_cons_of_mem _ hs)
    simp [splitAt, hd, ih hs]

/-- A text splits at every separator in it. -/
theorem splitAt_append (s t : List Char) :
    splitAt c (s ++ c :: t) = splitAt c s ++ splitAt c t := by
  induction s with
  | nil => rw [List.nil_append, splitAt_cons_self, splitAt, List.singleton_append]
  | cons d s ih =>
    by_cases hd : d = c
    · subst hd
      rw [List.cons_append, splitAt_cons_self, splitAt_cons_self, ih, List.cons_append]
    · obtain ⟨piece, rest, hs, hds⟩ := splitAt_cons_of_ne hd s
      rw [List.cons_append, hds, splitAt, if_neg hd, ih, hs]
      rfl

theorem not_mem_of_mem_splitAt {s piece : List Char} (h : piece ∈ splitAt c s) : c ∉ piece := by
  induction s generalizing piece with
  | nil =>
    rw [splitAt, List.mem_singleton] at h
    simp [h]
  | cons d s ih =>
    by_cases hd : d = c
    · subst hd
      rw [splitAt_cons_self, List.mem_cons] at h
      rcases h with rfl | h
      · simp
      · exact ih h
    · obtain ⟨first, rest, hs, hds⟩ := splitAt_cons_of_ne hd s
      rw [hds, List.mem_cons] at h
      rw [hs] at ih
      rcases h with rfl | h
      · have hfirst : c ∉ first := ih List.mem_cons_self
        simp [Ne.symm hd, hfirst]
      · exact ih (List.mem_cons_of_mem _ h)

/-- Only the separators are missing from the pieces. -/
theorem exists_mem_splitAt {s : List Char} {d : Char} (h : d ∈ s) (hd : d ≠ c) :
    ∃ piece ∈ splitAt c s, d ∈ piece := by
  induction s with
  | nil => cases h
  | cons e s ih =>
    by_cases he : e = c
    · subst he
      have hs : d ∈ s := (List.mem_cons.mp h).resolve_left hd
      obtain ⟨piece, hpiece, hmem⟩ := ih hs
      rw [splitAt_cons_self]
      exact ⟨piece, List.mem_cons_of_mem _ hpiece, hmem⟩
    · obtain ⟨first, rest, hs, hes⟩ := splitAt_cons_of_ne he s
      rw [hes]
      rcases List.mem_cons.mp h with rfl | h
      · exact ⟨d :: first, List.mem_cons_self, List.mem_cons_self⟩
      · obtain ⟨piece, hpiece, hmem⟩ := ih h
        rw [hs] at hpiece
        rcases List.mem_cons.mp hpiece with rfl | hpiece
        · exact ⟨e :: piece, List.mem_cons_self, List.mem_cons_of_mem _ hmem⟩
        · exact ⟨piece, List.mem_cons_of_mem _ hpiece, hmem⟩

/-- Pieces that are joined can be told apart again. -/
theorem splitAt_joinWith {pieces : List (List Char)} (hne : pieces ≠ [])
    (h : ∀ piece ∈ pieces, c ∉ piece) : splitAt c (joinWith [c] pieces) = pieces := by
  induction pieces with
  | nil => exact absurd rfl hne
  | cons piece rest ih =>
    have hpiece : c ∉ piece := h piece List.mem_cons_self
    cases rest with
    | nil => rw [joinWith, splitAt_of_not_mem hpiece]
    | cons next rest =>
      have hrest : splitAt c (joinWith [c] (next :: rest)) = next :: rest :=
        ih (by simp) fun q hq => h q (List.mem_cons_of_mem _ hq)
      rw [joinWith, List.append_assoc, List.singleton_append, splitAt_append, hrest,
        splitAt_of_not_mem hpiece, List.singleton_append]

/-- Pieces and more pieces have a separator between them. -/
theorem joinWith_append {pieces more : List (List Char)} (hpieces : pieces ≠ [])
    (hmore : more ≠ []) :
    joinWith [c] (pieces ++ more) = joinWith [c] pieces ++ c :: joinWith [c] more := by
  induction pieces with
  | nil => exact absurd rfl hpieces
  | cons piece rest ih =>
    cases rest with
    | nil =>
      obtain ⟨next, others, rfl⟩ := List.exists_cons_of_ne_nil hmore
      rw [List.singleton_append, joinWith, joinWith, List.append_assoc, List.singleton_append]
    | cons next others =>
      have hrest := ih (List.cons_ne_nil next others)
      rw [List.cons_append, List.cons_append, joinWith, ← List.cons_append, hrest, joinWith]
      simp

/-- The pieces of a text make up the text. -/
theorem joinWith_splitAt (s : List Char) : joinWith [c] (splitAt c s) = s := by
  induction s with
  | nil => rfl
  | cons d s ih =>
    obtain ⟨piece, rest, hs⟩ := List.exists_cons_of_ne_nil (splitAt_ne_nil (c := c) s)
    rw [hs] at ih
    by_cases hd : d = c
    · rw [hd, splitAt_cons_self, hs, joinWith, ih]
      rfl
    · rw [splitAt, if_neg hd, hs]
      cases rest with
      | nil =>
        rw [joinWith] at ih ⊢
        rw [ih]
      | cons next others =>
        rw [joinWith] at ih ⊢
        rw [← ih]
        rfl

end

/-! ### Names -/

/-- A name that an entry of a directory can have. -/
def IsEntryName (name : String) : Prop :=
  name ≠ "" ∧ name ≠ "." ∧ name ≠ ".." ∧ '/' ∉ name.toList

instance (name : String) : Decidable (IsEntryName name) :=
  inferInstanceAs (Decidable (name ≠ "" ∧ name ≠ "." ∧ name ≠ ".." ∧ '/' ∉ name.toList))

namespace IsEntryName

variable {name : String}

theorem toList_ne_nil (h : IsEntryName name) : name.toList ≠ [] :=
  fun hnil => h.1 (String.toList_eq_nil_iff.mp hnil)

theorem toList_ne_dot (h : IsEntryName name) : name.toList ≠ ['.'] :=
  fun hdot => h.2.1 (String.toList_inj.mp hdot)

theorem head?_ne_slash (h : IsEntryName name) : name.toList.head? ≠ some '/' :=
  fun hhead => h.2.2.2 (List.mem_of_mem_head? hhead)

theorem getLast?_ne_slash (h : IsEntryName name) : name.toList.getLast? ≠ some '/' :=
  fun hlast => h.2.2.2 (List.mem_of_mem_getLast? hlast)

end IsEntryName

/-- The names that cannot stand for an entry are short, or they have a separator. -/
theorem isEntryName_of_length {name : String} (hlong : 3 ≤ name.toList.length)
    (hs : '/' ∉ name.toList) : IsEntryName name := by
  refine ⟨?_, ?_, ?_, hs⟩
  · rintro rfl
    simp at hlong
  · rintro rfl
    simp at hlong
  · rintro rfl
    simp at hlong

/-- What is longer than a name and has no separator is a name. -/
theorem IsEntryName.append {name : String} (h : IsEntryName name) {suffix : String}
    (hlong : 2 ≤ suffix.toList.length) (hs : '/' ∉ suffix.toList) :
    IsEntryName (name ++ suffix) := by
  have hpos : 0 < name.toList.length := List.length_pos_iff.mpr h.toList_ne_nil
  refine isEntryName_of_length ?_ ?_
  · rw [String.toList_append, List.length_append]
    omega
  · rw [String.toList_append, List.mem_append]
    exact fun hmem => hmem.elim h.2.2.2 hs

namespace Path

/-! ### Segments and moves -/

/-- What stands between the separators of a path. -/
def segments (p : Path) : List (List Char) :=
  (splitAt '/' p.text.toList).filter fun s => !s.isEmpty

/-- The steps that lead away: names and double dots. -/
def moves (p : Path) : List String := p.steps.filter (· ≠ ".")

theorem steps_eq (p : Path) : p.steps = p.segments.map String.ofList := rfl

theorem moves_eq_segments (p : Path) :
    p.moves = (p.segments.filter (· ≠ ['.'])).map String.ofList := by
  rw [moves, steps_eq, List.filter_map]
  congr 1
  refine List.filter_congr fun s _ => ?_
  have hdot : String.ofList s = "." ↔ s = ['.'] := by
    rw [← String.toList_inj, String.toList_ofList]
    rfl
  simp [hdot]

/-- The segments of a text that are not idle. -/
def busy (segs : List (List Char)) : List (List Char) := segs.filter fun s => !isIdle s

theorem busy_eq_filter (segs : List (List Char)) :
    busy segs = (segs.filter fun s => !s.isEmpty).filter (· ≠ ['.']) := by
  rw [busy, List.filter_filter]
  refine List.filter_congr fun s _ => ?_
  by_cases hnil : s = []
  · simp [isIdle, hnil]
  · by_cases hdot : s = ['.'] <;> simp [isIdle, hnil, hdot]

@[simp] theorem busy_nil : busy [] = [] := rfl

@[simp] theorem busy_append (a b : List (List Char)) : busy (a ++ b) = busy a ++ busy b :=
  List.filter_append a b

@[simp] theorem busy_nil_cons (segs : List (List Char)) : busy ([] :: segs) = busy segs := rfl

@[simp] theorem busy_dot_cons (segs : List (List Char)) : busy (['.'] :: segs) = busy segs := rfl

/-- The moves of a text. -/
theorem moves_mk (s : List Char) :
    moves ⟨String.ofList s⟩ = (busy (splitAt '/' s)).map String.ofList := by
  rw [moves_eq_segments, segments, String.toList_ofList, busy_eq_filter]

theorem moves_eq_busy (p : Path) :
    p.moves = (busy (splitAt '/' p.text.toList)).map String.ofList := by
  rw [moves_eq_segments, segments, busy_eq_filter]

theorem moves_of_empty {p : Path} (h : p.text = "") : p.moves = [] := by
  rw [moves_eq_busy, h]
  rfl

/-! ### Head and body -/

/-- The three kinds of head, with what the text and the body are then. -/
theorem head_cases (p : Path) :
    (∃ rest, p.text.toList = '/' :: rest ∧ p.head = ['/'] ∧ p.body = splitAt '/' rest) ∨
      (p.text.toList = ['.'] ∧ p.head = ['.'] ∧ p.body = [[]]) ∨
      (∃ rest, p.text.toList = '.' :: '/' :: rest ∧ p.head = ['.'] ∧
        p.body = [] :: splitAt '/' rest) ∨
      (p.text.toList.head? ≠ some '/' ∧ p.text.toList ≠ ['.'] ∧
        p.text.toList.take 2 ≠ ['.', '/'] ∧ p.head = [] ∧
        p.body = splitAt '/' p.text.toList) := by
  unfold body head headOf
  by_cases hroot : p.text.toList.head? = some '/'
  · left
    obtain ⟨rest, hrest⟩ := List.head?_eq_some_iff.mp hroot
    exact ⟨rest, hrest, by rw [if_pos hroot], by simp [hrest]⟩
  · right
    by_cases hdot : p.text.toList = ['.']
    · left
      simp [hdot, splitAt]
    · right
      by_cases htwo : p.text.toList.take 2 = ['.', '/']
      · left
        have hrest : p.text.toList = '.' :: '/' :: p.text.toList.drop 2 := by
          calc p.text.toList = p.text.toList.take 2 ++ p.text.toList.drop 2 :=
                (List.take_append_drop 2 _).symm
            _ = _ := by rw [htwo]; rfl
        refine ⟨_, hrest, ?_, ?_⟩
        · rw [if_neg hroot, if_pos (Or.inr htwo)]
        · rw [if_neg hroot, if_pos (Or.inr htwo)]
          rw [hrest]
          exact splitAt_cons_self _
      · right
        have hnone : ¬(p.text.toList = ['.'] ∨ p.text.toList.take 2 = ['.', '/']) :=
          fun h => h.elim hdot htwo
        refine ⟨hroot, hdot, htwo, ?_, ?_⟩
        · rw [if_neg hroot, if_neg hnone]
        · rw [if_neg hroot, if_neg hnone]
          rfl

/-- The moves are the segments of the body that are not idle. -/
theorem moves_eq (p : Path) : p.moves = (busy p.body).map String.ofList := by
  rw [moves_eq_busy]
  rcases p.head_cases with ⟨rest, ht, -, hb⟩ | ⟨ht, -, hb⟩ | ⟨rest, ht, -, hb⟩ | ⟨-, -, -, -, hb⟩
  · rw [ht, hb, splitAt_cons_self, busy_nil_cons]
  · rw [ht, hb]
    rfl
  · have hsplit : splitAt '/' ('.' :: '/' :: rest) = ['.'] :: splitAt '/' rest :=
      splitAt_append ['.'] rest
    rw [ht, hb, hsplit, busy_dot_cons, busy_nil_cons]
  · rw [hb]

/-- Head and body make up the text. -/
theorem toList_text (p : Path) : p.text.toList = p.head ++ joinWith ['/'] p.body := by
  rcases p.head_cases with ⟨rest, ht, hh, hb⟩ | ⟨ht, hh, hb⟩ | ⟨rest, ht, hh, hb⟩ |
    ⟨-, -, -, hh, hb⟩
  · rw [ht, hh, hb, joinWith_splitAt]
    rfl
  · rw [ht, hh, hb]
    rfl
  · obtain ⟨piece, more, hs⟩ := List.exists_cons_of_ne_nil (splitAt_ne_nil (c := '/') rest)
    rw [ht, hh, hb, hs, joinWith, ← hs, joinWith_splitAt]
    rfl
  · rw [hh, hb, joinWith_splitAt]
    rfl

theorem isAbsolute_iff {p : Path} : p.isAbsolute = true ↔ p.text.toList.head? = some '/' := by
  simp [isAbsolute]

/-- Dropping idle segments at the end keeps the others. -/
theorem busy_dropIdle (segs : List (List Char)) : busy (dropIdle segs) = busy segs := by
  induction segs with
  | nil => rfl
  | cons s rest ih =>
    have hcons (l : List (List Char)) : busy (s :: l) = busy [s] ++ busy l :=
      busy_append [s] l
    unfold dropIdle
    split
    · rename_i hrest
      rw [hcons rest, ← ih, hrest, busy_nil, List.append_nil]
      split
      · rename_i hidle
        simp [busy, hidle]
      · rfl
    · rename_i t ts hrest
      rw [hcons rest, ← ih, hrest, ← hcons]

/-- The last segment that is left is not idle. -/
theorem isIdle_getLast_dropIdle {segs : List (List Char)} {s : List Char}
    (h : (dropIdle segs).getLast? = some s) : isIdle s = false := by
  induction segs with
  | nil => cases h
  | cons first rest ih =>
    unfold dropIdle at h
    split at h
    · split at h
      · cases h
      · rename_i hidle
        rw [List.getLast?_singleton, Option.some.injEq] at h
        rw [← h]
        simpa using hidle
    · rename_i t ts hrest
      rw [List.getLast?_cons_cons] at h
      exact ih (hrest ▸ h)

theorem dropIdle_isPrefix (segs : List (List Char)) : dropIdle segs <+: segs := by
  induction segs with
  | nil => exact List.nil_prefix
  | cons s rest ih =>
    unfold dropIdle
    split
    · split
      · exact List.nil_prefix
      · exact ⟨rest, rfl⟩
    · rename_i t ts hrest
      rw [hrest] at ih
      exact (List.prefix_cons_inj s).mpr ih

/-! ### A name in a directory -/

section
variable {name : String} (p : Path)

/-- The text of a name in a directory. -/
theorem text_child (h : IsEntryName name) :
    (p.text = "" ∧ (p.child name).text.toList = name.toList) ∨
      (∃ s, p.text.toList = s ++ ['/'] ∧
        (p.child name).text.toList = s ++ '/' :: name.toList) ∨
      (p.text ≠ "" ∧ p.text.toList.getLast? ≠ some '/' ∧
        (p.child name).text.toList = p.text.toList ++ '/' :: name.toList) := by
  have hrel : Path.isAbsolute ⟨name⟩ = false := by
    simpa [isAbsolute] using h.head?_ne_slash
  unfold child join
  rw [if_neg (by simp [hrel])]
  by_cases hempty : p.text = ""
  · left
    simp [hempty]
  · right
    by_cases hslash : p.text.toList.getLast? = some '/'
    · left
      obtain ⟨s, hs⟩ := List.getLast?_eq_some_iff.mp hslash
      refine ⟨s, hs, ?_⟩
      simp [hs]
    · right
      refine ⟨hempty, hslash, ?_⟩
      simp [hempty, hslash]

theorem text_child_ne_empty (h : IsEntryName name) : (p.child name).text ≠ "" := by
  have hname : name.toList ≠ [] := h.toList_ne_nil
  rw [Ne, ← String.toList_eq_nil_iff]
  rcases p.text_child h with ⟨-, ht⟩ | ⟨s, -, ht⟩ | ⟨-, -, ht⟩ <;> simp [ht, hname]

theorem isAbsolute_child (h : IsEntryName name) :
    (p.child name).isAbsolute = p.isAbsolute := by
  rw [Bool.eq_iff_iff, isAbsolute_iff, isAbsolute_iff]
  rcases p.text_child h with ⟨hp, ht⟩ | ⟨s, hp, ht⟩ | ⟨hp, -, ht⟩
  · simp [hp, ht, h.head?_ne_slash]
  · cases s <;> simp [hp, ht]
  · have hne : p.text.toList ≠ [] := fun hnil => hp (String.toList_eq_nil_iff.mp hnil)
    obtain ⟨c, s, hs⟩ := List.exists_cons_of_ne_nil hne
    simp [ht, hs]

theorem endsInSlash_child (h : IsEntryName name) : (p.child name).endsInSlash = false := by
  have hname : name.toList ≠ [] := h.toList_ne_nil
  have hlast : (p.child name).text.toList.getLast? = name.toList.getLast? := by
    rcases p.text_child h with ⟨-, ht⟩ | ⟨s, -, ht⟩ | ⟨-, -, ht⟩
    · rw [ht]
    · simp [ht, List.getLast?_append, List.getLast?_cons, List.getLast?_eq_some_getLast hname]
    · simp [ht, List.getLast?_append, List.getLast?_cons, List.getLast?_eq_some_getLast hname]
  simpa [endsInSlash, hlast] using h.getLast?_ne_slash

theorem segments_child (h : IsEntryName name) :
    (p.child name).segments = p.segments ++ [name.toList] := by
  have hname : splitAt '/' name.toList = [name.toList] := splitAt_of_not_mem h.2.2.2
  have hkeep : [name.toList].filter (fun s => !s.isEmpty) = [name.toList] := by
    simp [h.toList_ne_nil]
  unfold segments
  rcases p.text_child h with ⟨hp, ht⟩ | ⟨s, hp, ht⟩ | ⟨-, -, ht⟩
  · rw [ht, hp, hname, hkeep]
    rfl
  · have hsplit : splitAt '/' (s ++ ['/']) = splitAt '/' s ++ [[]] := splitAt_append s []
    rw [ht, hp, splitAt_append, hsplit, hname, List.filter_append, List.filter_append, hkeep]
    simp
  · rw [ht, splitAt_append, hname, List.filter_append, hkeep]

theorem steps_child (h : IsEntryName name) : (p.child name).steps = p.steps ++ [name] := by
  rw [steps_eq, steps_eq, p.segments_child h, List.map_append, List.map_singleton,
    String.ofList_toList]

theorem moves_child (h : IsEntryName name) : (p.child name).moves = p.moves ++ [name] := by
  rw [moves, moves, p.steps_child h, List.filter_append]
  simp [h.2.1]

/-- The head of a text does not depend on what follows a separator in it. -/
theorem headOf_append_slash {s : List Char} (hs : s ≠ []) (rest : List Char) :
    headOf (s ++ '/' :: rest) = headOf s := by
  rcases s with _ | ⟨c, _ | ⟨d, s⟩⟩
  · exact absurd rfl hs
  · simp [headOf]
  · simp [headOf]

/-- A name has no head. -/
theorem headOf_name (h : IsEntryName name) : headOf name.toList = [] := by
  have htwo : name.toList.take 2 ≠ ['.', '/'] := by
    intro htake
    apply h.2.2.2
    apply List.mem_of_mem_take (i := 2)
    rw [htake]
    simp
  rw [headOf, if_neg h.head?_ne_slash, if_neg (not_or.mpr ⟨h.toList_ne_dot, htwo⟩)]

theorem head_child (h : IsEntryName name) : (p.child name).head = p.head := by
  rw [head, head]
  rcases p.text_child h with ⟨hp, ht⟩ | ⟨s, hp, ht⟩ | ⟨hp, -, ht⟩
  · rw [ht, headOf_name h, hp]
    rfl
  · rw [ht, hp]
    by_cases hs : s = []
    · rw [hs]
      rfl
    · rw [headOf_append_slash hs, headOf_append_slash hs]
  · have hne : p.text.toList ≠ [] := fun hnil => hp (String.toList_eq_nil_iff.mp hnil)
    rw [ht, headOf_append_slash hne]

end

/-! ### The last name and the path before it -/

theorem getLast?_dropIdle (segs : List (List Char)) :
    (dropIdle segs).getLast? = (busy segs).getLast? := by
  rw [← busy_dropIdle]
  cases hlast : (dropIdle segs).getLast? with
  | none => rw [List.getLast?_eq_none_iff.mp hlast, busy_nil, List.getLast?_nil]
  | some s =>
    have hidle : isIdle s = false := isIdle_getLast_dropIdle hlast
    obtain ⟨front, hfront⟩ := List.getLast?_eq_some_iff.mp hlast
    have hs : busy [s] = [s] := by simp [busy, hidle]
    rw [hfront, busy_append, hs, List.getLast?_concat]

/-- The file name is the last move, if that is a name. -/
theorem fileName?_eq_some_iff {p : Path} {name : String} :
    p.fileName? = some name ↔ p.moves.getLast? = some name ∧ name ≠ ".." := by
  have hdots (s : List Char) : String.ofList s = ".." ↔ s = ['.', '.'] := by
    rw [← String.toList_inj, String.toList_ofList]
    rfl
  rw [fileName?, getLast?_dropIdle, moves_eq, List.getLast?_map]
  cases (busy p.body).getLast? with
  | none => simp
  | some s =>
    by_cases hs : s = ['.', '.']
    · simp only [hs, if_true, Option.map_some, Option.some.injEq]
      constructor
      · intro h
        cases h
      · rintro ⟨rfl, hne⟩
        exact absurd rfl hne
    · simp only [hs, if_false, Option.map_some, Option.some.injEq]
      constructor
      · rintro rfl
        exact ⟨rfl, fun h => hs ((hdots s).mp h)⟩
      · exact fun h => h.1

theorem isEntryName_of_mem_moves {p : Path} {name : String} (h : name ∈ p.moves)
    (hne : name ≠ "..") : IsEntryName name := by
  obtain ⟨hstep, hdot⟩ := List.mem_filter.mp h
  obtain ⟨s, hs, rfl⟩ := List.mem_map.mp hstep
  obtain ⟨hpiece, hempty⟩ := List.mem_filter.mp hs
  refine ⟨?_, by simpa using hdot, hne, ?_⟩
  · rw [Ne, ← String.toList_eq_nil_iff, String.toList_ofList]
    simpa using hempty
  · rw [String.toList_ofList]
    exact not_mem_of_mem_splitAt hpiece

theorem isEntryName_of_fileName? {p : Path} {name : String} (h : p.fileName? = some name) :
    IsEntryName name := by
  obtain ⟨hlast, hne⟩ := fileName?_eq_some_iff.mp h
  exact isEntryName_of_mem_moves (List.mem_of_mem_getLast? hlast) hne

/-- A path with a last name leads somewhere. -/
theorem moves_ne_nil_of_fileName? {p : Path} {name : String} (h : p.fileName? = some name) :
    p.moves ≠ [] := by
  intro hnil
  obtain ⟨hlast, -⟩ := fileName?_eq_some_iff.mp h
  rw [hnil] at hlast
  cases hlast

theorem fileName?_child (p : Path) {name : String} (h : IsEntryName name) :
    (p.child name).fileName? = some name := by
  rw [fileName?_eq_some_iff, p.moves_child h, List.getLast?_concat]
  exact ⟨rfl, h.2.2.1⟩

theorem not_slash_of_mem_body {p : Path} {s : List Char} (h : s ∈ p.body) : '/' ∉ s := by
  rcases p.head_cases with ⟨rest, -, -, hb⟩ | ⟨-, -, hb⟩ | ⟨rest, -, -, hb⟩ | ⟨-, -, -, -, hb⟩
  · exact not_mem_of_mem_splitAt (hb ▸ h)
  · rw [hb, List.mem_singleton] at h
    simp [h]
  · rw [hb, List.mem_cons] at h
    rcases h with rfl | h
    · simp
    · exact not_mem_of_mem_splitAt h
  · exact not_mem_of_mem_splitAt (hb ▸ h)

theorem busy_splitAt_joinWith {segs : List (List Char)} (h : ∀ s ∈ segs, '/' ∉ s) :
    busy (splitAt '/' (joinWith ['/'] segs)) = busy segs := by
  cases segs with
  | nil => rfl
  | cons s rest => rw [splitAt_joinWith (List.cons_ne_nil s rest) h]

/-- A text whose first piece is empty begins with a separator, if there is a further piece. -/
theorem head?_of_splitAt_eq {s next : List Char} {rest : List (List Char)}
    (h : splitAt '/' s = [] :: next :: rest) : s.head? = some '/' := by
  cases s with
  | nil => simp [splitAt] at h
  | cons c s =>
    by_cases hc : c = '/'
    · rw [hc, List.head?_cons]
    · obtain ⟨piece, more, -, hs⟩ := splitAt_cons_of_ne hc s
      rw [hs] at h
      cases h

/-- A path put together again from its head and first segments has the moves of these. -/
theorem moves_ofHeadBody {p : Path} {segs : List (List Char)} (h : segs <+: p.body) :
    (ofHeadBody p.head segs).moves = (busy segs).map String.ofList ∧
      ((ofHeadBody p.head segs).isAbsolute = true ↔ p.isAbsolute = true) := by
  have hslash : ∀ s ∈ segs, '/' ∉ s := fun s hs => not_slash_of_mem_body (h.subset hs)
  have hjoin := busy_splitAt_joinWith hslash
  rw [ofHeadBody, moves_mk, isAbsolute_iff, isAbsolute_iff, String.toList_ofList]
  -- behind a dot the body begins with an empty segment, where the separator stands again
  have hdot {rest : List (List Char)} (hh : p.head = ['.']) (hb : p.body = [] :: rest) :
      busy (splitAt '/' (p.head ++ joinWith ['/'] segs)) = busy segs := by
    rw [hh]
    rw [hb] at h
    match segs, h with
    | [], _ => rfl
    | [s], h =>
      obtain ⟨rfl, -⟩ := List.cons_prefix_cons.mp h
      rfl
    | s :: next :: more, h =>
      obtain ⟨rfl, -⟩ := List.cons_prefix_cons.mp h
      have hmore : ∀ s ∈ next :: more, '/' ∉ s :=
        fun s hs => hslash s (List.mem_cons_of_mem _ hs)
      have hsplit : splitAt '/' ('.' :: '/' :: joinWith ['/'] (next :: more)) =
          ['.'] :: splitAt '/' (joinWith ['/'] (next :: more)) := splitAt_append ['.'] _
      have htext : ['.'] ++ joinWith ['/'] ([] :: next :: more) =
          '.' :: '/' :: joinWith ['/'] (next :: more) := rfl
      rw [htext, hsplit, busy_dot_cons, busy_nil_cons, busy_splitAt_joinWith hmore]
  rcases p.head_cases with ⟨rest, ht, hh, -⟩ | ⟨ht, hh, hb⟩ | ⟨rest, ht, hh, hb⟩ |
    ⟨hroot, -, -, hh, hb⟩
  · refine ⟨?_, by rw [hh, ht]; rfl⟩
    rw [hh, List.singleton_append, splitAt_cons_self, busy_nil_cons, hjoin]
  · exact ⟨congrArg _ (hdot hh hb), by rw [hh, ht]; rfl⟩
  · exact ⟨congrArg _ (hdot hh hb), by rw [hh, ht]; rfl⟩
  · rw [hh, List.nil_append]
    refine ⟨congrArg _ hjoin, iff_of_false ?_ hroot⟩
    intro hhead
    match segs, h with
    | [], _ => cases hhead
    | [s], _ => exact hslash s List.mem_cons_self (List.mem_of_mem_head? hhead)
    | [] :: next :: more, h =>
      obtain ⟨rest, hrest⟩ := h
      exact hroot (head?_of_splitAt_eq (hb ▸ hrest.symm))
    | (c :: s) :: next :: more, _ =>
      have hc : c = '/' := by simpa [joinWith] using hhead
      exact hslash (c :: s) List.mem_cons_self (by simp [hc])

/-- It also has the head again. -/
theorem head_ofHeadBody {p : Path} {segs : List (List Char)} (h : segs <+: p.body) :
    (ofHeadBody p.head segs).head = p.head := by
  have hself : headOf p.head = p.head := by
    rcases p.head_cases with ⟨-, -, hh, -⟩ | ⟨-, hh, -⟩ | ⟨-, -, hh, -⟩ | ⟨-, -, -, hh, -⟩ <;>
      rw [hh] <;> rfl
  obtain ⟨rest, hrest⟩ := h
  rw [head, ofHeadBody, String.toList_ofList]
  by_cases hsegs : segs = []
  · rw [hsegs, joinWith, List.append_nil, hself]
  by_cases hnone : rest = []
  · rw [hnone, List.append_nil] at hrest
    rw [hrest, ← toList_text, ← head]
  by_cases hempty : p.head ++ joinWith ['/'] segs = []
  · rw [hempty, (List.append_eq_nil_iff.mp hempty).1]
    rfl
  · -- what is cut off the text begins with a separator
    rw [← headOf_append_slash hempty (joinWith ['/'] rest), List.append_assoc,
      ← joinWith_append hsegs hnone, hrest, ← toList_text, ← head]

/-- Without its last move a path is its head and the segments before. -/
theorem exists_front_parent? {p : Path} {move : String} (h : p.moves.getLast? = some move) :
    ∃ front, front <+: p.body ∧ p.parent? = some (ofHeadBody p.head front) ∧
      p.moves = (busy front).map String.ofList ++ [move] := by
  rw [moves_eq, List.getLast?_map, ← getLast?_dropIdle, Option.map_eq_some_iff] at h
  obtain ⟨s, hs, rfl⟩ := h
  have hidle : isIdle s = false := isIdle_getLast_dropIdle hs
  obtain ⟨front, hfront⟩ := List.getLast?_eq_some_iff.mp hs
  refine ⟨dropIdle front, ?_, ?_, ?_⟩
  · exact (dropIdle_isPrefix front).trans ((hfront ▸ List.prefix_append front [s]).trans
      (dropIdle_isPrefix p.body))
  · rw [parent?]
    split
    · rename_i hnil
      simp [hnil] at hfront
    · rename_i first rest hcons
      rw [← hcons, hfront, List.dropLast_concat]
  · have hbusy : busy [s] = [s] := by simp [busy, hidle]
    rw [busy_dropIdle, moves_eq, ← busy_dropIdle, hfront, busy_append, hbusy, List.map_append,
      List.map_singleton]

/-- It leads to the place before. -/
theorem parent?_of_getLast? {p : Path} {move : String} (h : p.moves.getLast? = some move) :
    ∃ q, p.parent? = some q ∧ q.isAbsolute = p.isAbsolute ∧ p.moves = q.moves ++ [move] := by
  obtain ⟨front, hbody, hparent, hmoves⟩ := exists_front_parent? h
  obtain ⟨hfront, habs⟩ := moves_ofHeadBody hbody
  exact ⟨_, hparent, Bool.eq_iff_iff.mpr habs, by rw [hfront, hmoves]⟩

/-- Every parent but the empty path of a dot is one without the last move. -/
theorem parent?_cases {p q : Path} (h : p.parent? = some q) :
    q.text = "" ∨ q.isAbsolute = p.isAbsolute ∧ ∃ move, p.moves = q.moves ++ [move] := by
  cases hlast : p.moves.getLast? with
  | none =>
    left
    have hnil : dropIdle p.body = [] := by
      rw [moves_eq, List.getLast?_map, ← getLast?_dropIdle, Option.map_eq_none_iff,
        List.getLast?_eq_none_iff] at hlast
      exact hlast
    simp only [parent?, hnil] at h
    split at h
    · rw [← Option.some.inj h]
    · cases h
  | some move =>
    right
    obtain ⟨q', hq', habs, hmoves⟩ := parent?_of_getLast? hlast
    obtain rfl : q' = q := Option.some.inj (hq'.symm.trans h)
    exact ⟨habs, move, hmoves⟩

/-! ### Paths that lead the same way -/

/-- Two paths that start in the same directory and make the same moves. -/
def Alike (p q : Path) : Prop := p.isAbsolute = q.isAbsolute ∧ p.moves = q.moves

/-- The directory of a name is the path that it was added to, though perhaps spelled otherwise. -/
theorem parent?_child (p : Path) {name : String} (h : IsEntryName name) :
    ∃ q, (p.child name).parent? = some q ∧ q.Alike p := by
  have hlast : (p.child name).moves.getLast? = some name := by
    rw [p.moves_child h, List.getLast?_concat]
  obtain ⟨q, hq, habs, hmoves⟩ := parent?_of_getLast? hlast
  refine ⟨q, hq, habs.trans (p.isAbsolute_child h), ?_⟩
  rw [p.moves_child h] at hmoves
  exact (List.append_inj_left' hmoves rfl).symm

/-- The siblings of a name are names in the same directory. -/
theorem withFileName_child (p : Path) {name : String} (h : IsEntryName name) (other : String) :
    ∃ q, q.Alike p ∧ (p.child name).withFileName other = q.child other ∧
      (p.child name).parent? = some q := by
  obtain ⟨q, hq, halike⟩ := p.parent?_child h
  refine ⟨q, halike, ?_, hq⟩
  rw [withFileName, fileName?_child p h, hq]
  rfl

/-! ### Joined paths -/

theorem append_child (p : Path) {name : String} (h : IsEntryName name) (suffix : String) :
    (p.child name).append suffix = p.child (name ++ suffix) := by
  have hname : Path.isAbsolute ⟨name⟩ = false := by
    simpa [isAbsolute] using h.head?_ne_slash
  have hlong : Path.isAbsolute ⟨name ++ suffix⟩ = false := by
    obtain ⟨c, s, hs⟩ := List.exists_cons_of_ne_nil h.toList_ne_nil
    have hc : c ≠ '/' := by simpa [hs] using h.head?_ne_slash
    simp [isAbsolute, hs, hc]
  unfold append child join
  simp only [hname, hlong, Bool.false_eq_true, if_false]
  split <;> simp [String.append_assoc]

/-- Behind a text that does not end in a separator one is put. -/
theorem child_of_open {p : Path} (hne : p.text ≠ "") (hopen : p.endsInSlash = false)
    {name : String} (h : IsEntryName name) : p.child name = ⟨p.text ++ "/" ++ name⟩ := by
  have hname : Path.isAbsolute ⟨name⟩ = false := by
    simpa [isAbsolute] using h.head?_ne_slash
  have hlast : p.text.toList.getLast? ≠ some '/' := by simpa [endsInSlash] using hopen
  simp [child, join, hname, hne, hlast]

/-- A name is a path by itself. -/
theorem child_empty {name : String} (h : IsEntryName name) :
    (Path.mk "").child name = ⟨name⟩ := by
  have hrel : Path.isAbsolute ⟨name⟩ = false := by
    simpa [isAbsolute] using h.head?_ne_slash
  simp [child, join, hrel]

/-- A name in a directory below `p`, joined to `p`. -/
theorem join_child (p : Path) {directory name : String} (hd : IsEntryName directory)
    (hn : IsEntryName name) :
    p.join ((Path.mk directory).child name) = (p.child directory).child name := by
  have hdir : Path.isAbsolute ⟨directory⟩ = false := by
    simpa [isAbsolute] using hd.head?_ne_slash
  have hopen : Path.endsInSlash ⟨directory⟩ = false := by
    simpa [endsInSlash] using hd.getLast?_ne_slash
  have hrel : ((Path.mk directory).child name).isAbsolute = false :=
    (isAbsolute_child _ hn).trans hdir
  have hchild : (Path.mk directory).child name = ⟨directory ++ "/" ++ name⟩ :=
    child_of_open hd.1 hopen hn
  rw [child_of_open (p.text_child_ne_empty hd) (p.endsInSlash_child hd) hn, join, hrel, hchild,
    child, join, hdir]
  simp only [Bool.false_eq_true, if_false]
  split <;> simp [String.append_assoc]

/-! ### Parts -/

/-- The part that a move is. -/
def partOfMove (move : String) : PathPart := if move = ".." then .parent else .name move

/-- The parts of a path are its head and its moves. -/
theorem parts_eq (p : Path) :
    p.parts = (match p.head with
      | [] => []
      | c :: _ => [if c = '/' then .root else .current]) ++ p.moves.map partOfMove := by
  have hpart (s : List Char) : partOfSegment s = partOfMove (String.ofList s) := by
    have hdots : String.ofList s = ".." ↔ s = ['.', '.'] := by
      rw [← String.toList_inj, String.toList_ofList]
      rfl
    simp [partOfSegment, partOfMove, hdots]
  rw [parts, moves_eq, List.map_map]
  congr 1
  exact List.map_congr_left fun s _ => hpart s

theorem parts_child (p : Path) {name : String} (h : IsEntryName name) :
    (p.child name).parts = p.parts ++ [.name name] := by
  rw [parts_eq, parts_eq, p.head_child h, p.moves_child h, List.map_append, List.append_assoc]
  simp [partOfMove, h.2.2.1]

/-- The move that a part is. -/
def moveOfPart : PathPart → Option String
  | .root => none
  | .current => none
  | .parent => some ".."
  | .name s => some s

theorem filterMap_moveOfPart (p : Path) : p.parts.filterMap moveOfPart = p.moves := by
  have hmove (move : String) : moveOfPart (partOfMove move) = some move := by
    unfold partOfMove
    split
    · rename_i hdots
      rw [hdots]
      rfl
    · rfl
  rw [parts_eq, List.filterMap_append, List.filterMap_map]
  have hkeep : p.moves.filterMap (moveOfPart ∘ partOfMove) = p.moves := by
    simp only [Function.comp_def, hmove, List.filterMap_some]
  rw [hkeep]
  rcases p.head_cases with ⟨-, -, hh, -⟩ | ⟨-, hh, -⟩ | ⟨-, -, hh, -⟩ | ⟨-, -, -, hh, -⟩ <;>
    rw [hh] <;> rfl

theorem isAbsolute_iff_parts {p : Path} : p.isAbsolute = true ↔ PathPart.root ∈ p.parts := by
  have hmove : PathPart.root ∉ p.moves.map partOfMove := by
    rw [List.mem_map]
    rintro ⟨move, -, hpart⟩
    rw [partOfMove] at hpart
    split at hpart <;> cases hpart
  rw [isAbsolute_iff, parts_eq, List.mem_append, or_iff_left hmove]
  rcases p.head_cases with ⟨rest, ht, hh, -⟩ | ⟨ht, hh, -⟩ | ⟨rest, ht, hh, -⟩ |
    ⟨hroot, -, -, hh, -⟩
  · simp [ht, hh]
  · simp [ht, hh]
  · simp [ht, hh]
  · simp [hroot, hh]

/-- Paths with the same parts lead the same way. -/
theorem alike_of_parts {p q : Path} (h : p.parts = q.parts) : p.Alike q := by
  constructor
  · rw [Bool.eq_iff_iff, isAbsolute_iff_parts, isAbsolute_iff_parts, h]
  · rw [← filterMap_moveOfPart, h, filterMap_moveOfPart]

/-- A path with a last name has the parts of its parent, and that name. -/
theorem exists_parts_parent? {p : Path} {name : String} (h : p.fileName? = some name) :
    ∃ q, p.parent? = some q ∧ p.parts = q.parts ++ [.name name] := by
  obtain ⟨hlast, hne⟩ := fileName?_eq_some_iff.mp h
  obtain ⟨front, hbody, hparent, hmoves⟩ := exists_front_parent? hlast
  refine ⟨_, hparent, ?_⟩
  rw [parts_eq, parts_eq, head_ofHeadBody hbody, (moves_ofHeadBody hbody).1, hmoves,
    List.map_append, List.append_assoc]
  simp [partOfMove, hne]

/-- The last name is the last part. -/
theorem fileName?_eq_some_iff_parts {p : Path} {name : String} :
    p.fileName? = some name ↔ p.parts.getLast? = some (.name name) := by
  constructor
  · intro h
    obtain ⟨q, -, hparts⟩ := exists_parts_parent? h
    rw [hparts, List.getLast?_concat]
  · intro h
    rw [fileName?_eq_some_iff]
    rw [parts_eq] at h
    cases hlast : p.moves.getLast? with
    | none =>
      rw [List.getLast?_eq_none_iff.mp hlast, List.map_nil, List.append_nil] at h
      split at h
      · cases h
      · split at h <;> cases h
    | some move =>
      rw [List.getLast?_append, List.getLast?_map, hlast, Option.map_some, Option.some_or,
        Option.some.injEq, partOfMove] at h
      split at h
      · cases h
      · rename_i hmove
        rw [PathPart.name.injEq] at h
        rw [← h]
        exact ⟨rfl, hmove⟩

section
variable {directory name : String} (hd : IsEntryName directory) (hn : IsEntryName name)
include hd hn

/-- The parts of a name in a directory, shown, are that path again. -/
theorem mk_showParts :
    (⟨showParts [.name directory, .name name]⟩ : Path) = (Path.mk directory).child name := by
  have hopen : Path.endsInSlash ⟨directory⟩ = false := by
    simpa [endsInSlash] using hd.getLast?_ne_slash
  rw [child_of_open hd.1 hopen hn, mk.injEq, ← String.toList_inj]
  simp [showParts, joinWith, PathPart.text]

theorem parts_mk_child :
    ((Path.mk directory).child name).parts = [.name directory, .name name] := by
  rw [parts_child _ hn, ← child_empty hd, parts_child _ hd]
  rfl

/-- The parts below `p`. -/
theorem partsAfter?_child (p : Path) :
    ((p.child directory).child name).partsAfter? p = some [.name directory, .name name] := by
  have hparts : ((p.child directory).child name).parts =
      p.parts ++ [.name directory, .name name] := by
    rw [parts_child _ hn, parts_child _ hd, List.append_assoc]
    rfl
  have hfront : p.parts.isPrefixOf ((p.child directory).child name).parts = true := by
    rw [hparts, List.isPrefixOf_iff_prefix]
    exact List.prefix_append _ _
  rw [partsAfter?, if_pos hfront, hparts, List.drop_left]

end

end Path

end TokenSheets
