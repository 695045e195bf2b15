/-
TokenSheets/Proofs/Naming.lean

Which names become the same property.

A name in camel case is cut in front of its capitals, and the pieces become
words in lower case with hyphens between them (`IsHyphenated`).  All such texts
come about.  The cut loses the case of the first letter and nothing else: a
capital further on leaves a hyphen behind, and no name has one of its own
(`hyphenate_inj`).  Of the two exceptions one is what the rule gives anyway; the
other one takes `textColor` to the property of `color`.  So every property is
that of a standard name (`property_eq`), and two utilities have the same
property exactly if they have the same standard name.

A class has the name of a rule behind the property.  So two utilities can share a
class in another way, when the property of one goes on like a rule of the other
(`exists_shared_class`).
-/
import Mathlib
import TokenSheets.Config.Read
import TokenSheets.Fragment.Utilities

namespace TokenSheets.Naming

open Json

/-! ### Hyphenated words -/

/-- A letter in lower case, then such letters and digits. -/
def IsWord : List Char → Prop
  | [] => False
  | c :: cs => c.isLower = true ∧ ∀ d ∈ cs, d.isLower = true ∨ d.isDigit = true

/-- Words with hyphens between them. -/
inductive IsHyphenated : List Char → Prop
  | word {w : List Char} : IsWord w → IsHyphenated w
  | hyphen {w s : List Char} : IsWord w → IsHyphenated s → IsHyphenated (w ++ '-' :: s)

theorem IsWord.append {w cs : List Char} (hw : IsWord w)
    (hcs : ∀ d ∈ cs, d.isLower = true ∨ d.isDigit = true) : IsWord (w ++ cs) := by
  cases w with
  | nil => exact hw.elim
  | cons c ds =>
    refine ⟨hw.1, fun d hd => ?_⟩
    rcases List.mem_append.mp hd with hd | hd
    · exact hw.2 d hd
    · exact hcs d hd

/-- A letter or digit that is no capital. -/
theorem isLower_or_isDigit {c : Char} (hc : c.isAlphanum = true) (hupper : c.isUpper = false) :
    c.isLower = true ∨ c.isDigit = true := by
  simpa [Char.isAlphanum, Char.isAlpha, hupper] using hc

theorem isAlpha_of_isLower {c : Char} (hc : c.isLower = true) : c.isAlpha = true := by
  simp [Char.isAlpha, hc]

theorem isAlphanum_of_isLower_or_isDigit {c : Char} (hc : c.isLower = true ∨ c.isDigit = true) :
    c.isAlphanum = true := by
  rcases hc with hc | hc
  · simp [Char.isAlphanum, isAlpha_of_isLower hc]
  · simp [Char.isAlphanum, hc]

/-- Neither letters in lower case nor digits are capitals. -/
theorem isUpper_eq_false {c : Char} (hc : c.isLower = true ∨ c.isDigit = true) :
    c.isUpper = false := by
  rcases hc with hc | hc
  · exact Bool.eq_false_iff.mpr (Char.not_isUpper_of_isLower hc)
  · have hdigit := (Char.isDigit_iff_toNat.mp hc).2
    simp only [Char.isUpper, Bool.decide_and, Bool.and_eq_false_iff, decide_eq_false_iff_not]
    left
    intro hlow
    have hlow : 65 ≤ c.toNat := hlow
    simp only [Char.reduceToNat] at hdigit
    omega

theorem toLower_of_isUpper_eq_false {c : Char} (hc : c.isUpper = false) : c.toLower = c :=
  Char.toLower_eq_of_not_isUpper (by simp [hc])

/-- A capital is known by its letter in lower case. -/
theorem toLower_inj_of_isUpper {c d : Char} (hc : c.isUpper = true) (hd : d.isUpper = true)
    (h : c.toLower = d.toLower) : c = d := by
  have hupper {x : Char} (hx : x.isUpper = true) : x.toLower.toUpper = x := by
    rw [Char.toUpper_toLower_eq_toUpper]
    exact Char.toUpper_eq_of_not_isLower (Char.not_isLower_of_isUpper hx)
  rw [← hupper hc, ← hupper hd, h]

/-! ### The text after the first letter -/

@[simp] theorem hyphenate_nil : hyphenate [] = [] := rfl

theorem hyphenate_cons_of_isUpper {c : Char} (hc : c.isUpper = true) (s : List Char) :
    hyphenate (c :: s) = '-' :: c.toLower :: hyphenate s := by
  simp [hyphenate, hc]

theorem hyphenate_cons_of_not_isUpper {c : Char} (hc : c.isUpper = false) (s : List Char) :
    hyphenate (c :: s) = c :: hyphenate s := by
  simp [hyphenate, hc]

/-- Without capitals nothing changes. -/
theorem hyphenate_append_of_not_isUpper {s : List Char} (hs : ∀ c ∈ s, c.isUpper = false)
    (t : List Char) : hyphenate (s ++ t) = s ++ hyphenate t := by
  induction s with
  | nil => rfl
  | cons c s ih =>
    obtain ⟨hc, hs⟩ := List.forall_mem_cons.mp hs
    rw [List.cons_append, hyphenate_cons_of_not_isUpper hc, ih hs, List.cons_append]

/-- A word goes on up to the next capital, and another one begins there. -/
theorem isHyphenated_append_hyphenate {w s : List Char} (hw : IsWord w)
    (hs : ∀ c ∈ s, c.isAlphanum = true) : IsHyphenated (w ++ hyphenate s) := by
  induction s generalizing w with
  | nil =>
    rw [hyphenate_nil, List.append_nil]
    exact .word hw
  | cons c s ih =>
    obtain ⟨hc, hs⟩ := List.forall_mem_cons.mp hs
    cases hupper : c.isUpper with
    | true =>
      have hword : IsWord [c.toLower] := by
        refine ⟨?_, by simp⟩
        rw [Char.isLower_toLower_eq_isAlpha]
        simp [Char.isAlpha, hupper]
      rw [hyphenate_cons_of_isUpper hupper]
      exact .hyphen hw (ih hword hs)
    | false =>
      have hword : IsWord (w ++ [c]) :=
        hw.append (List.forall_mem_singleton.mpr (isLower_or_isDigit hc hupper))
      rw [hyphenate_cons_of_not_isUpper hupper, List.append_cons]
      exact ih hword hs

/-- No letter or digit is a hyphen. -/
theorem ne_hyphen {c : Char} (hc : c.isAlphanum = true) : c ≠ '-' := by
  rintro rfl
  exact absurd hc (by decide)

/-- The hyphens tell where the capitals were. -/
theorem hyphenate_inj {s t : List Char} (hs : ∀ c ∈ s, c.isAlphanum = true)
    (ht : ∀ c ∈ t, c.isAlphanum = true) (h : hyphenate s = hyphenate t) : s = t := by
  have hne {c : Char} (u : List Char) : hyphenate (c :: u) ≠ [] := by
    cases hc : c.isUpper with
    | true => simp [hyphenate_cons_of_isUpper hc]
    | false => simp [hyphenate_cons_of_not_isUpper hc]
  induction s generalizing t with
  | nil =>
    cases t with
    | nil => rfl
    | cons d t => exact absurd h.symm (hne t)
  | cons c s ih =>
    cases t with
    | nil => exact absurd h (hne s)
    | cons d t =>
      obtain ⟨hc, hs⟩ := List.forall_mem_cons.mp hs
      obtain ⟨hd, ht⟩ := List.forall_mem_cons.mp ht
      cases hcu : c.isUpper with
      | true =>
        cases hdu : d.isUpper with
        | true =>
          rw [hyphenate_cons_of_isUpper hcu, hyphenate_cons_of_isUpper hdu, List.cons.injEq,
            List.cons.injEq] at h
          rw [toLower_inj_of_isUpper hcu hdu h.2.1, ih hs ht h.2.2]
        | false =>
          rw [hyphenate_cons_of_isUpper hcu, hyphenate_cons_of_not_isUpper hdu,
            List.cons.injEq] at h
          exact absurd h.1.symm (ne_hyphen hd)
      | false =>
        cases hdu : d.isUpper with
        | true =>
          rw [hyphenate_cons_of_not_isUpper hcu, hyphenate_cons_of_isUpper hdu,
            List.cons.injEq] at h
          exact absurd h.1 (ne_hyphen hc)
        | false =>
          rw [hyphenate_cons_of_not_isUpper hcu, hyphenate_cons_of_not_isUpper hdu,
            List.cons.injEq] at h
          rw [h.1, ih hs ht h.2]

/-! ### Names -/

/-- A name begins with a letter and goes on with letters and digits. -/
theorem isUtilityName_cons {c : Char} {cs : List Char} :
    isUtilityName (c :: cs) = true ↔ c.isAlpha = true ∧ ∀ d ∈ cs, d.isAlphanum = true := by
  rw [isUtilityName, Bool.and_eq_true, List.all_eq_true]

/-- The name with its first letter in lower case. -/
def lowerFirst : List Char → List Char
  | [] => []
  | c :: cs => c.toLower :: cs

theorem lowerFirst_lowerFirst (s : List Char) : lowerFirst (lowerFirst s) = lowerFirst s := by
  cases s <;> simp [lowerFirst]

theorem isUtilityName_lowerFirst (s : List Char) :
    isUtilityName (lowerFirst s) = isUtilityName s := by
  cases s <;> simp [lowerFirst, isUtilityName]

theorem kebabCase_lowerFirst (s : List Char) : kebabCase (lowerFirst s) = kebabCase s := by
  cases s <;> simp [lowerFirst, kebabCase]

theorem isHyphenated_kebabCase {s : List Char} (hs : isUtilityName s = true) :
    IsHyphenated (kebabCase s) := by
  cases s with
  | nil => cases hs
  | cons c cs =>
    obtain ⟨hc, hcs⟩ := isUtilityName_cons.mp hs
    have hword : IsWord [c.toLower] := ⟨by rwa [Char.isLower_toLower_eq_isAlpha], by simp⟩
    exact isHyphenated_append_hyphenate hword hcs

/-- Put together again, with a capital behind each hyphen. -/
theorem exists_kebabCase_eq {s : List Char} (hs : IsHyphenated s) :
    ∃ a, isUtilityName a = true ∧ kebabCase a = s := by
  induction hs with
  | @word w hw =>
    cases w with
    | nil => exact hw.elim
    | cons c cs =>
      refine ⟨c :: cs, isUtilityName_cons.mpr ⟨isAlpha_of_isLower hw.1, ?_⟩, ?_⟩
      · exact fun d hd => isAlphanum_of_isLower_or_isDigit (hw.2 d hd)
      · have hkeep := hyphenate_append_of_not_isUpper (fun d hd => isUpper_eq_false (hw.2 d hd)) []
        rw [List.append_nil, hyphenate_nil, List.append_nil] at hkeep
        rw [kebabCase, hkeep, toLower_of_isUpper_eq_false (isUpper_eq_false (Or.inl hw.1))]
  | @hyphen w s hw _ ih =>
    obtain ⟨a, ha, rfl⟩ := ih
    cases w with
    | nil => exact hw.elim
    | cons c cs =>
      cases a with
      | nil => cases ha
      | cons d ds =>
        obtain ⟨hd, hds⟩ := isUtilityName_cons.mp ha
        have hupper : d.toUpper.isUpper = true := by rwa [Char.isUpper_toUpper_eq_isAlpha]
        refine ⟨c :: (cs ++ d.toUpper :: ds), ?_, ?_⟩
        · refine isUtilityName_cons.mpr ⟨isAlpha_of_isLower hw.1, fun x hx => ?_⟩
          rcases List.mem_append.mp hx with hx | hx
          · exact isAlphanum_of_isLower_or_isDigit (hw.2 x hx)
          · rcases List.mem_cons.mp hx with rfl | hx
            · simp [Char.isAlphanum, hd]
            · exact hds x hx
        · rw [kebabCase, hyphenate_append_of_not_isUpper fun x hx => isUpper_eq_false (hw.2 x hx),
            hyphenate_cons_of_isUpper hupper, Char.toLower_toUpper_eq_toLower,
            toLower_of_isUpper_eq_false (isUpper_eq_false (Or.inl hw.1))]
          rfl

/-- The cut loses the case of the first letter only. -/
theorem kebabCase_eq_iff {a b : List Char} (ha : isUtilityName a = true)
    (hb : isUtilityName b = true) : kebabCase a = kebabCase b ↔ lowerFirst a = lowerFirst b := by
  constructor
  · intro h
    cases a with
    | nil => cases ha
    | cons c cs =>
      cases b with
      | nil => cases hb
      | cons d ds =>
        rw [kebabCase, kebabCase, List.cons.injEq] at h
        rw [lowerFirst, lowerFirst, h.1,
          hyphenate_inj (isUtilityName_cons.mp ha).2 (isUtilityName_cons.mp hb).2 h.2]
  · intro h
    rw [← kebabCase_lowerFirst a, h, kebabCase_lowerFirst]

/-! ### Properties -/

/-- The name with the words of the property: the first letter is in lower case, and the color of
the text is plainly the color. -/
def standardName (name : String) : String :=
  if name = "textColor" then "color" else String.ofList (lowerFirst name.toList)

theorem lowerFirst_standardName (name : String) :
    lowerFirst (standardName name).toList = (standardName name).toList := by
  unfold standardName
  split
  · decide
  · rw [String.toList_ofList, lowerFirst_lowerFirst]

theorem isUtilityName_standardName {name : String} (h : isUtilityName name.toList = true) :
    isUtilityName (standardName name).toList = true := by
  unfold standardName
  split
  · decide
  · rwa [String.toList_ofList, isUtilityName_lowerFirst]

/-- Every property is the words of a standard name. -/
theorem property_eq (name : String) :
    property name = String.ofList (kebabCase (standardName name).toList) := by
  by_cases htext : name = "textColor"
  · subst htext
    decide
  by_cases hbackground : name = "backgroundColor"
  · subst hbackground
    decide
  have hfind : exceptions.find? (fun e => e.1 = name) = none := by
    simp [exceptions, Ne.symm htext, Ne.symm hbackground]
  rw [property, hfind, standardName, if_neg htext, String.toList_ofList, kebabCase_lowerFirst]

theorem property_eq_iff {a b : String} (ha : isUtilityName a.toList = true)
    (hb : isUtilityName b.toList = true) :
    property a = property b ↔ standardName a = standardName b := by
  rw [property_eq, property_eq, String.ofList_inj,
    kebabCase_eq_iff (isUtilityName_standardName ha) (isUtilityName_standardName hb),
    lowerFirst_standardName, lowerFirst_standardName, String.toList_inj]

/-- The class of a utility: that of its initial value, or that of one of its rules, with what a
breakpoint puts behind it. -/
def className (setup : Setup) (utility : String) (rule : Option String) (suffix : String) :
    String :=
  setup.classPrefix ++ setup.separator ++ property utility ++
    (match rule with | none => "" | some r => setup.separator ++ r) ++ suffix

/-- Of the whole class only the property depends on the utility. -/
theorem className_eq_iff (setup : Setup) (a b : String) (rule : Option String) (suffix : String) :
    className setup a rule suffix = className setup b rule suffix ↔ property a = property b := by
  constructor
  · intro h
    have hlist := congrArg String.toList h
    simp only [className, String.toList_append, List.append_assoc,
      List.append_cancel_left_eq] at hlist
    exact String.toList_inj.mp (List.append_cancel_right hlist)
  · intro h
    simp only [className, h]

/-- **Which utilities share their classes.**  The names of utilities become exactly the texts of
hyphenated words, and two of them become the same one exactly if they agree up to the case of
their first letter.  Two utilities have the same property, and for the same rule the same class,
exactly if they have the same standard name. -/
theorem kebabCase_and_property :
    (∀ s, (∃ a, isUtilityName a = true ∧ kebabCase a = s) ↔ IsHyphenated s) ∧
    ∀ a b : String, isUtilityName a.toList = true → isUtilityName b.toList = true →
      (kebabCase a.toList = kebabCase b.toList ↔ lowerFirst a.toList = lowerFirst b.toList) ∧
      (property a = property b ↔ standardName a = standardName b) ∧
      ∀ setup rule suffix,
        className setup a rule suffix = className setup b rule suffix ↔
          standardName a = standardName b := by
  refine ⟨fun s => ⟨?_, exists_kebabCase_eq⟩, fun a b ha hb => ?_⟩
  · rintro ⟨a, ha, rfl⟩
    exact isHyphenated_kebabCase ha
  · have hproperty := property_eq_iff ha hb
    refine ⟨kebabCase_eq_iff ha hb, hproperty, fun setup rule suffix => ?_⟩
    rw [className_eq_iff, hproperty]

/-- The color of the text and a color with a capital have the same property; a capital in front
of the former takes the exception from it. -/
theorem kebabCase_and_property_textColor :
    isUtilityName "textColor".toList = true ∧ isUtilityName "Color".toList = true ∧
      isUtilityName "TextColor".toList = true ∧ property "textColor" = property "Color" ∧
      kebabCase "TextColor".toList = kebabCase "textColor".toList ∧
      property "TextColor" ≠ property "textColor" := by
  obtain ⟨-, hnames⟩ := kebabCase_and_property
  obtain ⟨-, hsame, -⟩ := hnames "textColor" "Color" (by decide) (by decide)
  obtain ⟨hkebab, hother, -⟩ := hnames "TextColor" "textColor" (by decide) (by decide)
  exact ⟨by decide, by decide, by decide, hsame.mpr (by decide), hkebab.mpr (by decide),
    fun h => absurd (hother.mp h) (by decide)⟩

/-! ### Classes of different rules -/

/-- A document with a utility that has one rule, and another utility without rules. -/
def ambiguousDocument : Value :=
  .object
    [("setup", .object
       [("prefix", .string "lz"), ("separator", .string "-"),
        ("defaultFontSize", .number (.int 16))]),
     ("utilities", .object
       [("enabled", .bool true),
        ("utilities", .object
          [("text", .object
             [("enabled", .bool true), ("initial", .string "a"),
              ("rules", .object [("align", .string "left")])]),
           ("textAlign", .object [("enabled", .bool true), ("initial", .string "start")])])])]

/-- It is accepted and has sheets, and the class of the rule is also that of the other utility,
although the two have different standard names. -/
theorem exists_shared_class :
    ∃ c s, Config.ofValue ambiguousDocument = .ok c ∧ c.generate = .ok s ∧
      c.utilities.active.map (fun u => (u.name, u.source)) =
        [("text", .explicit [("align", .text "left")]), ("textAlign", .custom)] ∧
      className c.setup "text" (some "align") "" = className c.setup "textAlign" none "" ∧
      standardName "text" ≠ standardName "textAlign" :=
  ⟨_, _, rfl, rfl, by decide, by decide, by decide⟩

end TokenSheets.Naming
