/-
TokenSheets/Json/Scan.lean

From text to outline.

Each function takes the text that is left and gives what it saw with what is
left after it, or with nothing if the text cannot go on.  The string scanner is
a recursion on the text.  Values, items and members call each other with a
budget that the length of the text always covers, since every call takes at
least one piece.
-/
import TokenSheets.Json.Outline

namespace TokenSheets.Json.Scan

/-! ### White space and words -/

/-- The white space between the tokens of JSON: four characters, fewer than `isBlank` knows. -/
def isGap : Piece → Bool
  | .scalar c => c = ' ' || c = '\t' || c = '\n' || c = '\r'
  | .broken _ => false

def skipGap (s : List Piece) : List Piece := s.dropWhile isGap

/-- The rest after a fixed word whose first letter is already taken. -/
def word : List Char → List Piece → Except Fault (List Piece)
  | [], s => .ok s
  | _ :: _, [] => .error (.before .endInValue [])
  | w :: ws, p :: rest =>
    if p = .scalar w then word ws rest else .error (.after .expectedIdent 1 (p :: rest))

/-! ### Numbers -/

/-- The value of a decimal digit. -/
def digit? : Piece → Option Nat
  | .scalar c => if '0' ≤ c ∧ c ≤ '9' then some (c.toNat - 48) else none
  | .broken _ => none

/-- The digits a text starts with, and the rest. -/
def digits : List Piece → List Nat × List Piece
  | [] => ([], [])
  | p :: rest =>
    match digit? p with
    | some d => (d :: (digits rest).1, (digits rest).2)
    | none => ([], p :: rest)

/-- The number that decimal digits write. -/
def ofDigits (ds : List Nat) : Nat := ds.foldl (fun n d => 10 * n + d) 0

/-- A number, a value to be refused, or none at all; with what is left. -/
abbrev Seen := Outline × Option (List Piece)

def stop (f : Fault) : Seen := (.broken f, none)

/-- The greatest exponent that is read digit by digit. -/
def greatestExponent : Nat := 2147483647

/-- The digits of an exponent up to the one that makes it greater than any that is read:
`some` of the exponent, or `none` and what is left after that digit. -/
def exponentDigits : Nat → List Piece → Option Nat × List Piece
  | sofar, [] => (some sofar, [])
  | sofar, p :: rest =>
    match digit? p with
    | some d =>
      if greatestExponent < 10 * sofar + d then (none, rest)
      else exponentDigits (10 * sofar + d) rest
    | none => (some sofar, p :: rest)

/-- The number with a point or an exponent, unless it is greater than every double. -/
def real (negative : Bool) (significand : Nat) (exponent : Int) (rest : List Piece) : Seen :=
  let d := Double.ofDecimal negative significand exponent
  if d.isFinite then (.number (.double d), some rest)
  else (.refused (.before .numberOutOfRange rest) .null, some rest)

/-- The exponent of a number whose mark is already taken. -/
def exponent (negative : Bool) (significand : Nat) (places : Nat) (s : List Piece) : Seen :=
  let (down, s) :=
    match s with
    | .scalar '+' :: rest => (false, rest)
    | .scalar '-' :: rest => (true, rest)
    | _ => (false, s)
  match s with
  | [] => stop (.before .endInNumber [])
  | p :: rest =>
    match digit? p with
    | none => stop (.after .invalidNumber 1 (p :: rest))
    | some d =>
      match exponentDigits d rest with
      | (some e, rest) => real negative significand ((if down then -(e : Int) else e) - places) rest
      | (none, rest) =>
        if significand ≠ 0 ∧ down = false then
          (.refused (.before .numberOutOfRange rest) .null, some (digits rest).2)
        else (.number (.double (.zero negative)), some (digits rest).2)

/-- An integer that fits 64 bits stays one; a larger one, and negative zero, becomes a double. -/
def integer (negative : Bool) (n : Nat) (rest : List Piece) : Seen :=
  if negative then
    if n ≠ 0 ∧ n ≤ 0x8000000000000000 then (.number (.int (-n)), some rest) else real true n 0 rest
  else if n < 0x10000000000000000 then (.number (.int n), some rest)
  else real false n 0 rest

/-- What follows the digits before the point. -/
def afterInteger (negative : Bool) (whole : List Nat) (s : List Piece) : Seen :=
  match s with
  | .scalar '.' :: rest =>
    match digits rest with
    | ([], []) => stop (.before .endInNumber [])
    | ([], rest) => stop (.after .invalidNumber 1 rest)
    | (part, .scalar 'e' :: rest) =>
      exponent negative (ofDigits (whole ++ part)) part.length rest
    | (part, .scalar 'E' :: rest) =>
      exponent negative (ofDigits (whole ++ part)) part.length rest
    | (part, rest) => real negative (ofDigits (whole ++ part)) (-(part.length : Int)) rest
  | .scalar 'e' :: rest => exponent negative (ofDigits whole) 0 rest
  | .scalar 'E' :: rest => exponent negative (ofDigits whole) 0 rest
  | rest => integer negative (ofDigits whole) rest

/-- A number whose sign is already taken. -/
def number (negative : Bool) (s : List Piece) : Seen :=
  match s with
  | [] => stop (.before .endInNumber [])
  | p :: rest =>
    match digit? p with
    | none => stop (.after .invalidNumber 1 (p :: rest))
    | some 0 =>
      match rest with
      | q :: rest' =>
        if (digit? q).isSome then stop (.after .invalidNumber 1 (q :: rest'))
        else afterInteger negative [0] rest
      | [] => afterInteger negative [0] []
    | some _ => afterInteger negative (digits s).1 (digits s).2

/-! ### Strings -/

/-- A string up to its closing quote, with the fault that its use would raise; or no string. -/
inductive TextSeen where
  | closed (text : List Piece) (refused : Option Fault) (rest : List Piece)
  | stopped (refused : Option Fault) (fault : Fault)

namespace TextSeen

def push (p : Piece) : TextSeen → TextSeen
  | .closed text r rest => .closed (p :: text) r rest
  | seen => seen

/-- Refuses the string; of two faults the one that stands first in the text counts. -/
def refuse (f : Fault) : TextSeen → TextSeen
  | .closed text _ rest => .closed text (some f) rest
  | .stopped _ fault => .stopped (some f) fault

end TextSeen

def isScalar : Piece → Bool
  | .scalar _ => true
  | .broken _ => false

/-- The text of a complete string, given what follows its closing quote.

Bytes that are no text are found out only there.  Their place is counted back from there over the
string as it was read, in which an escape is as long as the character it stands for. -/
def completeText (text rest : List Piece) : Except Fault String :=
  match text.dropWhile isScalar with
  | [] => .ok (String.ofList (text.map Piece.lossy))
  | garbled => .error (.before .invalidCodePoint (garbled ++ rest))

/-- The value of four hexadecimal digits. -/
def hexUnit? : Piece → Piece → Piece → Piece → Option Nat
  | .scalar a, .scalar b, .scalar c, .scalar d => do
    let a ← hexValue? a
    let b ← hexValue? b
    let c ← hexValue? c
    let d ← hexValue? d
    return ((a * 16 + b) * 16 + c) * 16 + d
  | _, _, _, _ => none

/-- The fault of a unit escape without four hexadecimal digits: four bytes are taken if there
are as many. -/
def badUnit (s : List Piece) : TextSeen :=
  if sizeOfPieces s < 4 then .stopped none (.before .endInString [])
  else .stopped none (.after .invalidEscape 4 s)

def isHighSurrogate (n : Nat) : Bool := 0xD800 ≤ n && n ≤ 0xDBFF

def isLowSurrogate (n : Nat) : Bool := 0xDC00 ≤ n && n ≤ 0xDFFF

/-- The character of two surrogates. -/
def pairChar (high low : Nat) : Char :=
  Char.ofNat (0x10000 + (high - 0xD800) * 0x400 + (low - 0xDC00))

/-- The character of an escape with one letter. -/
def escapedChar? (c : Char) : Option Char :=
  if c = '"' then some '"'
  else if c = '\\' then some '\\'
  else if c = '/' then some '/'
  else if c = 'b' then some '\x08'
  else if c = 'f' then some '\x0c'
  else if c = 'n' then some '\n'
  else if c = 'r' then some '\r'
  else if c = 't' then some '\t'
  else none

/-- Refuses a string in which a leading surrogate is waiting and something else comes next. -/
def TextSeen.unpaired (waiting : Option Nat) (next : List Piece) (seen : TextSeen) : TextSeen :=
  if waiting.isSome then seen.refuse (.after .endOfHexEscape 1 next) else seen

/-- A string whose opening quote is already taken, with the leading surrogate that waits.

Surrogates have to come in pairs of escapes.  A string where they do not, or with bytes that
are no text, still has an end and is refused. -/
def text : Option Nat → List Piece → TextSeen
  | _, [] => .stopped none (.before .endInString [])
  | waiting, .broken bytes :: rest =>
    ((text none rest).push (.broken bytes)).unpaired waiting (.broken bytes :: rest)
  | waiting, .scalar c :: rest =>
    if c = '\\' then
      match rest with
      | [] => .stopped none (.before .endInString [])
      | .scalar 'u' :: h₁ :: h₂ :: h₃ :: h₄ :: rest' =>
        match hexUnit? h₁ h₂ h₃ h₄, waiting with
        | none, _ => badUnit (h₁ :: h₂ :: h₃ :: h₄ :: rest')
        | some n, some high =>
          if isLowSurrogate n then (text none rest').push (.scalar (pairChar high n))
          else (text none rest').refuse (.before .loneSurrogate rest')
        | some n, none =>
          if isLowSurrogate n then (text none rest').refuse (.before .loneSurrogate rest')
          else if isHighSurrogate n then text (some n) rest'
          else (text none rest').push (.scalar (Char.ofNat n))
      | .scalar 'u' :: short => badUnit short
      | .scalar e :: rest' =>
        (match escapedChar? e with
          | some d => (text none rest').push (.scalar d)
          | none => .stopped none (.after .invalidEscape 1 (.scalar e :: rest'))).unpaired
          waiting (.scalar e :: rest')
      | .broken bytes :: rest' =>
        (TextSeen.stopped none (.after .invalidEscape 1 (.broken bytes :: rest'))).unpaired
          waiting (.broken bytes :: rest')
    else
      (if c = '"' then .closed [] none rest
        else if c.toNat < 0x20 then .stopped none (.before .controlCharacter rest)
        else (text none rest).push (.scalar c)).unpaired
        waiting (.scalar c :: rest)

/-- A string value whose opening quote is already taken. -/
def string (s : List Piece) : Seen :=
  match text none s with
  | .closed text none rest =>
    match completeText text rest with
    | .ok s => (.string s, some rest)
    | .error f => (.refused f .null, some rest)
  | .closed _ (some f) rest => (.refused f .null, some rest)
  | .stopped none fault => stop fault
  | .stopped (some f) fault => (.refused f (.broken fault), none)

/-! ### Values -/

/-- How many containers may be open at once, one more than a reader accepts. -/
def depthLimit : Nat := 128

/-- A container that lies too deep is refused where it opens; those inside it are out of reach. -/
def guardDepth (depth : Nat) (opening : List Piece) (o : Outline) : Outline :=
  if depth + 1 = depthLimit then .refused (.after .tooDeep 1 opening) o else o

mutual

/-- A value, inside so many open containers. -/
def value : Nat → Nat → List Piece → Seen
  | 0, _, s => stop (.before .endInValue s)
  | fuel + 1, depth, s =>
    match skipGap s with
    | [] => stop (.before .endInValue [])
    | .scalar 'n' :: rest =>
      match word ['u', 'l', 'l'] rest with
      | .ok rest => (.null, some rest)
      | .error f => stop f
    | .scalar 't' :: rest =>
      match word ['r', 'u', 'e'] rest with
      | .ok rest => (.bool true, some rest)
      | .error f => stop f
    | .scalar 'f' :: rest =>
      match word ['a', 'l', 's', 'e'] rest with
      | .ok rest => (.bool false, some rest)
      | .error f => stop f
    | .scalar '-' :: rest => number true rest
    | .scalar '"' :: rest => string rest
    | .scalar '[' :: rest =>
      let (os, cut, rest') := items fuel (depth + 1) true rest
      (guardDepth depth (.scalar '[' :: rest) (.array os cut), rest')
    | .scalar '\x7b' :: rest =>
      let (ms, cut, rest') := members fuel (depth + 1) true rest
      (guardDepth depth (.scalar '\x7b' :: rest) (.object ms cut), rest')
    | p :: rest =>
      if (digit? p).isSome then number false (p :: rest)
      else stop (.after .expectedValue 1 (p :: rest))

/-- The items of a list that is already open, before the first one or after another. -/
def items : Nat → Nat → Bool → List Piece → List Outline × Option Fault × Option (List Piece)
  | 0, _, _, s => ([], some (.before .endInList s), none)
  | fuel + 1, depth, first, s =>
    let item (s : List Piece) : List Outline × Option Fault × Option (List Piece) :=
      match value fuel depth s with
      | (o, none) => ([o], none, none)
      | (o, some rest) =>
        let (os, cut, rest') := items fuel depth false rest
        (o :: os, cut, rest')
    match skipGap s with
    | [] => ([], some (.before .endInList []), none)
    | .scalar ']' :: rest => ([], none, some rest)
    | p :: rest =>
      if first then item (p :: rest)
      else if p = .scalar ',' then
        match skipGap rest with
        | [] => ([], some (.before .endInValue []), none)
        | .scalar ']' :: rest' => ([], some (.after .trailingComma 1 (.scalar ']' :: rest')), none)
        | rest' => item rest'
      else ([], some (.after .expectedCommaOrBracket 1 (p :: rest)), none)

/-- The members of an object that is already open, before the first one or after another. -/
def members : Nat → Nat → Bool → List Piece →
    List (Except Fault String × Outline) × Option Fault × Option (List Piece)
  | 0, _, _, s => ([], some (.before .endInObject s), none)
  | fuel + 1, depth, first, s =>
    let valued (key : Except Fault String) (s : List Piece) :
        List (Except Fault String × Outline) × Option Fault × Option (List Piece) :=
      match skipGap s with
      | [] => ([(key, .broken (.before .endInObject []))], none, none)
      | .scalar ':' :: rest =>
        match value fuel depth rest with
        | (o, none) => ([(key, o)], none, none)
        | (o, some rest) =>
          let (ms, cut, rest') := members fuel depth false rest
          ((key, o) :: ms, cut, rest')
      | p :: rest => ([(key, .broken (.after .expectedColon 1 (p :: rest)))], none, none)
    let keyed (s : List Piece) :
        List (Except Fault String × Outline) × Option Fault × Option (List Piece) :=
      match text none s with
      | .closed text none rest => valued (completeText text rest) rest
      | .closed _ (some f) rest => valued (.error f) rest
      | .stopped none fault => ([], some fault, none)
      | .stopped (some f) fault => ([(.error f, .broken fault)], none, none)
    match skipGap s with
    | [] => ([], some (.before .endInObject []), none)
    | .scalar '\x7d' :: rest => ([], none, some rest)
    | p :: rest =>
      if first then
        if p = .scalar '"' then keyed rest
        else ([], some (.after .keyNotString 1 (p :: rest)), none)
      else if p = .scalar ',' then
        match skipGap rest with
        | [] => ([], some (.before .endInValue []), none)
        | .scalar '"' :: rest' => keyed rest'
        | .scalar '\x7d' :: rest' =>
          ([], some (.after .trailingComma 1 (.scalar '\x7d' :: rest')), none)
        | rest' => ([], some (.after .keyNotString 1 rest'), none)
      else ([], some (.after .expectedCommaOrBrace 1 (p :: rest)), none)

end

end Scan

/-! ### Whole texts -/

/-- The outline of a text and the fault of what follows the value, if anything does. -/
def outline (s : List Piece) : Outline × Option Fault :=
  let (o, rest) := Scan.value (2 * s.length + 2) 0 s
  match rest with
  | none => (o, none)
  | some rest =>
    match Scan.skipGap rest with
    | [] => (o, none)
    | extra => (o, some (.after .trailingCharacters 1 extra))

/-- The value that a text writes, or the first fault. -/
def readPieces (s : List Piece) : Except Fault Value := do
  let (o, trailing) := outline s
  let v ← o.read
  endOf trailing
  return v

/-- The value that a text writes, or its first fault. -/
def readText (text : String) : Except PlacedFault Value :=
  let s := piecesOfText text.toList
  (readPieces s).mapError fun f => f.place s

/-- The value that the bytes of a file write, or their first fault. -/
def readBytes (bytes : List UInt8) : Except PlacedFault Value :=
  let s := piecesOfBytes bytes
  (readPieces s).mapError fun f => f.place s

end TokenSheets.Json
