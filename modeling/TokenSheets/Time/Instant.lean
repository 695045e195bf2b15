/-
TokenSheets/Time/Instant.lean

Instants and their text.

An instant is written in universal time, `2024-01-02T03:04:05Z`, with as many
groups of three fraction digits as it needs.  Reading is more generous: the
date and the time may be apart by a space, blanks may stand between the parts,
and the offset may be any number of hours and minutes below a day.  A second
numbered sixty is kept as the second before it with a nanosecond count above
one billion.
-/
import TokenSheets.Time.Calendar
import TokenSheets.Text.Blank

namespace TokenSheets

/-- A point in time: whole seconds since the first of January 1970 in universal time, and
nanoseconds; a count of one billion or more stands for a leap second. -/
structure Instant where
  seconds : Int
  nanos : Nat
deriving DecidableEq, Repr, Inhabited

namespace Instant

/-- The instant from which seconds are counted. -/
def epoch : Instant := ⟨0, 0⟩

/-! ### Writing -/

/-- A number with zeros in front, up to a width. -/
def padded (width n : Nat) : List Char :=
  let digits := Nat.toDigits 10 n
  List.replicate (width - digits.length) '0' ++ digits

/-- A year of four digits, or a signed one outside their range. -/
def writeYear (y : Int) : List Char :=
  if 0 ≤ y ∧ y ≤ 9999 then padded 4 y.toNat
  else (if y < 0 then '-' else '+') :: padded 4 y.natAbs

/-- No fraction, or three, six or nine digits of it. -/
def writeFraction (nanos : Nat) : List Char :=
  if nanos = 0 then []
  else if nanos % 1000000 = 0 then '.' :: padded 3 (nanos / 1000000)
  else if nanos % 1000 = 0 then '.' :: padded 6 (nanos / 1000)
  else '.' :: padded 9 nanos

/-- The text of an instant. -/
def write (i : Instant) : List Char :=
  let date := Date.ofDays (i.seconds / 86400)
  let ofDay := (i.seconds % 86400).toNat
  let leap := 1000000000 ≤ i.nanos
  let second := ofDay % 60 + (if leap then 1 else 0)
  let nanos := if leap then i.nanos - 1000000000 else i.nanos
  writeYear date.year ++ '-' :: (padded 2 date.month ++ '-' :: (padded 2 date.day ++
    'T' :: (padded 2 (ofDay / 3600) ++ ':' :: (padded 2 (ofDay / 60 % 60) ++
      ':' :: (padded 2 second ++ writeFraction nanos ++ ['Z'])))))

/-! ### Reading -/

/-- Why a text is no instant. -/
inductive Malformed where
  | outOfRange
  | invalid
  | tooShort
  | tooLong
  /-- The offset leads out of the calendar. -/
  | impossible
deriving DecidableEq, Repr

/-- The words for what is wrong. -/
def Malformed.message : Malformed → String
  | .outOfRange => "input is out of range"
  | .invalid => "input contains invalid characters"
  | .tooShort => "premature end of input"
  | .tooLong => "trailing input"
  | .impossible => "no possible date and time matching input"

def isDigit (c : Char) : Bool := '0' ≤ c && c ≤ '9'

/-- The digits a text starts with, at most so many, and the rest. -/
def takeDigits : Nat → List Char → List Char × List Char
  | 0, s => ([], s)
  | _ + 1, [] => ([], [])
  | n + 1, c :: cs =>
    if isDigit c then (c :: (takeDigits n cs).1, (takeDigits n cs).2) else ([], c :: cs)

def numberOf (digits : List Char) : Nat := digits.foldl (fun n c => 10 * n + (c.toNat - 48)) 0

/-- A number of one digit or more, at most as many as given. -/
def readNumber (most : Nat) (s : List Char) : Except Malformed (Nat × List Char) :=
  match s, takeDigits most s with
  | [], _ => .error .tooShort
  | _, ([], _) => .error .invalid
  | _, (digits, rest) =>
    if numberOf digits < 0x8000000000000000 then .ok (numberOf digits, rest) else .error .outOfRange

/-- A number after blanks, within a range. -/
def readField (low high : Nat) (s : List Char) : Except Malformed (Nat × List Char) := do
  let (n, rest) ← readNumber 2 (trimStart s)
  if low ≤ n ∧ n ≤ high then return (n, rest) else throw .outOfRange

/-- A year: four digits at most, or any number of them after a sign. -/
def readYear (s : List Char) : Except Malformed (Int × List Char) := do
  let (y, rest) ←
    match trimStart s with
    | '-' :: cs => do
      let (n, rest) ← readNumber cs.length cs
      pure (-(n : Int), rest)
    | '+' :: cs => do
      let (n, rest) ← readNumber cs.length cs
      pure ((n : Int), rest)
    | cs => do
      let (n, rest) ← readNumber 4 cs
      pure ((n : Int), rest)
  if -0x80000000 ≤ y ∧ y < 0x80000000 then return (y, rest) else throw .outOfRange

/-- A given character after blanks. -/
def readMark (mark : Char) (s : List Char) : Except Malformed (List Char) :=
  match trimStart s with
  | [] => .error .tooShort
  | c :: rest => if c = mark then .ok rest else .error .invalid

/-- Nanoseconds from the digits after a point, if there is one; a tenth digit and more count for
nothing. -/
def readFraction (s : List Char) : Except Malformed (Nat × List Char) :=
  match s with
  | '.' :: cs => do
    let (n, rest) ← readNumber 9 cs
    let used := cs.length - rest.length
    return (n * Nat.pow 10 (9 - used), rest.dropWhile isDigit)
  | _ => .ok (0, s)

/-- Two digits of an offset. -/
def readPair (s : List Char) : Except Malformed (Nat × Nat × List Char) :=
  match s with
  | a :: b :: rest =>
    if isDigit a && isDigit b then .ok (a.toNat - 48, b.toNat - 48, rest) else .error .invalid
  | [a] => if a.utf8Size < 2 then .error .tooShort else .error .invalid
  | [] => .error .tooShort

/-- The offset from universal time in seconds. -/
def readOffset (s : List Char) : Except Malformed (Int × List Char) :=
  match s with
  | 'Z' :: rest => .ok (0, rest)
  | 'z' :: rest => .ok (0, rest)
  | [] => .error .tooShort
  | sign :: rest => do
    let west ←
      if sign = '+' then .ok false
      else if sign = '-' ∨ sign = '−' then .ok true
      else .error .invalid
    let (h₁, h₂, rest) ← readPair rest
    let rest := rest.dropWhile fun c => c = ':' || isBlank c
    let (m₁, m₂, rest) ← readPair rest
    if 6 ≤ m₁ then throw .outOfRange
    let seconds : Int := (h₁ * 10 + h₂) * 3600 + (m₁ * 10 + m₂) * 60
    return (if west then -seconds else seconds, rest)

/-- The name of universal time, which may stand for the offset. -/
def readZone (s : List Char) : Except Malformed (Int × List Char) :=
  match s with
  | a :: b :: c :: rest =>
    if a.toLower = 'u' ∧ b.toLower = 't' ∧ c.toLower = 'c' then .ok (0, rest)
    else readOffset s
  | _ => readOffset s

/-- The first and the last year of the calendar. -/
def firstYear : Int := -262143

def lastYear : Int := 262142

/-- Whether a count of days since the epoch is a day of the calendar. -/
def isCalendarDay (days : Int) : Bool :=
  (Date.mk firstYear 1 1).toDays ≤ days && days ≤ (Date.mk lastYear 12 31).toDays

/-- The instant that a text names. -/
def read (s : List Char) : Except Malformed Instant := do
  let (year, s) ← readYear s
  let (month, s) ← readField 1 12 (← readMark '-' s)
  let (day, s) ← readField 1 31 (← readMark '-' s)
  let s ←
    match s with
    | [] => throw .tooShort
    | c :: rest => if c = 't' ∨ c = 'T' ∨ c = ' ' then pure rest else throw .invalid
  let (hour, s) ← readField 0 23 s
  let (minute, s) ← readField 0 59 (← readMark ':' s)
  let (second, s) ← readField 0 60 (← readMark ':' s)
  let (nanos, s) ← readFraction s
  let (offset, s) ← readZone (trimStart s)
  if !(trimStart s).isEmpty then throw .tooLong
  if day > Date.daysInMonth year month ∨ year < firstYear ∨ lastYear < year then
    throw .outOfRange
  if 86400 ≤ offset.natAbs then throw .outOfRange
  let days := (Date.mk year month day).toDays
  let ofDay : Int := hour * 3600 + minute * 60 + (if second = 60 then 59 else second)
  let seconds := days * 86400 + ofDay - offset
  if !isCalendarDay (seconds / 86400) then throw .impossible
  return ⟨seconds, if second = 60 then nanos + 1000000000 else nanos⟩

end Instant

end TokenSheets
