/-
TokenSheets/Json/Canonical.lean

The canonical form of a JSON value, and its digest.

Two documents that differ in the order of their keys only have one canonical
form: the members of every object are sorted by the 16-bit units of their keys,
every number is written as its double in one fixed style, and there is no white
space.  Numbers that are not finite have no text in that style, so a value with one
has no canonical form.  The fingerprint of a document is the digest of its canonical
form.
-/
import TokenSheets.Json.Write
import TokenSheets.Digest.Sha256

namespace TokenSheets

/-! ### Order by 16-bit units -/

/-- The 16-bit units of a character: one, or a pair of surrogates. -/
def units16 (c : Char) : List Nat :=
  let n := c.toNat
  if n < 0x10000 then [n]
  else [0xD800 + (n - 0x10000) / 0x400, 0xDC00 + (n - 0x10000) % 0x400]

/-- Lexicographic order. -/
def unitsLe : List Nat → List Nat → Bool
  | [], _ => true
  | _ :: _, [] => false
  | a :: as, b :: bs => if a < b then true else if b < a then false else unitsLe as bs

/-- The order of keys in canonical form. -/
def keyLe (a b : String) : Bool := unitsLe (a.toList.flatMap units16) (b.toList.flatMap units16)

namespace Json

/-- Numbers of the canonical form are positional from one millionth to below ten to the
twenty-first, without a point where none is needed; zero has no sign. -/
def canonicalStyle : NumberStyle := ⟨-6, 21, false, false⟩

namespace Value

/-- A member as the canonical form writes it, with the key it is sorted by. -/
abbrev WrittenMember := String × List Char

def joinMembers : List WrittenMember → List Char
  | [] => []
  | [(_, text)] => text
  | (_, text) :: next :: rest => text ++ ',' :: joinMembers (next :: rest)

mutual

/-- The canonical text. -/
def canonical : Value → List Char
  | .null => ['n', 'u', 'l', 'l']
  | .bool true => ['t', 'r', 'u', 'e']
  | .bool false => ['f', 'a', 'l', 's', 'e']
  | .number n => canonicalStyle.write n.toDouble
  | .string s => quoteText s.toList
  | .array [] => ['[', ']']
  | .array (v :: vs) => '[' :: (v.canonical ++ canonicalItems vs ++ [']'])
  | .object ms =>
    '\x7b' :: (joinMembers ((writtenMembers ms).mergeSort fun a b => keyLe a.1 b.1) ++ ['\x7d'])

/-- The items after the first one. -/
def canonicalItems : List Value → List Char
  | [] => []
  | v :: vs => ',' :: (v.canonical ++ canonicalItems vs)

/-- Each member as text, in document order. -/
def writtenMembers : List (String × Value) → List WrittenMember
  | [] => []
  | (k, v) :: ms => (k, quoteText k.toList ++ ':' :: v.canonical) :: writtenMembers ms

end

mutual

/-- Whether every number is finite. -/
def isFinite : Value → Bool
  | .null => true
  | .bool _ => true
  | .number n => n.toDouble.isFinite
  | .string _ => true
  | .array vs => areFinite vs
  | .object ms => membersFinite ms

def areFinite : List Value → Bool
  | [] => true
  | v :: vs => v.isFinite && areFinite vs

def membersFinite : List (String × Value) → Bool
  | [] => true
  | (_, v) :: ms => v.isFinite && membersFinite ms

end

/-- What is said of a value without a canonical form. -/
def notCanonical : String := "NaN and Infinity are not permitted"

/-- The digest of the canonical form, if there is one. -/
def fingerprint (v : Value) : Except String String :=
  if v.isFinite then .ok (Sha256.hexOfText (String.ofList v.canonical)) else .error notCanonical

end Value

end Json

end TokenSheets
