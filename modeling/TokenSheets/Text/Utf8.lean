/-
TokenSheets/Text/Utf8.lean

Bytes as text that need not be valid UTF-8.

A sequence of bytes is cut into *pieces*: characters, and broken sequences that
no character can start with.  A broken sequence is as long as the start of some
valid sequence can be, so its length is at most three.  Replacing each of them
by one replacement character gives a text for messages; requiring that there is
none gives strict reading.
-/
namespace TokenSheets

/-- A character of a text, or bytes that are none. -/
inductive Piece where
  | scalar (c : Char)
  | broken (bytes : List UInt8)
deriving DecidableEq, Repr

namespace Piece

/-- How many bytes the piece takes up. -/
def size : Piece → Nat
  | .scalar c => c.utf8Size
  | .broken bytes => bytes.length

/-- For each byte of the piece, whether it is a line feed. -/
def lineFeeds : Piece → List Bool
  | .scalar c => if c = '\n' then [true] else List.replicate c.utf8Size false
  | .broken bytes => List.replicate bytes.length false

/-- The character, with the replacement character for a broken sequence. -/
def lossy : Piece → Char
  | .scalar c => c
  | .broken _ => '\uFFFD'

end Piece

/-- The bytes that pieces take up. -/
def sizeOfPieces : List Piece → Nat
  | [] => 0
  | p :: ps => p.size + sizeOfPieces ps

/-- The pieces of a text: its characters. -/
def piecesOfText (s : List Char) : List Piece := s.map .scalar

/-! ### Cutting bytes into pieces -/

/-- A character that has begun: the bytes seen, the bits they carry, the range that the next
byte has to lie in, and how many more bytes follow that one. -/
structure BegunChar where
  seen : List UInt8
  payload : Nat
  low : Nat
  high : Nat
  more : Nat
deriving Repr

/-- What a byte begins: a piece of its own or a longer character. -/
def beginChar (b : UInt8) : Piece ⊕ BegunChar :=
  let n := b.toNat
  if n < 0x80 then .inl (.scalar (Char.ofNat n))
  else if n < 0xC2 then .inl (.broken [b])
  else if n < 0xE0 then .inr ⟨[b], n - 0xC0, 0x80, 0xBF, 0⟩
  else if n = 0xE0 then .inr ⟨[b], 0, 0xA0, 0xBF, 1⟩
  else if n = 0xED then .inr ⟨[b], 0xD, 0x80, 0x9F, 1⟩
  else if n < 0xF0 then .inr ⟨[b], n - 0xE0, 0x80, 0xBF, 1⟩
  else if n = 0xF0 then .inr ⟨[b], 0, 0x90, 0xBF, 2⟩
  else if n < 0xF4 then .inr ⟨[b], n - 0xF0, 0x80, 0xBF, 2⟩
  else if n = 0xF4 then .inr ⟨[b], 4, 0x80, 0x8F, 2⟩
  else .inl (.broken [b])

/-- The begun character with one more byte: finished or still open. -/
def BegunChar.push (p : BegunChar) (b : UInt8) : Piece ⊕ BegunChar :=
  let payload := p.payload * 64 + b.toNat % 64
  match p.more with
  | 0 => .inl (.scalar (Char.ofNat payload))
  | more + 1 => .inr ⟨p.seen ++ [b], payload, 0x80, 0xBF, more⟩

/-- The pieces of a sequence of bytes, given the character that has begun before it. -/
def decodePieces : Option BegunChar → List UInt8 → List Piece
  | none, [] => []
  | some p, [] => [.broken p.seen]
  | none, b :: rest =>
    match beginChar b with
    | .inl piece => piece :: decodePieces none rest
    | .inr p => decodePieces (some p) rest
  | some p, b :: rest =>
    if p.low ≤ b.toNat ∧ b.toNat ≤ p.high then
      match p.push b with
      | .inl piece => piece :: decodePieces none rest
      | .inr p' => decodePieces (some p') rest
    else
      .broken p.seen ::
        match beginChar b with
        | .inl piece => piece :: decodePieces none rest
        | .inr p' => decodePieces (some p') rest

/-- The pieces of a sequence of bytes. -/
def piecesOfBytes (bytes : List UInt8) : List Piece := decodePieces none bytes

/-- The text of bytes, with the replacement character for each broken sequence. -/
def lossyText (bytes : List UInt8) : List Char := (piecesOfBytes bytes).map Piece.lossy

end TokenSheets
