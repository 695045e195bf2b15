/-
TokenSheets/Digest/Sha256.lean

The SHA-256 digest of a sequence of bytes.

A message is padded to whole blocks of sixteen words, the blocks are folded
into a chain of eight words, and the chain is the digest.  The message schedule
is a sliding window of sixteen words: a round uses the first word and appends
the word that the recurrence gives, so no array of sixty-four words is built.
-/
import TokenSheets.Text.Lines

namespace TokenSheets.Sha256

/-! ### Words -/

def rotateRight (x : UInt32) (n : UInt32) : UInt32 := (x >>> n) ||| (x <<< (32 - n))

def bigSigma0 (x : UInt32) : UInt32 := rotateRight x 2 ^^^ rotateRight x 13 ^^^ rotateRight x 22

def bigSigma1 (x : UInt32) : UInt32 := rotateRight x 6 ^^^ rotateRight x 11 ^^^ rotateRight x 25

def smallSigma0 (x : UInt32) : UInt32 := rotateRight x 7 ^^^ rotateRight x 18 ^^^ (x >>> 3)

def smallSigma1 (x : UInt32) : UInt32 := rotateRight x 17 ^^^ rotateRight x 19 ^^^ (x >>> 10)

def choose (x y z : UInt32) : UInt32 := (x &&& y) ^^^ (~~~x &&& z)

def majority (x y z : UInt32) : UInt32 := (x &&& y) ^^^ (x &&& z) ^^^ (y &&& z)

/-- The word of each round. -/
def roundWords : List UInt32 :=
  [0x428a2f98, 0x71374491, 0xb5c0fbcf, 0xe9b5dba5, 0x3956c25b, 0x59f111f1, 0x923f82a4, 0xab1c5ed5,
   0xd807aa98, 0x12835b01, 0x243185be, 0x550c7dc3, 0x72be5d74, 0x80deb1fe, 0x9bdc06a7, 0xc19bf174,
   0xe49b69c1, 0xefbe4786, 0x0fc19dc6, 0x240ca1cc, 0x2de92c6f, 0x4a7484aa, 0x5cb0a9dc, 0x76f988da,
   0x983e5152, 0xa831c66d, 0xb00327c8, 0xbf597fc7, 0xc6e00bf3, 0xd5a79147, 0x06ca6351, 0x14292967,
   0x27b70a85, 0x2e1b2138, 0x4d2c6dfc, 0x53380d13, 0x650a7354, 0x766a0abb, 0x81c2c92e, 0x92722c85,
   0xa2bfe8a1, 0xa81a664b, 0xc24b8b70, 0xc76c51a3, 0xd192e819, 0xd6990624, 0xf40e3585, 0x106aa070,
   0x19a4c116, 0x1e376c08, 0x2748774c, 0x34b0bcb5, 0x391c0cb3, 0x4ed8aa4a, 0x5b9cca4f, 0x682e6ff3,
   0x748f82ee, 0x78a5636f, 0x84c87814, 0x8cc70208, 0x90befffa, 0xa4506ceb, 0xbef9a3f7, 0xc67178f2]

/-! ### The chain -/

/-- Eight words. -/
structure Chain where
  a : UInt32
  b : UInt32
  c : UInt32
  d : UInt32
  e : UInt32
  f : UInt32
  g : UInt32
  h : UInt32
deriving DecidableEq, Repr

/-- The chain before the first block. -/
def Chain.start : Chain :=
  ⟨0x6a09e667, 0xbb67ae85, 0x3c6ef372, 0xa54ff53a, 0x510e527f, 0x9b05688c, 0x1f83d9ab, 0x5be0cd19⟩

def Chain.add (x y : Chain) : Chain :=
  ⟨x.a + y.a, x.b + y.b, x.c + y.c, x.d + y.d, x.e + y.e, x.f + y.f, x.g + y.g, x.h + y.h⟩

def Chain.words (x : Chain) : List UInt32 := [x.a, x.b, x.c, x.d, x.e, x.f, x.g, x.h]

/-- One round with its word `k` and the schedule word `w`. -/
def Chain.round (x : Chain) (k w : UInt32) : Chain :=
  let t1 := x.h + bigSigma1 x.e + choose x.e x.f x.g + k + w
  let t2 := bigSigma0 x.a + majority x.a x.b x.c
  ⟨t1 + t2, x.a, x.b, x.c, x.d + t1, x.e, x.f, x.g⟩

/-- The schedule window after its first word was used. -/
def slide : List UInt32 → List UInt32
  | [] => []
  | w :: rest =>
    rest ++ [smallSigma1 (rest.getD 13 0) + rest.getD 8 0 + smallSigma0 (rest.getD 0 0) + w]

/-- All rounds on a working chain, with the schedule window beside it. -/
def rounds : List UInt32 → List UInt32 → Chain → Chain
  | [], _, x => x
  | k :: ks, window, x => rounds ks (slide window) (x.round k (window.headD 0))

/-- The chain after one more block of sixteen words. -/
def compress (x : Chain) (block : List UInt32) : Chain := x.add (rounds roundWords block x)

/-! ### Blocks -/

/-- The bytes of a number, the most significant first, in as many places as given. -/
def bigEndian (places n : Nat) : List UInt8 :=
  (List.range places).reverse.map fun i => UInt8.ofNat (n / Nat.pow 256 i % 256)

/-- The message with a one bit, zeros and its length in bits, in whole blocks. -/
def pad (message : List UInt8) : List UInt8 :=
  let size := message.length
  message ++ 0x80 :: (List.replicate ((119 - size % 64) % 64) 0 ++ bigEndian 8 (size * 8))

/-- Words of four bytes each; an incomplete last word is dropped. -/
def toWords : List UInt8 → List UInt32
  | a :: b :: c :: d :: rest =>
    (a.toUInt32 <<< 24 ||| b.toUInt32 <<< 16 ||| c.toUInt32 <<< 8 ||| d.toUInt32) :: toWords rest
  | _ => []

/-- The chain after the given number of blocks. -/
def chain : Nat → List UInt32 → Chain → Chain
  | 0, _, x => x
  | n + 1, ws, x => chain n (ws.drop 16) (compress x (ws.take 16))

/-- The thirty-two bytes of the digest. -/
def digest (message : List UInt8) : List UInt8 :=
  let words := toWords (pad message)
  (chain (words.length / 16) words .start).words.flatMap fun w => bigEndian 4 w.toNat

/-- The digest as sixty-four lower-case hexadecimal digits. -/
def hex (message : List UInt8) : String := String.ofList (hexText (digest message))

/-- The digest of the UTF-8 form of a text. -/
def hexOfText (text : String) : String := hex text.toUTF8.toList

/-- The messages of one block and of two blocks that the standard works out. -/
example :
    hex [0x61, 0x62, 0x63] = "ba7816bf8f01cfea414140de5dae2223b00361a396177a9cb410ff61f20015ad" ∧
      hexOfText "abcdbcdecdefdefgefghfghighijhijkijkljklmklmnlmnomnopnopq" =
        "248d6a61d20638b8e5c026930c3e6039a33ce45964ff2167f6ecedd419db06c1" := by
  decide +kernel

end TokenSheets.Sha256
