/-
TokenSheets/Json/Fault.lean

Why JSON text cannot be read, and where.

A fault remembers how many bytes of the text were not yet taken when reading
stopped.  The line and the column follow from that number and the text alone,
so the reader itself carries no position along.
-/
import TokenSheets.Text.Utf8
import TokenSheets.Text.Lines

namespace TokenSheets.Json

/-- What is wrong with a text that is not JSON. -/
inductive Cause where
  | endInValue
  | endInNumber
  | endInObject
  | endInList
  | endInString
  | expectedValue
  | expectedIdent
  | expectedColon
  | expectedCommaOrBrace
  | expectedCommaOrBracket
  | keyNotString
  | trailingComma
  | trailingCharacters
  | invalidNumber
  | numberOutOfRange
  | invalidEscape
  | controlCharacter
  | loneSurrogate
  | endOfHexEscape
  | invalidCodePoint
  | tooDeep
deriving DecidableEq, Repr

/-- The words for a cause. -/
def Cause.message : Cause → String
  | .endInValue => "EOF while parsing a value"
  | .endInNumber => "EOF while parsing a value"
  | .endInObject => "EOF while parsing an object"
  | .endInList => "EOF while parsing a list"
  | .endInString => "EOF while parsing a string"
  | .expectedValue => "expected value"
  | .expectedIdent => "expected ident"
  | .expectedColon => "expected `:`"
  | .expectedCommaOrBrace => "expected `,` or `\x7d`"
  | .expectedCommaOrBracket => "expected `,` or `]`"
  | .keyNotString => "key must be a string"
  | .trailingComma => "trailing comma"
  | .trailingCharacters => "trailing characters"
  | .invalidNumber => "invalid number"
  | .numberOutOfRange => "number out of range"
  | .invalidEscape => "invalid escape"
  | .controlCharacter => "control character (\\u0000-\\u001F) found while parsing a string"
  | .loneSurrogate => "lone leading surrogate in hex escape"
  | .endOfHexEscape => "unexpected end of hex escape"
  | .invalidCodePoint => "invalid unicode code point"
  | .tooDeep => "recursion limit exceeded"

/-- A cause and the number of bytes that were not yet taken. -/
structure Fault where
  cause : Cause
  left : Nat
deriving DecidableEq, Repr

/-- A fault before what is left. -/
def Fault.before (cause : Cause) (rest : List Piece) : Fault := ⟨cause, sizeOfPieces rest⟩

/-- A fault after so many more bytes of what is left, or at its end. -/
def Fault.after (cause : Cause) (bytes : Nat) (rest : List Piece) : Fault :=
  ⟨cause, sizeOfPieces rest - bytes⟩

/-- A place in a text: lines count from one, columns in bytes since the line began. -/
structure Position where
  line : Nat
  column : Nat
deriving DecidableEq, Repr

/-- The place after so many bytes, given which bytes are line feeds. -/
def Position.after : Nat → List Bool → Position → Position
  | 0, _, p => p
  | _ + 1, [], p => p
  | n + 1, true :: rest, p => Position.after n rest ⟨p.line + 1, 0⟩
  | n + 1, false :: rest, p => Position.after n rest ⟨p.line, p.column + 1⟩

/-- Where in a text a fault was found. -/
def Fault.position (f : Fault) (text : List Piece) : Position :=
  Position.after (sizeOfPieces text - f.left) (text.flatMap Piece.lineFeeds) ⟨1, 0⟩

/-- A cause with its place in the text. -/
structure PlacedFault where
  cause : Cause
  position : Position
deriving DecidableEq, Repr

/-- The fault with its place. -/
def Fault.place (f : Fault) (text : List Piece) : PlacedFault := ⟨f.cause, f.position text⟩

/-- The words for a cause with its place. -/
def PlacedFault.message (f : PlacedFault) : String :=
  f.cause.message ++ " at line " ++ toString f.position.line ++
    " column " ++ toString f.position.column

end TokenSheets.Json
