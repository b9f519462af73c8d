/-!
# UTF-8 text

Bytes and text.  Decoding is one pass of a small machine over the bytes: between
characters nothing is held, inside a character the machine remembers how many bytes
are still owed and the range the next one must lie in.  The ranges after the lead bytes
`E0`, `ED`, `F0` and `F4` leave out overlong forms, surrogates and values beyond
`10FFFF`, so every completed value is a character.

The pass yields *pieces*: characters, and the longest starts that no further byte could
complete.  Both readers are read off the pieces: `lossy` shows one replacement
character per broken piece, `decode` refuses at the first one.
-/

namespace RespClient.Utf8

/-! ## §1  The machine -/

/-- A character whose lead byte has been read. -/
structure Lead where
  /-- Continuation bytes still to come. -/
  owed : Nat
  /-- Least value of the next byte. -/
  low : UInt8
  /-- Greatest value of the next byte. -/
  high : UInt8
  /-- The payload bits read so far. -/
  bits : Nat
  seen : Nat
  deriving DecidableEq, Repr

inductive Piece
  | char (c : Char)
  /-- The start of a character, ruled out by the byte after it. -/
  | broken (length : Nat)
  /-- The start of a character, cut off by the end of the text. -/
  | cut (length : Nat)
  deriving DecidableEq, Repr

/-- The first byte of a character: it stands alone, leads, or can start nothing. -/
def first (b : UInt8) : Piece ⊕ Lead :=
  if b < 0x80 then .inl (.char (Char.ofNat b.toNat))
  else if b < 0xC2 then .inl (.broken 1)
  else if b < 0xE0 then .inr ⟨1, 0x80, 0xBF, b.toNat - 0xC0, 1⟩
  else if b < 0xF0 then
    let low : UInt8 := if b = 0xE0 then 0xA0 else 0x80
    let high : UInt8 := if b = 0xED then 0x9F else 0xBF
    .inr ⟨2, low, high, b.toNat - 0xE0, 1⟩
  else if b < 0xF5 then
    let low : UInt8 := if b = 0xF0 then 0x90 else 0x80
    let high : UInt8 := if b = 0xF4 then 0x8F else 0xBF
    .inr ⟨3, low, high, b.toNat - 0xF0, 1⟩
  else .inl (.broken 1)

/-- A byte that comes while nothing is held. -/
def start (b : UInt8) : List Piece × Option Lead :=
  match first b with
  | .inl piece => ([piece], none)
  | .inr lead => ([], some lead)

/-- One byte: the pieces it finishes and the character it leaves open.  A byte outside
the range breaks the open character off and is then read afresh. -/
def step : Option Lead → UInt8 → List Piece × Option Lead
  | none, b => start b
  | some lead, b =>
    if lead.low ≤ b ∧ b ≤ lead.high then
      let bits := lead.bits * 64 + (b.toNat - 0x80)
      if lead.owed ≤ 1 then ([.char (Char.ofNat bits)], none)
      else ([], some ⟨lead.owed - 1, 0x80, 0xBF, bits, lead.seen + 1⟩)
    else
      let (pieces, next) := start b
      (.broken lead.seen :: pieces, next)

/-- The pieces of a text that goes on from an open character. -/
def piecesFrom : Option Lead → List UInt8 → List Piece
  | none, [] => []
  | some lead, [] => [.cut lead.seen]
  | held, b :: rest =>
    let (done, next) := step held b
    done ++ piecesFrom next rest

def pieces (bytes : List UInt8) : List Piece := piecesFrom none bytes

/-! ## §2  The two readers -/

/-- A piece as it is shown: one replacement character for whatever is no character. -/
def Piece.shown : Piece → Char
  | .char c => c
  | .broken _ | .cut _ => '\uFFFD'

def lossy (bytes : List UInt8) : String :=
  String.ofList ((pieces bytes).map Piece.shown)

/-- Why bytes are no text, and where the first fault begins. -/
inductive Fault
  /-- `length` bytes that the byte after them rules out. -/
  | invalid (length index : Nat)
  /-- The text ends inside a character. -/
  | incomplete (index : Nat)
  deriving DecidableEq, Repr

def Fault.message : Fault → String
  | .invalid length index =>
    "invalid utf-8 sequence of " ++ toString length ++ " bytes from index " ++ toString index
  | .incomplete index => "incomplete utf-8 byte sequence from index " ++ toString index

/-- The first fault of a text whose pieces begin at byte `index`. -/
def faultFrom : Nat → List Piece → Option Fault
  | _, [] => none
  | index, .char c :: rest => faultFrom (index + c.utf8Size) rest
  | index, .broken length :: _ => some (.invalid length index)
  | index, .cut _ :: _ => some (.incomplete index)

def decode (bytes : List UInt8) : Except Fault String :=
  match faultFrom 0 (pieces bytes) with
  | some fault => .error fault
  | none => .ok (lossy bytes)

/-! ## §3  Writing -/

def encode (text : String) : List UInt8 := text.toUTF8.data.toList

end RespClient.Utf8
