import RespClient.Command.Basic
import RespClient.Text.Numeral
import RespClient.Text.Utf8

/-!
# Request frames

A command goes over the wire as a list of tokens, its name and its arguments.  The frame
announces how many tokens follow and before each token its length in bytes, so what the
tokens contain does not matter: `readRequest` finds the same tokens again by lengths
alone.
-/

namespace RespClient.Frame

/-- A line ends with these two bytes. -/
def crlf : List UInt8 := [0x0D, 0x0A]

/-! ## §1  Writing -/

def header (marker : UInt8) (n : Nat) : List UInt8 := marker :: (Numeral.bytes n ++ crlf)

/-- One token with its length before it. -/
def bulk (token : List UInt8) : List UInt8 :=
  header Shape.bulk.marker token.length ++ token ++ crlf

def request (tokens : List (List UInt8)) : List UInt8 :=
  header Shape.array.marker tokens.length ++ tokens.flatMap bulk

/-! ## §2  Reading -/

/-- The value of digits that go on from `value`, up to the end of the line, and the bytes
after it. -/
def readNumberFrom (value : Nat) : List UInt8 → Option (Nat × List UInt8)
  | 0x0D :: 0x0A :: rest => some (value, rest)
  | b :: rest =>
    if 0x30 ≤ b ∧ b ≤ 0x39 then readNumberFrom (value * 10 + (b.toNat - 0x30)) rest else none
  | [] => none

/-- The number of a header line with this marker, and the bytes after the line. -/
def readHeader (marker : UInt8) : List UInt8 → Option (Nat × List UInt8)
  | m :: b :: rest =>
    if m = marker ∧ 0x30 ≤ b ∧ b ≤ 0x39 then readNumberFrom 0 (b :: rest) else none
  | _ => none

def readBulk (bytes : List UInt8) : Option (List UInt8 × List UInt8) :=
  match readHeader Shape.bulk.marker bytes with
  | some (length, rest) =>
    match rest.drop length with
    | 0x0D :: 0x0A :: after => some (rest.take length, after)
    | _ => none
  | none => none

def readBulks : Nat → List UInt8 → Option (List (List UInt8) × List UInt8)
  | 0, bytes => some ([], bytes)
  | n + 1, bytes =>
    match readBulk bytes with
    | some (token, rest) => (readBulks n rest).map fun (tokens, after) => (token :: tokens, after)
    | none => none

def readRequest (bytes : List UInt8) : Option (List (List UInt8) × List UInt8) :=
  match readHeader Shape.array.marker bytes with
  | some (n, rest) => readBulks n rest
  | none => none

def readRequests : Nat → List UInt8 → Option (List (List (List UInt8)) × List UInt8)
  | 0, bytes => some ([], bytes)
  | k + 1, bytes =>
    match readRequest bytes with
    | some (tokens, rest) =>
      (readRequests k rest).map fun (frames, after) => (tokens :: frames, after)
    | none => none

end RespClient.Frame

namespace RespClient.Command

/-- What the command sends: its wire name and its arguments. -/
def tokens (c : Command) : List (List UInt8) :=
  Utf8.encode c.kind.wireName :: c.args.map Utf8.encode

def frame (c : Command) : List UInt8 := Frame.request c.tokens

/-- The frames of commands that are written in one go. -/
def frames (commands : List Command) : List UInt8 := commands.flatMap frame

end RespClient.Command
