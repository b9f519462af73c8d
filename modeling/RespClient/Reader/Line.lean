import RespClient.Command.Frame
import RespClient.Text.Blank

/-!
# Reply lines

A reply arrives as lines.  A *control* line says by its first byte what it is; a
*payload* line is the content of a bulk string and is never read as anything else.
Here too are the faults of a reply stream: each means that replies can no longer be told
apart, so the connection has to end.
-/

namespace RespClient

/-! ## §1  Faults -/

/-- Why a reply stream cannot be read on. -/
inductive Fault
  /-- The reply of a command begins with the wrong marker. -/
  | mismatch (kind : Kind) (found : UInt8)
  | unexpectedReply
  | invalidInteger (text : String)
  /-- The bytes after a bulk string are not the end of a line. -/
  | invalidBulkTerminator
  | emptyLine
  /-- An array with more elements than lines can be counted. -/
  | lineCountOverflow (count : Int64)
  deriving DecidableEq, Repr

namespace Fault

/-- A marker as the character of the same code. -/
def markerText (b : UInt8) : String := String.singleton (Char.ofNat b.toNat)

def message : Fault → String
  | .mismatch kind found =>
    "mismatched reply for " ++ kind.wireName ++ ": expected '" ++ markerText kind.shape.marker ++
      "', found '" ++ markerText found ++ "'"
  | .unexpectedReply => "reply received with no pending command"
  | .invalidInteger text => "invalid integer in reply line: " ++ text
  | .invalidBulkTerminator => "bulk payload not terminated by CRLF"
  | .emptyLine => "empty reply line"
  | .lineCountOverflow count =>
    "array of " ++ Numeral.ofInt64 count ++ " elements exceeds the line counter"

/-- The fault in words, for the caller whose reply it spoilt. -/
def summary : Fault → String
  | .mismatch .. => "Invalid response found"
  | .unexpectedReply => "Unexpected response found"
  | .invalidInteger text => "Invalid integer in response: " ++ text
  | .invalidBulkTerminator => "Invalid bulk response terminator"
  | .emptyLine => "Empty response line"
  | .lineCountOverflow count => "Invalid response array length: " ++ Numeral.ofInt64 count

end Fault

/-! ## §2  Lines -/

/-- A line that has fully arrived, without its end. -/
inductive Line
  | control (bytes : List UInt8)
  | payload (bytes : List UInt8)
  deriving DecidableEq, Repr

namespace Line

/-- The byte that says what the line is; a payload has none. -/
def marker? : Line → Option UInt8
  | .control (b :: _) => some b
  | .control [] | .payload _ => none

def body : Line → List UInt8
  | .control bytes => bytes.tail
  | .payload bytes => bytes

def text (line : Line) : String := Utf8.lossy line.body

/-- The integer the line holds; blanks around it do not count. -/
def integer (line : Line) : Except Fault Int64 :=
  match Numeral.int64? (Blank.trim line.text) with
  | some i => .ok i
  | none => .error (.invalidInteger line.text)

/-! ## §3  What a line announces -/

/-- What has to follow a line before its value is complete. -/
inductive Opening
  | nothing
  | elements (count : Int64)
  | payload (length : Nat)
  deriving DecidableEq, Repr

/-- What the line announces.  Negative numbers announce a null, which is complete by
itself, as an empty array is. -/
def opening (line : Line) : Except Fault Opening :=
  match line with
  | .payload _ => .ok .nothing
  | .control [] => .error .emptyLine
  | .control (b :: _) =>
    if b = Shape.array.marker then
      match line.integer with
      | .ok count => .ok (if 0 < count then .elements count else .nothing)
      | .error fault => .error fault
    else if b = Shape.bulk.marker then
      match line.integer with
      | .ok length => .ok (if 0 ≤ length then .payload length.toInt.toNat else .nothing)
      | .error fault => .error fault
    else .ok .nothing

end Line

end RespClient
