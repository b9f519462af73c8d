/-!
# Decimal numerals

How integers are written and read.  A numeral is a run of ASCII digits, with leading
zeros allowed; a signed one may have `+` or `-` before it, an unsigned one only `+`.
Nothing else may stand there, so blanks are the caller's to remove, and a value outside
the type's range is no numeral of that type.
-/

namespace RespClient.Numeral

def digit? (c : Char) : Option Nat :=
  if '0' ≤ c ∧ c ≤ '9' then some (c.toNat - '0'.toNat) else none

/-- The value of digits that go on from `value`. -/
def digitsFrom (value : Nat) : List Char → Option Nat
  | [] => some value
  | c :: rest =>
    match digit? c with
    | some d => digitsFrom (value * 10 + d) rest
    | none => none

/-- The value of a run of digits that is not empty. -/
def digits? : List Char → Option Nat
  | [] => none
  | cs => digitsFrom 0 cs

/-- A run of digits, after a `+` if there is one. -/
def unsignedChars? : List Char → Option Nat
  | '+' :: rest => digits? rest
  | cs => digits? cs

/-- The unsigned numeral of a text, below `limit`. -/
def below? (limit : Nat) (text : String) : Option Nat :=
  (unsignedChars? text.toList).filter (· < limit)

def uint32? (text : String) : Option Nat := below? (Nat.pow 2 32) text

def uint64? (text : String) : Option Nat := below? (Nat.pow 2 64) text

def signedChars? : List Char → Option Int
  | '-' :: rest => (digits? rest).map fun n => -(n : Int)
  | cs => (unsignedChars? cs).map fun n => (n : Int)

def int64? (text : String) : Option Int64 :=
  match signedChars? text.toList with
  | some i =>
    if -0x8000000000000000 ≤ i ∧ i < 0x8000000000000000 then some (Int64.ofInt i) else none
  | none => none

/-- The digits of a natural number, most significant first, as ASCII bytes. -/
def bytes (n : Nat) : List UInt8 := (Nat.toDigits 10 n).map fun c => c.toNat.toUInt8

def ofInt64 (i : Int64) : String := toString i.toInt

end RespClient.Numeral
