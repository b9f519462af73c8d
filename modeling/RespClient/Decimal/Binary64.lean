/-!
# Binary floating-point numbers

A 64-bit float by its bits: a sign, 11 bits of exponent, 52 bits of fraction.  A finite
one is `± significand · 2 ^ exponent`, exactly; nothing here rounds.
-/

namespace RespClient

structure Binary64 where
  bits : UInt64
  deriving DecidableEq, Repr

namespace Binary64

inductive Value
  | nan
  | infinite (negative : Bool)
  /-- `significand · 2 ^ exponent`, or its negative. -/
  | finite (negative : Bool) (significand : Nat) (exponent : Int)
  deriving DecidableEq, Repr

def negative (x : Binary64) : Bool := x.bits.toNat / Nat.pow 2 63 = 1

def exponentField (x : Binary64) : Nat := x.bits.toNat / Nat.pow 2 52 % Nat.pow 2 11

def fractionField (x : Binary64) : Nat := x.bits.toNat % Nat.pow 2 52

/-- The value of a float.  The least exponent is shared by the subnormal numbers, whose
significands lack the leading bit. -/
def value (x : Binary64) : Value :=
  if x.exponentField = 2047 then
    if x.fractionField = 0 then .infinite x.negative else .nan
  else if x.exponentField = 0 then .finite x.negative x.fractionField (-1074)
  else .finite x.negative (Nat.pow 2 52 + x.fractionField) (x.exponentField - 1075)

/-- Does the gap below the number have half the width of the gap above it?  So it is where
a new power of two begins, except at the least exponent. -/
def narrowBelow (significand : Nat) (exponent : Int) : Bool :=
  significand = Nat.pow 2 52 && -1074 < exponent

end Binary64

end RespClient
