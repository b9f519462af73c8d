import RespClient.Decimal.Binary64

/-!
# The fewest digits that read back

A float stands for every real number that rounds to it: its *cell*, which ends halfway
to the two neighbours and includes its ends when the significand is even.  The shortest
decimal is found on the grids `10 ^ e` from coarse to fine: if a point of a grid lies in
the cell, so does one of the two grid points around the number itself, so two tests per
grid are enough.  The first grid with a hit gives the fewest digits, the nearer of two
hits the best ones.
-/

namespace RespClient.Decimal

/-- The reals that round to one number.  The three bounds are numerators over `den`. -/
structure Cell where
  low : Nat
  mid : Nat
  high : Nat
  den : Nat
  /-- Do the ends belong to the cell? -/
  closed : Bool
  deriving Repr

/-- The cell of `significand · 2 ^ exponent`, in quarters of the gap above. -/
def Cell.of (significand : Nat) (exponent : Int) : Cell :=
  let scale := Nat.pow 2 (exponent - 2).toNat
  let below := if Binary64.narrowBelow significand exponent then 1 else 2
  { low := (4 * significand - below) * scale
    mid := 4 * significand * scale
    high := (4 * significand + 2) * scale
    den := Nat.pow 2 (2 - exponent).toNat
    closed := significand % 2 = 0 }

/-- The point `digits · 10 ^ exponent` over the cell's denominator, when the cell's bounds
are taken `shrink exponent` times. -/
def Cell.at (c : Cell) (digits : Nat) (exponent : Int) : Nat :=
  digits * Nat.pow 10 exponent.toNat * c.den

/-- What bounds are multiplied by to compare them with points of a grid finer than one. -/
def shrink (exponent : Int) : Nat := Nat.pow 10 (-exponent).toNat

/-- Does `digits · 10 ^ exponent` lie in the cell? -/
def Cell.holds (c : Cell) (digits : Nat) (exponent : Int) : Bool :=
  let x := c.at digits exponent
  let low := c.low * shrink exponent
  let high := c.high * shrink exponent
  if c.closed then low ≤ x && x ≤ high else low < x && x < high

/-- The greatest point of the grid that is not above the number. -/
def Cell.floor (c : Cell) (exponent : Int) : Nat :=
  c.mid * shrink exponent / c.at 1 exponent

/-- The point of the grid that lies in the cell, the nearer if both neighbours do; of two
equally near ones the upper. -/
def Cell.pick? (c : Cell) (exponent : Int) : Option Nat :=
  let d := c.floor exponent
  match c.holds d exponent, c.holds (d + 1) exponent with
  | true, true =>
    let mid := c.mid * shrink exponent
    if mid - c.at d exponent < c.at (d + 1) exponent - mid then some d else some (d + 1)
  | true, false => some d
  | false, true => some (d + 1)
  | false, false => none

/-- The least `p` with the number below `10 ^ p`. -/
def Cell.magnitude (c : Cell) : Int :=
  if c.den ≤ c.mid then ((Nat.toDigits 10 (c.mid / c.den)).length : Int)
  else 1 - ((Nat.toDigits 10 ((c.den - 1) / c.mid)).length : Int)

/-- The first hit on `tries` grids from `10 ^ exponent` on, each ten times finer than the
one before; after them the lower neighbour stands in. -/
def Cell.search (c : Cell) : Nat → Int → Nat × Int
  | 0, exponent => (c.floor exponent, exponent)
  | tries + 1, exponent =>
    match c.pick? exponent with
    | some d => (d, exponent)
    | none => c.search tries (exponent - 1)

/-- The shortest decimal `digits · 10 ^ exponent` of a positive number.  Seventeen digits
are always enough. -/
def shortest (significand : Nat) (exponent : Int) : Nat × Int :=
  let c := Cell.of significand exponent
  c.search 17 (c.magnitude - 1)

/-- `digits · 10 ^ exponent` written out, without exponent and without zeros at the end of
the fraction. -/
def positional (digits : Nat) (exponent : Int) : String :=
  let places := (-exponent).toNat
  let whole := digits * Nat.pow 10 exponent.toNat / Nat.pow 10 places
  let part := Nat.toDigits 10 (digits % Nat.pow 10 places)
  let padded := List.replicate (places - part.length) '0' ++ part
  let kept := (padded.reverse.dropWhile (· = '0')).reverse
  if kept.isEmpty then toString whole
  else toString whole ++ "." ++ String.ofList kept

/-- A float in decimal: shortest digits, always positional, `-0` kept apart from `0`. -/
def ofBinary64 (x : Binary64) : String :=
  match x.value with
  | .nan => "NaN"
  | .infinite negative => if negative then "-inf" else "inf"
  | .finite negative significand exponent =>
    let sign := if negative then "-" else ""
    if significand = 0 then sign ++ "0"
    else
      let (digits, e) := shortest significand exponent
      sign ++ positional digits e

end RespClient.Decimal
