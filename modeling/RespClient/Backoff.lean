/-!
# Retry delays

The time to wait before the next attempt to connect.  It begins at a base, doubles with
every failed attempt up to a maximum, and goes back to the base after a success.
Durations are bounded, and doubling stops at the bound.
-/

namespace RespClient

/-! ## §1  Durations -/

/-- The longest duration in nanoseconds: seconds are counted in 64 bits. -/
def Duration.longest : Nat := (Nat.pow 2 64 - 1) * Nat.pow 10 9 + 999999999

/-- A length of time in nanoseconds. -/
structure Duration where
  nanos : Nat
  nanos_le : nanos ≤ Duration.longest
  deriving DecidableEq, Repr

namespace Duration

def min (a b : Duration) : Duration := if a.nanos ≤ b.nanos then a else b

/-- Twice the duration, or the longest one. -/
def double (d : Duration) : Duration :=
  ⟨Nat.min (2 * d.nanos) longest, Nat.min_le_right ..⟩

/-- A number of milliseconds, or the longest duration. -/
def ofMillis (n : Nat) : Duration :=
  ⟨Nat.min (n * Nat.pow 10 6) longest, Nat.min_le_right ..⟩

def millis (d : Duration) : Nat := d.nanos / Nat.pow 10 6

end Duration

/-! ## §2  The delay -/

structure Backoff where
  base : Duration
  max : Duration
  /-- What the next failure waits. -/
  current : Duration
  deriving DecidableEq, Repr

namespace Backoff

def new (base max : Duration) : Backoff := ⟨base, max, base.min max⟩

def reset (b : Backoff) : Backoff := { b with current := b.base.min b.max }

/-- The delay after a failed attempt, and the state in which the next one is longer. -/
def failure (b : Backoff) : Duration × Backoff :=
  (b.current, { b with current := b.current.double.min b.max })

end Backoff

end RespClient
