import RespClient.Reply.Basic

/-!
# Result slots

A caller that wants a reply opens a *slot* and keeps its receiving end; the command
carries the slot to the connection.  A slot is settled once, by a reply or by being
dropped.  Operations do not reach into a shared table: they return the settlements they
make, in order, and `Receivers` is the callers' side that takes them in.
-/

namespace RespClient

/-- The sending end of one reply. -/
structure Slot where
  id : Nat
  deriving DecidableEq, Repr

inductive Outcome
  | reply (reply : Reply)
  /-- The slot was thrown away without one. -/
  | dropped
  deriving DecidableEq, Repr

structure Settlement where
  slot : Slot
  outcome : Outcome
  deriving DecidableEq, Repr

namespace Settlement

def deliver (slot : Option Slot) (reply : Reply) : List Settlement :=
  slot.toList.map (⟨·, .reply reply⟩)

def drop (slot : Option Slot) : List Settlement :=
  slot.toList.map (⟨·, .dropped⟩)

/-- How the slot ends in a list of settlements: by the first that names it. -/
def find? (settlements : List Settlement) (slot : Slot) : Option Outcome :=
  (settlements.find? (·.slot = slot)).map (·.outcome)

end Settlement

/-! ## The receiving side -/

/-- The receiving ends still waited on, oldest first, each under a label. -/
structure Receivers where
  waiting : List (String × Slot) := []
  /-- The id of the next slot. -/
  next : Nat := 0
  deriving Repr

namespace Receivers

def opened (r : Receivers) (label : String) : Slot × Receivers :=
  (⟨r.next⟩, { r with waiting := r.waiting ++ [(label, ⟨r.next⟩)], next := r.next + 1 })

/-- Stop waiting for everything under a label; the number of receivers given up. -/
def forget (r : Receivers) (label : String) : Nat × Receivers :=
  let (gone, kept) := r.waiting.partition (·.1 = label)
  (gone.length, { r with waiting := kept })

/-- Take settlements in: what the waiting callers got, oldest slot first, and who still
waits.  A settlement nobody waits for is not seen. -/
def collect (r : Receivers) (settlements : List Settlement) :
    List (String × Outcome) × Receivers :=
  let ended := r.waiting.filterMap fun (label, slot) =>
    (Settlement.find? settlements slot).map (label, ·)
  let kept := r.waiting.filter fun (_, slot) => (Settlement.find? settlements slot).isNone
  (ended, { r with waiting := kept })

end Receivers

end RespClient
