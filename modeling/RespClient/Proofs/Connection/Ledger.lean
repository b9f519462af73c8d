import RespClient.Connection.Basic
import RespClient.Proofs.Reader.Queue

/-!
# The ledger of a connection

What was handed to a connection, what was answered, and which slots ended how, in order. The
ledger balances when the commands handed over are those answered followed by those still
waiting, and the slots that ended are exactly those of the answered commands (`Balanced`).
Every operation keeps the balance, so at the end only the waiting commands are left to settle,
and closing settles them (`Balanced.close`).
-/

namespace RespClient

/-! ## §1  How slots end -/

/-- The slot of a command, with the reply it gets. -/
def Command.replied (c : Command) (reply : Reply) : List (Slot × Reply) :=
  c.slot.toList.map (·, reply)

namespace Settlement

/-- The slots that got a reply, in order. -/
def replies (settlements : List Settlement) : List (Slot × Reply) :=
  settlements.filterMap fun s =>
    match s.outcome with
    | .reply reply => some (s.slot, reply)
    | .dropped => none

/-- The slots that were dropped, in order. -/
def drops (settlements : List Settlement) : List Slot :=
  settlements.filterMap fun s =>
    match s.outcome with
    | .reply _ => none
    | .dropped => some s.slot

@[simp] theorem replies_append (xs ys : List Settlement) :
    replies (xs ++ ys) = replies xs ++ replies ys := List.filterMap_append

@[simp] theorem drops_append (xs ys : List Settlement) :
    drops (xs ++ ys) = drops xs ++ drops ys := List.filterMap_append

@[simp] theorem replies_drop (slot : Option Slot) : replies (drop slot) = [] := by
  cases slot <;> rfl

@[simp] theorem drops_drop (slot : Option Slot) : drops (drop slot) = slot.toList := by
  cases slot <;> rfl

theorem replies_resolve (c : Command) (reply : Reply) :
    replies (c.resolve reply) = c.replied reply := by
  unfold Command.resolve Command.replied deliver
  cases c.slot <;> rfl

theorem drops_resolve (c : Command) (reply : Reply) : drops (c.resolve reply) = [] := by
  unfold Command.resolve deliver
  cases c.slot <;> rfl

/-- Commands that are resolved one after the other settle their slots in that order. -/
theorem replies_flatMap_resolve {α : Type} (command : α → Command) (reply : α → Reply)
    (xs : List α) :
    replies (xs.flatMap fun x => (command x).resolve (reply x)) =
      xs.flatMap fun x => (command x).replied (reply x) := by
  induction xs with
  | nil => rfl
  | cons x rest ih =>
      rw [List.flatMap_cons, List.flatMap_cons, replies_append, replies_resolve, ih]

theorem drops_flatMap_resolve {α : Type} (command : α → Command) (reply : α → Reply)
    (xs : List α) : drops (xs.flatMap fun x => (command x).resolve (reply x)) = [] := by
  induction xs with
  | nil => rfl
  | cons x rest ih => rw [List.flatMap_cons, drops_append, drops_resolve, ih, List.append_nil]

end Settlement

/-- Whatever the replies are, the slots are those of the commands. -/
theorem Command.slots_flatMap_replied {α : Type} (command : α → Command) (reply : α → Reply)
    (xs : List α) :
    (xs.flatMap fun x => (command x).replied (reply x)).map Prod.fst =
      (xs.map command).filterMap (·.slot) := by
  induction xs with
  | nil => rfl
  | cons x rest ih =>
      rw [List.flatMap_cons, List.map_append, ih, List.map_cons, List.filterMap_cons,
        Command.replied]
      cases (command x).slot <;> rfl

/-! ## §2  The ledger -/

/-- What has become of the commands of a connection. -/
structure Ledger where
  /-- The commands handed over, in order. -/
  sent : List Command := []
  /-- The slots that had to make room when a submission was wrapped. -/
  displaced : List Slot := []
  /-- The commands reached by a reply, in order. -/
  answered : List Answer := []
  /-- The slots that ended, in order. -/
  settled : List Settlement := []

namespace Ledger

open Settlement (replies drops)

/-- Commands are handed over. -/
def hand (l : Ledger) (commands : List Command) (displaced : Option Slot) : Ledger :=
  { l with
    sent := l.sent ++ commands
    displaced := l.displaced ++ displaced.toList
    settled := l.settled ++ Settlement.drop displaced }

/-- Replies are read. -/
def read (l : Ledger) (p : Progress) : Ledger :=
  { l with answered := l.answered ++ p.answered, settled := l.settled ++ p.settled }

/-- The connection ends. -/
def close (l : Ledger) (c : Connection) : Ledger := { l with settled := l.settled ++ c.close }

/-- The commands handed over were answered or are waiting, and the slots of those answered have
their replies. -/
structure Balanced (l : Ledger) (pending : List Command) : Prop where
  queue : l.sent = l.answered.map (·.command) ++ pending
  replied : replies l.settled = l.answered.flatMap fun a => a.command.replied a.reply
  dropped : drops l.settled = l.displaced

/-- Every slot handed over got one reply, in the order of the commands, and none was dropped: the
command's own reply if it was reached, else the news that the socket is gone. -/
structure Settled (l : Ledger) (unreached : List Command) : Prop where
  once : (replies l.settled).map Prod.fst = l.sent.filterMap (·.slot)
  dropped : drops l.settled = l.displaced
  queue : l.sent = l.answered.map (·.command) ++ unreached
  replied : replies l.settled =
    (l.answered.flatMap fun a => a.command.replied a.reply) ++
      unreached.flatMap fun c => c.replied .socketClosed

variable {l : Ledger} {pending : List Command}

theorem balanced_empty : Balanced {} [] := ⟨rfl, rfl, rfl⟩

theorem Balanced.hand (h : l.Balanced pending) (commands : List Command) (displaced : Option Slot) :
    (l.hand commands displaced).Balanced (pending ++ commands) := by
  refine ⟨?_, ?_, ?_⟩
  · show l.sent ++ commands = l.answered.map (·.command) ++ (pending ++ commands)
    rw [h.queue, List.append_assoc]
  · show replies (l.settled ++ Settlement.drop displaced) = _
    rw [Settlement.replies_append, Settlement.replies_drop, List.append_nil]
    exact h.replied
  · show drops (l.settled ++ Settlement.drop displaced) = l.displaced ++ displaced.toList
    rw [Settlement.drops_append, Settlement.drops_drop, h.dropped]

/-- A chunk, read in any state, also one that ends in a fault. -/
theorem Balanced.read {c : Connection} (h : l.Balanced c.pending) (chunk : List UInt8) :
    (l.read (c.receive chunk)).Balanced (c.receive chunk).pending := by
  have hkeeps : (c.receive chunk).Keeps c.pending := Reader.feed_keeps c.reader c.pending chunk
  generalize c.receive chunk = p at hkeeps ⊢
  refine ⟨?_, ?_, ?_⟩
  · show l.sent = (l.answered ++ p.answered).map (·.command) ++ p.pending
    rw [h.queue, List.map_append, List.append_assoc, hkeeps]
  · show replies (l.settled ++ p.settled) = (l.answered ++ p.answered).flatMap _
    rw [Settlement.replies_append, h.replied, List.flatMap_append]
    exact congrArg _ (Settlement.replies_flatMap_resolve Answer.command Answer.reply p.answered)
  · show drops (l.settled ++ p.settled) = l.displaced
    rw [Settlement.drops_append, h.dropped]
    have hnone : drops p.settled = [] :=
      Settlement.drops_flatMap_resolve Answer.command Answer.reply p.answered
    rw [hnone, List.append_nil]

/-- **Closing settles what is left.** -/
theorem Balanced.close {c : Connection} (h : l.Balanced c.pending) :
    (l.close c).Settled c.pending := by
  have hclosed : replies c.close = c.pending.flatMap fun c => c.replied .socketClosed :=
    Settlement.replies_flatMap_resolve id (fun _ => .socketClosed) c.pending
  have hreplied : replies (l.close c).settled =
      (l.answered.flatMap fun a => a.command.replied a.reply) ++
        c.pending.flatMap fun c => c.replied .socketClosed := by
    show replies (l.settled ++ c.close) = _
    rw [Settlement.replies_append, h.replied, hclosed]
  refine ⟨?_, ?_, h.queue, hreplied⟩
  · have hanswered := Command.slots_flatMap_replied Answer.command Answer.reply l.answered
    have hpending := Command.slots_flatMap_replied id (fun _ => .socketClosed) c.pending
    rw [List.map_id] at hpending
    rw [hreplied, List.map_append, hanswered]
    show _ ++ _ = l.sent.filterMap (·.slot)
    rw [h.queue, List.filterMap_append]
    exact congrArg _ hpending
  · show drops (l.settled ++ c.close) = l.displaced
    have hnone : drops c.close = [] :=
      Settlement.drops_flatMap_resolve id (fun _ => .socketClosed) c.pending
    rw [Settlement.drops_append, h.dropped, hnone, List.append_nil]

end Ledger

end RespClient
