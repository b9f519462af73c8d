import RespClient.Proofs.Session.Handle

/-!
# The account of a transaction

A transaction is recorded, executed or discarded, and recorded again, until its handle is dropped.
An account of that is kept from what is done with the handle alone (`Account`): what is recorded
now, and what has become of each batch before. The account is right (`Account.Right`) if the slots
of a batch that was thrown away were dropped, those of a batch that was executed got their shares of
the reply, each of them once, and what is recorded now is pending.

An execution is under way only while the slot of its submission has not ended, the channel took it,
and its time is not over (`Execution.UnderWay`). So a right account is complete
(`Account.Right.complete`) as soon as the time of every execution is over and everybody has looked
at the clock: then each round trip has come to its end (`Execution.Came`) and everybody has heard so
(`Execution.Over`).
-/

namespace RespClient

/-! ## §1  The account -/

/-- An execution: who waits for it, the slot of its submission, when its time is over, and how its
round trip ends if that is known as it begins. -/
structure Execution where
  id : String
  slot : Slot
  deadline : Nat
  atOnce : Option RoundTrip

/-- The execution that somebody begins now. -/
def Session.executing (s : Session) (id : String) : Execution :=
  { id, slot := s.freshSlot.1, deadline := s.now + s.replyTimeout, atOnce := s.atOnce? }

/-- What becomes of a batch. -/
inductive Fate
  | discarded
  | executed (e : Execution)

structure Account where
  /-- The commands recorded now, with their callers' slots. -/
  batch : List (Command × Slot) := []
  /-- The batches before, oldest first. -/
  past : List (List (Command × Slot) × Fate) := []
  dropped : Bool := false

namespace Account

def close (acc : Account) (fate : Fate) : Account :=
  { acc with batch := [], past := acc.past ++ [(acc.batch, fate)] }

/-- The account after something is done with the handle. Executing nothing is nothing. -/
def next (acc : Account) (s : Session) : Handling → Account
  | .record _ (.ok c) => { acc with batch := acc.batch ++ [(c, s.freshSlot.1)] }
  | .record _ (.error _) => acc
  | .discard => acc.close .discarded
  | .exec id =>
    if acc.batch.isEmpty then acc
    else acc.close (.executed (s.executing id))
  | .drop => { acc.close .discarded with dropped := true }

/-- The account after a move. Nothing can be done with a handle that is away. -/
def after (tx : String) (acc : Account) (s : Session) (m : Session.Move) : Account :=
  match m.handling? tx, s.transaction? tx with
  | some h, some _ => acc.next s h
  | _, _ => acc

/-- All commands of the account. -/
def recorded (acc : Account) : List (Command × Slot) := acc.past.flatMap Prod.fst ++ acc.batch

/-- What is submitted of a batch: the slot that `EXEC` settles, and the commands. -/
def submitted? : List (Command × Slot) × Fate → Option (Option Slot × List Command)
  | (_, .discarded) => none
  | (batch, .executed e) => some (some e.slot, batch.map Prod.fst)

/-- What of that the channel takes. -/
def submission? : List (Command × Slot) × Fate → Option (Option Slot × List Command)
  | (_, .discarded) => none
  | (batch, .executed e) =>
    if e.atOnce = some .notSubmitted then none else some (some e.slot, batch.map Prod.fst)

end Account

namespace Session

/-- The account of a transaction in the course of a run. -/
def account (tx : String) (s : Session) (acc : Account) : List Move → Account
  | [] => acc
  | m :: rest => (s.move m).account tx (acc.after tx s m) rest

/-- What is submitted when something is done with the handle, be it taken by the channel or not. -/
def submitting (s : Session) (t : Transaction) : Handling → List Submission
  | .exec _ => (t.submission s.freshSlot.1).toOption.toList
  | _ => []

def submittingIn (tx : String) (s : Session) (m : Move) : List Submission :=
  match m.handling? tx, s.transaction? tx with
  | some h, some t => s.submitting t h
  | _, _ => []

/-- What is submitted in the course of a run by what is done with the handle. -/
def submitted (tx : String) (s : Session) : List Move → List Submission
  | [] => []
  | m :: rest => s.submittingIn tx m ++ (s.move m).submitted tx rest

/-- What of that is handed over, since the channel takes it. -/
def handedOver (tx : String) (s : Session) : List Move → List Submission
  | [] => []
  | m :: rest =>
    (if (m.handling? tx).isSome then s.offering m else []) ++ (s.move m).handedOver tx rest

/-! ## §2  What the account says -/

/-- The slot has not ended, and its caller waits. -/
structure Pending (s : Session) (slot : Slot) : Prop where
  settled : ∀ x ∈ s.settled, x.slot ≠ slot
  waits : ∃ w ∈ s.waits, w.task = .queued slot
  heard : ∀ w ∈ s.waits, w.task = .queued slot → w.result = none

/-- The slot has ended, once, and its caller has heard how. -/
structure Resolved (s : Session) (slot : Slot) (outcome : Outcome) : Prop where
  settled : ⟨slot, outcome⟩ ∈ s.settled
  once : (s.settled.map (·.slot)).count slot = 1
  waits : ∃ w ∈ s.waits, w.task = .queued slot
  heard : ∀ w ∈ s.waits, w.task = .queued slot →
    w.result = some (Transaction.queuedReply outcome)

end Session

namespace Execution

open Session (Pending Resolved)

/-- What is waited for. -/
inductive Waits (tx : String) (batch : List (Command × Slot)) (e : Execution) : Task → Prop
  | channel (h : e.atOnce = none) :
      Waits tx batch e (.exec tx (batch.map Prod.snd) e.slot e.deadline)
  | done {trip : RoundTrip} (h : e.atOnce = some trip) : Waits tx batch e .done

/-- The round trip has come to its end: it is known from the start, or the slot of the submission
has ended, or the time is over. -/
inductive Came (s : Session) (e : Execution) : RoundTrip → Prop
  | atOnce {trip : RoundTrip} (h : e.atOnce = some trip) : Came s e trip
  | heard {outcome : Outcome} (h : e.atOnce = none)
      (find : Settlement.find? s.settled e.slot = some outcome) : Came s e (.ofOutcome outcome)
  | late (h : e.atOnce = none) (due : e.deadline ≤ s.now) : Came s e .timedOut

/-- The execution is under way: nothing has come yet that could end it, and all who have to do with
it wait. -/
structure UnderWay (tx : String) (s : Session) (batch : List (Command × Slot)) (e : Execution) :
    Prop where
  atOnce : e.atOnce = none
  unsettled : Settlement.find? s.settled e.slot = none
  /-- Where all have stopped waiting whose time is over, this one has time left. -/
  inTime : s.hasLate = false → s.now < e.deadline
  waits : ∃ w ∈ s.waits, w.id = e.id ∧ e.Waits tx batch w.task ∧ w.result = none
  pending : ∀ c ∈ batch, s.Pending c.2

/-- The execution has ended with a reply, of which all have their shares. -/
structure Over (tx : String) (s : Session) (batch : List (Command × Slot)) (e : Execution)
    (trip : RoundTrip) : Prop where
  came : e.Came s trip
  waits : ∃ w ∈ s.waits, w.id = e.id ∧ e.Waits tx batch w.task ∧ w.result = some trip.executed
  shares : ∀ i c, batch[i]? = some c → s.Resolved c.2 (.reply (trip.executed.element i))
  /-- Nobody takes his share for the news that his command was thrown away. -/
  fair : ∀ i < batch.length, trip.executed.element i ≠ Transaction.queuedReply .dropped
  /-- Where there was no reply of the server, all hear the same. -/
  failed : (∀ r, trip ≠ .answered r) → trip.executed = .error "gateway timeout" (some 504) ∧
    ∀ i, trip.executed.element i = .error "gateway timeout" (some 504)
  /-- What the channel does not take comes back. -/
  refused : e.atOnce = some .notSubmitted → ⟨e.slot, .reply RoundTrip.noHandlers⟩ ∈ s.settled

end Execution

/-- A fate is borne. -/
inductive Fate.Borne (tx : String) (s : Session) (batch : List (Command × Slot)) : Fate → Prop
  | discarded (h : ∀ c ∈ batch, s.Resolved c.2 .dropped) : Borne tx s batch .discarded
  | underWay {e : Execution} (full : batch ≠ []) (h : e.UnderWay tx s batch) :
      Borne tx s batch (.executed e)
  | ended {e : Execution} (full : batch ≠ []) (trip : RoundTrip) (h : e.Over tx s batch trip) :
      Borne tx s batch (.executed e)

/-- **The account is right.** -/
structure Account.Right (tx : String) (acc : Account) (s : Session) : Prop where
  pending : ∀ c ∈ acc.batch, s.Pending c.2
  past : ∀ x ∈ acc.past, x.2.Borne tx s x.1
  /-- The handle holds what is recorded, unless it is away with an execution. -/
  handle : acc.dropped = false → s.transaction? tx = some { batch := acc.batch } ∨
    acc.batch = [] ∧ s.transaction? tx = none ∧
      ∃ x ∈ acc.past, ∃ e, x.2 = .executed e ∧ e.UnderWay tx s x.1
  /-- Once the handle is dropped, all is over. -/
  dropped : acc.dropped = true → s.transaction? tx = none ∧
    ∀ c ∈ acc.recorded, ∃ outcome, s.Resolved c.2 outcome

/-- Every execution is over, or it is under way and has time left. -/
def Account.InTime (tx : String) (acc : Account) (s : Session) : Prop :=
  ∀ x ∈ acc.past, ∀ e, x.2 = .executed e →
    (∃ trip, e.Over tx s x.1 trip) ∨ e.UnderWay tx s x.1 ∧ s.now < e.deadline

/-- **The account is complete**: it is right, every execution is over, and the handle holds what is
recorded. -/
structure Account.Complete (tx : String) (acc : Account) (s : Session) : Prop
    extends acc.Right tx s where
  ended : ∀ x ∈ acc.past, ∀ e, x.2 = .executed e → ∃ trip, e.Over tx s x.1 trip
  back : acc.dropped = false → s.transaction? tx = some { batch := acc.batch }

section Times

variable {tx : String} {acc : Account} {s : Session}

theorem Account.Right.inTime (h : acc.Right tx s) (hlate : s.hasLate = false) :
    acc.InTime tx s := by
  intro x hx e he
  have hborne := h.past x hx
  rw [he] at hborne
  cases hborne with
  | underWay full hunder => exact .inr ⟨hunder, hunder.inTime hlate⟩
  | ended full trip hover => exact .inl ⟨trip, hover⟩

/-- Where nobody is late and the time of every execution is over, the account is complete. -/
theorem Account.Right.complete (h : acc.Right tx s) (hlate : s.hasLate = false)
    (hdue : ∀ x ∈ acc.past, ∀ e : Execution, x.2 = .executed e → e.deadline ≤ s.now) :
    acc.Complete tx s := by
  refine ⟨h, fun x hx e he => ?_, fun hheld => ?_⟩
  · rcases h.inTime hlate x hx e he with hover | ⟨-, hleft⟩
    · exact hover
    · exact absurd hleft (Nat.not_lt.mpr (hdue x hx e he))
  · rcases h.handle hheld with hidle | ⟨-, -, x, hx, e, he, hunder⟩
    · exact hidle
    · exact absurd (hunder.inTime hlate) (Nat.not_lt.mpr (hdue x hx e he))

end Times

end RespClient
