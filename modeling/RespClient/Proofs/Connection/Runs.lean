import RespClient.Connection.Serving
import RespClient.Proofs.Connection.Ledger

/-!
# Every slot is settled once

Two ways to use a connection. A caller may call it in any order, also after writes that failed
and bytes that could not be read, and close it in the end (§1). Or the connection is served: bytes
arrive, submissions come through a channel, and one of several things ends it (§2). In both the
ledger balances after every step, so closing leaves no slot unsettled (`slots_settle_once`).
-/

namespace RespClient

/-! ## §1  Calls -/

namespace Connection

/-- A call on a connection. What is written may fail to be. -/
inductive Call
  | send (commands : List Command) (fault : Option IoFault)
  | submit (s : Submission) (fault : Option IoFault)
  | receive (chunk : List UInt8)

/-- One call. Commands wait before they are written, so they wait also if writing fails. -/
def call : Connection × Ledger → Call → Connection × Ledger
  | (c, l), .send commands _ => ((c.send commands).2, l.hand commands none)
  | (c, l), .submit s _ => ((c.submit s).2, l.hand s.wrapped s.displaced)
  | (c, l), .receive chunk => ((c.receive chunk).connection, l.read (c.receive chunk))

/-- Calls in a row. -/
def run (s : Connection × Ledger) (calls : List Call) : Connection × Ledger := calls.foldl call s

theorem balanced_call {s : Connection × Ledger} (h : s.2.Balanced s.1.pending) (a : Call) :
    (call s a).2.Balanced (call s a).1.pending := by
  cases a with
  | send commands fault => exact h.hand commands none
  | submit b fault => exact h.hand b.wrapped b.displaced
  | receive chunk => exact h.read chunk

theorem balanced_run {s : Connection × Ledger} (h : s.2.Balanced s.1.pending) (calls : List Call) :
    (run s calls).2.Balanced (run s calls).1.pending := by
  induction calls generalizing s with
  | nil => exact h
  | cons a rest ih => exact ih (balanced_call h a)

end Connection

/-! ## §2  Serving -/

/-- Where submissions come from. -/
structure Channel where
  queued : List Submission := []
  /-- Is there anyone who could send more? -/
  isOpen : Bool := true

/-- Nothing is left and nothing can come. -/
def Channel.Exhausted (ch : Channel) : Prop := ch.queued = [] ∧ ch.isOpen = false

namespace Serving

/-- What can happen to a served connection and its channel. -/
inductive Move
  | offer (s : Submission)
  | hangUp
  | read (bytes : List UInt8)
  | readFault (fault : IoFault)
  /-- The connection looks into the channel; writing what it finds may fail. -/
  | take (fault : Option IoFault)

/-- A connection that is served, or no more. -/
inductive State
  | running (s : Serving) (ch : Channel) (l : Ledger)
  | ended (ending : Ending) (ch : Channel) (l : Ledger)

/-- The connection after an event, before it is closed. -/
def after (s : Serving) : Event → Connection
  | .read bytes => (s.connection.receive bytes).connection
  | .submission b _ => (s.connection.submit b).2
  | .readFault _ | .submissionsClosed => s.connection

/-- The ledger after an event, before the connection is closed. -/
def entry (s : Serving) (l : Ledger) : Event → Ledger
  | .read bytes => l.read (s.connection.receive bytes)
  | .submission b _ => l.hand b.wrapped b.displaced
  | .readFault _ | .submissionsClosed => l

/-- The ledger after an event, with the slots that the step settles. -/
def record (s : Serving) (l : Ledger) (e : Event) : Ledger :=
  { s.entry l e with settled := l.settled ++ (s.step e).settled }

/-- An event, after which the channel is `ch`. -/
def happen (s : Serving) (ch : Channel) (l : Ledger) (e : Event) : State :=
  match (s.step e).next with
  | .inl s' => .running s' ch (s.record l e)
  | .inr ending => .ended ending ch (s.record l e)

/-- One move. A channel without senders takes no offers, and a connection that has learnt so does
not look into it any more. -/
def move : State → Move → State
  | .running s ch l, .offer b =>
    if ch.isOpen then .running s { ch with queued := ch.queued ++ [b] } l else .running s ch l
  | .running s ch l, .hangUp => .running s { ch with isOpen := false } l
  | .running s ch l, .read bytes => happen s ch l (.read bytes)
  | .running s ch l, .readFault fault => happen s ch l (.readFault fault)
  | .running s ch l, .take fault =>
    if s.accepting then
      match ch.queued with
      | b :: rest => happen s { ch with queued := rest } l (.submission b fault)
      | [] => if ch.isOpen then .running s ch l else happen s ch l .submissionsClosed
    else .running s ch l
  | .ended ending ch l, _ => .ended ending ch l

/-- A new connection is served from a channel. -/
def serve (ch : Channel) (moves : List Move) : State := moves.foldl move (.running {} ch {})

theorem balanced_entry {s : Serving} {l : Ledger} (h : l.Balanced s.connection.pending)
    (e : Event) : (s.entry l e).Balanced (s.after e).pending := by
  cases e with
  | read bytes => exact h.read bytes
  | submission b fault => exact h.hand b.wrapped b.displaced
  | readFault fault => exact h
  | submissionsClosed => exact h

/-- Serving goes on with what is settled so far, or the channel is exhausted and nobody waits. -/
theorem goOn_cases (s : Serving) (written : List UInt8) (settled : List Settlement) :
    ((goOn s written settled).next = .inl s ∧ (goOn s written settled).settled = settled) ∨
    ((goOn s written settled).next = .inr .submissionsClosed ∧
      (goOn s written settled).settled = settled ++ s.connection.close ∧
      s.connection.pending = [] ∧ s.accepting = false) := by
  unfold goOn
  split
  · next h =>
      simp only [Bool.and_eq_true, Bool.not_eq_true', List.isEmpty_iff] at h
      exact .inr ⟨rfl, rfl, h.2, h.1⟩
  · exact .inl ⟨rfl, rfl⟩

theorem record_open {s : Serving} {l : Ledger} {e : Event}
    (h : l.settled ++ (s.step e).settled = (s.entry l e).settled) : s.record l e = s.entry l e := by
  unfold record
  rw [h]

theorem record_closed {s : Serving} {l : Ledger} {e : Event}
    (h : l.settled ++ (s.step e).settled = (s.entry l e).settled ++ (s.after e).close) :
    s.record l e = (s.entry l e).close (s.after e) := by
  unfold record
  rw [h]
  rfl

/-- What an event does: serving goes on from the connection after it, or that connection is closed.
It ends for want of submissions only if none can come and nobody waits. -/
inductive Next (s : Serving) (l : Ledger) (e : Event) : Prop
  | goesOn (accepting : Bool) (next : (s.step e).next = .inl ⟨s.after e, accepting⟩)
      (record : s.record l e = s.entry l e)
      (closed : accepting = false → s.accepting = false ∨ e = .submissionsClosed)
  | ends (ending : Ending) (next : (s.step e).next = .inr ending)
      (record : s.record l e = (s.entry l e).close (s.after e))
      (closed : ending = .submissionsClosed →
        (s.after e).pending = [] ∧ (s.accepting = false ∨ e = .submissionsClosed))

theorem next_of_goOn {s : Serving} {l : Ledger} {e : Event} (accepting : Bool)
    {written : List UInt8} {settled : List Settlement}
    (hstep : s.step e = goOn ⟨s.after e, accepting⟩ written settled)
    (hentry : (s.entry l e).settled = l.settled ++ settled)
    (hclosed : accepting = false → s.accepting = false ∨ e = .submissionsClosed) : Next s l e := by
  rcases goOn_cases ⟨s.after e, accepting⟩ written settled with
    ⟨hnext, hset⟩ | ⟨hnext, hset, hp, ha⟩
  · refine .goesOn accepting (by rw [hstep, hnext]) (record_open ?_) hclosed
    rw [hstep, hset, hentry]
  · refine .ends .submissionsClosed (by rw [hstep, hnext]) (record_closed ?_) fun _ => ?_
    · rw [hstep, hset, hentry, List.append_assoc]
    · exact ⟨hp, hclosed ha⟩

theorem next_of_finish {s : Serving} {l : Ledger} {e : Event} (ending : Ending)
    {settled : List Settlement} (hstep : s.step e = finish (s.after e) ending settled)
    (hentry : (s.entry l e).settled = l.settled ++ settled)
    (hending : ending ≠ .submissionsClosed) : Next s l e := by
  refine .ends ending (by rw [hstep]; rfl) (record_closed ?_) fun h => absurd h hending
  rw [hstep, hentry, List.append_assoc]
  rfl

/-- **What an event does.** -/
theorem step_next (s : Serving) (l : Ledger) (e : Event) : Next s l e := by
  cases e with
  | read bytes =>
      cases bytes with
      | nil =>
          have hnil : s.connection.receive [] =
              { reader := s.connection.reader, pending := s.connection.pending } :=
            Reader.feed_nil s.connection.reader s.connection.pending
          have hafter : s.after (.read []) = s.connection := congrArg Progress.connection hnil
          have hentry : (s.entry l (.read [])).settled = l.settled ++ [] :=
            congrArg (fun p : Progress => l.settled ++ p.settled) hnil
          refine next_of_finish .closed ?_ hentry (by simp)
          rw [hafter]
          rfl
      | cons b bytes =>
          cases hf : (s.connection.receive (b :: bytes)).fault with
          | some fault =>
              have hstep : s.step (.read (b :: bytes)) =
                  finish (s.after (.read (b :: bytes))) (.protocol fault)
                    (s.connection.receive (b :: bytes)).settled := by
                simp only [step, hf]
                rfl
              exact next_of_finish (.protocol fault) hstep rfl (by simp)
          | none =>
              have hstep : s.step (.read (b :: bytes)) =
                  goOn ⟨s.after (.read (b :: bytes)), s.accepting⟩ []
                    (s.connection.receive (b :: bytes)).settled := by
                simp only [step, hf]
                rfl
              exact next_of_goOn s.accepting hstep rfl .inl
  | readFault fault =>
      exact next_of_finish (.io fault) rfl (List.append_nil _).symm (by simp)
  | submission b fault? =>
      cases fault? with
      | some fault => exact next_of_finish (.io fault) rfl rfl (by simp)
      | none => exact next_of_goOn s.accepting rfl rfl .inl
  | submissionsClosed =>
      exact next_of_goOn false rfl (List.append_nil _).symm fun _ => .inr rfl

/-! ## §3  Every slot -/

/-- The ledger balances while the connection is served, and at the end every slot is settled. A
connection that looks into the channel no more has found it exhausted; when it ends for want of
submissions the channel is exhausted and no command was left to fail. -/
def State.Accounted : State → Prop
  | .running s ch l => l.Balanced s.connection.pending ∧ (s.accepting = false → ch.Exhausted)
  | .ended ending ch l =>
      ∃ unreached, l.Settled unreached ∧
        (ending = .submissionsClosed → ch.Exhausted ∧ unreached = [])

theorem accounted_happen {s : Serving} {ch : Channel} {l : Ledger} {e : Event}
    (h : l.Balanced s.connection.pending)
    (hch : s.accepting = false ∨ e = .submissionsClosed → ch.Exhausted) :
    (happen s ch l e).Accounted := by
  have hentry := balanced_entry h e
  unfold happen
  rcases step_next s l e with
    ⟨accepting, hnext, hrecord, hclosed⟩ | ⟨ending, hnext, hrecord, hclosed⟩
  · rw [hnext, hrecord]
    exact ⟨hentry, fun ha => hch (hclosed ha)⟩
  · rw [hnext, hrecord]
    refine ⟨(s.after e).pending, hentry.close, fun hend => ?_⟩
    obtain ⟨hp, hwhy⟩ := hclosed hend
    exact ⟨hch hwhy, hp⟩

theorem accounted_move {state : State} (h : state.Accounted) (m : Move) :
    (move state m).Accounted := by
  cases state with
  | ended ending ch l => exact h
  | running s ch l =>
      obtain ⟨hbal, hch⟩ := h
      cases m with
      | offer b =>
          unfold move
          dsimp only
          split
          · next hopen =>
              refine ⟨hbal, fun ha => ?_⟩
              exact absurd (hch ha).2 (by simp [hopen])
          · exact ⟨hbal, hch⟩
      | hangUp => exact ⟨hbal, fun ha => ⟨(hch ha).1, rfl⟩⟩
      | read bytes =>
          have hwhy : s.accepting = false ∨ Event.read bytes = .submissionsClosed → ch.Exhausted :=
            fun h => hch (h.resolve_right (by simp))
          exact accounted_happen hbal hwhy
      | readFault fault =>
          have hwhy : s.accepting = false ∨ Event.readFault fault = .submissionsClosed →
              ch.Exhausted := fun h => hch (h.resolve_right (by simp))
          exact accounted_happen hbal hwhy
      | take fault =>
          unfold move
          dsimp only
          split
          · next ha =>
              split
              · exact accounted_happen hbal fun h => absurd h (by simp [ha])
              · next hq =>
                  split
                  · exact ⟨hbal, hch⟩
                  · next hopen => exact accounted_happen hbal fun _ => ⟨hq, by simpa using hopen⟩
          · exact ⟨hbal, hch⟩

theorem accounted_foldl {state : State} (h : state.Accounted) (moves : List Move) :
    (moves.foldl move state).Accounted := by
  induction moves generalizing state with
  | nil => exact h
  | cons m rest ih => exact ih (accounted_move h m)

/-- **Every slot is settled once**: whatever calls are made on a new connection before it is closed,
and however it is served, each slot handed over gets exactly one reply, in the order of the
commands, and none is dropped. -/
theorem slots_settle_once :
    (∀ calls : List Connection.Call,
      let (c, l) := Connection.run ({}, {}) calls
      (l.close c).Settled c.pending ∧ c.drained = l.sent.length - l.answered.length) ∧
    ∀ (ch : Channel) (moves : List Move), (serve ch moves).Accounted := by
  constructor
  · intro calls
    have hempty : (({}, {}) : Connection × Ledger).2.Balanced [] := Ledger.balanced_empty
    have hbal := Connection.balanced_run hempty calls
    have hqueue := congrArg List.length hbal.queue
    rw [List.length_append, List.length_map] at hqueue
    exact ⟨hbal.close, (Nat.sub_eq_of_eq_add' hqueue).symm⟩
  · intro ch moves
    have hstart : (State.running {} ch {}).Accounted :=
      ⟨Ledger.balanced_empty, fun h => absurd h (by simp)⟩
    exact accounted_foldl hstart moves

/-- Serving does end for want of submissions. -/
example : serve {} [.hangUp, .take none] = .ended .submissionsClosed { isOpen := false } {} := rfl

end Serving

end RespClient
