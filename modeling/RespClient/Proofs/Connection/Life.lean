import Mathlib.Data.List.Induction
import RespClient.Proofs.Connection.InStep

/-!
# The life of a connection

A connection begins new, things happen to it one after the other, and in the end it is closed. Its
life is decided by these events alone (`Serving.life`): what it has written, which slots it has
settled and with what, all follow from what happened to this connection, and nothing else enters.

While it lives it is in step and its ledger balances (`Alive`); when it is over every slot that was
handed to it is settled (`Over`). What it tells its callers is what it reads, or a fault, or that
the socket is gone: none of the replies that a client makes up for itself (`Reply.Told`).
-/

namespace RespClient

/-! ## §1  What callers are told -/

/-- What a connection can tell a caller. -/
inductive Reply.Told : Reply → Prop
  | success (data : Data) : Told (.success data)
  | fail (data : Data) : Told (.fail data)
  | fault (fault : Fault) : Told (.error fault.summary none)
  | noLine (kind : Kind) : Told (RespClient.noLine kind)
  | socketClosed : Told .socketClosed

namespace Reader

theorem acknowledgement_told (kind : Kind) (lines : List Line) :
    (acknowledgement kind lines).Told := by
  unfold acknowledgement
  split
  · exact .noLine kind
  · split
    · exact .fail _
    · exact .success _

theorem decodeReply_told {kind : Kind} {lines rest : List Line} {reply : Reply}
    (h : decodeReply kind lines = ⟨.ok reply, rest⟩) : reply.Told := by
  have hshape : ∀ {d : Decoded Data}, d.map Reply.success = ⟨.ok reply, rest⟩ → reply.Told := by
    rintro ⟨result, left⟩ hd
    cases result with
    | error fault => exact absurd (congrArg Decoded.result hd) (by simp [Decoded.map, Except.map])
    | ok data =>
        have hok : reply = .success data := by
          simpa [Decoded.map, Except.map] using (congrArg Decoded.result hd).symm
        rw [hok]
        exact .success data
  have hbyShape : ∀ {p : Prop} [Decidable p] {d : Decoded Data} {fault : Fault} {left : List Line},
      (if p then d.map Reply.success else ⟨.error fault, left⟩) = ⟨.ok reply, rest⟩ →
        reply.Told := by
    intro p _ d fault left hd
    split at hd
    · exact hshape hd
    · exact absurd (congrArg Decoded.result hd) (by simp)
  unfold decodeReply at h
  cases lines with
  | nil =>
      have hnoLine : noLine kind = reply := by simpa using (congrArg Decoded.result h)
      rw [← hnoLine]
      exact .noLine kind
  | cons line lines =>
      dsimp only at h
      split at h
      · exact absurd (congrArg Decoded.result h) (by simp)
      · split at h
        · have hfail : Reply.fail (.text line.text) = reply := by
            simpa using congrArg Decoded.result h
          rw [← hfail]
          exact .fail _
        · split at h
          · split at h
            · exact absurd (congrArg Decoded.result h) (by simp)
            · split at h
              · have hnil : Reply.success .nil = reply := by simpa using congrArg Decoded.result h
                rw [← hnil]
                exact .success _
              · exact hbyShape h
          · exact hbyShape h

/-- **What a reader tells**, whatever bytes it reads. -/
theorem feed_told (r : Reader) (pending : List Command) (chunk : List UInt8) :
    ∀ a ∈ (feed r pending chunk).answered, a.reply.Told := by
  refine feed_induction (P := fun _ _ p => ∀ a ∈ p.answered, a.reply.Told) ?_ ?_ ?_ r pending chunk
  · intro r r' pending fault h a ha
    exact absurd ha (by simp)
  · intro r r' pending h a ha
    unfold finish at ha
    split at ha
    · exact absurd ha (by simp)
    · next c rest =>
        dsimp only at ha
        split at ha
        · rw [List.mem_singleton.mp ha]
          exact acknowledgement_told ..
        · split at ha
          · next reply left hdecode =>
              rw [List.mem_singleton.mp ha]
              exact decodeReply_told hdecode
          · next fault left hdecode =>
              rw [List.mem_singleton.mp ha]
              exact .fault fault
  · intro r pending p next hp hnext a ha
    cases hfault : p.fault with
    | some fault =>
        rw [Progress.andThen_of_fault hfault] at ha
        exact hp a ha
    | none =>
        rw [Progress.andThen_of_ok hfault] at ha
        rcases List.mem_append.mp ha with ha | ha
        · exact hp a ha
        · exact hnext a ha

end Reader

/-- A connection gives no codes: these are for the client's own failures. -/
theorem Reply.Told.no_code {reply : Reply} (h : reply.Told) (message : String) (code : Nat) :
    reply ≠ .error message (some code) := by
  cases h <;> simp [RespClient.noLine, Reply.socketClosed]

namespace Serving

/-! ## §2  One event after the other -/

/-- The submission that an event hands to the connection. -/
def Event.taken : Event → Option Submission
  | .submission b _ => some b
  | _ => none

/-- The bytes that an event brings. -/
def Event.received : Event → List UInt8
  | .read bytes => bytes
  | _ => []

/-- How far a connection has come. -/
structure Life where
  now : Serving ⊕ Ending := .inl {}
  ledger : Ledger := {}
  written : List UInt8 := []

/-- One event. Nothing happens to a connection that has ended. -/
def Life.next (l : Life) (e : Event) : Life :=
  match l.now with
  | .inl s =>
    { now := (s.step e).next
      ledger := s.record l.ledger e
      written := l.written ++ (s.step e).written }
  | .inr _ => l

/-- The life of a new connection to which these things happen. -/
def life (events : List Event) : Life := events.foldl Life.next {}

theorem life_snoc (events : List Event) (e : Event) :
    life (events ++ [e]) = (life events).next e := List.foldl_append

variable {events : List Event} {s s' : Serving} {e : Event}

theorem life_snoc_of_now (h : (life events).now = .inl s) (e : Event) :
    life (events ++ [e]) =
      { now := (s.step e).next
        ledger := s.record (life events).ledger e
        written := (life events).written ++ (s.step e).written } := by
  rw [life_snoc, Life.next, h]

/-- The submissions handed to a connection. -/
def taken (events : List Event) : List Submission := events.filterMap Event.taken

/-- The bytes received on a connection. -/
def received (events : List Event) : List UInt8 := events.flatMap Event.received

theorem taken_snoc (events : List Event) (e : Event) :
    taken (events ++ [e]) = taken events ++ e.taken.toList := by
  unfold taken
  rw [List.filterMap_append]
  cases e <;> rfl

theorem received_snoc (events : List Event) (e : Event) :
    received (events ++ [e]) = received events ++ e.received := by
  unfold received
  rw [List.flatMap_append, List.flatMap_singleton]

/-- The ledger of a connection holds what was handed to it, and for answers what a new reader finds
in the bytes received on it. -/
structure Books (events : List Event) : Prop where
  sent : (life events).ledger.sent = (taken events).flatMap Submission.wrapped
  displaced : (life events).ledger.displaced = (taken events).filterMap Submission.displaced
  answered : (life events).ledger.answered =
    (Reader.feed {} (life events).ledger.sent (received events)).answered

/-- These submissions were written, whole and in order; they are all that were handed to the
connection, except perhaps the last one. -/
def Wrote (events : List Event) (reached : List Submission) : Prop :=
  (life events).written = Command.frames (reached.flatMap Submission.wrapped) ∧
    ∃ cut : Option Submission, taken events = reached ++ cut.toList

/-- The connection lives, as `s`. -/
structure Alive (events : List Event) (s : Serving) : Prop where
  now : (life events).now = .inl s
  books : Books events
  wrote : (life events).written = Command.frames ((taken events).flatMap Submission.wrapped)
  balanced : (life events).ledger.Balanced s.connection.pending
  inStep : s.connection.InStep (life events).ledger.sent (received events)

/-- The connection has ended, and every slot handed to it is settled. -/
structure Over (events : List Event) : Prop where
  ended : ∃ ending, (life events).now = .inr ending
  books : Books events
  wrote : ∃ reached, Wrote events reached
  settled : ∃ unreached, (life events).ledger.Settled unreached

theorem alive_nil : Alive [] {} :=
  ⟨rfl, ⟨rfl, rfl, by rw [received, List.flatMap_nil, Reader.feed_nil]; rfl⟩, rfl,
    Ledger.balanced_empty, Connection.InStep.empty⟩

theorem entry_sent (s : Serving) (l : Ledger) (e : Event) :
    (s.entry l e).sent = l.sent ++ e.taken.toList.flatMap Submission.wrapped := by
  cases e with
  | submission b fault => exact congrArg _ (List.flatMap_singleton ..).symm
  | read bytes => exact (List.append_nil _).symm
  | readFault fault => exact (List.append_nil _).symm
  | submissionsClosed => exact (List.append_nil _).symm

theorem entry_displaced (s : Serving) (l : Ledger) (e : Event) :
    (s.entry l e).displaced = l.displaced ++ e.taken.toList.filterMap Submission.displaced := by
  cases e with
  | submission b fault =>
      refine congrArg (l.displaced ++ ·) ?_
      show b.displaced.toList = [b].filterMap Submission.displaced
      rw [List.filterMap_cons, List.filterMap_nil]
      cases b.displaced <;> rfl
  | read bytes => exact (List.append_nil _).symm
  | readFault fault => exact (List.append_nil _).symm
  | submissionsClosed => exact (List.append_nil _).symm

/-- The answers after an event are those to all bytes, had all commands been waiting. -/
theorem entry_answered {l : Ledger} {bytes : List UInt8}
    (h : s.connection.InStep l.sent bytes)
    (hl : l.answered = (Reader.feed {} l.sent bytes).answered) (e : Event) :
    (s.entry l e).answered =
      (Reader.feed {} (s.entry l e).sent (bytes ++ e.received)).answered := by
  cases e with
  | read chunk =>
      show l.answered ++ (s.connection.receive chunk).answered =
        (Reader.feed {} l.sent (bytes ++ chunk)).answered
      rw [h.feed_receive, hl]
  | submission b fault =>
      show l.answered = (Reader.feed {} (l.sent ++ b.wrapped) (bytes ++ [])).answered
      rw [List.append_nil, h.feed_send, hl]
      rfl
  | readFault fault =>
      show l.answered = (Reader.feed {} l.sent (bytes ++ [])).answered
      rw [List.append_nil, hl]
  | submissionsClosed =>
      show l.answered = (Reader.feed {} l.sent (bytes ++ [])).answered
      rw [List.append_nil, hl]

/-- Where serving goes on, the connection stays in step. -/
theorem inStep_of_next {s' : Serving} {l : Ledger} {bytes : List UInt8}
    (h : s.connection.InStep l.sent bytes) (hnext : (s.step e).next = .inl s') :
    s'.connection.InStep (s.entry l e).sent (bytes ++ e.received) := by
  rw [connection_of_next hnext]
  cases e with
  | read chunk =>
      have hne : chunk ≠ [] := by
        rintro rfl
        exact absurd hnext (by simp [step, finish])
      exact h.receive (fault_of_next hne hnext)
  | submission b fault =>
      rw [show (Event.submission b fault).received = [] from rfl, List.append_nil]
      exact h.send b.wrapped
  | readFault fault => exact absurd hnext (by simp [step, finish])
  | submissionsClosed =>
      rw [show Event.submissionsClosed.received = [] from rfl, List.append_nil]
      exact h

theorem Alive.books_next (h : Alive events s) (e : Event) : Books (events ++ [e]) := by
  constructor
  · rw [life_snoc_of_now h.now, taken_snoc, List.flatMap_append, ← h.books.sent]
    exact entry_sent ..
  · rw [life_snoc_of_now h.now, taken_snoc, List.filterMap_append, ← h.books.displaced]
    exact entry_displaced ..
  · rw [life_snoc_of_now h.now, received_snoc]
    exact entry_answered h.inStep h.books.answered e

/-- What is handed over is written, unless just that fails. -/
theorem Alive.wrote_snoc (h : Alive events s)
    (hwhole : (s.step e).written = Command.frames (e.taken.toList.flatMap Submission.wrapped)) :
    (life (events ++ [e])).written =
      Command.frames ((taken (events ++ [e])).flatMap Submission.wrapped) := by
  rw [life_snoc_of_now h.now, taken_snoc, List.flatMap_append, Command.frames, List.flatMap_append]
  show (life events).written ++ (s.step e).written = _
  rw [h.wrote, hwhole]
  rfl

theorem step_written_whole (s : Serving) (hfault : ∀ b fault, e ≠ .submission b (some fault)) :
    (s.step e).written = Command.frames (e.taken.toList.flatMap Submission.wrapped) := by
  rw [step_written]
  cases e with
  | submission b fault =>
      cases fault with
      | none => exact congrArg Command.frames (List.flatMap_singleton ..).symm
      | some fault => exact absurd rfl (hfault b fault)
  | read bytes => rfl
  | readFault fault => rfl
  | submissionsClosed => rfl

theorem Alive.wrote_next (h : Alive events s) (e : Event) :
    ∃ reached, Wrote (events ++ [e]) reached := by
  by_cases hfault : ∃ b fault, e = .submission b (some fault)
  · obtain ⟨b, fault, rfl⟩ := hfault
    refine ⟨taken events, ?_, some b, ?_⟩
    · rw [life_snoc_of_now h.now, step_written, ← h.wrote]
      exact List.append_nil _
    · rw [taken_snoc]
      rfl
  · have hwhole := step_written_whole s fun b fault he => hfault ⟨b, fault, he⟩
    exact ⟨_, h.wrote_snoc hwhole, none, (List.append_nil _).symm⟩

/-- **A connection lives on or is over** after an event; and it is over for want of submissions only
if it has learnt that none can come. -/
theorem Alive.next (h : Alive events s) (e : Event) :
    (∃ s', (s.step e).next = .inl s' ∧ Alive (events ++ [e]) s' ∧
      (s'.accepting = false → s.accepting = false ∨ e = .submissionsClosed)) ∨
    (∃ ending, (s.step e).next = .inr ending ∧ Over (events ++ [e]) ∧
      (ending = .submissionsClosed → s.accepting = false ∨ e = .submissionsClosed)) := by
  have hbooks := h.books_next e
  have hlife := life_snoc_of_now h.now e
  have hbalanced := balanced_entry h.balanced e
  rcases step_next s (life events).ledger e with
    ⟨accepting, hnext, hrecord, hclosed⟩ | ⟨ending, hnext, hrecord, hclosed⟩
  · refine .inl ⟨_, hnext, ⟨?_, hbooks, ?_, ?_, ?_⟩, hclosed⟩
    · rw [hlife]
      exact hnext
    · refine h.wrote_snoc (step_written_whole s ?_)
      rintro b fault rfl
      exact absurd (writeFault_of_next hnext) (by simp)
    · rw [hlife, hrecord]
      exact hbalanced
    · rw [hlife, hrecord, received_snoc]
      exact inStep_of_next h.inStep hnext
  · refine .inr ⟨ending, hnext, ⟨⟨ending, ?_⟩, hbooks, h.wrote_next e, (s.after e).pending, ?_⟩, ?_⟩
    · rw [hlife]
      exact hnext
    · rw [hlife, hrecord]
      exact hbalanced.close
    · intro hend
      exact (hclosed hend).2

theorem now_snoc (h : (life (events ++ [e])).now = .inl s') :
    ∃ s, (life events).now = .inl s ∧ (s.step e).next = .inl s' := by
  cases hnow : (life events).now with
  | inl s =>
      rw [life_snoc_of_now hnow] at h
      exact ⟨s, rfl, h⟩
  | inr ending =>
      rw [life_snoc, Life.next, hnow] at h
      rw [hnow] at h
      exact absurd h (by simp)

/-- A connection that has not ended is in step, and its ledger balances. -/
theorem alive_of_now (h : (life events).now = .inl s) : Alive events s := by
  induction events using List.reverseRecOn generalizing s with
  | nil =>
      obtain rfl : ({} : Serving) = s := Sum.inl.inj h
      exact alive_nil
  | append_singleton events e ih =>
      obtain ⟨s₀, hnow, hstep⟩ := now_snoc h
      rcases (ih hnow).next e with ⟨s₁, hnext, halive, -⟩ | ⟨ending, hnext, -, -⟩
      · obtain rfl : s₁ = s := Sum.inl.inj (hnext.symm.trans hstep)
        exact halive
      · exact absurd (hnext.symm.trans hstep) (by simp)

/-! ## §3  What a connection tells -/

/-- What a connection settles: the slots of commands, with what it can tell, and the slots that had
to make room when a submission was wrapped. -/
def Tells (events : List Event) : Prop :=
  ∀ x ∈ (life events).ledger.settled,
    (∃ reply, x.outcome = .reply reply ∧ reply.Told) ∨
      x.outcome = .dropped ∧ x.slot ∈ (life events).ledger.displaced

theorem told_of_answered (hbooks : Books events) (pending : List Command)
    (hreplied : Settlement.replies (life events).ledger.settled =
      ((life events).ledger.answered.flatMap fun a => a.command.replied a.reply) ++
        pending.flatMap fun c => c.replied .socketClosed)
    (hdropped : Settlement.drops (life events).ledger.settled = (life events).ledger.displaced) :
    Tells events := by
  rintro ⟨slot, outcome⟩ hx
  cases outcome with
  | dropped =>
      refine .inr ⟨rfl, ?_⟩
      rw [← hdropped]
      exact List.mem_filterMap.mpr ⟨_, hx, rfl⟩
  | reply reply =>
      refine .inl ⟨reply, rfl, ?_⟩
      have hmem : (slot, reply) ∈ Settlement.replies (life events).ledger.settled :=
        List.mem_filterMap.mpr ⟨_, hx, rfl⟩
      rw [hreplied] at hmem
      rcases List.mem_append.mp hmem with hmem | hmem
      · obtain ⟨a, ha, hslot⟩ := List.mem_flatMap.mp hmem
        obtain ⟨_, -, heq⟩ := List.mem_map.mp hslot
        rw [← (Prod.mk.inj heq).2]
        rw [hbooks.answered] at ha
        exact Reader.feed_told _ _ _ a ha
      · obtain ⟨c, -, hslot⟩ := List.mem_flatMap.mp hmem
        obtain ⟨_, -, heq⟩ := List.mem_map.mp hslot
        rw [← (Prod.mk.inj heq).2]
        exact .socketClosed

theorem Alive.tells (h : Alive events s) : Tells events := by
  apply told_of_answered h.books []
  · rw [List.flatMap_nil, List.append_nil]
    exact h.balanced.replied
  · exact h.balanced.dropped

theorem Over.tells (h : Over events) : Tells events := by
  obtain ⟨unreached, hsettled⟩ := h.settled
  exact told_of_answered h.books unreached hsettled.replied hsettled.dropped

end Serving

end RespClient
