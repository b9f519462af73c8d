import RespClient.Proofs.Command.Frames
import RespClient.Proofs.Command.Wrapping
import RespClient.Proofs.Connection.InStep
import RespClient.Proofs.Reply.Turns
import RespClient.Proofs.Session.Moves

/-!
# The order on the wire

Many callers share one channel, and nothing fixes when the connection reads and when it looks into
the channel. Still the wire holds, in the order of the channel, the frames of one submission after
the other, each in one piece, and the commands answered and those waiting are the commands written
(`written_in_order`).

The invariant is that the connection is in step with what was taken from the channel and with what
arrived (`Far.Served`), or has ended.
-/

namespace RespClient

namespace Session

/-! ## §1  What has been taken -/

/-- The submission that a move hands over. -/
def offering (s : Session) : Move → List Submission
  | .act a => (s.handOver? a).toList
  | _ => []

/-- The bytes that a move brings. -/
def bringing (s : Session) : Move → List UInt8
  | .act a => s.arriving a
  | _ => []

/-- The submissions handed over in the course of a run, in the order of the channel. -/
def offered (s : Session) : List Move → List Submission
  | [] => []
  | m :: rest => s.offering m ++ (s.move m).offered rest

/-- The bytes that arrived in the course of a run. -/
def arrived (s : Session) : List Move → List UInt8
  | [] => []
  | m :: rest => s.bringing m ++ (s.move m).arrived rest

/-- A connection serves the channel: what was offered was taken or is in the channel, what arrived
was received or can still be read, and the connection is in step. -/
structure Far.Served (f : Far) (c : Serving) (offered taken : List Submission)
    (arrived received : List UInt8) : Prop where
  service : f.service = .connection c
  isOpen : f.closed = false
  channel : offered = taken ++ f.queue
  inbound : arrived = received ++ f.inbound
  inStep : c.connection.InStep (taken.flatMap Submission.wrapped) received

/-- The wire holds what was taken, and the connection serves the channel or has ended. -/
structure Far.Tracks (f : Far) (offered taken : List Submission) (arrived : List UInt8) : Prop where
  wire : f.wire = Command.frames (taken.flatMap Submission.wrapped)
  order : taken <+: offered
  state : f.service = .ended ∨ ∃ c received, f.Served c offered taken arrived received

variable {s s' : Session} {f : Far} {c c' : Serving} {offered taken : List Submission}
  {arrived received : List UInt8}

theorem Far.Tracks.direct (h : s.far.Tracks offered taken arrived) : s.Direct := by
  rcases h.state with hended | ⟨c, received, hserved⟩
  · exact .inl hended
  · exact .inr ⟨c, hserved.service⟩

theorem Far.Tracks.offer (h : f.Tracks offered taken arrived) (batches : List Submission) :
    (f.offer batches).Tracks (offered ++ batches) taken arrived := by
  refine ⟨h.wire, h.order.trans (List.prefix_append _ _), ?_⟩
  rcases h.state with hended | ⟨c, received, hserved⟩
  · exact .inl hended
  · refine .inr ⟨c, received, hserved.service, hserved.isOpen, ?_, hserved.inbound, hserved.inStep⟩
    rw [hserved.channel, List.append_assoc]
    rfl

theorem Far.Tracks.arrive (h : f.Tracks offered taken arrived) (bytes : List UInt8) :
    (f.arrive bytes).Tracks offered taken (arrived ++ bytes) := by
  refine ⟨h.wire, h.order, ?_⟩
  rcases h.state with hended | ⟨c, received, hserved⟩
  · exact .inl hended
  · refine .inr ⟨c, received, hserved.service, hserved.isOpen, hserved.channel, ?_, hserved.inStep⟩
    rw [hserved.inbound, List.append_assoc]
    rfl

/-- After an event the channel is served by the connection that goes on. -/
theorem served_happen {e : Serving.Event} (hnext : (c.step e).next = .inl c')
    (hopen : s.closed = false) (hchannel : offered = taken ++ s.queue)
    (hinbound : arrived = received ++ s.inbound)
    (hinStep : c'.connection.InStep (taken.flatMap Submission.wrapped) received) :
    (s.happen c e).far.Served c' offered taken arrived received := by
  rw [happen_far, hnext]
  exact ⟨rfl, hopen, hchannel, hinbound, hinStep⟩

/-- After an event the session is on track if the wire is, and the connection where it goes on. -/
theorem tracks_happen (received : List UInt8) {e : Serving.Event}
    (hwire : s.wire ++ (c.step e).written = Command.frames (taken.flatMap Submission.wrapped))
    (horder : taken <+: offered)
    (hnext : ∀ c', (c.step e).next = .inl c' → s.closed = false ∧ offered = taken ++ s.queue ∧
      arrived = received ++ s.inbound ∧
      c'.connection.InStep (taken.flatMap Submission.wrapped) received) :
    (s.happen c e).far.Tracks offered taken arrived := by
  have hfar := happen_far s c e
  cases hstep : (c.step e).next with
  | inl c' =>
      obtain ⟨hopen, hchannel, hinbound, hinStep⟩ := hnext c' hstep
      refine ⟨?_, horder, .inr ⟨c', received, ?_⟩⟩
      · rw [hfar, hstep]
        exact hwire
      · exact served_happen hstep hopen hchannel hinbound hinStep
  | inr ending =>
      rw [hfar, hstep]
      exact ⟨hwire, horder, .inl rfl⟩

/-- An event that brings nothing: the connection goes on as it was, if it does. -/
theorem Far.Tracks.happen_silent (h : s.far.Tracks offered taken arrived)
    (hserved : s.far.Served c offered taken arrived received) {e : Serving.Event}
    (hwritten : (c.step e).written = []) (hafter : c.after e = c.connection) :
    (s.happen c e).far.Tracks offered taken arrived := by
  have hwire : s.wire ++ (c.step e).written =
      Command.frames (taken.flatMap Submission.wrapped) := by
    rw [hwritten, List.append_nil]
    exact h.wire
  refine tracks_happen received hwire h.order fun c' hnext => ?_
  refine ⟨hserved.isOpen, hserved.channel, hserved.inbound, ?_⟩
  rw [Serving.connection_of_next hnext, hafter]
  exact hserved.inStep

theorem Far.Tracks.read (h : s.far.Tracks offered taken arrived) :
    (s.move .read).far.Tracks offered taken arrived := by
  rcases h.state with hended | ⟨c, received, hserved⟩
  · simpa only [move, show s.service = .ended from hended] using h
  · have hservice : s.service = .connection c := hserved.service
    cases hread : s.nextRead? with
    | none =>
        rw [move_read_of_none hservice hread]
        exact h
    | some found =>
        obtain ⟨e, s'⟩ := found
        rw [move_read_of_some hservice hread]
        rcases nextRead?_far hread with ⟨chunk, rest, hne, rfl, hin, hs'⟩ | ⟨he, hs'⟩
        · have hwire : s'.wire ++ (c.step (.read chunk)).written =
              Command.frames (taken.flatMap Submission.wrapped) := by
            rw [Serving.step_written, List.append_nil]
            exact (congrArg Far.wire hs').trans h.wire
          refine tracks_happen (received ++ chunk) hwire h.order fun c' hnext => ?_
          refine ⟨(congrArg Far.closed hs').trans hserved.isOpen, ?_, ?_, ?_⟩
          · rw [show s'.queue = s.queue from congrArg Far.queue hs']
            exact hserved.channel
          · rw [show s'.inbound = rest from congrArg Far.inbound hs', List.append_assoc, ← hin]
            exact hserved.inbound
          · rw [Serving.connection_of_next hnext]
            exact hserved.inStep.receive (Serving.fault_of_next hne hnext)
        · rw [← hs'] at h hserved
          rcases he with rfl | ⟨fault, rfl⟩
          · refine h.happen_silent hserved rfl ?_
            exact congrArg Progress.connection (Reader.feed_nil ..)
          · exact h.happen_silent hserved rfl rfl

theorem Far.Tracks.take (h : s.far.Tracks offered taken arrived) :
    ∃ taken, (s.move .take).far.Tracks offered taken arrived := by
  rcases h.state with hended | ⟨c, received, hserved⟩
  · refine ⟨taken, ?_⟩
    simpa only [move, show s.service = .ended from hended] using h
  · have hservice : s.service = .connection c := hserved.service
    cases htaken : s.nextTaken? c with
    | none =>
        rw [move_take_of_none hservice htaken]
        exact ⟨taken, h⟩
    | some found =>
        obtain ⟨e, s'⟩ := found
        rw [move_take_of_some hservice htaken]
        rcases nextTaken?_far htaken with ⟨batch, queue, fault, rfl, hqueue, hs'⟩ | ⟨rfl, hs'⟩
        · have hchannel : offered = taken ++ [batch] ++ queue := by
            rw [hserved.channel, List.append_assoc]
            exact congrArg (taken ++ ·) hqueue
          have hwire : s'.wire = Command.frames (taken.flatMap Submission.wrapped) :=
            (congrArg Far.wire hs').trans h.wire
          cases fault with
          | none =>
              refine ⟨taken ++ [batch], tracks_happen received ?_ ?_ fun c' hnext => ?_⟩
              · rw [hwire, Serving.step_written, List.flatMap_append, List.flatMap_singleton]
                exact List.flatMap_append.symm
              · exact ⟨queue, hchannel.symm⟩
              · refine ⟨(congrArg Far.closed hs').trans hserved.isOpen, ?_, ?_, ?_⟩
                · rw [show s'.queue = queue from congrArg Far.queue hs']
                  exact hchannel
                · rw [show s'.inbound = s.inbound from congrArg Far.inbound hs']
                  exact hserved.inbound
                · rw [Serving.connection_of_next hnext, List.flatMap_append,
                    List.flatMap_singleton]
                  exact hserved.inStep.send batch.wrapped
          | some fault =>
              refine ⟨taken, tracks_happen received ?_ h.order fun c' hnext => ?_⟩
              · rw [hwire, Serving.step_written, List.append_nil]
              · exact absurd (Serving.writeFault_of_next hnext) (by simp)
        · rw [← hs'] at h hserved
          exact ⟨taken, h.happen_silent hserved (Serving.step_written c _) rfl⟩

theorem Far.Tracks.expire (h : s.far.Tracks offered taken arrived) :
    s.expire.far.Tracks offered taken arrived := by
  rw [far_of_aside (expire_aside s)]
  exact h

/-- What happens by itself takes and reads, but nothing is offered and nothing arrives. -/
theorem Far.Tracks.next (h : s.far.Tracks offered taken arrived) (hnext : s.next? = some s') :
    ∃ taken, s'.far.Tracks offered taken arrived := by
  rcases next?_eq_move h.direct hnext with rfl | rfl | rfl
  · exact ⟨taken, h.read⟩
  · exact h.take
  · exact ⟨taken, h.expire⟩

theorem Far.Tracks.idle {m : Move} (h : f.Tracks offered taken arrived)
    (hoffering : s.offering m = []) (hbringing : s.bringing m = []) :
    f.Tracks (offered ++ s.offering m) taken (arrived ++ s.bringing m) := by
  rw [hoffering, hbringing, List.append_nil, List.append_nil]
  exact h

/-- **Every move keeps the session on track.** -/
theorem Far.Tracks.move (h : s.far.Tracks offered taken arrived) (m : Move) :
    ∃ taken, (s.move m).far.Tracks (offered ++ s.offering m) taken (arrived ++ s.bringing m) := by
  cases m with
  | act a =>
      by_cases ha : ∃ millis, a = .pass millis
      · obtain ⟨millis, rfl⟩ := ha
        have hnothing : s.offering (.act (.pass millis)) = [] := by simp [offering, handOver?]
        rw [hnothing, show s.bringing (.act (.pass millis)) = [] from rfl, List.append_nil,
          List.append_nil]
        refine pass_induct (P := fun s => ∃ taken, s.far.Tracks offered taken arrived) ?_ ?_
          ⟨taken, h⟩ millis
        · exact fun _ _ h => h
        · rintro s s' ⟨taken, h⟩ hnext
          exact h.next hnext
      · have hfar := act_far h.direct (fun millis hpass => ha ⟨millis, hpass⟩)
        refine ⟨taken, ?_⟩
        show (s.act a).2.far.Tracks _ taken _
        rw [hfar]
        exact (h.offer _).arrive _
  | read => exact ⟨taken, h.read.idle rfl rfl⟩
  | take =>
      obtain ⟨taken, htake⟩ := h.take
      exact ⟨taken, htake.idle rfl rfl⟩
  | expire => exact ⟨taken, h.expire.idle rfl rfl⟩
  | tick millis => exact ⟨taken, h.idle rfl rfl⟩

theorem Far.Tracks.run (h : s.far.Tracks offered taken arrived) (moves : List Move) :
    ∃ taken, (s.run moves).far.Tracks (offered ++ s.offered moves) taken
      (arrived ++ s.arrived moves) := by
  induction moves generalizing s offered taken arrived with
  | nil => exact ⟨taken, by simpa [Session.offered, Session.arrived, Session.run] using h⟩
  | cons m rest ih =>
      obtain ⟨taken, hm⟩ := h.move m
      obtain ⟨taken, hrest⟩ := ih hm
      refine ⟨taken, ?_⟩
      rwa [List.append_assoc, List.append_assoc] at hrest

theorem tracks_run (timeout : Nat) (moves : List Move) :
    ∃ taken, ((connected timeout).run moves).far.Tracks ((connected timeout).offered moves) taken
      ((connected timeout).arrived moves) := by
  have hstart : (connected timeout).far.Tracks [] [] [] :=
    ⟨rfl, List.nil_prefix, .inr ⟨{}, [], rfl, rfl, rfl, rfl, Connection.InStep.empty⟩⟩
  exact hstart.run moves

/-! ## §2  The order -/

/-- The wire holds the frames of what was taken from the channel, in the order of the channel. -/
structure WrittenInOrder (wire : List UInt8) (taken offered : List Submission) : Prop where
  frames : wire = Command.frames (taken.flatMap Submission.wrapped)
  channel : taken <+: offered
  /-- A submission is written in one piece. -/
  contiguous : ∀ before batch after, taken = before ++ batch :: after →
    wire = Command.frames (before.flatMap Submission.wrapped) ++ Command.frames batch.wrapped ++
      Command.frames (after.flatMap Submission.wrapped)
  /-- A transaction is a block, with its own commands and no others between the ends. -/
  block : ∀ batch ∈ taken, ∀ slot, batch.exec = some slot →
    ∃ opening closing, batch.wrapped = opening :: (batch.body ++ [closing]) ∧
      opening.kind = .multi ∧ closing.kind = .exec ∧ closing.slot = some slot

/-- Replies have reached the commands in the order in which these were written. -/
structure AnsweredInOrder (c : Connection) (written : List Command) (received : List UInt8)
    (answered : List Answer) : Prop where
  queue : written = answered.map (·.command) ++ c.pending
  /-- The answers are those to the bytes received, had all commands been waiting from the start. -/
  read : Reader.feed {} written received = { reader := c.reader, pending := c.pending, answered }
  /-- Values that have arrived for the first commands written have answered these. -/
  met : ∀ turns, Reader.Suits false turns → turns.map Prod.fst <+: written →
    Value.bytesAll (turns.map Prod.snd) <+: received → Reader.answers false turns <+: answered

theorem written_in_order_of_tracks (h : f.Tracks offered taken arrived) :
    WrittenInOrder f.wire taken offered := by
  refine ⟨h.wire, h.order, ?_, ?_⟩
  · rintro before batch after rfl
    rw [h.wire, List.flatMap_append, List.flatMap_cons, ← List.append_assoc]
    exact List.flatMap_append.trans (congrArg (· ++ _) List.flatMap_append)
  · intro batch _ slot hslot
    exact ⟨_, _, Submission.wrapped_of_exec hslot, Submission.opening_kind _,
      Submission.closing_kind _ _, Submission.closing_slot _ _⟩

theorem answered_in_order_of_inStep {c : Connection} {written : List Command}
    (h : c.InStep written received) :
    AnsweredInOrder c written received (Reader.feed {} written received).answered := by
  refine ⟨h.queue, ?_, ?_⟩
  · rw [← h.here]
    show Reader.feed {} written received = ⟨_, _, _, none⟩
    rw [← h.sound]
    rfl
  · rintro turns hsuits ⟨later, rfl⟩ ⟨rest, rfl⟩
    have hturns := Reader.feed_turns hsuits
    have hmore := Reader.feed_more (by rw [hturns]; simp) later
    rw [Reader.feed_append, hmore, hturns, Progress.andThen_of_ok rfl]
    exact List.prefix_append _ _

/-- **Order on the wire**: whatever callers and the server do, and whenever the connection reads and
looks into the channel, the wire holds the frames of the submissions taken, in the order of the
channel; and while the connection is served, the rest of the channel is still to be taken, and the
commands written are those answered, in their order, and those that wait. -/
theorem written_in_order (timeout : Nat) (moves : List Move) :
    let s := (connected timeout).run moves
    let offered := (connected timeout).offered moves
    let arrived := (connected timeout).arrived moves
    ∃ taken, WrittenInOrder s.wire taken offered ∧
      ∀ c, s.service = .connection c →
        offered = taken ++ s.queue ∧
        ∃ received answered, arrived = received ++ s.inbound ∧
          AnsweredInOrder c.connection (taken.flatMap Submission.wrapped) received answered := by
  intro s offered arrived
  obtain ⟨taken, h⟩ := tracks_run timeout moves
  refine ⟨taken, written_in_order_of_tracks h, fun c hc => ?_⟩
  rcases h.state with hended | ⟨c', received, hserved⟩
  · exact absurd (hc.symm.trans hended) (by simp)
  · obtain rfl : c = c' := Service.connection.inj (hc.symm.trans hserved.service)
    exact ⟨hserved.channel, received, _, hserved.inbound,
      answered_in_order_of_inStep hserved.inStep⟩

/-- A transaction is recorded and executed between the request and the reply of another command. -/
example :
    ((connected 1000).run
      [.act (.dispatch "a" "PING" []), .take, .act (.multi "t"), .act (.queue "t" "b" "INCR" ["k"]),
        .act (.exec "t" "c"), .act (.reply [0x2B, 0x0D, 0x0A]), .read, .take]).service =
      .connection { connection := { pending :=
        [{ kind := .multi }, { kind := .incr, args := ["k"] },
          { kind := .exec, slot := some ⟨2⟩ }] } } := by
  cbv

end Session

end RespClient
