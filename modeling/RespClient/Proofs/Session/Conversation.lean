import RespClient.Proofs.Session.Hearing
import RespClient.Proofs.Session.Order

/-!
# Conversations

Callers act in some order, and a server that has read their requests off the wire answers them in
that order, in time, and in pieces of any size. The connection reads and looks into the channel
whenever it likes: a conversation is any run with these actions and these bytes (`Conversation`).

However it goes, it ends in the same way (`Conversation.ends`): the session comes to rest, nothing
is left over, and every caller has heard what the values in turn answer.
-/

namespace RespClient.Session

open Value (bytesAll)

/-! ## §1  What a conversation is -/

/-- What callers do in the course of the moves. -/
def asked (moves : List Move) : List Action :=
  moves.filterMap fun m =>
    match m with
    | .act (.reply _) => none
    | .act a => some a
    | _ => none

/-- The bytes that the server sends. -/
def Move.bytes : Move → List UInt8
  | .act (.reply bytes) => bytes
  | _ => []

/-- The server has found some requests on the wire, and what it has sent answers no others. -/
def Causal (values : List Value) (wire sent : List UInt8) : Prop :=
  ∃ k requests rest, Frame.readRequests k wire = some (requests, rest) ∧
    sent <+: bytesAll (values.take k)

/-- The server answers only what it was asked, and nobody's time is over before it does. -/
def Orderly (values : List Value) (s : Session) (sent : List UInt8) : List Move → Prop
  | [] => True
  | m :: rest =>
    Causal values s.wire (sent ++ m.bytes) ∧ (s.move m).hasLate = false ∧
      Orderly values (s.move m) (sent ++ m.bytes) rest

/-- The same, tried out: with each move stands how many requests the server has found by then. -/
def tryOrderly (values : List Value) (s : Session) (sent : List UInt8) : List (Move × Nat) → Bool
  | [] => true
  | (m, k) :: rest =>
    (Frame.readRequests k s.wire).isSome &&
      (sent ++ m.bytes).isPrefixOf (bytesAll (values.take k)) && !(s.move m).hasLate &&
      tryOrderly values (s.move m) (sent ++ m.bytes) rest

theorem orderly_of_try {values : List Value} {s : Session} {sent : List UInt8}
    {moves : List (Move × Nat)} (h : tryOrderly values s sent moves = true) :
    Orderly values s sent (moves.map Prod.fst) := by
  induction moves generalizing s sent with
  | nil => trivial
  | cons x rest ih =>
      obtain ⟨m, k⟩ := x
      simp only [tryOrderly, Bool.and_eq_true, Bool.not_eq_true', Option.isSome_iff_exists,
        List.isPrefixOf_iff_prefix] at h
      obtain ⟨⟨⟨⟨⟨requests, rest⟩, hread⟩, hsent⟩, hlate⟩, hrest⟩ := h
      exact ⟨⟨k, requests, rest, hread, hsent⟩, hlate, ih hrest⟩

/-- A session with these actions of callers and these values of the server. What the connection has
not read and taken by the end is still there. -/
structure Conversation (timeout : Nat) (acts : List Action) (values : List Value)
    (moves : List Move) : Prop where
  patient : timeout ≠ 0
  acts : asked moves = acts
  sent : moves.flatMap Move.bytes = bytesAll values
  orderly : Orderly values (connected timeout) [] moves

/-! ## §2  The state of a conversation -/

/-- How far a conversation has come: the connection serves the channel and nothing is broken, the
session follows the callers, and the server has answered no more than was written. -/
structure Talks (tx : String) (g : Callers) (values : List Value) (sent : List UInt8)
    (connection : Connection) (taken : List Submission) (received : List UInt8) (s : Session) :
    Prop where
  served : s.far.Served { connection } g.offered taken sent received
  wire : s.wire = Command.frames (taken.flatMap Submission.wrapped)
  sound : s.transport = some { inbound := s.inbound }
  follows : g.Follows tx (Reader.feed {} (taken.flatMap Submission.wrapped) received).answered s
  fresh : g.Fresh
  causal : sent <+: bytesAll (values.take (taken.flatMap Submission.wrapped).length)
  inTime : s.hasLate = false

variable {tx : String} {g g' : Callers} {values : List Value} {sent received : List UInt8}
  {connection : Connection} {taken : List Submission} {s s' : Session}

theorem Talks.start {timeout : Nat} (h : timeout ≠ 0) :
    Talks tx {} values [] {} [] [] (connected timeout) := by
  refine ⟨⟨rfl, rfl, rfl, rfl, Connection.InStep.empty⟩, rfl, rfl, ?_, Callers.fresh_empty,
    List.nil_prefix, rfl⟩
  rw [List.flatMap_nil, Reader.feed_nil]
  refine ⟨⟨rfl, h, rfl, rfl, rfl⟩, ?_, rfl, ?_, fun _ => .inl rfl⟩
  · intro w hw
    exact absurd hw (by simp [connected])
  · intro t ht
    exact absurd ht (by simp)

theorem Far.Served.taken_prefix {f : Far} {c : Serving}
    (h : f.Served c g.offered taken sent received) :
    taken.flatMap Submission.wrapped <+: g.written := by
  unfold Callers.written
  rw [h.channel, List.flatMap_append]
  exact List.prefix_append _ _

/-- What was answered was handed over. -/
theorem Far.Served.answered_prefix {f : Far} {c : Serving}
    (h : f.Served c g.offered taken sent received) :
    (Reader.feed {} (taken.flatMap Submission.wrapped) received).answered.map (·.command) <+:
      g.written :=
  List.IsPrefix.trans ⟨_, h.inStep.queue.symm⟩ h.taken_prefix

/-- The server answers what it has found on the wire, which is no more than was written. -/
theorem Talks.causal_of (h : Talks tx g values sent connection taken received s)
    {bytes : List UInt8} (hcausal : Causal values s.wire bytes) :
    bytes <+: bytesAll (values.take (taken.flatMap Submission.wrapped).length) := by
  obtain ⟨k, requests, rest, hread, hsent⟩ := hcausal
  rw [h.wire, Command.frames_eq_flatMap] at hread
  have hk := Frame.le_length_of_readRequests hread
  rw [List.length_map] at hk
  exact hsent.trans (Value.bytesAll_prefix (List.take_prefix_take_left hk))

/-! ## §3  What moves do to a conversation -/

theorem Talks.act (h : Talks tx g values sent connection taken received s) {item : Callers.Item}
    (hitem : g.act? item = some g') (hlate : (s.act (item.action tx)).2.hasLate = false) :
    Talks tx g' values sent connection taken received (s.act (item.action tx)).2 := by
  obtain ⟨hfollows, htransport, batches, hoffered, hfar⟩ :=
    h.follows.act h.served.isOpen h.fresh h.served.answered_prefix hitem
  refine ⟨?_, ?_, ?_, hfollows, h.fresh.act hitem, h.causal, hlate⟩
  · rw [hfar, hoffered]
    refine ⟨h.served.service, h.served.isOpen, ?_, h.served.inbound, h.served.inStep⟩
    rw [h.served.channel, List.append_assoc]
    rfl
  · exact (congrArg Far.wire hfar).trans h.wire
  · rw [htransport, show (s.act (item.action tx)).2.inbound = s.inbound from
      congrArg Far.inbound hfar]
    exact h.sound

theorem Talks.reply (h : Talks tx g values sent connection taken received s) (bytes : List UInt8)
    (hcausal : Causal values s.wire (sent ++ bytes)) :
    Talks tx g values (sent ++ bytes) connection taken received (s.act (.reply bytes)).2 := by
  have hact : (s.act (.reply bytes)).2 =
      { s with transport := some { inbound := s.inbound ++ bytes } } := by
    simp only [Session.act, h.sound]
    rfl
  rw [hact]
  refine ⟨⟨h.served.service, h.served.isOpen, h.served.channel, ?_, h.served.inStep⟩, h.wire, rfl,
    h.follows.of_near rfl, h.fresh, h.causal_of hcausal, h.inTime⟩
  rw [h.served.inbound, List.append_assoc]
  rfl

theorem Talks.tick (h : Talks tx g values sent connection taken received s) (millis : Nat)
    (hlate : (s.move (.tick millis)).hasLate = false) :
    Talks tx g values sent connection taken received (s.move (.tick millis)) :=
  ⟨h.served, h.wire, h.sound, h.follows.of_near rfl, h.fresh, h.causal, hlate⟩

/-- An execution whose time is over. -/
def expires? (now : Nat) (w : Wait) : Option (String × List Slot) :=
  match w.task with
  | .exec name callers _ _ => if w.isLate now then some (name, callers) else none
  | _ => none

theorem expire_eq (s : Session) :
    s.expire = (s.waits.filterMap (expires? s.now)).foldl
      (fun s (name, callers) => s.afterExec name callers RoundTrip.timedOut.executed)
      { s with waits := s.waits.map fun w =>
        if w.isLate s.now then { w with result := some (w.task.reply .timedOut) } else w } := rfl

/-- Nobody stops waiting whose time is not over. -/
theorem expire_of_inTime (h : s.hasLate = false) : s.expire = s := by
  have hlate : ∀ w ∈ s.waits, w.isLate s.now = false := by
    simpa [hasLate] using h
  have hexecs : s.waits.filterMap (expires? s.now) = [] := by
    rw [List.filterMap_eq_nil_iff]
    intro w hw
    unfold expires?
    split
    · rw [hlate w hw]
      rfl
    · rfl
  rw [expire_eq, hexecs, List.map_congr_left fun w hw => if_neg (by rw [hlate w hw]; simp),
    List.map_id']
  rfl

theorem Talks.expire (h : Talks tx g values sent connection taken received s) :
    Talks tx g values sent connection taken received (s.move .expire) := by
  rw [Session.move, expire_of_inTime h.inTime]
  exact h

/-- Where the connection goes on after an event, those are told whose slots the event settles. -/
theorem happen_of_next {c c' : Serving} {e : Serving.Event} (hnext : (c.step e).next = .inl c') :
    s.happen c e =
      { Session.settle { s with wire := s.wire ++ (c.step e).written } (c.step e).settled with
        service := .connection c' } := by
  unfold happen
  dsimp only
  rw [hnext]

/-- After an event with which the connection goes on, those whose commands are answered by it have
heard of it. -/
theorem Talks.happen {e : Serving.Event} {c' : Connection} {taken' : List Submission}
    {received' : List UInt8} {answered : List Answer} (more : List Answer)
    (hnext : (Serving.step { connection } e).next = .inl { connection := c' })
    (hserved : (s.happen { connection } e).far.Served { connection := c' } g.offered taken' sent
      received')
    (hwire : s.wire ++ (Serving.step { connection } e).written =
      Command.frames (taken'.flatMap Submission.wrapped))
    (hsound : s.transport = some { inbound := s.inbound })
    (hfollows : g.Follows tx answered s) (hfresh : g.Fresh)
    (hsettled : (Serving.step { connection } e).settled = more.flatMap Answer.settle)
    (hanswered : (Reader.feed {} (taken'.flatMap Submission.wrapped) received').answered =
      answered ++ more)
    (hcausal : sent <+: bytesAll (values.take (taken'.flatMap Submission.wrapped).length))
    (hlate : s.hasLate = false) :
    Talks tx g values sent c' taken' received' (s.happen { connection } e) := by
  have hfar := happen_far s { connection } e
  rw [hnext] at hfar
  have htransport := congrArg Session.transport (settle_aside
    { s with wire := s.wire ++ (Serving.step { connection } e).written }
    (Serving.step { connection } e).settled)
  have hpart := hserved.answered_prefix
  rw [hanswered] at hpart
  have hwritten : g.Follows tx answered
      { s with wire := s.wire ++ (Serving.step { connection } e).written } :=
    hfollows.of_near rfl
  refine ⟨hserved, (congrArg Far.wire hfar).trans hwire, ?_, ?_, hfresh, hcausal,
    happen_inTime hlate ..⟩
  · rw [show (s.happen { connection } e).inbound = s.inbound from congrArg Far.inbound hfar,
      ← hsound, happen_of_next hnext]
    exact htransport
  · rw [hanswered, happen_of_next hnext, hsettled]
    exact (hwritten.answers hfresh hpart).of_near rfl

/-- A read takes a part of what has arrived, if something has. -/
theorem nextRead?_of_sound (h : s.transport = some { inbound := s.inbound }) :
    (s.inbound = [] ∧ s.nextRead? = none) ∨
    ∃ chunk rest, chunk ≠ [] ∧ s.inbound = chunk ++ rest ∧
      s.nextRead? = some (.read chunk, { s with transport := some { inbound := rest } }) := by
  unfold nextRead?
  rw [h, Option.getD_some]
  by_cases hempty : s.inbound = []
  · refine .inl ⟨hempty, ?_⟩
    rw [hempty]
    rfl
  · refine .inr ⟨s.inbound.take Transport.readSize, s.inbound.drop Transport.readSize, ?_,
      (List.take_append_drop _ _).symm, ?_⟩
    · simpa [Transport.readSize] using hempty
    · simp [Transport.read?, hempty]

/-- A connection to which submissions can still come goes on after what it has read. -/
theorem step_read {chunk : List UInt8} (hne : chunk ≠ [])
    (hsound : (connection.receive chunk).fault = none) :
    Serving.step { connection } (.read chunk) =
      { next := .inl { connection := (connection.receive chunk).connection }
        settled := (connection.receive chunk).settled } := by
  obtain ⟨b, bytes, rfl⟩ := List.exists_cons_of_ne_nil hne
  simp only [Serving.step, hsound]
  rfl

theorem Talks.read_chunk (h : Talks tx g values sent connection taken received s)
    (hstream : (Reader.feed {} (taken.flatMap Submission.wrapped)
      (bytesAll (values.take (taken.flatMap Submission.wrapped).length))).fault = none)
    {chunk rest : List UInt8} (hne : chunk ≠ []) (hin : s.inbound = chunk ++ rest) :
    ∃ connection', Talks tx g values sent connection' taken (received ++ chunk)
      (Session.happen { s with transport := some { inbound := rest } } { connection }
        (.read chunk)) := by
  have hsent : sent = received ++ chunk ++ rest := by
    rw [h.served.inbound, List.append_assoc]
    exact congrArg (received ++ ·) hin
  have hsound : (connection.receive chunk).fault = none :=
    h.served.inStep.sound_of_prefix (List.IsPrefix.trans ⟨rest, hsent.symm⟩ h.causal) hstream
  have hstep := step_read hne hsound
  have hnext := congrArg Serving.Step.next hstep
  have hserved := served_happen (s := { s with transport := some { inbound := rest } }) hnext
    h.served.isOpen h.served.channel hsent (h.served.inStep.receive hsound)
  refine ⟨_, Talks.happen _ hnext hserved ?_ rfl (h.follows.of_near rfl) h.fresh
    (congrArg Serving.Step.settled hstep)
    (congrArg Progress.answered (h.served.inStep.feed_receive chunk)) h.causal h.inTime⟩
  rw [hstep, List.append_nil]
  exact h.wire

theorem Talks.read (h : Talks tx g values sent connection taken received s)
    (hstream : (Reader.feed {} (taken.flatMap Submission.wrapped)
      (bytesAll (values.take (taken.flatMap Submission.wrapped).length))).fault = none) :
    ∃ connection received, Talks tx g values sent connection taken received (s.move .read) := by
  have hservice : s.service = .connection { connection } := h.served.service
  rcases nextRead?_of_sound h.sound with ⟨-, hread⟩ | ⟨chunk, rest, hne, hin, hread⟩
  · rw [move_read_of_none hservice hread]
    exact ⟨connection, received, h⟩
  · rw [move_read_of_some hservice hread]
    obtain ⟨connection, hchunk⟩ := h.read_chunk hstream hne hin
    exact ⟨connection, _, hchunk⟩

/-- A connection to which submissions can still come goes on after it has written one. -/
theorem step_submission (connection : Connection) (batch : Submission) :
    Serving.step { connection } (.submission batch none) =
      { next := .inl { connection := (connection.submit batch).2 }
        written := Command.frames batch.wrapped
        settled := Settlement.drop batch.displaced } := rfl

theorem Talks.take_batch (h : Talks tx g values sent connection taken received s)
    {batch : Submission} {queue : List Submission} (hqueue : s.queue = batch :: queue) :
    ∃ connection', Talks tx g values sent connection' (taken ++ [batch]) received
      (Session.happen { s with queue } { connection } (.submission batch none)) := by
  have hoffered : g.offered = taken ++ [batch] ++ queue := by
    rw [h.served.channel, List.append_assoc]
    exact congrArg (taken ++ ·) hqueue
  have hinStep := h.served.inStep.send batch.wrapped
  have hwritten : (taken ++ [batch]).flatMap Submission.wrapped =
      taken.flatMap Submission.wrapped ++ batch.wrapped := by
    rw [List.flatMap_append, List.flatMap_singleton]
  have hmore := h.served.inStep.feed_send batch.wrapped
  rw [← hwritten] at hinStep hmore
  have hnext := congrArg Serving.Step.next (step_submission connection batch)
  have hserved := served_happen (s := { s with queue }) hnext h.served.isOpen hoffered
    h.served.inbound hinStep
  have hkept : batch.displaced = none := h.fresh.kept batch (by rw [hoffered]; simp)
  refine ⟨_, Talks.happen [] hnext hserved ?_ h.sound (h.follows.of_near rfl) h.fresh ?_ ?_ ?_
    h.inTime⟩
  · rw [step_submission, hwritten]
    exact (congrArg (· ++ _) h.wire).trans List.flatMap_append.symm
  · rw [step_submission, hkept]
    rfl
  · rw [hmore, List.append_nil]
    rfl
  · rw [hwritten]
    refine h.causal.trans (Value.bytesAll_prefix (List.take_prefix_take_left ?_))
    rw [List.length_append]
    exact Nat.le_add_right _ _

/-- The connection takes the oldest submission, if there is one, and can write it. -/
theorem Talks.nextTaken? (h : Talks tx g values sent connection taken received s) :
    (s.queue = [] ∧ s.nextTaken? { connection } = none) ∨
    ∃ batch queue, s.queue = batch :: queue ∧
      s.nextTaken? { connection } = some (.submission batch none, { s with queue }) := by
  cases hqueue : s.queue with
  | nil =>
      exact .inl ⟨rfl, by simp [Session.nextTaken?, hqueue, hasSenders, h.follows.roster.client]⟩
  | cons batch queue =>
      refine .inr ⟨batch, queue, rfl, ?_⟩
      simp [Session.nextTaken?, hqueue, h.sound, Transport.writeFault?]

theorem Talks.take (h : Talks tx g values sent connection taken received s) :
    ∃ connection taken, Talks tx g values sent connection taken received (s.move .take) := by
  have hservice : s.service = .connection { connection } := h.served.service
  rcases h.nextTaken? with ⟨-, hnone⟩ | ⟨batch, queue, hqueue, htaken⟩
  · rw [move_take_of_none hservice hnone]
    exact ⟨connection, taken, h⟩
  · rw [move_take_of_some hservice htaken]
    obtain ⟨connection, hbatch⟩ := h.take_batch hqueue
    exact ⟨connection, _, hbatch⟩

/-! ## §4  How a conversation ends -/

variable {items : List Callers.Item} {turns : List (Command × Value)}

theorem asked_append (xs ys : List Move) : asked (xs ++ ys) = asked xs ++ asked ys :=
  List.filterMap_append

theorem asked_act {a : Action} (ha : ∀ bytes, a ≠ .reply bytes) (rest : List Move) :
    asked (.act a :: rest) = a :: asked rest := by
  cases a with
  | reply bytes => exact absurd rfl (ha bytes)
  | _ => rfl

theorem bytes_act {a : Action} (ha : ∀ bytes, a ≠ .reply bytes) : (Move.act a).bytes = [] := by
  cases a with
  | reply bytes => exact absurd rfl (ha bytes)
  | _ => rfl

theorem Orderly.of_append {s : Session} {xs ys : List Move} (h : Orderly values s sent (xs ++ ys)) :
    Orderly values s sent xs := by
  induction xs generalizing s sent with
  | nil => trivial
  | cons m rest ih => exact ⟨h.1, h.2.1, ih h.2.2⟩

/-- **A conversation goes on** as long as callers and server go on orderly, with values that suit
the commands. -/
theorem Talks.run (hsuits : Reader.Suits false turns)
    (h : Talks tx g (turns.map Prod.snd) sent connection taken received s) {moves : List Move}
    (horderly : Orderly (turns.map Prod.snd) s sent moves)
    (hasked : asked moves = items.map (Callers.Item.action tx)) (hitems : g.acts? items = some g')
    (hwritten : g'.written <+: turns.map Prod.fst) :
    ∃ connection taken received, Talks tx g' (turns.map Prod.snd) (sent ++ moves.flatMap Move.bytes)
      connection taken received (s.run moves) := by
  induction moves generalizing s g sent connection taken received items with
  | nil =>
      obtain rfl : items = [] := List.map_eq_nil_iff.mp hasked.symm
      obtain rfl := Option.some.inj hitems
      refine ⟨connection, taken, received, ?_⟩
      rw [List.flatMap_nil, List.append_nil]
      exact h
  | cons m rest ih =>
      obtain ⟨hcausal, hlate, hrest⟩ := horderly
      rw [List.flatMap_cons, ← List.append_assoc]
      -- A move that sends nothing leaves what was sent as it was.
      have silent : m.bytes = [] → ∀ {g₁ connection taken received items},
          Talks tx g₁ (turns.map Prod.snd) sent connection taken received (s.move m) →
          asked rest = items.map (Callers.Item.action tx) → g₁.acts? items = some g' →
          ∃ connection taken received, Talks tx g' (turns.map Prod.snd)
            (sent ++ m.bytes ++ rest.flatMap Move.bytes) connection taken received
            ((s.move m).run rest) := by
        intro hbytes g₁ connection taken received items hmove hasked hitems
        rw [hbytes, List.append_nil] at hrest ⊢
        exact ih hmove hrest hasked hitems
      cases m with
      | act a =>
          by_cases ha : ∃ bytes, a = .reply bytes
          · obtain ⟨bytes, rfl⟩ := ha
            exact ih (h.reply bytes hcausal) hrest hasked hitems
          · have hne : ∀ bytes, a ≠ .reply bytes := fun bytes he => ha ⟨bytes, he⟩
            rw [asked_act hne] at hasked
            obtain ⟨item, items, rfl, rfl, hothers⟩ := List.map_eq_cons_iff.mp hasked.symm
            obtain ⟨g₁, hact, hitems⟩ := Option.bind_eq_some_iff.mp hitems
            exact silent (bytes_act hne) (h.act hact hlate) hothers.symm hitems
      | read =>
          have htaken : taken.flatMap Submission.wrapped <+: turns.map Prod.fst :=
            h.served.taken_prefix.trans ((Callers.written_prefix_of_acts hitems).trans hwritten)
          obtain ⟨connection, received, hread⟩ := h.read (Reader.sound_of_turns hsuits htaken)
          exact silent rfl hread hasked hitems
      | take =>
          obtain ⟨connection, taken, htake⟩ := h.take
          exact silent rfl htake hasked hitems
      | expire => exact silent rfl h.expire hasked hitems
      | tick millis => exact silent rfl (h.tick millis hlate) hasked hitems

/-- A moment of a conversation: callers have done some of what they do. -/
theorem Conversation.talks {timeout : Nat} {moves early late : List Move}
    (h : Conversation timeout (items.map (Callers.Item.action tx)) (turns.map Prod.snd) moves)
    (hsuits : Reader.Suits false turns) (hitems : Callers.acts? {} items = some g')
    (hwritten : g'.written = turns.map Prod.fst) (hmoves : moves = early ++ late) :
    ∃ g later connection taken received, g.acts? later = some g' ∧
      Talks tx g (turns.map Prod.snd) (early.flatMap Move.bytes) connection taken received
        ((connected timeout).run early) := by
  subst hmoves
  have hacts := h.acts
  rw [asked_append] at hacts
  obtain ⟨now, later, rfl, hnow, -⟩ := List.map_eq_append_iff.mp hacts.symm
  rw [Callers.acts?_append] at hitems
  obtain ⟨g, hg, hlater⟩ := Option.bind_eq_some_iff.mp hitems
  obtain ⟨connection, taken, received, htalks⟩ :=
    (Talks.start h.patient).run hsuits h.orderly.of_append hnow.symm hg
      (hwritten ▸ Callers.written_prefix_of_acts hlater)
  exact ⟨g, later, connection, taken, received, hlater, htalks⟩

/-- What can still be read or taken. -/
def todo (s : Session) : Nat := s.queue.length + s.inbound.length

theorem Talks.todo_eq (h : Talks tx g values sent connection taken received s) :
    s.todo + taken.length + received.length = g.offered.length + sent.length := by
  have hoffered := congrArg List.length h.served.channel
  have hsent := congrArg List.length h.served.inbound
  rw [List.length_append] at hoffered hsent
  rw [hoffered, hsent, todo, show s.far.queue = s.queue from rfl,
    show s.far.inbound = s.inbound from rfl]
  omega

/-- Where nothing can be read or taken, everything has been. -/
theorem Talks.of_todo (h : Talks tx g values sent connection taken received s)
    (hdone : s.todo = 0) : taken = g.offered ∧ received = sent := by
  obtain ⟨hqueue, hinbound⟩ := Nat.add_eq_zero_iff.mp hdone
  have hchannel := h.served.channel
  have harrived := h.served.inbound
  rw [show s.far.queue = [] from List.length_eq_zero_iff.mp hqueue, List.append_nil] at hchannel
  rw [show s.far.inbound = [] from List.length_eq_zero_iff.mp hinbound, List.append_nil] at harrived
  exact ⟨hchannel.symm, harrived.symm⟩

/-- What happens by itself in a conversation leaves less to do, and nothing happens only where
nothing is left. -/
theorem Talks.next (hsuits : Reader.Suits false turns) (hwritten : g.written <+: turns.map Prod.fst)
    (h : Talks tx g (turns.map Prod.snd) sent connection taken received s) :
    (s.next? = none ∧ s.todo = 0) ∨
    ∃ s' connection taken received, s.next? = some s' ∧ s'.todo < s.todo ∧
      Talks tx g (turns.map Prod.snd) sent connection taken received s' := by
  have hservice : s.service = .connection { connection } := h.served.service
  have hserve : s.serve? = (s.nextEvent? { connection }).map fun x =>
      x.2.happen { connection } x.1 := by
    simp only [serve?, hservice]
  have htodo := h.todo_eq
  unfold next?
  rw [hserve, nextEvent?]
  rcases nextRead?_of_sound h.sound with ⟨hinbound, hread⟩ | ⟨chunk, rest, hne, hin, hread⟩
  · rcases h.nextTaken? with ⟨hqueue, hnone⟩ | ⟨batch, queue, hqueue, htaken⟩
    · refine .inl ⟨?_, by rw [todo, hqueue, hinbound]; rfl⟩
      rw [hread, hnone, Option.map_none, h.inTime]
      rfl
    · rw [hread, htaken]
      obtain ⟨connection', hbatch⟩ := h.take_batch hqueue
      have hless := hbatch.todo_eq
      rw [List.length_append, List.length_singleton] at hless
      have hlt : (Session.happen { s with queue } { connection } (.submission batch none)).todo <
          s.todo := by omega
      exact .inr ⟨_, connection', _, _, rfl, hlt, hbatch⟩
  · rw [hread]
    have hstream := Reader.sound_of_turns hsuits (h.served.taken_prefix.trans hwritten)
    obtain ⟨connection', hchunk⟩ := h.read_chunk hstream hne hin
    have hless := hchunk.todo_eq
    have hpos := List.length_pos_iff.mpr hne
    rw [List.length_append] at hless
    have hlt : (Session.happen { s with transport := some { inbound := rest } } { connection }
        (.read chunk)).todo < s.todo := by omega
    exact .inr ⟨_, connection', _, _, rfl, hlt, hchunk⟩

/-- **A conversation comes to rest**, and then everything is taken and read. -/
theorem Talks.rest (hsuits : Reader.Suits false turns) (hwritten : g.written <+: turns.map Prod.fst)
    (h : Talks tx g (turns.map Prod.snd) sent connection taken received s) :
    ∃ connection, Talks tx g (turns.map Prod.snd) sent connection g.offered sent s.rest := by
  have hfor : ∀ n s connection taken received, s.todo ≤ n →
      Talks tx g (turns.map Prod.snd) sent connection taken received s →
      ∃ connection, Talks tx g (turns.map Prod.snd) sent connection g.offered sent
        (restFor n s) := by
    intro n
    induction n with
    | zero =>
        intro s connection taken received hle h
        obtain ⟨rfl, rfl⟩ := h.of_todo (Nat.le_zero.mp hle)
        exact ⟨connection, h⟩
    | succ n ih =>
        intro s connection taken received hle h
        rw [restFor]
        rcases h.next hsuits hwritten with ⟨hnone, hdone⟩ |
          ⟨s', connection', taken', received', hsome, hless, hnext⟩
        · obtain ⟨rfl, rfl⟩ := h.of_todo hdone
          rw [hnone]
          exact ⟨connection, h⟩
        · rw [hsome]
          exact ih s' connection' taken' received' (by omega) hnext
  refine hfor s.atMost s connection taken received ?_ h
  have hinbound : (s.transport.map (·.inbound.length)).getD 0 = s.inbound.length := by
    rw [h.sound]
    rfl
  unfold atMost todo
  rw [hinbound]
  omega

/-- **However a conversation goes, it ends in the same way**: when the session has come to rest the
callers have heard what the values in turn answer, and the connection waits for nothing. -/
theorem Conversation.ends {timeout : Nat} {moves : List Move}
    (h : Conversation timeout (items.map (Callers.Item.action tx)) (turns.map Prod.snd) moves)
    (hsuits : Reader.Suits false turns) (hitems : Callers.acts? {} items = some g)
    (hwritten : g.written = turns.map Prod.fst) :
    g.Follows tx (Reader.answers false turns) ((connected timeout).run moves).rest ∧
      ((connected timeout).run moves).rest.service = .connection
        { connection := { reader :=
          { inMulti := Reader.multiAfterAll false (turns.map Prod.fst) } } } := by
  have hall : g.written <+: turns.map Prod.fst := hwritten ▸ List.prefix_rfl
  obtain ⟨connection, taken, received, htalks⟩ :=
    (Talks.start h.patient).run hsuits h.orderly h.acts hitems hall
  rw [List.nil_append, h.sent] at htalks
  obtain ⟨connection, hrest⟩ := htalks.rest hsuits hall
  have hfeed := Reader.feed_turns hsuits
  rw [← hwritten] at hfeed
  have hfollows := hrest.follows
  have hhere := hrest.served.inStep.here
  unfold Callers.written at hfeed
  rw [hfeed] at hfollows hhere
  refine ⟨hfollows, hrest.served.service.trans ?_⟩
  rw [← show _ = connection from hhere, ← hwritten]
  rfl

end RespClient.Session
