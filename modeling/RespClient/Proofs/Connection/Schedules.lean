import Mathlib.Data.List.Basic
import RespClient.Proofs.Connection.Life

/-!
# The order of reads and submissions

Bytes arrive from one side and submissions from the other, each side in its own order, and which of
the two goes first is left open where both are ready. The choice is not seen in the replies. A
command that waits behind the others has no influence on what is read (`Reader.feed_more`), so all
commands might as well be queued before the first read, as long as no reply comes before its command
(`Connection.queued_first`). Two schedules that differ in the choice alone are therefore both like a
third, in which nothing is left to choose.

- §1: calls on a connection in any state, also after faults.
- §2: two lists of calls.
- §3: a served connection, which the two sides also bring to its end.
- §4: two lists of events.
-/

namespace RespClient

/-! ## §1  Calls, and what the reads among them give -/

/-- What one read gives: its answers, and the fault that it ends in, if it does. -/
structure Heard where
  answered : List Answer
  fault : Option Fault
  deriving DecidableEq

def Progress.heard (p : Progress) : Heard := ⟨p.answered, p.fault⟩

namespace Connection

def Call.isSend : Call → Bool
  | .send .. | .submit .. => true
  | .receive _ => false

/-- The bytes that a call brings. -/
def Call.chunk? : Call → Option (List UInt8)
  | .receive chunk => some chunk
  | .send .. | .submit .. => none

/-- The commands that a call queues. -/
def Call.queued : Call → List Command
  | .send commands _ => commands
  | .submit s _ => s.wrapped
  | .receive _ => []

/-- The slot that makes room when a call wraps a submission. -/
def Call.displaced : Call → Option Slot
  | .submit s _ => s.displaced
  | .send .. | .receive _ => none

/-- The connection after a call. -/
def after (c : Connection) : Call → Connection
  | .send commands _ => (c.send commands).2
  | .submit s _ => (c.submit s).2
  | .receive chunk => (c.receive chunk).connection

/-- What the reads among the calls give, one after the other. -/
def heard (c : Connection) : List Call → List Heard
  | [] => []
  | .send commands _ :: rest => heard (c.send commands).2 rest
  | .submit s _ :: rest => heard (c.submit s).2 rest
  | .receive chunk :: rest => (c.receive chunk).heard :: heard (c.receive chunk).connection rest

/-- No reply among the calls comes before its command is queued. -/
def InTime (c : Connection) (calls : List Call) : Prop :=
  ∀ h ∈ c.heard calls, h.fault ≠ some .unexpectedReply

instance (c : Connection) (calls : List Call) : Decidable (c.InTime calls) :=
  inferInstanceAs (Decidable (∀ h ∈ c.heard calls, h.fault ≠ some .unexpectedReply))

variable {c : Connection} {l : Ledger} {calls : List Call}

theorem send_send (c : Connection) (commands later : List Command) :
    ((c.send commands).2.send later).2 = (c.send (commands ++ later)).2 := by
  unfold send
  rw [List.append_assoc]

theorem receive_send {chunk : List UInt8} (h : (c.receive chunk).fault ≠ some .unexpectedReply)
    (later : List Command) : (c.send later).2.receive chunk = (c.receive chunk).more later :=
  Reader.feed_more h later

/-- **All commands might be queued first.** Every call is in its place for the reads alone, and a
read does not see what is queued after it. -/
theorem queued_first (h : c.InTime calls) :
    c.heard calls =
      (c.send (calls.flatMap Call.queued)).2.heard ((calls.filterMap Call.chunk?).map .receive) ∧
    calls.foldl after c =
      ((calls.filterMap Call.chunk?).map Call.receive).foldl after
        (c.send (calls.flatMap Call.queued)).2 := by
  induction calls generalizing c with
  | nil => exact ⟨rfl, by simp [send]⟩
  | cons call rest ih =>
      cases call with
      | send commands fault =>
          obtain ⟨hheard, hafter⟩ := ih (c := (c.send commands).2) h
          rw [send_send] at hheard hafter
          exact ⟨hheard, hafter⟩
      | submit s fault =>
          obtain ⟨hheard, hafter⟩ := ih (c := (c.send s.wrapped).2) h
          rw [send_send] at hheard hafter
          exact ⟨hheard, hafter⟩
      | receive chunk =>
          obtain ⟨hread, hrest⟩ := List.forall_mem_cons.mp h
          obtain ⟨hheard, hafter⟩ := ih (c := (c.receive chunk).connection) hrest
          have hmore := receive_send hread (rest.flatMap Call.queued)
          have hnext : ((c.send (rest.flatMap Call.queued)).2.receive chunk).connection =
              ((c.receive chunk).connection.send (rest.flatMap Call.queued)).2 := by
            rw [hmore]
            rfl
          have hgives : ((c.send (rest.flatMap Call.queued)).2.receive chunk).heard =
              (c.receive chunk).heard := by
            rw [hmore]
            rfl
          constructor
          · show _ :: _ = _ :: _
            rw [hheard]
            show _ = ((c.send (rest.flatMap Call.queued)).2.receive chunk).heard ::
              ((c.send (rest.flatMap Call.queued)).2.receive chunk).connection.heard _
            rw [hgives, hnext]
          · show List.foldl after (c.receive chunk).connection rest = _
            rw [hafter, ← hnext]
            rfl

/-! ## §2  Two lists of calls -/

theorem run_connection (s : Connection × Ledger) (calls : List Call) :
    (run s calls).1 = calls.foldl after s.1 := by
  induction calls generalizing s with
  | nil => rfl
  | cons call rest ih =>
      have hcall : (Connection.call s call).1 = s.1.after call := by cases call <;> rfl
      show (run (Connection.call s call) rest).1 = rest.foldl after (s.1.after call)
      rw [ih, hcall]

theorem run_answered (s : Connection × Ledger) (calls : List Call) :
    (run s calls).2.answered = s.2.answered ++ (s.1.heard calls).flatMap (·.answered) := by
  induction calls generalizing s with
  | nil => exact (List.append_nil _).symm
  | cons call rest ih =>
      show (run (Connection.call s call) rest).2.answered = _
      rw [ih]
      cases call with
      | send commands fault => rfl
      | submit b fault => rfl
      | receive chunk => exact List.append_assoc ..

theorem run_displaced (s : Connection × Ledger) (calls : List Call) :
    (run s calls).2.displaced = s.2.displaced ++ calls.filterMap Call.displaced := by
  induction calls generalizing s with
  | nil => exact (List.append_nil _).symm
  | cons call rest ih =>
      show (run (Connection.call s call) rest).2.displaced = _
      rw [ih]
      cases call with
      | send commands fault => exact congrArg (· ++ _) (List.append_nil _)
      | submit b fault =>
          show (s.2.displaced ++ b.displaced.toList) ++ _ =
            s.2.displaced ++ List.filterMap Call.displaced (.submit b fault :: rest)
          rw [List.filterMap_cons, List.append_assoc]
          cases hslot : b.displaced <;> simp [Call.displaced, hslot]
      | receive chunk => rfl

/-- The sends alone decide what is queued, and in which order. -/
theorem queued_of_sends (calls : List Call) :
    calls.flatMap Call.queued = (calls.filter Call.isSend).flatMap Call.queued := by
  induction calls with
  | nil => rfl
  | cons call rest ih => cases call <;> simp [List.filter_cons, Call.isSend, Call.queued, ih]

theorem displaced_of_sends (calls : List Call) :
    calls.filterMap Call.displaced = (calls.filter Call.isSend).filterMap Call.displaced := by
  induction calls with
  | nil => rfl
  | cons call rest ih =>
      cases call <;> simp [List.filter_cons, List.filterMap_cons, Call.isSend, Call.displaced, ih]

/-- Two schedules of the same sends and the same chunks, in time, give the same. -/
structure Agree (s t : Connection × Ledger) : Prop where
  connection : s.1 = t.1
  answered : s.2.answered = t.2.answered
  replies : Settlement.replies s.2.settled = Settlement.replies t.2.settled
  drops : Settlement.drops s.2.settled = Settlement.drops t.2.settled

theorem heard_eq {other : List Call} (h : c.InTime calls) (hother : c.InTime other)
    (hsends : calls.filter Call.isSend = other.filter Call.isSend)
    (hchunks : calls.filterMap Call.chunk? = other.filterMap Call.chunk?) :
    c.heard calls = c.heard other ∧ calls.foldl after c = other.foldl after c := by
  obtain ⟨hheard, hafter⟩ := queued_first h
  obtain ⟨hheard', hafter'⟩ := queued_first hother
  rw [hheard, hheard', hafter, hafter', queued_of_sends calls, queued_of_sends other, hsends,
    hchunks]
  exact ⟨rfl, rfl⟩

theorem run_agree {other : List Call} (hbal : l.Balanced c.pending) (h : c.InTime calls)
    (hother : c.InTime other) (hsends : calls.filter Call.isSend = other.filter Call.isSend)
    (hchunks : calls.filterMap Call.chunk? = other.filterMap Call.chunk?) :
    Agree (run (c, l) calls) (run (c, l) other) := by
  obtain ⟨hheard, hafter⟩ := heard_eq h hother hsends hchunks
  have hanswered : (run (c, l) calls).2.answered = (run (c, l) other).2.answered := by
    rw [run_answered, run_answered]
    exact congrArg (l.answered ++ ·.flatMap (·.answered)) hheard
  have hdisplaced : (run (c, l) calls).2.displaced = (run (c, l) other).2.displaced := by
    rw [run_displaced, run_displaced, displaced_of_sends calls, displaced_of_sends other, hsends]
  have hfinal := balanced_run (s := (c, l)) hbal calls
  have hfinal' := balanced_run (s := (c, l)) hbal other
  refine ⟨?_, hanswered, ?_, ?_⟩
  · rw [run_connection, run_connection]
    exact hafter
  · rw [hfinal.replied, hfinal'.replied, hanswered]
  · rw [hfinal.dropped, hfinal'.dropped, hdisplaced]

end Connection

namespace Serving

/-! ## §3  A served connection -/

def Event.isRead : Event → Bool
  | .read _ => true
  | _ => false

/-- Does the event tell that no submission can come any more? -/
def Event.closes : Event → Bool
  | .submissionsClosed => true
  | _ => false

variable {events others : List Event} {s t s' : Serving} {e : Event}

/-- The events that do not end the connection by themselves: a chunk that is read without a fault,
a submission that is written, and the news that none can come. -/
inductive GoesOn (s : Serving) : Event → Prop
  | read {chunk : List UInt8} (ne_nil : chunk ≠ [])
      (sound : (s.connection.receive chunk).fault = none) : GoesOn s (.read chunk)
  | submission (b : Submission) : GoesOn s (.submission b none)
  | submissionsClosed : GoesOn s .submissionsClosed

theorem goesOn_of_next (h : (s.step e).next = .inl s') : GoesOn s e := by
  cases e with
  | read chunk =>
      have hne : chunk ≠ [] := by
        rintro rfl
        exact absurd h (by simp [step, finish])
      exact .read hne (fault_of_next hne h)
  | readFault fault => exact absurd h (by simp [step, finish])
  | submission b fault =>
      obtain rfl := writeFault_of_next h
      exact .submission b
  | submissionsClosed => exact .submissionsClosed

/-- Where such an event leaves the connection. Only if nothing can happen any more it ends there. -/
def settledAt (s : Serving) (e : Event) : Serving ⊕ Ending :=
  (goOn ⟨s.after e, s.accepting && !e.closes⟩ [] []).next

theorem goOn_next (s : Serving) (written : List UInt8) (settled : List Settlement) :
    (goOn s written settled).next = (goOn s [] []).next := by
  unfold goOn
  split <;> rfl

theorem GoesOn.step_next (h : GoesOn s e) : (s.step e).next = settledAt s e := by
  unfold settledAt
  cases h with
  | read hne hsound =>
      obtain ⟨b, bytes, rfl⟩ := List.exists_cons_of_ne_nil hne
      simp only [step, hsound, goOn_next, Event.closes, Bool.not_false, Bool.and_true]
      rfl
  | submission b =>
      simp only [step, goOn_next, Event.closes, Bool.not_false, Bool.and_true]
      rfl
  | submissionsClosed =>
      simp only [step, Event.closes, Bool.not_true, Bool.and_false]
      rfl

/-- Submissions are looked for until the news comes that there are none. -/
theorem accepting_eq (h : (life events).now = .inl s) :
    s.accepting = !events.any Event.closes := by
  induction events using List.reverseRecOn generalizing s with
  | nil =>
      obtain rfl : ({} : Serving) = s := Sum.inl.inj h
      rfl
  | append_singleton events e ih =>
      obtain ⟨s₀, hnow, hstep⟩ := now_snoc h
      rw [(goesOn_of_next hstep).step_next, settledAt] at hstep
      rcases goOn_cases ⟨s₀.after e, s₀.accepting && !e.closes⟩ [] [] with
        ⟨hnext, -⟩ | ⟨hnext, -, -, -⟩
      · rw [← Sum.inl.inj (hnext.symm.trans hstep), ih hnow]
        simp [Bool.not_or]
      · exact absurd (hnext.symm.trans hstep) (by simp)

theorem GoesOn.inStep (h : GoesOn s e) (halive : Alive events s) :
    (s.after e).InStep ((taken (events ++ [e])).flatMap Submission.wrapped)
      (received (events ++ [e])) := by
  have hin := halive.inStep
  rw [halive.books.sent] at hin
  rw [taken_snoc, received_snoc, List.flatMap_append]
  cases h with
  | read hne hsound =>
      simp only [Event.taken, Event.received, Option.toList_none, List.flatMap_nil, List.append_nil]
      exact hin.receive hsound
  | submission b =>
      simp only [Event.taken, Event.received, Option.toList_some, List.flatMap_singleton,
        List.append_nil]
      exact hin.send b.wrapped
  | submissionsClosed =>
      simp only [Event.taken, Event.received, Option.toList_none, List.flatMap_nil, List.append_nil]
      exact hin

theorem inStep_unique {c d : Connection} {sent : List Command} {bytes : List UInt8}
    (h : c.InStep sent bytes) (h' : d.InStep sent bytes) : c = d := h.here.symm.trans h'.here

/-! ## §4  Two lists of events -/

/-- Everything listed does happen to the connection: it does not end before the last event, nor for
a reply that comes before its command. -/
structure Served (events : List Event) : Prop where
  lasts : ∃ s, (life events.dropLast).now = .inl s
  inTime : (life events).now ≠ .inr (.protocol .unexpectedReply)

/-- The same comes from each of the two sides, in the same order. -/
structure SameSides (events others : List Event) : Prop where
  reads : events.filter Event.isRead = others.filter Event.isRead
  rest : events.filter (!·.isRead) = others.filter (!·.isRead)

theorem received_of_reads (events : List Event) :
    received events = received (events.filter Event.isRead) := by
  induction events with
  | nil => rfl
  | cons e rest ih =>
      cases e with
      | read bytes => exact congrArg (bytes ++ ·) ih
      | readFault | submission | submissionsClosed => exact ih

theorem taken_of_rest (events : List Event) :
    taken events = taken (events.filter (!·.isRead)) := by
  rw [taken, taken, List.filterMap_filter]
  exact List.filterMap_congr fun e _ => by cases e <;> rfl

theorem closes_of_rest (events : List Event) :
    events.any Event.closes = (events.filter (!·.isRead)).any Event.closes := by
  induction events with
  | nil => rfl
  | cons e rest ih =>
      cases e with
      | submissionsClosed => rfl
      | read | readFault | submission => exact ih

namespace SameSides

theorem symm (h : SameSides events others) : SameSides others events :=
  ⟨h.reads.symm, h.rest.symm⟩

theorem received_eq (h : SameSides events others) : received events = received others := by
  rw [received_of_reads events, received_of_reads others, h.reads]

theorem taken_eq (h : SameSides events others) : taken events = taken others := by
  rw [taken_of_rest events, taken_of_rest others, h.rest]

theorem closes_eq (h : SameSides events others) :
    events.any Event.closes = others.any Event.closes := by
  rw [closes_of_rest events, closes_of_rest others, h.rest]

theorem eq_nil (h : SameSides [] others) : others = [] := by
  cases others with
  | nil => rfl
  | cons e rest =>
      have hreads := h.reads
      have hrest := h.rest
      cases he : e.isRead <;> simp [he] at hreads hrest

/-- The last events come from the same side, so they are the same. -/
theorem of_snoc {e' : Event} (h : SameSides (events ++ [e]) (others ++ [e']))
    (hside : e.isRead = e'.isRead) : e = e' ∧ SameSides events others := by
  have hreads := h.reads
  have hrest := h.rest
  rw [List.filter_append, List.filter_append] at hreads hrest
  cases he : e.isRead with
  | true =>
      simp only [List.filter_cons, List.filter_nil, he, hside.symm.trans he, if_true, Bool.not_true,
        Bool.false_eq_true, if_false, List.append_nil] at hreads hrest
      obtain ⟨hreads, hlast⟩ := List.append_inj' hreads rfl
      exact ⟨List.singleton_inj.mp hlast, hreads, hrest⟩
  | false =>
      simp only [List.filter_cons, List.filter_nil, he, hside.symm.trans he, if_true,
        Bool.not_false, Bool.false_eq_true, if_false, List.append_nil] at hreads hrest
      obtain ⟨hrest, hlast⟩ := List.append_inj' hrest rfl
      exact ⟨List.singleton_inj.mp hlast, hreads, hrest⟩

/-- The last events come from different sides: each of them is among the others before. -/
theorem crossed {e' : Event} (h : SameSides (events ++ [e]) (others ++ [e']))
    (hread : e.isRead = true) (hother : e'.isRead = false) :
    others.filter Event.isRead = events.filter Event.isRead ++ [e] ∧
      events.filter (!·.isRead) = others.filter (!·.isRead) ++ [e'] := by
  have hreads := h.reads
  have hrest := h.rest
  rw [List.filter_append, List.filter_append] at hreads hrest
  simp only [List.filter_cons, List.filter_nil, hread, hother, if_true, Bool.not_true,
    Bool.not_false, Bool.false_eq_true, if_false, List.append_nil] at hreads hrest
  exact ⟨hreads.symm, hrest⟩

/-- Connections that live stand in the same place. -/
theorem alive_eq (h : SameSides events others) (hs : Alive events s) (ht : Alive others t) :
    s = t := by
  have hins := hs.inStep
  have hint := ht.inStep
  rw [hs.books.sent, h.taken_eq, h.received_eq] at hins
  rw [ht.books.sent] at hint
  have hconnection : s.connection = t.connection := inStep_unique hins hint
  have haccepting : s.accepting = t.accepting := by
    rw [accepting_eq hs.now, accepting_eq ht.now, h.closes_eq]
  cases s
  cases t
  dsimp only at hconnection haccepting
  rw [hconnection, haccepting]

end SameSides

/-- What happened to a connection that lives did not end it. -/
theorem goesOn_of_mem (h : (life events).now = .inl s) (he : e ∈ events) :
    ∃ s₀, GoesOn s₀ e := by
  induction events using List.reverseRecOn generalizing s with
  | nil => exact absurd he (by simp)
  | append_singleton events last ih =>
      obtain ⟨s₀, hnow, hstep⟩ := now_snoc h
      rcases List.mem_append.mp he with hmem | hmem
      · exact ih hnow hmem
      · rw [List.mem_singleton.mp hmem]
        exact ⟨s₀, goesOn_of_next hstep⟩

theorem GoesOn.of_rest (h : GoesOn s e) (hrest : e.isRead = false) : GoesOn t e := by
  cases h with
  | read => exact absurd hrest (by simp [Event.isRead])
  | submission b => exact .submission b
  | submissionsClosed => exact .submissionsClosed

/-- Where the last events come from different sides, neither ends the connection by itself: each of
them is, in the other list, followed by something. -/
theorem goesOn_of_crossed {e' : Event} (h : SameSides (events ++ [e]) (others ++ [e']))
    (hs : Alive events s) (ht : Alive others t) (hread : e.isRead = true)
    (hother : e'.isRead = false) : GoesOn s e ∧ GoesOn t e' := by
  obtain ⟨hreads, hrest⟩ := h.crossed hread hother
  have hbefore : e ∈ others := by
    have hmem : e ∈ others.filter Event.isRead := by simp [hreads]
    exact (List.mem_filter.mp hmem).1
  have hbefore' : e' ∈ events := by
    have hmem : e' ∈ events.filter (!·.isRead) := by simp [hrest]
    exact (List.mem_filter.mp hmem).1
  refine ⟨?_, (goesOn_of_mem hs.now hbefore').choose_spec.of_rest hother⟩
  obtain ⟨s₀, hgoes⟩ := goesOn_of_mem ht.now hbefore
  cases hgoes with
  | submission b => exact absurd hread (by simp [Event.isRead])
  | submissionsClosed => exact absurd hread (by simp [Event.isRead])
  | @read chunk hne =>
      -- The other list reads the same bytes with fewer commands waiting, and without a fault.
      have hreceived : received others = received events ++ chunk := by
        rw [received_of_reads others, hreads, received_snoc, ← received_of_reads]
        rfl
      have htaken : taken events = taken others ++ e'.taken.toList := by
        rw [taken_of_rest events, hrest, taken_snoc, ← taken_of_rest]
      have hin := hs.inStep.feed_receive chunk
      have hsound := ht.inStep.sound
      rw [hs.books.sent, htaken, List.flatMap_append, ← hreceived] at hin
      rw [ht.books.sent] at hsound
      rw [Reader.feed_more (by rw [hsound]; simp)] at hin
      exact .read hne ((congrArg Progress.fault hin).symm.trans hsound)

theorem GoesOn.written (h : GoesOn s e) (halive : Alive events s) :
    (life (events ++ [e])).written =
      Command.frames ((taken (events ++ [e])).flatMap Submission.wrapped) :=
  halive.wrote_snoc (step_written_whole s (by rintro b fault rfl; cases h))

/-- Where two lists end with events that do not end the connection, it stands in the same place and
has written the same. -/
theorem goesOn_same {e' : Event} (h : SameSides (events ++ [e]) (others ++ [e']))
    (hs : Alive events s) (ht : Alive others t) (he : GoesOn s e) (he' : GoesOn t e') :
    (life (events ++ [e])).now = (life (others ++ [e'])).now ∧
      (life (events ++ [e])).written = (life (others ++ [e'])).written := by
  have hins := he.inStep hs
  have hint := he'.inStep ht
  rw [h.taken_eq, h.received_eq] at hins
  have haccepting : (s.accepting && !e.closes) = (t.accepting && !e'.closes) := by
    have hcloses := h.closes_eq
    simp only [List.any_append, List.any_cons, List.any_nil, Bool.or_false] at hcloses
    rw [accepting_eq hs.now, accepting_eq ht.now, ← Bool.not_or, ← Bool.not_or, hcloses]
  constructor
  · rw [life_snoc_of_now hs.now, life_snoc_of_now ht.now]
    dsimp only
    rw [he.step_next, he'.step_next, settledAt, settledAt, inStep_unique hins hint, haccepting]
  · rw [he.written hs, he'.written ht, h.taken_eq]

/-- **The order of the two sides is not seen** in where a connection stands and what it writes. -/
theorem now_eq (hserved : Served events) (hserved' : Served others)
    (h : SameSides events others) :
    (life events).now = (life others).now ∧ (life events).written = (life others).written := by
  obtain ⟨s, hs⟩ := hserved.lasts
  obtain ⟨t, ht⟩ := hserved'.lasts
  rcases events.eq_nil_or_concat' with rfl | ⟨init, e, rfl⟩
  · rw [h.eq_nil]
    exact ⟨rfl, rfl⟩
  rcases others.eq_nil_or_concat' with rfl | ⟨init', e', rfl⟩
  · exact absurd h.symm.eq_nil (by simp)
  rw [List.dropLast_concat] at hs ht
  have halive := alive_of_now hs
  have halive' := alive_of_now ht
  by_cases hside : e.isRead = e'.isRead
  · obtain ⟨rfl, hinit⟩ := h.of_snoc hside
    have hwritten : (life init).written = (life init').written := by
      rw [halive.wrote, halive'.wrote, hinit.taken_eq]
    rw [life_snoc_of_now hs, life_snoc_of_now ht, hinit.alive_eq halive halive', hwritten]
    exact ⟨rfl, rfl⟩
  · cases he : e.isRead with
    | true =>
        have he' : e'.isRead = false := by simpa [he] using hside
        obtain ⟨hgoes, hgoes'⟩ := goesOn_of_crossed h halive halive' he he'
        exact goesOn_same h halive halive' hgoes hgoes'
    | false =>
        have he' : e'.isRead = true := by simpa [he] using hside
        obtain ⟨hgoes', hgoes⟩ := goesOn_of_crossed h.symm halive' halive he' he
        exact goesOn_same h halive halive' hgoes hgoes'

theorem alive_or_over (hserved : Served events) : (∃ s, Alive events s) ∨ Over events := by
  obtain ⟨s, hs⟩ := hserved.lasts
  rcases events.eq_nil_or_concat' with rfl | ⟨init, e, rfl⟩
  · exact .inl ⟨_, alive_nil⟩
  · rw [List.dropLast_concat] at hs
    rcases (alive_of_now hs).next e with ⟨s', -, halive, -⟩ | ⟨ending, -, hover, -⟩
    · exact .inl ⟨s', halive⟩
    · exact .inr hover

/-- The lives look the same from outside, and end in the same place. -/
structure SameLife (events others : List Event) : Prop where
  now : (life events).now = (life others).now
  written : (life events).written = (life others).written
  answered : (life events).ledger.answered = (life others).ledger.answered
  replies : Settlement.replies (life events).ledger.settled =
    Settlement.replies (life others).ledger.settled
  drops : Settlement.drops (life events).ledger.settled =
    Settlement.drops (life others).ledger.settled

/-- The commands that a connection has ended without reaching. -/
def Life.unreached (l : Life) : List Command :=
  match l.now with
  | .inl _ => []
  | .inr _ => l.ledger.sent.drop l.ledger.answered.length

/-- What a served connection has told its callers: the replies, and once it has ended, to those it
did not reach, that the socket is gone. -/
theorem replies_eq (hserved : Served events) :
    Settlement.replies (life events).ledger.settled =
        ((life events).ledger.answered.flatMap fun a => a.command.replied a.reply) ++
          (life events).unreached.flatMap (fun c => c.replied .socketClosed) ∧
      Settlement.drops (life events).ledger.settled = (life events).ledger.displaced := by
  unfold Life.unreached
  rcases alive_or_over hserved with ⟨s, halive⟩ | hover
  · rw [halive.now]
    dsimp only
    rw [List.flatMap_nil, List.append_nil]
    exact ⟨halive.balanced.replied, halive.balanced.dropped⟩
  · obtain ⟨unreached, hsettled⟩ := hover.settled
    obtain ⟨ending, hnow⟩ := hover.ended
    have hrest : (life events).ledger.sent.drop (life events).ledger.answered.length =
        unreached := by
      rw [hsettled.queue]
      exact List.drop_left' (List.length_map ..)
    rw [hnow]
    dsimp only
    rw [hrest]
    exact ⟨hsettled.replied, hsettled.dropped⟩

theorem sameLife (hserved : Served events) (hserved' : Served others)
    (h : SameSides events others) : SameLife events others := by
  obtain ⟨hnow, hwritten⟩ := now_eq hserved hserved' h
  have hbooks {list : List Event} (hlist : Served list) : Books list := by
    rcases alive_or_over hlist with ⟨s, halive⟩ | hover
    · exact halive.books
    · exact hover.books
  have hsent : (life events).ledger.sent = (life others).ledger.sent := by
    rw [(hbooks hserved).sent, (hbooks hserved').sent, h.taken_eq]
  have hdisplaced : (life events).ledger.displaced = (life others).ledger.displaced := by
    rw [(hbooks hserved).displaced, (hbooks hserved').displaced, h.taken_eq]
  have hanswered : (life events).ledger.answered = (life others).ledger.answered := by
    rw [(hbooks hserved).answered, (hbooks hserved').answered, hsent, h.received_eq]
  have hunreached : (life events).unreached = (life others).unreached := by
    unfold Life.unreached
    rw [hnow, hsent, hanswered]
  obtain ⟨hreplied, hdropped⟩ := replies_eq hserved
  obtain ⟨hreplied', hdropped'⟩ := replies_eq hserved'
  refine ⟨hnow, hwritten, hanswered, ?_, ?_⟩
  · rw [hreplied, hreplied', hanswered, hunreached]
  · rw [hdropped, hdropped', hdisplaced]

/-- **Sending and receiving commute.** In any state, a chunk that finds a command for each of its
replies is read as it would be with more commands waiting behind. So two schedules of the same
calls, in each of which no reply comes before its command, give the same to every read and every
slot and leave the connection in the same place; and so do two schedules in which a connection is
served. -/
theorem sends_and_reads_commute :
    (∀ (r : Reader) (pending later : List Command) (chunk : List UInt8),
      (r.feed pending chunk).fault ≠ some .unexpectedReply →
        r.feed (pending ++ later) chunk =
          { r.feed pending chunk with pending := (r.feed pending chunk).pending ++ later }) ∧
    (∀ (c : Connection) (calls others : List Connection.Call),
      c.InTime calls → c.InTime others →
        calls.filter Connection.Call.isSend = others.filter Connection.Call.isSend →
        calls.filterMap Connection.Call.chunk? = others.filterMap Connection.Call.chunk? →
          c.heard calls = c.heard others ∧
            Connection.Agree (Connection.run (c, { sent := c.pending }) calls)
              (Connection.run (c, { sent := c.pending }) others)) ∧
    ∀ events others : List Event,
      Served events → Served others → SameSides events others → SameLife events others := by
  refine ⟨fun r pending later chunk h => Reader.feed_more h later, ?_,
    fun events others => sameLife⟩
  intro c calls others h hother hsends hchunks
  have hbal : Ledger.Balanced { sent := c.pending } c.pending := ⟨rfl, rfl, rfl⟩
  exact ⟨(Connection.heard_eq h hother hsends hchunks).1,
    Connection.run_agree hbal h hother hsends hchunks⟩

/-- A key is asked for. -/
def asked : Submission := .single { kind := .get, args := ["k"], slot := some ⟨0⟩ }

/-- A counter is asked for. -/
def counted : Submission := .single { kind := .incr, args := ["n"], slot := some ⟨1⟩ }

/-- Half the value of the key. -/
def halfValue : List UInt8 := Utf8.encode "$2\r\na"

/-- The other half, and the counter. -/
def otherHalf : List UInt8 := Utf8.encode "b\r\n:5\r\n"

/-- The second submission is taken before the reply to the first has come, or inside it. -/
theorem sends_and_reads_commute_inside_reply :
    (Reader.feed {} asked.wrapped halfValue).fault ≠ some .unexpectedReply ∧
    Reader.feed {} (asked.wrapped ++ counted.wrapped) halfValue =
      { Reader.feed {} asked.wrapped halfValue with
        pending := (Reader.feed {} asked.wrapped halfValue).pending ++ counted.wrapped } ∧
    Connection.heard {} [.submit asked none, .submit counted none, .receive halfValue,
        .receive otherHalf] =
      Connection.heard {} [.submit asked none, .receive halfValue, .submit counted none,
        .receive otherHalf] ∧
    SameLife
      [.submission asked none, .submission counted none, .read halfValue, .read otherHalf]
      [.submission asked none, .read halfValue, .submission counted none, .read otherHalf] := by
  obtain ⟨hfeed, hcalls, hlives⟩ := sends_and_reads_commute
  have hfault : (Reader.feed {} asked.wrapped halfValue).fault ≠ some .unexpectedReply := by
    decide +kernel
  have hinTime : Connection.InTime {} [.submit asked none, .submit counted none,
      .receive halfValue, .receive otherHalf] := by decide +kernel
  have hinTime' : Connection.InTime {} [.submit asked none, .receive halfValue,
      .submit counted none, .receive otherHalf] := by decide +kernel
  have hserved : Served [.submission asked none, .submission counted none, .read halfValue,
      .read otherHalf] := ⟨Sum.isLeft_iff.mp (by decide +kernel), by decide +kernel⟩
  have hserved' : Served [.submission asked none, .read halfValue, .submission counted none,
      .read otherHalf] := ⟨Sum.isLeft_iff.mp (by decide +kernel), by decide +kernel⟩
  exact ⟨hfault, hfeed _ _ _ _ hfault, (hcalls _ _ _ hinTime hinTime' rfl rfl).1,
    hlives _ _ hserved hserved' ⟨rfl, rfl⟩⟩

end Serving

end RespClient
