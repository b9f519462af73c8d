import RespClient.Proofs.Session.Pipeline

/-!
# A transaction among other commands

Commands are dispatched, a transaction is recorded and executed, and more commands are dispatched
(`Script`). The server acknowledges the block as it likes and sends one value for all of it, and to
every other command a value that answers it.

However this goes, each caller of the transaction hears his share of the one value, the execution
hears it whole, nobody hears an acknowledgement, and the others hear what they would have without
the transaction (`transaction_demultiplexed`). The reader leaves the block with the reply of `EXEC`.
-/

namespace RespClient

open Callers (Inquiry)
open Reader (answers multiAfterAll)
open Value (bytesAll)

/-! ## §1  Shares -/

namespace Value

/-- The part of the outcome of a transaction that the caller in place `i` gets: his element, if the
outcome has one for him, else all of it. -/
def share (outcome : Value) (i : Nat) : Reply :=
  match outcome with
  | .array elements => (elements[i]?.map fun e => .success e.data).getD outcome.reply
  | _ => outcome.reply

theorem dataAll_eq_map (vs : List Value) : dataAll vs = vs.map data := by
  induction vs with
  | nil => rfl
  | cons v rest ih => rw [dataAll, ih, List.map_cons]

theorem element_reply (v : Value) (i : Nat) : v.reply.element i = v.share i := by
  cases v with
  | array elements =>
      have hreply : (array elements).reply = .success (.array (elements.map data)) := by
        rw [← dataAll_eq_map]
        rfl
      rw [share, hreply, Reply.element, List.getElem?_map]
      cases elements[i]? <;> rfl
  | _ => rfl

end Value

/-! ## §2  What callers do -/

namespace Callers

variable {g : Callers} {t : Transaction}

/-- The commands of requests that are recorded, with the slots of their callers. -/
def recorded (slot : Nat) : List (Inquiry × Value) → List (Command × Slot)
  | [] => []
  | (r, _) :: rest => (r.command, ⟨slot⟩) :: recorded (slot + 1) rest

def records (g : Callers) (t : Transaction) (xs : List (Inquiry × Value)) : Callers :=
  { g with
    ids := g.ids ++ xs.map (·.1.id)
    recording := some { batch := t.batch ++ recorded g.ids.length xs } }

theorem acts?_records (h : g.recording = some t) (xs : List (Inquiry × Value)) :
    g.acts? (xs.map fun x => .record x.1) = some (g.records t xs) := by
  induction xs generalizing g t with
  | nil => simp [acts?, records, recorded, ← h]
  | cons x rest ih =>
      obtain ⟨r, v⟩ := x
      have hact : g.act? (.record r) = some (g.record t r) := by
        rw [act?, h, Option.map_some]
      rw [List.map_cons, acts?, hact, Option.bind_some, ih rfl]
      simp [records, record, recorded, next, Transaction.queue]

theorem commands_recorded (slot : Nat) (xs : List (Inquiry × Value)) :
    (recorded slot xs).map Prod.fst = xs.map (·.1.command) := by
  induction xs generalizing slot with
  | nil => rfl
  | cons x rest ih => rw [recorded, List.map_cons, List.map_cons, ih]

theorem getElem?_slots_recorded (slot : Nat) {xs : List (Inquiry × Value)} {i : Nat}
    (h : i < xs.length) : ((recorded slot xs).map Prod.snd)[i]? = some ⟨slot + i⟩ := by
  induction xs generalizing slot i with
  | nil => exact absurd h (Nat.not_lt_zero i)
  | cons x rest ih =>
      cases i with
      | zero => rfl
      | succ i =>
          rw [recorded, List.map_cons, List.getElem?_cons_succ,
            ih (slot + 1) (Nat.lt_of_succ_lt_succ h), Nat.add_right_comm, Nat.add_assoc]

/-- Those who wait for slots in a row, each with what his slot gets. -/
theorem zipIdx_shares {reply? : Slot → Option Reply} {share : Nat → Reply} (slot : Nat)
    {xs : List (Inquiry × Value)} (h : ∀ i < xs.length, reply? ⟨slot + i⟩ = some (share i)) :
    ((xs.map (·.1.id)).zipIdx slot).map (fun (id, k) => (id, reply? ⟨k⟩)) =
      xs.zipIdx.map fun (x, i) => (x.1.id, some (share i)) := by
  induction xs generalizing slot share with
  | nil => rfl
  | cons x rest ih =>
      have hrest : ∀ i < rest.length, reply? ⟨slot + 1 + i⟩ = some (share (i + 1)) := by
        intro i hi
        rw [Nat.add_right_comm, Nat.add_assoc]
        exact h (i + 1) (Nat.succ_lt_succ hi)
      rw [List.map_cons, List.zipIdx_cons, List.map_cons, ih (slot + 1) hrest, List.zipIdx_cons,
        List.map_cons, List.zipIdx_succ, List.map_map]
      exact congrArg (· :: _) (congrArg (Prod.mk x.1.id) (h 0 (Nat.succ_pos _)))

theorem replies_of_ne {xs : List (Inquiry × Value)}
    (h : ∀ x ∈ xs, x.1.kind ≠ .multi ∧ x.1.kind ≠ .exec) :
    replies false xs = xs.map fun x => (x.1.id, some x.2.reply) := by
  induction xs with
  | nil => rfl
  | cons x rest ih =>
      obtain ⟨hx, hrest⟩ := List.forall_mem_cons.mp h
      rw [replies, Reader.multiAfter_of_ne hx.1 hx.2, ih hrest]
      rfl

theorem mem_turns {slot : Nat} {xs : List (Inquiry × Value)} {y : Command × Value}
    (h : y ∈ turns slot xs) : ∃ x ∈ xs, ∃ own, y = (x.1.command.withSlot own, x.2) := by
  induction xs generalizing slot with
  | nil => exact absurd h (by simp [turns])
  | cons x rest ih =>
      rcases List.mem_cons.mp h with rfl | h
      · exact ⟨x, List.mem_cons_self, _, rfl⟩
      · obtain ⟨x', hx', own, rfl⟩ := ih h
        exact ⟨x', List.mem_cons_of_mem x hx', own, rfl⟩

end Callers

/-! ## §3  The script -/

/-- Plain commands, a transaction, and plain commands again, and what the server sends for each. -/
structure Script where
  before : List (Inquiry × Value)
  /-- The name of the transaction. -/
  transaction : String
  /-- What the server sends for `MULTI`. -/
  opening : Value
  /-- The commands of the transaction, with their acknowledgements. -/
  batch : List (Inquiry × Value)
  /-- Who waits for the execution. -/
  exec : String
  /-- What the server sends for `EXEC`: an array, a null or an error. -/
  outcome : Value
  after : List (Inquiry × Value)
  plain : ∀ x ∈ before ++ after,
    (x.1.kind ≠ .multi ∧ x.1.kind ≠ .exec) ∧ x.2.Answers x.1.command ∧ x.2.Sendable 0
  inside : ∀ x ∈ batch, (x.1.kind ≠ .multi ∧ x.1.kind ≠ .exec) ∧ x.2.Sendable 0
  batch_ne_nil : batch ≠ []
  opening_sendable : opening.Sendable 0
  outcome_answers : outcome.Answers { kind := .exec }
  outcome_sendable : outcome.Sendable 0

namespace Script

variable (p : Script)

def actions : List Action :=
  p.before.map (fun x => x.1.dispatch) ++ .multi p.transaction ::
    (p.batch.map (fun x => x.1.queue p.transaction) ++ .exec p.transaction p.exec ::
      p.after.map fun x => x.1.dispatch)

def values : List Value :=
  p.before.map Prod.snd ++ p.opening :: (p.batch.map Prod.snd ++ p.outcome :: p.after.map Prod.snd)

/-- What everybody is to hear, in the order in which they begin to wait. -/
def replies : List (String × Option Reply) :=
  p.before.map (fun x => (x.1.id, some x.2.reply)) ++
    (p.batch.zipIdx.map (fun (x, i) => (x.1.id, some (p.outcome.share i))) ++
      (p.exec, some p.outcome.reply) :: p.after.map fun x => (x.1.id, some x.2.reply))

/-- The slot of `EXEC`. -/
def slot : Nat := p.before.length + p.batch.length

def execution : Command := { kind := .exec, slot := some ⟨p.slot⟩ }

/-- The commands up to `EXEC` as they are written, and what the server sends for each. -/
def turnsBefore : List (Command × Value) :=
  Callers.turns 0 p.before ++
    ({ kind := .multi }, p.opening) :: p.batch.map fun x => (x.1.command, x.2)

def turnsAfter : List (Command × Value) := Callers.turns (p.slot + 1) p.after

def turns : List (Command × Value) :=
  p.turnsBefore ++ (p.execution, p.outcome) :: p.turnsAfter

def items : List Callers.Item :=
  p.before.map (fun x => .ask x.1) ++ .multi ::
    (p.batch.map (fun x => .record x.1) ++ .exec p.exec :: p.after.map fun x => .ask x.1)

theorem actions_eq : p.actions = p.items.map (Callers.Item.action p.transaction) := by
  simp [actions, items, Callers.Item.action, Function.comp_def]

theorem values_eq : p.values = p.turns.map Prod.snd := by
  simp [values, turns, turnsBefore, turnsAfter, Callers.values_turns, Function.comp_def]

/-! ### The values suit the commands -/

theorem suits_plain (slot : Nat) {xs : List (Inquiry × Value)}
    (h : ∀ x ∈ xs, x ∈ p.before ++ p.after) :
    Reader.Suits false (Callers.turns slot xs) := by
  refine Reader.suits_of_ne fun y hy => ?_
  obtain ⟨x, hx, own, rfl⟩ := Callers.mem_turns hy
  obtain ⟨hkind, hans, hsend⟩ := p.plain x (h x hx)
  exact ⟨hkind, fun _ => hans, hsend⟩

theorem inMulti_plain (slot : Nat) {xs : List (Inquiry × Value)}
    (h : ∀ x ∈ xs, x ∈ p.before ++ p.after) {commands : List Command}
    (hcommands : commands <+: (Callers.turns slot xs).map Prod.fst) (inMulti : Bool) :
    multiAfterAll inMulti commands = inMulti := by
  refine Reader.multiAfterAll_of_ne fun c hc => ?_
  obtain ⟨y, hy, rfl⟩ := List.mem_map.mp (hcommands.subset hc)
  obtain ⟨x, hx, own, rfl⟩ := Callers.mem_turns hy
  exact (p.plain x (h x hx)).1

theorem mem_before {x : Inquiry × Value} (h : x ∈ p.before) : x ∈ p.before ++ p.after :=
  List.mem_append_left _ h

theorem mem_after {x : Inquiry × Value} (h : x ∈ p.after) : x ∈ p.before ++ p.after :=
  List.mem_append_right _ h

/-- Before `EXEC` the reader takes acknowledgements. -/
theorem inMulti_turnsBefore : multiAfterAll false (p.turnsBefore.map Prod.fst) = true := by
  rw [turnsBefore, List.map_append, Reader.multiAfterAll_append,
    p.inMulti_plain 0 (fun x => p.mem_before) List.prefix_rfl]
  show multiAfterAll true _ = true
  refine Reader.multiAfterAll_of_ne fun c hc => ?_
  rw [List.map_map] at hc
  obtain ⟨x, hx, rfl⟩ := List.mem_map.mp hc
  exact (p.inside x hx).1

/-- From `EXEC` on the reader takes whole replies. -/
theorem inMulti_of_prefix {commands : List Command}
    (h : commands <+: p.turnsAfter.map Prod.fst) :
    multiAfterAll false (p.turnsBefore.map Prod.fst ++ p.execution :: commands) = false := by
  rw [Reader.multiAfterAll_append]
  exact p.inMulti_plain _ (fun x => p.mem_after) h false

theorem suits : Reader.Suits false p.turns := by
  refine Reader.suits_append.mpr ⟨Reader.suits_append.mpr ⟨?_, ?_⟩, ?_⟩
  · exact p.suits_plain 0 fun x => p.mem_before
  · refine ⟨p.opening_sendable, nofun, Reader.suits_of_ne fun y hy => ?_⟩
    obtain ⟨x, hx, rfl⟩ := List.mem_map.mp hy
    exact ⟨(p.inside x hx).1, nofun, (p.inside x hx).2⟩
  · rw [p.inMulti_turnsBefore]
    exact ⟨p.outcome_sendable, fun _ => p.outcome_answers,
      p.suits_plain _ fun x => p.mem_after⟩

/-- What the commands get: those before `EXEC`, `EXEC`, and those after it. -/
theorem answers_eq : answers false p.turns =
    answers false p.turnsBefore ++
      ⟨p.execution, p.outcome.reply⟩ :: answers false p.turnsAfter := by
  rw [turns, Reader.answers_append, p.inMulti_turnsBefore]
  rfl

theorem answers_turnsBefore : answers false p.turnsBefore =
    answers false (Callers.turns 0 p.before) ++
      answers false
        (({ kind := .multi }, p.opening) :: p.batch.map fun x => (x.1.command, x.2)) := by
  rw [turnsBefore, Reader.answers_append, p.inMulti_plain 0 (fun x => p.mem_before) List.prefix_rfl]

/-! ### The callers at the end -/

/-- The batch as it is handed over. -/
def block : Submission where
  commands := p.batch.map (·.1.command)
  exec := some ⟨p.slot⟩
  commands_ne_nil := by simpa using p.batch_ne_nil

theorem wrapped_block : p.block.wrapped =
    { kind := .multi } :: (p.batch.map (·.1.command) ++ [p.execution]) := by
  refine Submission.wrapped_of_ne rfl fun c hc => ?_
  obtain ⟨x, hx, rfl⟩ := List.mem_map.mp hc
  exact (p.inside x hx).1

/-- The transaction when it is executed. -/
def recorded : Transaction := { batch := Callers.recorded p.before.length p.batch }

theorem submission_recorded : p.recorded.submission ⟨p.slot⟩ = .ok p.block := by
  unfold Transaction.submission Submission.transaction Submission.ofCommands
  rw [recorded, Callers.commands_recorded]
  split
  · next hnil => exact absurd hnil p.block.commands_ne_nil
  · next c rest hcs => simp [block, hcs]

/-- The callers when the transaction is recorded. -/
def recorder : Callers :=
  Callers.records { Callers.asks {} p.before with recording := some {} } {} p.batch

theorem ids_recorder : p.recorder.ids = p.before.map (·.1.id) ++ p.batch.map (·.1.id) := rfl

theorem recording_recorder : p.recorder.recording = some p.recorded := by
  simp [recorder, Callers.records, Callers.asks, recorded]

theorem next_recorder : p.recorder.next = ⟨p.slot⟩ := by
  simp [Callers.next, ids_recorder, slot]

theorem written_recorder : p.recorder.written = (Callers.turns 0 p.before).map Prod.fst :=
  Callers.written_asks {} p.before

/-- The callers when everything is handed over. -/
def callers : Callers := (p.recorder.exec p.recorded p.exec p.block).asks p.after

theorem acts_items : Callers.acts? {} p.items = some p.callers := by
  have hmulti : (Callers.asks {} p.before).act? .multi =
      some { Callers.asks {} p.before with recording := some {} } := rfl
  have hrecord : Callers.acts? { Callers.asks {} p.before with recording := some {} }
      (p.batch.map fun x => .record x.1) = some p.recorder := Callers.acts?_records rfl p.batch
  have hexec : p.recorder.act? (.exec p.exec) =
      some (p.recorder.exec p.recorded p.exec p.block) := by
    rw [Callers.act?, p.recording_recorder, Option.bind_some, p.next_recorder,
      p.submission_recorded]
    rfl
  rw [items, Callers.acts?_append, Callers.acts?_asks, Option.bind_some, Callers.acts?, hmulti,
    Option.bind_some, Callers.acts?_append, hrecord, Option.bind_some, Callers.acts?, hexec,
    Option.bind_some, Callers.acts?_asks]
  rfl

theorem fresh_callers : p.callers.Fresh := Callers.fresh_empty.acts p.acts_items

theorem ids_callers : p.callers.ids =
    p.before.map (·.1.id) ++ (p.batch.map (·.1.id) ++ p.exec :: p.after.map (·.1.id)) := by
  simp [callers, Callers.asks, Callers.exec, ids_recorder]

theorem executing_callers : p.callers.executing =
    some (⟨p.slot⟩, (Callers.recorded p.before.length p.batch).map Prod.snd) := by
  rw [← p.next_recorder]
  rfl

theorem written_callers : p.callers.written = p.turns.map Prod.fst := by
  have hids : (p.recorder.exec p.recorded p.exec p.block).ids.length = p.slot + 1 := by
    simp [Callers.exec, ids_recorder, slot, Nat.add_assoc]
  rw [callers, Callers.written_asks, hids, Callers.written_exec, p.written_recorder,
    p.wrapped_block]
  simp [turns, turnsBefore, turnsAfter, Function.comp_def]

/-- Nothing before `EXEC` holds its slot, so where its slot has been answered so has it. -/
theorem prefix_of_answered {commands : List Command}
    (hpart : commands <+: p.turns.map Prod.fst) {c : Command} (hc : c ∈ commands)
    (hslot : c.slot = some ⟨p.slot⟩) :
    ∃ later, later <+: p.turnsAfter.map Prod.fst ∧
      commands = p.turnsBefore.map Prod.fst ++ p.execution :: later := by
  have hturns : p.turns.map Prod.fst =
      p.turnsBefore.map Prod.fst ++ p.execution :: p.turnsAfter.map Prod.fst := List.map_append
  have hnew : ∀ c ∈ p.turnsBefore.map Prod.fst, c.slot ≠ some ⟨p.slot⟩ := by
    intro c hc hslot
    have hnodup := p.fresh_callers.nodup.of_append_left
    rw [p.written_callers, hturns, List.filterMap_append,
      List.filterMap_cons_some (show p.execution.slot = some ⟨p.slot⟩ from rfl),
      List.nodup_middle, List.nodup_cons] at hnodup
    exact hnodup.1 (List.mem_append_left _ (List.mem_filterMap.mpr ⟨c, hc, hslot⟩))
  rw [hturns, List.append_cons] at hpart
  rcases List.prefix_or_prefix_of_prefix hpart (List.prefix_append _ _) with hshort | ⟨later, hlong⟩
  · rcases List.prefix_concat_iff.mp hshort with hall | hshort
    · exact ⟨[], List.nil_prefix, hall⟩
    · exact absurd hslot (hnew c (hshort.subset hc))
  · refine ⟨later, ?_, ?_⟩
    · rw [← hlong] at hpart
      exact (List.prefix_append_right_inj _).mp hpart
    · rw [← hlong, ← List.append_cons]

end Script

/-! ## §4  What everybody hears -/

namespace Session

/-- The execution of a transaction is over: whoever waited for it has heard of it. -/
def Executed (s : Session) : Prop :=
  ∃ w ∈ s.waits, (execution? w.task).isSome = true ∧ w.result.isSome = true

end Session

/-- Everybody has heard what he is to hear, every slot has ended once, and the connection is as
new. -/
structure Script.Demultiplexed (p : Script) (s : Session) : Prop where
  heard : s.waits.map (fun w => (w.id, w.result)) = p.replies
  once : (s.settled.map (·.slot)).Nodup
  clean : s.service = .connection {}

namespace Session

variable {p : Script} {timeout : Nat} {moves : List Move}

/-- What an answer settles is what the slot gets, and so everybody hears what he is to hear. -/
theorem heard_of_answers {reply? : Slot → Option Reply} (h : ∀ a ∈ answers false p.turns,
      ∀ slot r, ⟨slot, .reply r⟩ ∈ p.callers.settle a → reply? slot = some r) :
    p.callers.ids.zipIdx.map (fun (id, k) => (id, reply? ⟨k⟩)) = p.replies := by
  have own : ∀ a ∈ answers false p.turns, ∀ slot, a.command.slot = some slot →
      reply? slot = some a.reply := fun a ha slot hslot =>
    h a ha slot a.reply (Callers.mem_settle.mpr (.inl ⟨hslot, rfl⟩))
  rw [p.answers_eq, p.answers_turnsBefore] at own
  have hexec : (⟨p.execution, p.outcome.reply⟩ : Answer) ∈ answers false p.turns := by
    rw [p.answers_eq]
    exact List.mem_append_right _ List.mem_cons_self
  have hbefore := Callers.replies_of_answers fun a ha =>
    own a (List.mem_append_left _ (List.mem_append_left _ ha))
  have hafter := Callers.replies_of_answers fun a ha =>
    own a (List.mem_append_right _ (List.mem_cons_of_mem _ ha))
  have hshares : ∀ i < p.batch.length,
      reply? ⟨p.before.length + i⟩ = some (p.outcome.share i) := by
    intro i hi
    rw [← Value.element_reply]
    exact h _ hexec _ _ (Callers.mem_settle.mpr (.inr ⟨_, _, p.executing_callers, rfl,
      Callers.mem_distribute (Callers.getElem?_slots_recorded _ hi) _⟩))
  rw [p.ids_callers, List.zipIdx_append, List.zipIdx_append, List.zipIdx_cons, List.map_append,
    List.map_append, List.map_cons]
  simp only [List.length_map, Nat.zero_add]
  rw [hbefore, Callers.zipIdx_shares _ hshares,
    Callers.replies_of_ne fun x hx => (p.plain x (p.mem_before hx)).1]
  refine congrArg (_ ++ ·) (congrArg (_ ++ ·) (congrArg₂ (· :: ·) ?_ ?_))
  · exact congrArg (Prod.mk p.exec)
      (own _ (List.mem_append_right _ List.mem_cons_self) ⟨p.slot⟩ rfl)
  · rw [← Callers.replies_of_ne fun x hx => (p.plain x (p.mem_after hx)).1]
    exact hafter

/-- Once the execution is over the reader takes whole replies. -/
theorem inMulti_of_executed {s : Session} {g : Callers} {later : List Callers.Item}
    {values : List Value} {sent received : List UInt8} {connection : Connection}
    {taken : List Submission} (hlater : g.acts? later = some p.callers)
    (h : Talks p.transaction g values sent connection taken received s) (hexecuted : s.Executed) :
    connection.reader.inMulti = false := by
  obtain ⟨w, hw, hexec, hresult⟩ := hexecuted
  obtain ⟨⟨name, callers, slot⟩, hexec⟩ := Option.isSome_iff_exists.mp hexec
  have hexecuting := h.follows.roster.executing_of_wait hw hexec
  obtain ⟨a, ha, hslot⟩ := h.follows.answer_of_result hw hexec hresult
  have hlast := Callers.executing_of_acts h.fresh hlater hexecuting
  rw [p.executing_callers] at hlast
  rw [← (Prod.mk.inj (Option.some.inj hlast)).1] at hslot
  have hpart := h.served.answered_prefix.trans (Callers.written_prefix_of_acts hlater)
  rw [p.written_callers] at hpart
  obtain ⟨more, hmore, hanswered⟩ := p.prefix_of_answered hpart (List.mem_map_of_mem ha) hslot
  have hremembers := Reader.feed_remembers {} (taken.flatMap Submission.wrapped) received
  unfold Progress.Remembers at hremembers
  rw [hanswered, p.inMulti_of_prefix hmore] at hremembers
  rw [← show _ = connection from h.served.inStep.here]
  exact hremembers

/-- **A transaction is demultiplexed to its callers and leaves the others alone**, in whatever
pieces the values arrive and whenever the connection reads and takes; and from the moment the
execution is over no reply is taken for an acknowledgement. -/
theorem transaction_demultiplexed (h : Conversation timeout p.actions p.values moves) :
    p.Demultiplexed ((connected timeout).run moves).rest ∧
    ∀ early late, moves = early ++ late → ((connected timeout).run early).Executed →
      ∃ c, ((connected timeout).run early).service = .connection c ∧
        c.connection.reader.inMulti = false := by
  rw [p.actions_eq, p.values_eq] at h
  obtain ⟨hfollows, hservice⟩ := h.ends p.suits p.acts_items p.written_callers
  have hcommands : (answers false p.turns).map (·.command) = p.callers.written := by
    rw [Reader.command_answers, p.written_callers]
  refine ⟨⟨?_, ?_, ?_⟩, ?_⟩
  · rw [hfollows.results]
    exact heard_of_answers fun a ha slot r hx => p.fresh_callers.reply?_of_mem hcommands ha hx
  · rw [hfollows.settled]
    refine Callers.nodup_settle ?_
    rw [hcommands]
    exact p.fresh_callers.nodup
  · rw [hservice, Script.turns, List.map_append, List.map_cons,
      p.inMulti_of_prefix List.prefix_rfl]
  · intro early late hmoves hexecuted
    obtain ⟨g, later, connection, taken, received, hlater, htalks⟩ :=
      h.talks p.suits p.acts_items p.written_callers hmoves
    exact ⟨_, htalks.served.service, inMulti_of_executed hlater htalks hexecuted⟩

/-- Two commands in the transaction, and an outcome with one element. -/
def shortOutcome : Script where
  before := [({ id := "a", name := "ECHO", args := ["12"], kind := .echo }, .bulk [0x31, 0x32])]
  transaction := "t"
  opening := .status "OK"
  batch :=
    [({ id := "s", name := "RPUSH", args := ["l", "v"], kind := .rpush }, .status "QUEUED"),
      ({ id := "i", name := "INCR", args := ["n"], kind := .incr }, .error "ERR")]
  exec := "e"
  outcome := .array [.integer 1]
  after := [({ id := "p", name := "PING", args := [], kind := .ping }, .status "PONG")]
  plain := by
    refine List.forall_mem_cons.mpr ⟨⟨by decide, .inl rfl, ?_⟩, List.forall_mem_singleton.mpr
      ⟨by decide, .inl rfl, ?_⟩⟩
    · simp [Value.Sendable]
    · exact Value.sendable_status (by decide) 0
  inside := by
    have hqueued : ¬ Frame.crlf <:+: Utf8.encode "QUEUED" := by decide
    have herr : ¬ Frame.crlf <:+: Utf8.encode "ERR" := by decide
    simpa [Value.Sendable] using ⟨hqueued, herr⟩
  batch_ne_nil := List.cons_ne_nil _ _
  opening_sendable := Value.sendable_status (by decide) 0
  outcome_answers := .inl rfl
  outcome_sendable := by simp [Value.Sendable, Value.SendableAll, Reader.countLimit]

/-- The reply of `EXEC` arrives in two pieces, and the last reply after it has been read. -/
def shortOutcomeMoves : List (Move × Nat) :=
  (shortOutcome.actions.map fun a => (.act a, 0)) ++
    [(.take, 0), (.take, 0), (.act (.reply (bytesAll [.bulk [0x31, 0x32]])), 1), (.read, 1),
      (.act (.reply (bytesAll [.status "OK", .status "QUEUED", .error "ERR"] ++ [0x2A])), 5),
      (.take, 5), (.read, 5),
      (.act (.reply ((bytesAll [.array [.integer 1]]).drop 1)), 5), (.read, 5),
      (.act (.reply (bytesAll [.status "PONG"])), 6), (.read, 6)]

theorem transaction_demultiplexed_short_outcome :
    Conversation 1000 shortOutcome.actions shortOutcome.values (shortOutcomeMoves.map Prod.fst) ∧
    ((connected 1000).run (shortOutcomeMoves.map Prod.fst)).rest.waits.map
        (fun w => (w.id, w.result)) =
      [("a", some (.success (.text "12"))), ("s", some (.success (.integer 1))),
        ("i", some (.success (.array [.integer 1]))),
        ("e", some (.success (.array [.integer 1]))), ("p", some (.success (.text "PONG")))] ∧
    ∃ c, ((connected 1000).run ((shortOutcomeMoves.take 15).map Prod.fst)).service = .connection c ∧
      c.connection.reader.inMulti = false := by
  have h : Conversation 1000 shortOutcome.actions shortOutcome.values
      (shortOutcomeMoves.map Prod.fst) :=
    ⟨by decide, rfl, by decide +kernel, orderly_of_try (by decide +kernel)⟩
  obtain ⟨hdemultiplexed, hleft⟩ := transaction_demultiplexed h
  refine ⟨h, hdemultiplexed.heard.trans (by decide +kernel), ?_⟩
  refine hleft _ ((shortOutcomeMoves.drop 15).map Prod.fst) rfl ?_
  unfold Executed
  decide +kernel

end Session

end RespClient
