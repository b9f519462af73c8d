import RespClient.Proofs.Session.Demultiplex

/-!
# The same command inside a transaction and alone

What a caller hears whose command was recorded is an element of the value for `EXEC`, and what a
caller hears who sent the same command by itself is the value for the command. When the element and
the value are the same, both hear the same data (`recorded_and_asked`), at any depth and for every
kind of null. They hear the same reply but for one value: an error line is the failure of a command
alone, and a text like any other as an element (`error_inside_transaction`).
-/

namespace RespClient

open Reader (answers multiAfterAll)

namespace Value

/-- Alone or as an element, a value has the same data. -/
theorem data?_reply (v : Value) : v.reply.data? = some v.data := by
  cases v <;> rfl

/-- An error line is the only value that is not a success. -/
theorem reply_eq_success (v : Value) : v.reply = .success v.data ↔ v.shape ≠ .error := by
  cases v <;> simp [reply, shape]

end Value

/-! ## §1  Dialogues -/

/-- Callers who ask for commands and execute at most one transaction, a server that sends a value
that suits each command, and a session in which they talk to each other. -/
structure Dialogue where
  timeout : Nat
  /-- The name of the transaction. -/
  transaction : String
  items : List Callers.Item
  callers : Callers
  turns : List (Command × Value)
  moves : List Session.Move
  acts : Callers.acts? {} items = some callers
  written : callers.written = turns.map Prod.fst
  suits : Reader.Suits false turns
  conversation : Session.Conversation timeout (items.map (Callers.Item.action transaction))
    (turns.map Prod.snd) moves

namespace Dialogue

variable {d d' : Dialogue} {c : Command} {v : Value} {k k' : Nat}

/-- What the caller hears who was the `k`-th to wait. -/
def heard (d : Dialogue) (k : Nat) : Option Reply :=
  (((Session.connected d.timeout).run d.moves).rest.waits[k]?).bind (·.result)

/-- The `k`-th to wait sent the command by itself, outside blocks, and the server sent this value
for it. -/
def Asked (d : Dialogue) (c : Command) (v : Value) (k : Nat) : Prop :=
  ∃ before after, d.turns = before ++ (c.withSlot ⟨k⟩, v) :: after ∧
    multiAfterAll false (before.map Prod.fst ++ [c]) = false

/-- The `k`-th to wait had the command recorded, in some place of the batch that was executed, and
the server sent an array for `EXEC` with this value in the same place. -/
def Recorded (d : Dialogue) (c : Command) (v : Value) (k : Nat) : Prop :=
  ∃ (slot : Slot) (callers : List Slot) (batch : Submission) (i : Nat) (execution : Command)
    (elements : List Value),
    d.callers.executing = some (slot, callers) ∧
    batch ∈ d.callers.offered ∧ batch.exec = some slot ∧
    batch.commands[i]? = some c ∧ callers[i]? = some ⟨k⟩ ∧
    (execution, .array elements) ∈ d.turns ∧ execution.kind = .exec ∧
    execution.slot = some slot ∧ elements[i]? = some v

/-! ## §2  What is heard -/

theorem commands_answers (d : Dialogue) :
    (answers false d.turns).map (·.command) = d.callers.written := by
  rw [Reader.command_answers, d.written]

/-- What an answer settles is what the caller of the slot hears. -/
theorem heard_of_settle {a : Answer} (ha : a ∈ answers false d.turns) {r : Reply}
    (hx : ⟨⟨k⟩, .reply r⟩ ∈ d.callers.settle a) : d.heard k = some r := by
  have hfresh : d.callers.Fresh := Callers.fresh_empty.acts d.acts
  have hbelow : k < d.callers.ids.length := by
    have hslot := Callers.slot_of_settle (List.mem_flatMap.mpr ⟨a, ha, hx⟩)
    rw [d.commands_answers] at hslot
    exact hfresh.below _ hslot
  have hresults := (d.conversation.ends d.suits d.acts d.written).1.results
  have hplace := congrArg (fun results => results[k]?.bind Prod.snd) hresults
  rw [List.getElem?_map, List.getElem?_map, List.getElem?_zipIdx,
    List.getElem?_eq_getElem hbelow, Option.bind_map, Nat.zero_add] at hplace
  have hheard : d.heard k =
      Settlement.reply? ((answers false d.turns).flatMap d.callers.settle) ⟨k⟩ := hplace
  rw [hheard]
  exact hfresh.reply?_of_mem d.commands_answers ha hx

theorem Asked.heard (h : d.Asked c v k) : d.heard k = some v.reply := by
  obtain ⟨before, after, hturns, hout⟩ := h
  have hanswer : ⟨c.withSlot ⟨k⟩, v.reply⟩ ∈ answers false d.turns := by
    rw [hturns, Reader.answers_append]
    refine List.mem_append_right _ ?_
    rw [Reader.multiAfterAll_append] at hout
    have hstep : Reader.multiAfter (multiAfterAll false (before.map Prod.fst))
        (c.withSlot ⟨k⟩).kind = false := hout
    rw [answers, hstep]
    exact List.mem_cons_self
  exact heard_of_settle hanswer (Callers.mem_settle.mpr (.inl ⟨rfl, rfl⟩))

theorem Recorded.heard (h : d.Recorded c v k) : d.heard k = some (.success v.data) := by
  obtain ⟨slot, callers, batch, i, execution, elements, hexecuting, -, -, -, hcaller, hturn, hkind,
    hslot, helement⟩ := h
  obtain ⟨before, after, hturns⟩ := List.append_of_mem hturn
  have hanswer : ⟨execution, (Value.array elements).reply⟩ ∈ answers false d.turns := by
    rw [hturns, Reader.answers_append]
    refine List.mem_append_right _ ?_
    have hstep : ∀ inMulti, Reader.multiAfter inMulti execution.kind = false := by
      intro inMulti
      rw [hkind]
      rfl
    rw [answers, hstep]
    exact List.mem_cons_self
  have hshare : (Value.array elements).reply.element i = .success v.data := by
    rw [Value.element_reply, Value.share, helement]
    rfl
  rw [← hshare]
  exact heard_of_settle hanswer (Callers.mem_settle.mpr
    (.inr ⟨slot, callers, hexecuting, hslot, Callers.mem_distribute hcaller _⟩))

/-- **A command inside a transaction and alone.** Where the element for a recorded command is the
value that the server sends for the command alone, both callers hear its data, and they hear the
same reply unless the value is an error line. -/
theorem recorded_and_asked (hrecorded : d.Recorded c v k) (hasked : d'.Asked c v k') :
    (d.heard k).map Reply.data? = some (some v.data) ∧
    (d'.heard k').map Reply.data? = some (some v.data) ∧
    (d.heard k = d'.heard k' ↔ v.shape ≠ .error) := by
  rw [hrecorded.heard, hasked.heard]
  refine ⟨rfl, congrArg some v.data?_reply, ?_⟩
  rw [Option.some_inj, eq_comm]
  exact v.reply_eq_success

/-- The same command, recorded and sent by itself. -/
def increment : Command := { kind := .incr, args := ["n"] }

theorem named_increment : Kind.ofName? "INCR" = some .incr := by decide +kernel

/-- Somebody asks for it. -/
def askIncrement (id : String) : Callers.Inquiry :=
  { id, name := "INCR", args := ["n"], kind := .incr, named := named_increment }

def incrementItems : List Callers.Item :=
  [.multi, .record (askIncrement "i"), .exec "e", .ask (askIncrement "a")]

def incrementBlock : Submission where
  commands := [increment]
  exec := some ⟨1⟩
  commands_ne_nil := List.cons_ne_nil _ _

def incrementCallers : Callers where
  ids := ["i", "e", "a"]
  executing := some (⟨1⟩, [⟨0⟩])
  offered := [incrementBlock, .single (increment.withSlot ⟨2⟩)]

/-- The server sends the same value for both. -/
def incrementTurns (v : Value) : List (Command × Value) :=
  [({ kind := .multi }, .status "OK"), (increment, .status "QUEUED"),
    ({ kind := .exec, slot := some ⟨1⟩ }, .array [v]), (increment.withSlot ⟨2⟩, v)]

def incrementMoves (v : Value) : List (Session.Move × Nat) :=
  incrementItems.map (fun item => (.act (item.action "t"), 0)) ++
    [(.take, 0), (.take, 0),
      (.act (.reply (Value.bytesAll ((incrementTurns v).map Prod.snd))), 4), (.read, 4)]

theorem suits_increment (hsend : v.Sendable 0) (hans : v.Answers increment) :
    Reader.Suits false (incrementTurns v) := by
  have harray : (Value.array [v]).Sendable 0 := by
    simpa [Value.Sendable, Value.SendableAll, Reader.countLimit] using hsend
  exact ⟨Value.sendable_status (by decide) 0, nofun, Value.sendable_status (by decide) 0, nofun,
    harray, fun _ => .inl rfl, hsend, fun _ => hans, trivial⟩

def incrementDialogue (v : Value) (hsend : v.Sendable 0) (hans : v.Answers increment)
    (horderly : Session.tryOrderly ((incrementTurns v).map Prod.snd) (Session.connected 1000) []
      (incrementMoves v) = true) : Dialogue where
  timeout := 1000
  transaction := "t"
  items := incrementItems
  callers := incrementCallers
  turns := incrementTurns v
  moves := (incrementMoves v).map Prod.fst
  acts := rfl
  written := rfl
  suits := suits_increment hsend hans
  conversation := by
    refine ⟨by decide, rfl, ?_, Session.orderly_of_try horderly⟩
    exact List.append_nil _

theorem recorded_increment (v : Value) (hsend : v.Sendable 0) (hans : v.Answers increment)
    (horderly) : (incrementDialogue v hsend hans horderly).Recorded increment v 0 :=
  ⟨⟨1⟩, [⟨0⟩], incrementBlock, 0, { kind := .exec, slot := some ⟨1⟩ }, [v], rfl,
    List.mem_cons_self, rfl, rfl, rfl, by simp [incrementDialogue, incrementTurns], rfl, rfl, rfl⟩

theorem asked_increment (v : Value) (hsend : v.Sendable 0) (hans : v.Answers increment)
    (horderly) : (incrementDialogue v hsend hans horderly).Asked increment v 2 :=
  ⟨(incrementTurns v).take 3, [], rfl, rfl⟩

/-- The server counts to five, twice. -/
def counted : Dialogue :=
  incrementDialogue (.integer 5) (by simp [Value.Sendable]) (.inl rfl) (by decide +kernel)

theorem recorded_and_asked_counted :
    counted.Recorded increment (.integer 5) 0 ∧ counted.Asked increment (.integer 5) 2 ∧
    (counted.heard 0).map Reply.data? = some (some (.integer 5)) ∧
    counted.heard 0 = counted.heard 2 := by
  have hrecorded : counted.Recorded increment (.integer 5) 0 := recorded_increment ..
  have hasked : counted.Asked increment (.integer 5) 2 := asked_increment ..
  obtain ⟨hdata, -, hsame⟩ := recorded_and_asked hrecorded hasked
  exact ⟨hrecorded, hasked, hdata, hsame.mpr (by decide)⟩

/-! ## §3  Error lines -/

/-- The server refuses the command, twice. -/
def refused : Dialogue :=
  incrementDialogue (.error "ERR wrong") (by unfold Value.Sendable; decide) (.inr (.inl rfl))
    (by decide +kernel)

/-- **An error line inside a transaction is no failure.** The server answers the same command twice
with the same error line; who sent it alone is told so, and who had it recorded hears of a
success. -/
theorem error_inside_transaction :
    refused.Recorded increment (.error "ERR wrong") 0 ∧
    refused.Asked increment (.error "ERR wrong") 2 ∧
    refused.heard 0 = some (.success (.text "ERR wrong")) ∧
    refused.heard 2 = some (.fail (.text "ERR wrong")) :=
  ⟨recorded_increment .., asked_increment .., by decide +kernel, by decide +kernel⟩

end Dialogue

end RespClient
