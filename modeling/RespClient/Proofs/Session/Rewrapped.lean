import RespClient.Proofs.Command.Conservation
import RespClient.Proofs.Session.SameReply

/-!
# A batch that is already wrapped

A caller may record a `MULTI` and an `EXEC` around the commands of a transaction. The block uses
them, so it is written as it would be without them, and the server cannot tell the difference. The
shares can. They are counted over everything that was recorded, and there the `MULTI` has a place,
for which the array of the server has no element: every command after it gets the element of its
neighbour, and the last one gets the whole array (`rewrapped_shares`). Only an outcome that is not
split at all is the same for everybody.

- §1: which outcomes are not the same in two places.
- §2: a dialogue in which nothing happens but one transaction.
- §3: what is written, and what the caller of each place hears.
- §4: the same commands with and without the caller's own ends.
- §5: a key and a counter, when the server gives up and when it does not.
-/

namespace RespClient

open Callers (Inquiry)

/-! ## §1  Shares of different places -/

/-- An array is none of its own elements. -/
theorem Data.ne_array_of_mem {value : Data} {elements : List Data} (h : value ∈ elements) :
    value ≠ .array elements := by
  intro heq
  have hlt := List.sizeOf_lt_of_mem h
  rw [heq, Data.array.sizeOf_spec] at hlt
  omega

namespace Value

/-- An outcome that is not split is the same in all places. -/
theorem share_of_ne_array {outcome : Value} (h : ∀ elements, outcome ≠ .array elements) (i : Nat) :
    outcome.share i = outcome.reply := by
  cases outcome with
  | array elements => exact absurd rfl (h elements)
  | _ => rfl

/-- In an array with `n` elements the last place is not the same as the one behind it. -/
theorem share_last_ne {elements : List Value} {n : Nat} (h : elements.length = n + 1) :
    (array elements).share (n + 1) ≠ (array elements).share n := by
  have hlast : elements[n]? = some elements[n] := List.getElem?_eq_getElem (by omega)
  have hnone : elements[n + 1]? = none := List.getElem?_eq_none (by omega)
  have hreply : (array elements).reply = .success (.array (elements.map data)) := by
    rw [← dataAll_eq_map]
    rfl
  rw [share, share, hlast, hnone, hreply]
  intro heq
  have hmem : elements[n].data ∈ elements.map data :=
    List.mem_map_of_mem (List.getElem_mem _)
  exact Data.ne_array_of_mem hmem (Reply.success.inj heq).symm

end Value

/-! ## §2  One transaction -/

namespace Callers

/-- The callers when these requests were recorded and executed, and nothing else was asked. -/
structure Block (g : Callers) (requests : List Inquiry) (block : Submission) : Prop where
  exec : block.exec = some ⟨requests.length⟩
  commands : block.commands = requests.map Inquiry.command
  offered : g.offered = [block]
  executing : ∃ slots : List Slot, g.executing = some (⟨requests.length⟩, slots) ∧
    ∀ i < requests.length, slots[i]? = some ⟨i⟩

theorem block_of_acts {requests : List Inquiry} {id : String} {g : Callers}
    (h : Callers.acts? {} (.multi :: (requests.map .record ++ [.exec id])) = some g) :
    ∃ block, g.Block requests block := by
  -- The records are those of a script; what the server acknowledges is left open there.
  let pairs : List (Inquiry × Value) := requests.map (·, .nilBulk)
  have hrecords : requests.map Item.record = pairs.map fun x => .record x.1 := by
    rw [List.map_map]
    rfl
  have hmulti : Callers.act? {} .multi = some { recording := some {} } := rfl
  rw [acts?, hmulti, Option.bind_some, acts?_append, hrecords, acts?_records rfl,
    Option.bind_some, acts?] at h
  obtain ⟨g', hexec, h⟩ := Option.bind_eq_some_iff.mp h
  obtain rfl := Option.some.inj h
  rcases act?_cases hexec with ⟨r, hitem, -⟩ | ⟨hitem, -⟩ | ⟨r, t, hitem, -⟩ |
    ⟨id', t, block, -, ht, hblock, rfl⟩
  · exact absurd hitem (by simp)
  · exact absurd hitem (by simp)
  · exact absurd hitem (by simp)
  · obtain rfl := Option.some.inj ht
    obtain ⟨hslot, hcommands⟩ := submission_eq hblock
    have hlength : pairs.length = requests.length := List.length_map ..
    have hnext : (records { recording := some {} } {} pairs).next = ⟨requests.length⟩ := by
      simp [next, records, hlength]
    refine ⟨block, by rw [hslot, hnext], ?_, rfl, _, congrArg some (Prod.ext hnext rfl), ?_⟩
    · rw [hcommands, List.nil_append, commands_recorded, List.map_map]
      rfl
    · intro i hi
      have hplace := getElem?_slots_recorded 0 (hlength.symm ▸ hi : i < pairs.length)
      rw [Nat.zero_add] at hplace
      exact hplace

end Callers

namespace Dialogue

/-- Nothing is asked but that these requests are recorded and executed, and this is what the server
sends last, which is for `EXEC`. -/
structure Executes (d : Dialogue) (requests : List Inquiry) (outcome : Value) : Prop where
  items : ∃ id, d.items = .multi :: (requests.map .record ++ [.exec id])
  outcome : (d.turns.map Prod.snd).getLast? = some outcome

/-- What is on the wire in the end. -/
def wire (d : Dialogue) : List UInt8 := ((Session.connected d.timeout).run d.moves).rest.wire

variable {d d' : Dialogue} {requests : List Inquiry} {outcome : Value}

/-! ## §3  What is written and heard -/

/-- In the end everything that was handed over is on the wire. -/
theorem wire_eq (d : Dialogue) : d.wire = Command.frames d.callers.written := by
  have hall : d.callers.written <+: d.turns.map Prod.fst := d.written ▸ List.prefix_rfl
  obtain ⟨connection, taken, received, htalks⟩ :=
    (Session.Talks.start d.conversation.patient).run d.suits d.conversation.orderly
      d.conversation.acts d.acts hall
  obtain ⟨connection, hrest⟩ := htalks.rest d.suits hall
  exact hrest.wire

namespace Executes

theorem block (h : d.Executes requests outcome) : ∃ block, d.callers.Block requests block := by
  obtain ⟨id, hitems⟩ := h.items
  have hacts := d.acts
  rw [hitems] at hacts
  exact Callers.block_of_acts hacts

/-- What is written is the block. -/
theorem written {block : Submission} (hblock : d.callers.Block requests block) :
    d.callers.written = block.wrapped := by
  rw [Callers.written, hblock.offered, List.flatMap_singleton]

/-- The last answer is that of `EXEC`. -/
theorem exec_answered (h : d.Executes requests outcome) :
    ∃ execution : Command, execution.slot = some ⟨requests.length⟩ ∧
      ⟨execution, outcome.reply⟩ ∈ Reader.answers false d.turns := by
  obtain ⟨block, hblock⟩ := h.block
  obtain ⟨before, last, hturns⟩ : ∃ before last, d.turns = before ++ [last] := by
    rcases d.turns.eq_nil_or_concat' with hnil | hsome
    · have houtcome := h.outcome
      rw [hnil] at houtcome
      exact absurd houtcome (by simp)
    · exact hsome
  have hoffered := Submission.wrapped_of_exec hblock.exec
  rw [← written hblock, d.written, hturns, List.map_append, ← List.cons_append] at hoffered
  have hlast : last.1 = Submission.closing ⟨requests.length⟩
      (Submission.withoutMulti block.commands) :=
    List.singleton_inj.mp (List.append_inj' hoffered rfl).2
  have hvalue : last.2 = outcome := by
    have houtcome := h.outcome
    rw [hturns, List.map_append, List.map_singleton, List.getLast?_concat] at houtcome
    exact Option.some.inj houtcome
  refine ⟨last.1, by rw [hlast, Submission.closing_slot], ?_⟩
  rw [hturns, Reader.answers_append]
  refine List.mem_append_right _ ?_
  obtain ⟨c, v⟩ := last
  have hstep : ∀ inMulti, Reader.multiAfter inMulti c.kind = false := by
    intro inMulti
    rw [show c = _ from hlast, Submission.closing_kind]
    rfl
  rw [Reader.answers, hstep, show v = outcome from hvalue]
  exact List.mem_cons_self

/-- **What the caller of each place hears** is the share of that place, whatever was recorded. -/
theorem heard (h : d.Executes requests outcome) {i : Nat} (hi : i < requests.length) :
    d.heard i = some (outcome.share i) := by
  obtain ⟨block, hblock⟩ := h.block
  obtain ⟨slots, hexecuting, hplaces⟩ := hblock.executing
  obtain ⟨execution, hslot, hanswer⟩ := h.exec_answered
  rw [← Value.element_reply]
  exact heard_of_settle hanswer (Callers.mem_settle.mpr
    (.inr ⟨_, slots, hexecuting, hslot, Callers.mem_distribute (hplaces i hi) _⟩))

end Executes

/-! ## §4  With and without the caller's own ends -/

variable {batch : List Inquiry} {opening closing : Inquiry}

/-- The block of commands that hold neither end. -/
theorem request_of_plain {block : Submission} {g : Callers} (hblock : g.Block batch block)
    (hbatch : ∀ r ∈ batch, r.kind ≠ .multi ∧ r.kind ≠ .exec) :
    block.wrapped.map Command.request =
      (.multi, []) :: (batch.map (fun r => (r.kind, r.args)) ++ [(.exec, [])]) := by
  have hends : ∀ c ∈ block.commands, c.kind ≠ .multi ∧ c.kind ≠ .exec := by
    intro c hc
    rw [hblock.commands] at hc
    obtain ⟨r, hr, rfl⟩ := List.mem_map.mp hc
    exact hbatch r hr
  rw [Submission.wrapped_of_ne hblock.exec hends, hblock.commands]
  simp [Command.request, Inquiry.command, Function.comp_def]

/-- The block of the same commands between ends of the caller's own. -/
theorem request_of_wrapped {block : Submission} {g : Callers}
    (hblock : g.Block (opening :: (batch ++ [closing])) block)
    (hopening : opening.kind = .multi ∧ opening.args = [])
    (hclosing : closing.kind = .exec ∧ closing.args = []) :
    block.wrapped.map Command.request =
      (.multi, []) :: (batch.map (fun r => (r.kind, r.args)) ++ [(.exec, [])]) := by
  have hparts : Submission.TakenApart block.commands (some opening.command)
      (batch.map Inquiry.command) (some closing.command) := by
    refine ⟨?_, ?_, ?_, nofun, nofun⟩
    · rw [hblock.commands]
      simp
    · rintro c ⟨⟩
      exact hopening.1
    · rintro c ⟨⟩
      exact hclosing.1
  rw [hparts.wrapped_eq hblock.exec]
  simp [Command.request, Inquiry.command, Command.withSlot, hopening, hclosing,
    Function.comp_def]

/-- **A batch that is already wrapped** is written as the batch alone, but its callers hear the
shares of the places behind theirs. So they hear the same just when the outcome is no array. -/
theorem rewrapped_shares (hbatch : ∀ r ∈ batch, r.kind ≠ .multi ∧ r.kind ≠ .exec)
    (hopening : opening.kind = .multi ∧ opening.args = [])
    (hclosing : closing.kind = .exec ∧ closing.args = [])
    (hsize : ∀ elements, outcome = .array elements → elements.length = batch.length)
    (hsome : batch ≠ []) (h : d.Executes batch outcome)
    (h' : d'.Executes (opening :: (batch ++ [closing])) outcome) :
    d'.wire = d.wire ∧
    (∀ i < batch.length, d.heard i = some (outcome.share i) ∧
      d'.heard (i + 1) = some (outcome.share (i + 1))) ∧
    ((∀ i < batch.length, d'.heard (i + 1) = d.heard i) ↔
      ∀ elements, outcome ≠ .array elements) := by
  have hheard : ∀ i < batch.length, d.heard i = some (outcome.share i) ∧
      d'.heard (i + 1) = some (outcome.share (i + 1)) := by
    intro i hi
    refine ⟨h.heard hi, h'.heard ?_⟩
    simp only [List.length_cons, List.length_append, List.length_nil]
    omega
  refine ⟨?_, hheard, ?_, ?_⟩
  · obtain ⟨block, hblock⟩ := h.block
    obtain ⟨block', hblock'⟩ := h'.block
    rw [wire_eq, wire_eq, Executes.written hblock, Executes.written hblock']
    refine Command.frames_congr ?_
    rw [request_of_plain hblock hbatch, request_of_wrapped hblock' hopening hclosing]
  · rintro hsame elements rfl
    obtain ⟨n, hn⟩ := Nat.exists_eq_succ_of_ne_zero (mt List.eq_nil_of_length_eq_zero hsome)
    have hlt : n < batch.length := hn ▸ Nat.lt_succ_self n
    have hlast := hsame n hlt
    rw [(hheard n hlt).1, (hheard n hlt).2] at hlast
    exact Value.share_last_ne ((hsize elements rfl).trans hn) (Option.some.inj hlast)
  · intro harray i hi
    rw [(hheard i hi).1, (hheard i hi).2, Value.share_of_ne_array harray,
      Value.share_of_ne_array harray]

/-! ## §5  A key and a counter -/

theorem named_multi : Kind.ofName? "MULTI" = some .multi := by decide +kernel

theorem named_get : Kind.ofName? "GET" = some .get := by decide +kernel

theorem named_exec : Kind.ofName? "EXEC" = some .exec := by decide +kernel

/-- A key and a counter are asked for. -/
def keyAndCounter : List Inquiry :=
  [{ id := "g", name := "GET", args := ["a"], kind := .get, named := named_get },
    { id := "i", name := "INCR", args := ["b"], kind := .incr, named := named_increment }]

/-- A caller's own `MULTI`. -/
def ownMulti : Inquiry :=
  { id := "m", name := "MULTI", args := [], kind := .multi, named := named_multi }

/-- A caller's own `EXEC`. -/
def ownExec : Inquiry :=
  { id := "x", name := "EXEC", args := [], kind := .exec, named := named_exec }

def rewrappedBatch : List Inquiry := ownMulti :: (keyAndCounter ++ [ownExec])

/-- The block, with the slot of `EXEC`, and what the server sends for it. -/
def blockTurns (slot : Nat) (outcome : Value) : List (Command × Value) :=
  [({ kind := .multi }, .status "OK"),
    ({ kind := .get, args := ["a"] }, .status "QUEUED"),
    ({ kind := .incr, args := ["b"] }, .status "QUEUED"),
    ({ kind := .exec, slot := some ⟨slot⟩ }, outcome)]

def blockItems (requests : List Inquiry) : List Callers.Item :=
  .multi :: (requests.map .record ++ [.exec "e"])

/-- Everything is recorded and executed before the server answers. -/
def blockMoves (requests : List Inquiry) (outcome : Value) : List (Session.Move × Nat) :=
  (blockItems requests).map (fun item => (.act (item.action "t"), 0)) ++
    [(.take, 0), (.act (.reply (Value.bytesAll ((blockTurns 0 outcome).map Prod.snd))), 4),
      (.read, 4)]

theorem suits_block (slot : Nat) (hsend : outcome.Sendable 0)
    (hans : outcome.Answers { kind := .exec }) : Reader.Suits false (blockTurns slot outcome) :=
  ⟨Value.sendable_status (by decide) 0, nofun, Value.sendable_status (by decide) 0, nofun,
    Value.sendable_status (by decide) 0, nofun, hsend, fun _ => hans, trivial⟩

/-- The batch alone. -/
def plainDialogue (outcome : Value) (hsend : outcome.Sendable 0)
    (hans : outcome.Answers { kind := .exec })
    (horderly : Session.tryOrderly ((blockTurns 2 outcome).map Prod.snd) (Session.connected 1000) []
      (blockMoves keyAndCounter outcome) = true) : Dialogue where
  timeout := 1000
  transaction := "t"
  items := blockItems keyAndCounter
  callers :=
    { ids := ["g", "i", "e"]
      executing := some (⟨2⟩, [⟨0⟩, ⟨1⟩])
      offered := [{
        commands := keyAndCounter.map Inquiry.command
        exec := some ⟨2⟩
        commands_ne_nil := List.cons_ne_nil _ _ }] }
  turns := blockTurns 2 outcome
  moves := (blockMoves keyAndCounter outcome).map Prod.fst
  acts := rfl
  written := rfl
  suits := suits_block 2 hsend hans
  conversation := ⟨by decide, rfl, List.append_nil _, Session.orderly_of_try horderly⟩

/-- The batch between the caller's own `MULTI` and `EXEC`. -/
def wrappedDialogue (outcome : Value) (hsend : outcome.Sendable 0)
    (hans : outcome.Answers { kind := .exec })
    (horderly : Session.tryOrderly ((blockTurns 4 outcome).map Prod.snd) (Session.connected 1000) []
      (blockMoves rewrappedBatch outcome) = true) : Dialogue where
  timeout := 1000
  transaction := "t"
  items := blockItems rewrappedBatch
  callers :=
    { ids := ["m", "g", "i", "x", "e"]
      executing := some (⟨4⟩, [⟨0⟩, ⟨1⟩, ⟨2⟩, ⟨3⟩])
      offered := [{
        commands := rewrappedBatch.map Inquiry.command
        exec := some ⟨4⟩
        commands_ne_nil := List.cons_ne_nil _ _ }] }
  turns := blockTurns 4 outcome
  moves := (blockMoves rewrappedBatch outcome).map Prod.fst
  acts := rfl
  written := rfl
  suits := suits_block 4 hsend hans
  conversation := ⟨by decide, rfl, List.append_nil _, Session.orderly_of_try horderly⟩

/-- The server gives the transaction up. -/
def plainAborted : Dialogue :=
  plainDialogue .nilArray (by simp [Value.Sendable]) (.inl rfl) (by decide +kernel)

def wrappedAborted : Dialogue :=
  wrappedDialogue .nilArray (by simp [Value.Sendable]) (.inl rfl) (by decide +kernel)

/-- Then everybody hears of it, with or without ends of his own. -/
theorem rewrapped_shares_aborted :
    plainAborted.Executes keyAndCounter .nilArray ∧
    wrappedAborted.Executes (ownMulti :: (keyAndCounter ++ [ownExec])) .nilArray ∧
    wrappedAborted.wire = plainAborted.wire ∧
    ∀ i < 2, wrappedAborted.heard (i + 1) = plainAborted.heard i := by
  have hplain : plainAborted.Executes keyAndCounter .nilArray := ⟨⟨"e", rfl⟩, rfl⟩
  have hwrapped : wrappedAborted.Executes (ownMulti :: (keyAndCounter ++ [ownExec])) .nilArray :=
    ⟨⟨"e", rfl⟩, rfl⟩
  obtain ⟨hwire, -, hsame⟩ := rewrapped_shares (by decide) ⟨rfl, rfl⟩ ⟨rfl, rfl⟩ (by simp)
    (List.cons_ne_nil _ _) hplain hwrapped
  exact ⟨hplain, hwrapped, hwire, hsame.mpr (by simp)⟩

/-- The key holds a text, and the counter counts to five. -/
def plainExecuted : Dialogue :=
  plainDialogue (.array [.bulk [0x61], .integer 5])
    (by simp [Value.Sendable, Value.SendableAll, Reader.countLimit]) (.inl rfl) (by decide +kernel)

def wrappedExecuted : Dialogue :=
  wrappedDialogue (.array [.bulk [0x61], .integer 5])
    (by simp [Value.Sendable, Value.SendableAll, Reader.countLimit]) (.inl rfl) (by decide +kernel)

/-- **Wrapping a batch twice shifts its replies.** On the wire nothing differs. Without ends of his
own the caller hears the text for the key and the number for the counter; with them he hears the
number for the key and the whole array for the counter, and both as successes. -/
theorem neighbours_reply :
    plainExecuted.Executes keyAndCounter (.array [.bulk [0x61], .integer 5]) ∧
    wrappedExecuted.Executes (ownMulti :: (keyAndCounter ++ [ownExec]))
      (.array [.bulk [0x61], .integer 5]) ∧
    wrappedExecuted.wire = plainExecuted.wire ∧
    plainExecuted.heard 0 = some (.success (.text "a")) ∧
    plainExecuted.heard 1 = some (.success (.integer 5)) ∧
    wrappedExecuted.heard 1 = some (.success (.integer 5)) ∧
    wrappedExecuted.heard 2 = some (.success (.array [.text "a", .integer 5])) :=
  ⟨⟨⟨"e", rfl⟩, rfl⟩, ⟨⟨"e", rfl⟩, rfl⟩, by decide +kernel, by decide +kernel, by decide +kernel,
    by decide +kernel, by decide +kernel⟩

end Dialogue

end RespClient
