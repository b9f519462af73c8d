import RespClient.Proofs.Session.Conversation

/-!
# Pipelines

Commands are dispatched one by one, and the server plays its part: after `MULTI` it acknowledges
until `EXEC` or `DISCARD`, and to every other command it sends a value that answers it (`Plays`).

What a caller hears is decided by which of `MULTI` and `EXEC` came last (`pipeline_replies`). Blocks
that end in `EXEC` leave no trace (`pipeline_replies_of_no_discard`), but one that ends in `DISCARD`
is not over for the reader: whoever asks for a value after it is told its first line
(`reply_after_discard`).
-/

namespace RespClient

/-! ## §1  Requests in a row -/

namespace Callers

/-- The commands of requests for which slots are opened one after the other, and their values. -/
def turns (slot : Nat) : List (Inquiry × Value) → List (Command × Value)
  | [] => []
  | (r, v) :: rest => (r.command.withSlot ⟨slot⟩, v) :: turns (slot + 1) rest

def asks (g : Callers) (xs : List (Inquiry × Value)) : Callers :=
  { g with
    ids := g.ids ++ xs.map (·.1.id)
    offered := g.offered ++ (turns g.ids.length xs).map fun x => .single x.1 }

/-- What callers hear, where replies are acknowledgements from `MULTI` to `EXEC`. -/
def replies (inMulti : Bool) : List (Inquiry × Value) → List (String × Option Reply)
  | [] => []
  | (r, v) :: rest =>
    (r.id, some (v.answer (Reader.multiAfter inMulti r.kind))) ::
      replies (Reader.multiAfter inMulti r.kind) rest

variable {g : Callers} {xs : List (Inquiry × Value)}

theorem values_turns (slot : Nat) (xs : List (Inquiry × Value)) :
    (turns slot xs).map Prod.snd = xs.map Prod.snd := by
  induction xs generalizing slot with
  | nil => rfl
  | cons x rest ih => rw [turns, List.map_cons, List.map_cons, ih]

theorem acts?_asks (g : Callers) (xs : List (Inquiry × Value)) :
    g.acts? (xs.map fun x => .ask x.1) = some (g.asks xs) := by
  induction xs generalizing g with
  | nil => simp [acts?, asks, turns]
  | cons x rest ih =>
      obtain ⟨r, v⟩ := x
      have hact : g.act? (.ask r) = some (g.ask r) := rfl
      rw [List.map_cons, acts?, hact, Option.bind_some, ih]
      simp [asks, ask, turns, next]

theorem written_asks (g : Callers) (xs : List (Inquiry × Value)) :
    (g.asks xs).written = g.written ++ (turns g.ids.length xs).map Prod.fst := by
  have hsingle : ∀ ts : List (Command × Value),
      (ts.map fun x => Submission.single x.1).flatMap Submission.wrapped = ts.map Prod.fst := by
    intro ts
    rw [List.flatMap_map]
    exact List.flatMap_pure_eq_map Prod.fst ts
  unfold written asks
  rw [List.flatMap_append, hsingle]

/-- When all that was handed over is answered, what an answer settles is what the slot gets. -/
theorem Fresh.reply?_of_mem {answered : List Answer} (hfresh : g.Fresh)
    (hcommands : answered.map (·.command) = g.written) {a : Answer} (ha : a ∈ answered)
    {slot : Slot} {r : Reply} (hx : ⟨slot, .reply r⟩ ∈ g.settle a) :
    Settlement.reply? (answered.flatMap g.settle) slot = some r := by
  have hnodup : ((answered.flatMap g.settle).map (·.slot)).Nodup := by
    refine nodup_settle ?_
    rw [hcommands]
    exact hfresh.nodup
  exact Settlement.reply?_of_mem hnodup (List.mem_flatMap.mpr ⟨a, ha, hx⟩)

theorem replies_of_answers {slot : Nat} {inMulti : Bool} {reply? : Slot → Option Reply}
    (h : ∀ a ∈ Reader.answers inMulti (turns slot xs), ∀ own, a.command.slot = some own →
      reply? own = some a.reply) :
    ((xs.map (·.1.id)).zipIdx slot).map (fun (id, k) => (id, reply? ⟨k⟩)) = replies inMulti xs := by
  induction xs generalizing slot inMulti with
  | nil => rfl
  | cons x rest ih =>
      obtain ⟨r, v⟩ := x
      rw [turns, Reader.answers, List.forall_mem_cons] at h
      rw [List.map_cons, List.zipIdx_cons, List.map_cons, replies]
      exact congrArg₂ _ (congrArg (Prod.mk r.id) (h.1 ⟨slot⟩ rfl)) (ih h.2)

theorem replies_eq (inMulti : Bool) (xs : List (Inquiry × Value)) :
    replies inMulti xs = xs.zipIdx.map fun (x, i) =>
      (x.1.id, some (x.2.answer
        (Reader.multiAfterAll inMulti ((xs.take (i + 1)).map (·.1.command))))) := by
  induction xs generalizing inMulti with
  | nil => rfl
  | cons x rest ih =>
      rw [replies, List.zipIdx_cons, List.map_cons, List.zipIdx_succ, List.map_map, ih]
      rfl

end Callers

/-! ## §2  The server's part -/

open Callers (Inquiry turns)
open Value (bytesAll)

/-- Does the server keep commands back after this one? -/
def Kind.blockAfter (inBlock : Bool) : Kind → Bool
  | .multi => true
  | .exec | .discard => false
  | _ => inBlock

/-- The server plays its part: outside the blocks each value answers its command, inside them the
server acknowledges as it likes. -/
def Plays (inBlock : Bool) : List (Inquiry × Value) → Prop
  | [] => True
  | (r, v) :: rest =>
    v.Sendable 0 ∧ (r.kind.blockAfter inBlock = false → v.Answers r.command) ∧
      Plays (r.kind.blockAfter inBlock) rest

theorem Kind.blockAfter_le (kind : Kind) {inBlock inMulti : Bool} (h : inBlock → inMulti) :
    kind.blockAfter inBlock → Reader.multiAfter inMulti kind := by
  unfold blockAfter Reader.multiAfter
  cases kind <;> simp_all

/-- Where the server is inside a block the reader takes acknowledgements, so it asks for no more
than the server sends. -/
theorem suits_of_plays {inBlock inMulti : Bool} (hle : inBlock → inMulti) (slot : Nat)
    {xs : List (Inquiry × Value)} (h : Plays inBlock xs) :
    Reader.Suits inMulti (turns slot xs) := by
  induction xs generalizing inBlock inMulti slot with
  | nil => trivial
  | cons x rest ih =>
      obtain ⟨r, v⟩ := x
      obtain ⟨hsend, hans, hrest⟩ := h
      refine ⟨hsend, fun hout => hans ?_, ih (r.kind.blockAfter_le hle) (slot + 1) hrest⟩
      have hblock := r.kind.blockAfter_le hle
      rw [show Reader.multiAfter inMulti r.kind = false from hout] at hblock
      simpa using hblock

/-! ## §3  What callers hear -/

namespace Session

variable {timeout : Nat} {xs : List (Inquiry × Value)} {moves : List Move}

/-- Everybody hears what the reader makes of his value. -/
theorem waits_of_plays (hserver : Plays false xs)
    (h : Conversation timeout (xs.map fun x => x.1.dispatch) (xs.map Prod.snd) moves) :
    ((connected timeout).run moves).rest.waits.map (fun w => (w.id, w.result)) =
      Callers.replies false xs := by
  have hactions : xs.map (fun x => x.1.dispatch) =
      (xs.map fun x => Callers.Item.ask x.1).map (Callers.Item.action "") := by
    rw [List.map_map]
    rfl
  rw [hactions, ← Callers.values_turns 0 xs] at h
  have hacts := Callers.acts?_asks {} xs
  have hwritten : (Callers.asks {} xs).written = (turns 0 xs).map Prod.fst :=
    Callers.written_asks {} xs
  obtain ⟨hfollows, -⟩ := h.ends (suits_of_plays id 0 hserver) hacts hwritten
  have hcommands : (Reader.answers false (turns 0 xs)).map (·.command) =
      (Callers.asks {} xs).written := by
    rw [Reader.command_answers, hwritten]
  rw [hfollows.results]
  refine Callers.replies_of_answers fun a ha own hown => ?_
  exact (Callers.fresh_empty.acts hacts).reply?_of_mem hcommands ha
    (Callers.mem_settle.mpr (.inl ⟨hown, rfl⟩))

/-- **What callers hear of a pipeline**, in whatever pieces and between whatever the values arrive:
everybody hears the reply that his value is, unless the last of `MULTI` and `EXEC` was `MULTI`; then
it is the first line of the value, taken for an acknowledgement. -/
theorem pipeline_replies (hserver : Plays false xs)
    (h : Conversation timeout (xs.map fun x => x.1.dispatch) (xs.map Prod.snd) moves) :
    ((connected timeout).run moves).rest.waits.map (fun w => (w.id, w.result)) =
      xs.zipIdx.map fun (x, i) => (x.1.id, some (x.2.answer
        (Reader.isRecording ((xs.take (i + 1)).map (·.1.kind))))) := by
  rw [waits_of_plays hserver h, Callers.replies_eq]
  simp only [Reader.multiAfterAll_eq_isRecording, List.map_map]
  rfl

/-- A block that ends in `EXEC`, and a `GET` after it. -/
def executed : List (Inquiry × Value) :=
  [({ id := "m", name := "MULTI", args := [], kind := .multi }, .status "OK"),
    ({ id := "s", name := "SET", args := ["k", "v"], kind := .set }, .status "QUEUED"),
    ({ id := "e", name := "EXEC", args := [], kind := .exec }, .array [.status "OK"]),
    ({ id := "g", name := "GET", args := ["k"], kind := .get }, .bulk [0x76])]

/-- The server answers two commands before it finds the others. -/
def executedMoves : List (Move × Nat) :=
  (executed.map fun x => (.act x.1.dispatch, 0)) ++
    [(.take, 0), (.take, 0),
      (.act (.reply (bytesAll ((executed.take 2).map Prod.snd))), 2), (.take, 2), (.read, 2),
      (.take, 2), (.act (.reply (bytesAll ((executed.drop 2).map Prod.snd))), 4), (.read, 4)]

theorem pipeline_replies_after_exec :
    Plays false executed ∧
    Conversation 1000 (executed.map fun x => x.1.dispatch) (executed.map Prod.snd)
      (executedMoves.map Prod.fst) ∧
    ((connected 1000).run (executedMoves.map Prod.fst)).rest.waits.map (fun w => (w.id, w.result)) =
      [("m", some (.success (.text "OK"))), ("s", some (.success (.text "QUEUED"))),
        ("e", some (.success (.array [.text "OK"]))), ("g", some (.success (.text "v")))] := by
  have hok : (Value.status "OK").Sendable 0 := Value.sendable_status (by decide) 0
  have hqueued : (Value.status "QUEUED").Sendable 0 := Value.sendable_status (by decide) 0
  have hserver : Plays false executed := by
    refine ⟨hok, nofun, hqueued, nofun, ?_, fun _ => .inl rfl, ?_, fun _ => .inl rfl, trivial⟩
    · exact ⟨by decide, by decide, hok, trivial⟩
    · simp [Value.Sendable]
  have hconversation : Conversation 1000 (executed.map fun x => x.1.dispatch)
      (executed.map Prod.snd) (executedMoves.map Prod.fst) :=
    ⟨by decide, rfl, by decide +kernel, orderly_of_try (by decide +kernel)⟩
  exact ⟨hserver, hconversation, (pipeline_replies hserver hconversation).trans (by decide +kernel)⟩

/-! ## §4  Blocks that end in `DISCARD` -/

/-- As long as nobody discards, the reader knows where the server is. -/
theorem multiAfterAll_eq_block {commands : List Command} (h : ∀ c ∈ commands, c.kind ≠ .discard)
    (inMulti : Bool) : Reader.multiAfterAll inMulti commands =
      (commands.map (·.kind)).foldl Kind.blockAfter inMulti := by
  induction commands generalizing inMulti with
  | nil => rfl
  | cons c rest ih =>
      obtain ⟨hc, hrest⟩ := List.forall_mem_cons.mp h
      have hstep : Reader.multiAfter inMulti c.kind = c.kind.blockAfter inMulti := by
        cases hkind : c.kind with
        | discard => exact absurd hkind hc
        | _ => rfl
      rw [List.map_cons, List.foldl_cons, ← hstep]
      exact ih hrest _

/-- **Blocks that end in `EXEC` leave no trace**: where nobody discards, everybody outside the
blocks hears the reply that his value is. -/
theorem pipeline_replies_of_no_discard (hserver : Plays false xs)
    (h : Conversation timeout (xs.map fun x => x.1.dispatch) (xs.map Prod.snd) moves)
    (hnone : ∀ x ∈ xs, x.1.kind ≠ .discard) :
    ((connected timeout).run moves).rest.waits.map (fun w => (w.id, w.result)) =
      xs.zipIdx.map fun (x, i) => (x.1.id, some (x.2.answer
        (((xs.take (i + 1)).map (·.1.kind)).foldl Kind.blockAfter false))) := by
  rw [waits_of_plays hserver h, Callers.replies_eq]
  refine List.map_congr_left fun (x, i) _ => ?_
  dsimp only
  rw [multiAfterAll_eq_block, List.map_map]
  · rfl
  · intro c hc
    obtain ⟨y, hy, rfl⟩ := List.mem_map.mp hc
    exact hnone y (List.take_subset _ _ hy)

def discarded : List (Inquiry × Value) :=
  [({ id := "m", name := "MULTI", args := [], kind := .multi }, .status "OK"),
    ({ id := "d", name := "DISCARD", args := [], kind := .discard }, .status "OK"),
    ({ id := "g", name := "GET", args := ["k"], kind := .get },
      .bulk [0x68, 0x65, 0x6C, 0x6C, 0x6F])]

def discardedMoves : List (Move × Nat) :=
  (discarded.map fun x => (.act x.1.dispatch, 0)) ++
    [(.take, 0), (.take, 0), (.take, 0),
      (.act (.reply (bytesAll (discarded.map Prod.snd))), 3), (.read, 3)]

/-- **A block that ends in `DISCARD` is not over for the reader.** All commands are outside blocks
again, and still the caller of `GET` is told the length of his text. -/
theorem reply_after_discard :
    Plays false discarded ∧
    (discarded.map (·.1.kind)).foldl Kind.blockAfter false = false ∧
    Conversation 1000 (discarded.map fun x => x.1.dispatch) (discarded.map Prod.snd)
      (discardedMoves.map Prod.fst) ∧
    ((connected 1000).run (discardedMoves.map Prod.fst)).rest.waits.map
        (fun w => (w.id, w.result)) =
      [("m", some (.success (.text "OK"))), ("d", some (.success (.text "OK"))),
        ("g", some (.success (.text "5")))] ∧
    (Value.bulk [0x68, 0x65, 0x6C, 0x6C, 0x6F]).reply = .success (.text "hello") := by
  have hok : (Value.status "OK").Sendable 0 := Value.sendable_status (by decide) 0
  refine ⟨?_, rfl, ?_, by decide +kernel, by decide +kernel⟩
  · refine ⟨hok, nofun, hok, fun _ => .inl rfl, ?_, fun _ => .inl rfl, trivial⟩
    simp [Value.Sendable]
  · exact ⟨by decide, rfl, by decide +kernel, orderly_of_try (by decide +kernel)⟩

end Session

end RespClient
