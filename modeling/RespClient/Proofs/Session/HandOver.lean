import RespClient.Proofs.Command.Calls
import RespClient.Proofs.Session.Beside

/-!
# Typed calls hand over one command or none

A call is made on the client or on a transaction, and what it is made on holds commands: those in
the channel, or those recorded. A call with an empty list is refused before it gets there, and then
nothing of the session has changed. Every other call hands over the one command that its frame is
made of, and its caller begins to wait (`HandsOver`). Together with the reading of frames this says
what a call comes to (`typed_calls`).

- §1: lists that must have an item.
- §2: what the client and the transactions hold.
- §3: what a call comes to.
-/

namespace RespClient

/-! ## §1  Lists -/

namespace Call

/-- How many items there are in the list that the method takes, if it takes one. -/
def items? : Call → Option Nat
  | .bitop _ _ sources | .mget sources | .del sources => some sources.length
  | .mset pairs | .msetnx pairs | .hmset _ pairs => some pairs.length
  | .hdel _ fields | .hmget _ fields => some fields.length
  | .blpop _ sources | .brpop _ sources => some sources.length
  | .lpush _ values | .rpush _ values => some values.length
  | .sadd _ members | .srem _ members | .zrem _ members => some members.length
  | .zadd _ members => some members.length
  | .sdiff sources | .sinter sources | .sunion sources => some sources.length
  | .sdiffstore _ sources | .sinterstore _ sources | .sunionstore _ sources => some sources.length
  | .zinterstore _ sources | .zunionstore _ sources => some sources.length
  | _ => none

variable {c : Call}

theorem length_flatten (pairs : List (String × String)) :
    (flatten pairs).length = 2 * pairs.length := by
  induction pairs with
  | nil => rfl
  | cons pair rest ih =>
      show (flatten rest).length + 2 = 2 * (rest.length + 1)
      omega

/-- Only a list lets the arguments grow, and beside it there are at most two of them. -/
theorem length_args (c : Call) :
    match c.items? with
    | none => c.args.length ≤ 5
    | some n => n ≤ c.args.length ∧ c.args.length ≤ 2 * n + 2 := by
  cases c with
  | sort key asked => cases asked <;> simp [items?, args, ordering]
  | sortLimit key asked offset count => cases asked <;> simp [items?, args, ordering]
  | sortStore key asked destination => cases asked <;> simp [items?, args, ordering]
  | zrange key start stop scores => cases scores <;> simp [items?, args, withScores]
  | zrevrange key start stop scores => cases scores <;> simp [items?, args, withScores]
  | _ =>
      simp only [items?, args, counted, scored_eq_flatten, length_flatten, List.length_cons,
        List.length_append, List.length_map, List.length_nil]
      omega

theorem lacksItems_iff : c.lacksItems ↔ c.items? = some 0 := by
  cases c <;> simp [lacksItems, items?]

theorem command_of_no_items (h : c.items? = some 0) : c.command = .error (.noKeys c.kind) :=
  if_pos (lacksItems_iff.mpr h)

theorem command_of_items (h : c.items? ≠ some 0) :
    c.command = .ok { kind := c.kind, args := c.args } :=
  if_neg fun hlacks => h (lacksItems_iff.mp hlacks)

end Call

namespace Session

variable {s : Session} {name : String} {t : Transaction} {x : Command}

/-! ## §2  What is held -/

/-- The commands that wait in the channel of the client, or that a transaction has recorded, oldest
first, if there is such a client or transaction. -/
def held? (s : Session) : Option String → Option (List (Kind × List String))
  | none =>
    if s.client then
      some (s.queue.flatMap fun batch => batch.commands.map fun c => (c.kind, c.args))
    else none
  | some name => (s.transaction? name).map fun t => t.batch.map fun (c, _) => (c.kind, c.args)

/-- A transaction takes every command, the client only while its channel is open. -/
def takes (s : Session) (target : Option String) : Bool := target.isSome || !s.closed

/-- **One command is handed over.** What was called on holds it after those before, the others hold
what they held, and the caller is the last of those who wait. A closed channel takes nothing, which
the caller is told at once. -/
structure HandsOver (s s' : Session) (id : String) (target : Option String) (x : Command) :
    Prop where
  held : s'.held? target =
    (s.held? target).map (· ++ if s.takes target then [(x.kind, x.args)] else [])
  others : ∀ other, other ≠ target → s'.held? other = s.held? other
  waits : ∃ w : Wait, w.id = id ∧ s'.waits = s.waits ++ [w] ∧
    w.result = if s.takes target then none else some RoundTrip.notSubmitted.dispatched

theorem dispatch_handsOver (s : Session) (id : String) (x : Command) :
    s.HandsOver (s.dispatch id x) id none x := by
  cases hclosed : s.closed with
  | true =>
      have hdispatch : s.dispatch id x =
          s.freshSlot.2.wait id .done (some RoundTrip.notSubmitted.dispatched) := if_pos hclosed
      have hheld : ∀ other, (s.dispatch id x).held? other = s.held? other := by
        rw [hdispatch]
        rintro (_ | name) <;> rfl
      refine ⟨?_, fun other _ => hheld other, ?_⟩
      · simp [hheld, takes, hclosed]
      · rw [hdispatch]
        exact ⟨_, rfl, rfl, by simp [takes, hclosed]⟩
  | false =>
      have hdispatch : s.dispatch id x = _ := if_neg (by simp [hclosed])
      rw [hdispatch]
      refine ⟨?_, ?_, ⟨_, rfl, rfl, ?_⟩⟩
      · simp [held?, wait, takes, hclosed, Submission.single, Command.withSlot]
      · intro other hother
        obtain ⟨name, rfl⟩ := Option.ne_none_iff_exists'.mp hother
        rfl
      · simp [takes, hclosed]

theorem record_handsOver (ht : s.transaction? name = some t) (id : String) (x : Command) :
    s.HandsOver (s.record name id t x) id (some name) x := by
  refine ⟨?_, ?_, ⟨_, rfl, rfl, rfl⟩⟩
  · simp [held?, record_transaction?, ht, takes, Transaction.queue]
  · rintro (_ | other) hother
    · rfl
    · have hname : name ≠ other := fun he => hother (congrArg some he.symm)
      simp [held?, record_transaction?, hname]

/-! ## §3  What a call comes to -/

variable {id : String} {target : Option String} {c : Call}

theorem client_of_held (h : (s.held? none).isSome) : s.client = true := by
  simpa [held?] using h

theorem transaction_of_held (h : (s.held? (some name)).isSome) :
    ∃ t, s.transaction? name = some t := by
  rw [← Option.isSome_iff_exists]
  simpa [held?] using h

theorem act_call_of_no_items (htarget : (s.held? target).isSome) (h : c.items? = some 0) :
    s.act (.call id target c) = (.refused (.noKeys c.kind), s) := by
  have hcommand := Call.command_of_no_items h
  cases target with
  | none => simp [act, client_of_held htarget, hcommand]
  | some name =>
      obtain ⟨t, ht⟩ := transaction_of_held htarget
      simp [act, ht, hcommand]

theorem act_call_of_command (htarget : (s.held? target).isSome) (hx : c.command = .ok x) :
    ∃ s', s.act (.call id target c) = (.ok, s') ∧ s.HandsOver s' id target x := by
  cases target with
  | none =>
      have hclient := client_of_held htarget
      exact ⟨s.dispatch id x, by simp [act, hclient, hx], dispatch_handsOver s id x⟩
  | some name =>
      obtain ⟨t, ht⟩ := transaction_of_held htarget
      exact ⟨s.record name id t x, by simp [act, ht, hx], record_handsOver ht id x⟩

/-- **A typed call is refused or handed over as one command, whose frame tells it.** The frames of
two calls are equal only if the calls are, floats being told by their texts, and a reader that knows
neither finds the method and every argument of a call in its frame. What is refused is an empty
list, under the wire name of its method, and nothing has changed then; a call of any other kind
leaves one command more with what it was made on. -/
theorem typed_calls :
    (∀ (c d : Call) (x y : Command), c.command = .ok x → d.command = .ok y →
      (x.frame = y.frame ↔ Call.Alike c d)) ∧
    (∀ (score : String → Binary64) (c : Call) (x : Command), c.command = .ok x →
      Call.ofFrame? score x.frame = some (c.mapFloats (score ∘ Call.float))) ∧
    (∀ c : Call, c.items? = some 0 → c.command = .error (.noKeys c.kind) ∧
      (CommandError.noKeys c.kind).summary = "No keys provided for " ++ c.kind.wireName ∧
      ∀ (s : Session) (id : String) (target : Option String), (s.held? target).isSome →
        s.act (.call id target c) = (.refused (.noKeys c.kind), s)) ∧
    ∀ c : Call, c.items? ≠ some 0 → ∃ x : Command, c.command = .ok x ∧
      ∀ (s : Session) (id : String) (target : Option String), (s.held? target).isSome →
        ∃ s', s.act (.call id target c) = (.ok, s') ∧ s.HandsOver s' id target x := by
  refine ⟨?_, ?_, ?_, ?_⟩
  · intro c d x y hx hy
    exact Call.frame_eq_iff_alike hx hy
  · intro score c x hx
    exact Call.ofFrame?_command score hx
  · intro c h
    refine ⟨Call.command_of_no_items h, rfl, ?_⟩
    intro s id target htarget
    exact act_call_of_no_items htarget h
  · intro c h
    have hx := Call.command_of_items h
    refine ⟨_, hx, ?_⟩
    intro s id target htarget
    exact act_call_of_command htarget hx

/-- Two NaNs are written alike; keys may be words of the layout; a session refuses to fetch no keys,
and is handed the deletion of one. -/
theorem typed_calls_at_odd_arguments :
    Call.Alike (.zadd "k" [(⟨0x7FF8000000000000⟩, "m")]) (.zadd "k" [(⟨0xFFF8000000000001⟩, "m")]) ∧
    Call.ofFrame? (fun _ => ⟨0⟩)
      ({ kind := .sortWithStore, args := ["LIMIT", "STORE", "STORE"] } : Command).frame =
        some (.sortStore "LIMIT" none "STORE") ∧
    ({ replyTimeout := 0 } : Session).act (.call "a" none (.mget [])) =
      (.refused (.noKeys .mget), { replyTimeout := 0 }) ∧
    ∃ x s', ({ replyTimeout := 0 } : Session).act (.call "a" none (.del ["k"])) = (.ok, s') ∧
      HandsOver { replyTimeout := 0 } s' "a" none x := by
  refine ⟨?_, ?_, ?_, ?_⟩
  · exact (typed_calls.1 _ _ _ _ rfl rfl).mp rfl
  · exact typed_calls.2.1 (fun _ => ⟨0⟩) (.sortStore "LIMIT" none "STORE") _ rfl
  · obtain ⟨-, -, hrefused⟩ := typed_calls.2.2.1 (.mget []) rfl
    exact hrefused { replyTimeout := 0 } "a" none rfl
  · obtain ⟨x, -, htaken⟩ := typed_calls.2.2.2 (.del ["k"]) (by decide)
    obtain ⟨s', hact, hover⟩ := htaken { replyTimeout := 0 } "a" none rfl
    exact ⟨x, s', hact, hover⟩

end Session

end RespClient
