import RespClient.Proofs.Command.Wrapping
import RespClient.Proofs.Connection.Life
import RespClient.RoundTrip
import RespClient.Supervisor

/-!
# Submissions from one connection to the next

A supervisor takes submissions from its channel for as long as it runs, through any number of
connections. What happens to it falls into episodes: the life of a connection, and between these the
submissions that it finds while there is none. Every submission belongs to one episode and is
settled in it. The run keeps an account of episodes (`Run.Accounted`) whatever the environment
does: how attempts to connect end, what arrives on a connection, which writes fail, when submissions
are offered, when the delay is over and when the last sender goes away.
-/

namespace RespClient.Supervisor

/-! ## §1  Episodes -/

/-- What a supervisor goes through. -/
inductive Episode
  /-- A submission was taken while there was no connection. -/
  | refused (s : Submission)
  /-- A connection was made, and this happened to it. -/
  | connection (events : List Serving.Event)

namespace Episode

def taken : Episode → List Submission
  | .refused b => [b]
  | .connection events => Serving.taken events

/-- What is written in the episode: nothing without a connection, and on a connection what follows
from its own events. -/
def written : Episode → List UInt8
  | .refused _ => []
  | .connection events => (Serving.life events).written

/-- What is settled in the episode: without a connection the submission is failed whole, and a
connection settles what follows from its own events. -/
def settled : Episode → List Settlement
  | .refused b => b.fail .socketClosed
  | .connection events => (Serving.life events).ledger.settled

/-- The slots that have to be settled with a reply. -/
def slots : Episode → List Slot
  | .refused b => b.slots
  | .connection events => (Serving.taken events).flatMap fun b => b.wrapped.filterMap (·.slot)

/-- The slots that have to make room when submissions are wrapped. -/
def displaced : Episode → List Slot
  | .refused _ => []
  | .connection events => (Serving.taken events).filterMap Submission.displaced

def Over : Episode → Prop
  | .refused _ => True
  | .connection events => Serving.Over events

/-- One thing that happens, after these episodes. -/
def note (episodes : List Episode) : Event → List Episode
  | .connected => episodes ++ [.connection []]
  | .served e =>
    match episodes.getLast? with
    | some (.connection events) => episodes.dropLast ++ [.connection (events ++ [e])]
    | _ => episodes
  | .arrived b => episodes ++ [.refused b]
  | .refused | .retryDue | .channelClosed => episodes

theorem note_served (past : List Episode) (events : List Serving.Event) (e : Serving.Event) :
    note (past ++ [.connection events]) (.served e) = past ++ [.connection (events ++ [e])] := by
  unfold note
  dsimp only
  rw [List.getLast?_concat, List.dropLast_concat]

theorem replies_fail (b : Submission) (reply : Reply) :
    Settlement.replies (b.fail reply) = b.slots.map (·, reply) := by
  unfold Submission.fail Settlement.replies
  rw [List.filterMap_map, ← List.filterMap_eq_map]
  rfl

theorem drops_fail (b : Submission) (reply : Reply) : Settlement.drops (b.fail reply) = [] := by
  apply List.filterMap_eq_nil_iff.mpr
  intro x hx
  obtain ⟨slot, -, rfl⟩ := List.mem_map.mp hx
  rfl

/-- An episode that is over has settled each of its slots once, with a reply. -/
theorem Over.replies {e : Episode} (h : e.Over) :
    (Settlement.replies e.settled).map Prod.fst = e.slots := by
  cases e with
  | refused b =>
      show (Settlement.replies (b.fail _)).map Prod.fst = b.slots
      rw [replies_fail, List.map_map]
      exact List.map_id _
  | connection events =>
      obtain ⟨unreached, hsettled⟩ := Serving.Over.settled h
      show _ = (Serving.taken events).flatMap _
      rw [← List.filterMap_flatMap, ← (Serving.Over.books h).sent]
      exact hsettled.once

theorem Over.drops {e : Episode} (h : e.Over) : Settlement.drops e.settled = e.displaced := by
  cases e with
  | refused b => exact drops_fail b _
  | connection events =>
      obtain ⟨unreached, hsettled⟩ := Serving.Over.settled h
      show _ = (Serving.taken events).filterMap _
      rw [← (Serving.Over.books h).displaced]
      exact hsettled.dropped

/-- Whatever becomes of a submission, the slots of its commands as they would be written are among
those that the episode settles. -/
theorem wrapped_subset_slots {e : Episode} {b : Submission} (hb : b ∈ e.taken) {slot : Slot}
    (hslot : slot ∈ b.wrapped.filterMap (·.slot)) : slot ∈ e.slots := by
  cases e with
  | refused b' =>
      rw [List.mem_singleton.mp hb] at hslot
      exact Submission.mem_slots_of_wrapped hslot
  | connection events => exact List.mem_flatMap.mpr ⟨b, hb, hslot⟩

end Episode

/-! ## §2  Runs -/

/-- What looking into the channel finds, and the channel after it: a submission, or that none can
come. A channel that is empty for now makes one wait. -/
def look (ch : Channel) : Option (Option Submission × Channel) :=
  match ch.queued with
  | b :: rest => some (some b, { ch with queued := rest })
  | [] => if ch.isOpen then none else some (none, ch)

/-- What can happen to a supervisor and its channel. -/
inductive Move
  | offer (s : Submission)
  /-- The last sender is dropped. -/
  | hangUp
  | connected
  | refused
  | read (bytes : List UInt8)
  | readFault (fault : IoFault)
  /-- Whoever has the receiver looks into the channel; writing what it finds may fail. -/
  | take (fault : Option IoFault)
  | retryDue

/-- A supervisor with its channel, and what it has done so far. -/
structure Run where
  supervisor : Supervisor
  channel : Channel
  /-- All submissions that ever were in the channel. -/
  offered : List Submission
  history : List Event := []
  written : List UInt8 := []
  settled : List Settlement := []

namespace Run

/-- The episodes so far. -/
def episodes (r : Run) : List Episode := r.history.foldl Episode.note []

/-- What a move means to the supervisor now, and the channel after it. -/
def event? (r : Run) (m : Move) : Option (Event × Channel) :=
  match r.supervisor.phase, m with
  | .connecting, .connected => some (.connected, r.channel)
  | .connecting, .refused => some (.refused, r.channel)
  | .serving _, .read bytes => some (.served (.read bytes), r.channel)
  | .serving _, .readFault fault => some (.served (.readFault fault), r.channel)
  | .serving c, .take fault =>
    if c.accepting then
      (look r.channel).map fun
        | (some b, ch) => (.served (.submission b fault), ch)
        | (none, ch) => (.served .submissionsClosed, ch)
    else none
  | .waiting _, .retryDue => some (.retryDue, r.channel)
  | .waiting _, .take _ =>
    (look r.channel).map fun
      | (some b, ch) => (.arrived b, ch)
      | (none, ch) => (.channelClosed, ch)
  | _, _ => none

/-- An event, after which the channel is `ch`. -/
def happen (r : Run) (e : Event) (ch : Channel) : Run :=
  { r with
    supervisor := (r.supervisor.step e).next
    channel := ch
    history := r.history ++ [e]
    written := r.written ++ (r.supervisor.step e).written
    settled := r.settled ++ (r.supervisor.step e).settled }

/-- One move. A channel without senders takes no offers, and what cannot happen now does not. -/
def move (r : Run) : Move → Run
  | .offer b =>
    if r.channel.isOpen then
      { r with
        channel := { r.channel with queued := r.channel.queued ++ [b] }
        offered := r.offered ++ [b] }
    else r
  | .hangUp => { r with channel := { r.channel with isOpen := false } }
  | m =>
    match r.event? m with
    | some (e, ch) => r.happen e ch
    | none => r

end Run

/-- A supervisor that begins to connect, with a channel in any state, and all that happens to it. -/
def run (backoff : Backoff) (ch : Channel) (moves : List Move) : Run :=
  moves.foldl Run.move { supervisor := { backoff }, channel := ch, offered := ch.queued }

namespace Run

/-! ## §3  What the supervisor does with an event -/

/-- Where a run stands: every episode is over, but for the connection that is served. Submissions
are no longer looked for only when none can come, and so it is when the supervisor has stopped. -/
def Standing (channel : Channel) (episodes : List Episode) : Phase → Prop
  | .serving c =>
    ∃ past events, episodes = past ++ [.connection events] ∧ (∀ e ∈ past, e.Over) ∧
      Serving.Alive events c ∧ (c.accepting = false → channel.Exhausted)
  | .connecting | .waiting _ => ∀ e ∈ episodes, e.Over
  | .stopped => (∀ e ∈ episodes, e.Over) ∧ channel.Exhausted

/-- The account that is kept: every submission is queued or was taken in one episode, in order, and
what was written and settled is what was written and settled in the episodes. -/
structure Kept (r : Run) : Prop where
  taken : r.offered = r.episodes.flatMap Episode.taken ++ r.channel.queued
  written : r.written = r.episodes.flatMap Episode.written
  settled : r.settled = r.episodes.flatMap Episode.settled
  standing : Standing r.channel r.episodes r.supervisor.phase

variable {r : Run}

theorem episodes_happen (r : Run) (e : Event) (ch : Channel) :
    (r.happen e ch).episodes = Episode.note r.episodes e := List.foldl_append

/-- What a move of the supervisor is: an attempt to connect that ends, something that happens to the
connection, or one of the three things that a delay can bring. A submission is the first of the
channel, and that none can come is said only of an exhausted one. -/
inductive Turn (r : Run) : Event → Channel → Prop
  | connected (phase : r.supervisor.phase = .connecting) : Turn r .connected r.channel
  | refused (phase : r.supervisor.phase = .connecting) : Turn r .refused r.channel
  | served {c : Serving} {e : Serving.Event} {ch : Channel}
      (phase : r.supervisor.phase = .serving c)
      (order : r.channel.queued = e.taken.toList ++ ch.queued)
      (closed : e = .submissionsClosed → ch.Exhausted)
      (same : c.accepting = false → ch = r.channel) : Turn r (.served e) ch
  | retryDue {delay : Duration} (phase : r.supervisor.phase = .waiting delay) :
      Turn r .retryDue r.channel
  | arrived {delay : Duration} {b : Submission} {ch : Channel}
      (phase : r.supervisor.phase = .waiting delay)
      (order : r.channel.queued = b :: ch.queued) : Turn r (.arrived b) ch
  | channelClosed {delay : Duration} (phase : r.supervisor.phase = .waiting delay)
      (closed : r.channel.Exhausted) : Turn r .channelClosed r.channel

theorem look_some {ch ch' : Channel} {b : Submission} (h : look ch = some (some b, ch')) :
    ch.queued = b :: ch'.queued := by
  unfold look at h
  split at h
  · next b' rest hqueued =>
      obtain ⟨hb, hch⟩ := Prod.mk.inj (Option.some.inj h)
      rw [hqueued, ← hch, Option.some.inj hb]
  · split at h
    · exact absurd h (by simp)
    · exact absurd (congrArg Prod.fst (Option.some.inj h)) (by simp)

theorem look_none {ch ch' : Channel} (h : look ch = some (none, ch')) :
    ch' = ch ∧ ch.Exhausted := by
  unfold look at h
  split at h
  · exact absurd (congrArg Prod.fst (Option.some.inj h)) (by simp)
  · next hqueued =>
      split at h
      · exact absurd h (by simp)
      · next hopen =>
          exact ⟨(congrArg Prod.snd (Option.some.inj h)).symm, hqueued, by simpa using hopen⟩

theorem turn_of_event? {m : Move} {e : Event} {ch : Channel} (h : r.event? m = some (e, ch)) :
    Turn r e ch := by
  unfold event? at h
  split at h
  · next hphase =>
      obtain ⟨rfl, rfl⟩ := Prod.mk.inj (Option.some.inj h)
      exact .connected hphase
  · next hphase =>
      obtain ⟨rfl, rfl⟩ := Prod.mk.inj (Option.some.inj h)
      exact .refused hphase
  · next hphase =>
      obtain ⟨rfl, rfl⟩ := Prod.mk.inj (Option.some.inj h)
      exact .served hphase rfl (by simp) fun _ => rfl
  · next hphase =>
      obtain ⟨rfl, rfl⟩ := Prod.mk.inj (Option.some.inj h)
      exact .served hphase rfl (by simp) fun _ => rfl
  · next c fault hphase =>
      split at h
      · next haccepting =>
          obtain ⟨⟨found, ch'⟩, hlook, hevent⟩ := Option.map_eq_some_iff.mp h
          cases found with
          | some b =>
              obtain ⟨rfl, rfl⟩ := Prod.mk.inj hevent
              exact .served hphase (look_some hlook) (by simp) (by simp [haccepting])
          | none =>
              obtain ⟨rfl, rfl⟩ := Prod.mk.inj hevent
              obtain ⟨rfl, hexhausted⟩ := look_none hlook
              exact .served hphase rfl (fun _ => hexhausted) fun _ => rfl
      · exact absurd h (by simp)
  · next hphase =>
      obtain ⟨rfl, rfl⟩ := Prod.mk.inj (Option.some.inj h)
      exact .retryDue hphase
  · next hphase =>
      obtain ⟨⟨found, ch'⟩, hlook, hevent⟩ := Option.map_eq_some_iff.mp h
      cases found with
      | some b =>
          obtain ⟨rfl, rfl⟩ := Prod.mk.inj hevent
          exact .arrived hphase (look_some hlook)
      | none =>
          obtain ⟨rfl, rfl⟩ := Prod.mk.inj hevent
          obtain ⟨rfl, hexhausted⟩ := look_none hlook
          exact .channelClosed hphase hexhausted
  · exact absurd h (by simp)

/-- What a move can be: the supervisor has its turn, or nothing happens to it. -/
theorem move_cases (r : Run) (m : Move) :
    (∃ e ch, Turn r e ch ∧ r.move m = r.happen e ch) ∨
      (r.move m).supervisor = r.supervisor ∧ (r.move m).history = r.history := by
  have hevent : ∀ r' : Run,
      r' = (match r.event? m with | some (e, ch) => r.happen e ch | none => r) →
      (∃ e ch, Turn r e ch ∧ r' = r.happen e ch) ∨
        r'.supervisor = r.supervisor ∧ r'.history = r.history := by
    rintro r' rfl
    split
    · next e ch hevent => exact .inl ⟨e, ch, turn_of_event? hevent, rfl⟩
    · exact .inr ⟨rfl, rfl⟩
  cases m with
  | offer b =>
      right
      unfold move
      dsimp only
      split <;> exact ⟨rfl, rfl⟩
  | hangUp => exact .inr ⟨rfl, rfl⟩
  | connected => exact hevent _ rfl
  | refused => exact hevent _ rfl
  | read bytes => exact hevent _ rfl
  | readFault fault => exact hevent _ rfl
  | take fault => exact hevent _ rfl
  | retryDue => exact hevent _ rfl

/-! ## §4  The account is kept -/

/-- Where a run stands does not depend on the channel, but for whether that is exhausted. -/
theorem Standing.of_channel {ch ch' : Channel} {episodes : List Episode} {phase : Phase}
    (h : Standing ch episodes phase) (hexhausted : ch.Exhausted → ch'.Exhausted) :
    Standing ch' episodes phase := by
  cases phase with
  | connecting => exact h
  | serving c =>
      obtain ⟨past, events, hepisodes, hpast, halive, haccepting⟩ := h
      exact ⟨past, events, hepisodes, hpast, halive, fun ha => hexhausted (haccepting ha)⟩
  | waiting delay => exact h
  | stopped => exact ⟨h.1, hexhausted h.2⟩

theorem Kept.happen {e : Event} {ch : Channel} (h : r.Kept)
    (htaken : r.episodes.flatMap Episode.taken ++ r.channel.queued =
      (Episode.note r.episodes e).flatMap Episode.taken ++ ch.queued)
    (hwritten : (Episode.note r.episodes e).flatMap Episode.written =
      r.episodes.flatMap Episode.written ++ (r.supervisor.step e).written)
    (hsettled : (Episode.note r.episodes e).flatMap Episode.settled =
      r.episodes.flatMap Episode.settled ++ (r.supervisor.step e).settled)
    (hstanding : Standing ch (Episode.note r.episodes e) (r.supervisor.step e).next.phase) :
    (r.happen e ch).Kept := by
  refine ⟨?_, ?_, ?_, ?_⟩
  · rw [episodes_happen]
    exact h.taken.trans htaken
  · rw [episodes_happen, hwritten, ← h.written]
    rfl
  · rw [episodes_happen, hsettled, ← h.settled]
    rfl
  · rw [episodes_happen]
    exact hstanding

/-- An event that nothing is taken, written or settled in. -/
theorem Kept.pass {e : Event} (h : r.Kept) (hnote : Episode.note r.episodes e = r.episodes)
    (hwritten : (r.supervisor.step e).written = []) (hsettled : (r.supervisor.step e).settled = [])
    (hstanding : Standing r.channel (Episode.note r.episodes e) (r.supervisor.step e).next.phase) :
    (r.happen e r.channel).Kept := by
  apply h.happen
  · rw [hnote]
  · rw [hnote, hwritten, List.append_nil]
  · rw [hnote, hsettled, List.append_nil]
  · exact hstanding

/-- An event that begins an episode. -/
theorem Kept.begins {e : Event} {ch : Channel} (h : r.Kept) (episode : Episode)
    (hnote : Episode.note r.episodes e = r.episodes ++ [episode])
    (horder : r.channel.queued = episode.taken ++ ch.queued)
    (hwritten : (r.supervisor.step e).written = episode.written)
    (hsettled : (r.supervisor.step e).settled = episode.settled)
    (hstanding : Standing ch (Episode.note r.episodes e) (r.supervisor.step e).next.phase) :
    (r.happen e ch).Kept := by
  apply h.happen
  · rw [hnote, List.flatMap_append, List.flatMap_singleton, horder, List.append_assoc]
  · rw [hnote, List.flatMap_append, List.flatMap_singleton, hwritten]
  · rw [hnote, List.flatMap_append, List.flatMap_singleton, hsettled]
  · exact hstanding

theorem step_connected (h : r.supervisor.phase = .connecting) :
    r.supervisor.step .connected =
      { next := { backoff := r.supervisor.backoff.reset, phase := .serving {} } } := by
  unfold step
  rw [h]

theorem step_refused (h : r.supervisor.phase = .connecting) :
    r.supervisor.step .refused =
      { next :=
          { backoff := r.supervisor.backoff.failure.2
            phase := .waiting r.supervisor.backoff.failure.1 } } := by
  unfold step
  rw [h]

theorem step_retryDue {delay : Duration} (h : r.supervisor.phase = .waiting delay) :
    r.supervisor.step .retryDue = { next := { r.supervisor with phase := .connecting } } := by
  unfold step
  rw [h]

theorem step_arrived {delay : Duration} (h : r.supervisor.phase = .waiting delay)
    (b : Submission) :
    r.supervisor.step (.arrived b) =
      { next := r.supervisor, settled := b.fail .socketClosed } := by
  unfold step
  rw [h]

theorem step_channelClosed {delay : Duration} (h : r.supervisor.phase = .waiting delay) :
    r.supervisor.step .channelClosed = { next := { r.supervisor with phase := .stopped } } := by
  unfold step
  rw [h]

theorem step_served {c : Serving} (h : r.supervisor.phase = .serving c) (e : Serving.Event) :
    r.supervisor.step (.served e) =
      { next := { r.supervisor with phase := afterServing r.supervisor.backoff (c.step e).next }
        written := (c.step e).written
        settled := (c.step e).settled } := by
  unfold step
  rw [h]

/-- Something happens to the connection that is served. -/
theorem Kept.served {c : Serving} {e : Serving.Event} {ch : Channel} (h : r.Kept)
    (hphase : r.supervisor.phase = .serving c)
    (horder : r.channel.queued = e.taken.toList ++ ch.queued)
    (hclosed : e = .submissionsClosed → ch.Exhausted)
    (hsame : c.accepting = false → ch = r.channel) : (r.happen (.served e) ch).Kept := by
  have hstanding := h.standing
  rw [hphase] at hstanding
  obtain ⟨past, events, hepisodes, hpast, halive, haccepting⟩ := hstanding
  have hstep := step_served hphase e
  have hnote := Episode.note_served past events e
  rw [← hepisodes] at hnote
  have hlife := Serving.life_snoc_of_now halive.now e
  have hexhausted : c.accepting = false ∨ e = .submissionsClosed → ch.Exhausted := by
    rintro (hno | he)
    · rw [hsame hno]
      exact haccepting hno
    · exact hclosed he
  apply h.happen
  · rw [hnote, hepisodes]
    simp only [List.flatMap_append, List.flatMap_singleton, Episode.taken, Serving.taken_snoc,
      horder, List.append_assoc]
  · rw [hnote, hepisodes, hstep]
    simp only [List.flatMap_append, List.flatMap_singleton, Episode.written, hlife,
      List.append_assoc]
  · rw [hnote, hepisodes, hstep]
    simp only [List.flatMap_append, List.flatMap_singleton, Episode.settled, hlife,
      Serving.record, List.append_assoc]
  · have hall : ∀ {now : Episode}, now.Over → ∀ x ∈ past ++ [now], x.Over := by
      intro now hnow x hx
      rcases List.mem_append.mp hx with hx | hx
      · exact hpast x hx
      · rw [List.mem_singleton.mp hx]
        exact hnow
    rw [hstep, hnote]
    rcases halive.next e with ⟨c', hnext, halive', hno⟩ | ⟨ending, hnext, hover, hwhy⟩
    · rw [hnext]
      exact ⟨past, events ++ [e], rfl, hpast, halive', fun ha => hexhausted (hno ha)⟩
    · rw [hnext]
      -- Of all endings only one stops the supervisor, and for that the channel must be exhausted.
      cases ending with
      | submissionsClosed => exact ⟨hall hover, hexhausted (hwhy rfl)⟩
      | closed => exact hall hover
      | io fault => exact hall hover
      | protocol fault => exact hall hover

/-- While there is no connection every episode is over. -/
theorem Standing.over {channel : Channel} {episodes : List Episode} {phase : Phase}
    (h : Standing channel episodes phase) (hphase : ∀ c, phase ≠ .serving c) :
    ∀ e ∈ episodes, e.Over := by
  cases phase with
  | connecting => exact h
  | serving c => exact absurd rfl (hphase c)
  | waiting delay => exact h
  | stopped => exact h.1

theorem kept_turn {e : Event} {ch : Channel} (h : r.Kept) (turn : Turn r e ch) :
    (r.happen e ch).Kept := by
  have hover := h.standing.over
  cases turn with
  | connected hphase =>
      have hstep := step_connected hphase
      refine h.begins (.connection []) rfl rfl ?_ ?_ ?_
      · rw [hstep]
        rfl
      · rw [hstep]
        rfl
      · rw [hstep]
        exact ⟨r.episodes, [], rfl, hover (by simp [hphase]), Serving.alive_nil, by simp⟩
  | refused hphase =>
      have hstep := step_refused hphase
      refine h.pass rfl (by rw [hstep]) (by rw [hstep]) ?_
      rw [hstep]
      exact hover (by simp [hphase])
  | served hphase horder hclosed hsame => exact h.served hphase horder hclosed hsame
  | retryDue hphase =>
      have hstep := step_retryDue hphase
      refine h.pass rfl (by rw [hstep]) (by rw [hstep]) ?_
      rw [hstep]
      exact hover (by simp [hphase])
  | @arrived delay b ch hphase horder =>
      have hstep := step_arrived hphase b
      refine h.begins (.refused b) rfl horder (by rw [hstep]; rfl)
        (by rw [hstep]; rfl) ?_
      rw [hstep, hphase]
      intro x hx
      rcases List.mem_append.mp hx with hx | hx
      · exact hover (by simp [hphase]) x hx
      · rw [List.mem_singleton.mp hx]
        trivial
  | channelClosed hphase hexhausted =>
      have hstep := step_channelClosed hphase
      refine h.pass rfl (by rw [hstep]) (by rw [hstep]) ?_
      rw [hstep]
      exact ⟨hover (by simp [hphase]), hexhausted⟩

theorem kept_move (h : r.Kept) (m : Move) : (r.move m).Kept := by
  have hturn : (match r.event? m with | some (e, ch) => r.happen e ch | none => r).Kept := by
    split
    · next e ch hevent => exact kept_turn h (turn_of_event? hevent)
    · exact h
  cases m with
  | offer b =>
      unfold move
      dsimp only
      split
      · next hopen =>
          -- The only move that adds to what was offered adds the same to the channel.
          refine ⟨?_, h.written, h.settled, ?_⟩
          · show r.offered ++ [b] = _ ++ (r.channel.queued ++ [b])
            rw [h.taken, List.append_assoc]
            rfl
          · exact h.standing.of_channel fun hexhausted =>
              absurd hexhausted.2 (by simp [hopen])
      · exact h
  | hangUp =>
      refine ⟨h.taken, h.written, h.settled, ?_⟩
      exact h.standing.of_channel fun hexhausted => ⟨hexhausted.1, rfl⟩
  | connected => exact hturn
  | refused => exact hturn
  | read bytes => exact hturn
  | readFault fault => exact hturn
  | take fault => exact hturn
  | retryDue => exact hturn

theorem kept_foldl (h : r.Kept) (moves : List Move) : (moves.foldl move r).Kept := by
  induction moves generalizing r with
  | nil => exact h
  | cons m rest ih => exact ih (kept_move h m)

/-! ## §5  The account of a run -/

theorem replies_episodes (episodes : List Episode) (hover : ∀ e ∈ episodes, e.Over) :
    (Settlement.replies (episodes.flatMap Episode.settled)).map Prod.fst =
        episodes.flatMap Episode.slots ∧
      Settlement.drops (episodes.flatMap Episode.settled) =
        episodes.flatMap Episode.displaced := by
  induction episodes with
  | nil => exact ⟨rfl, rfl⟩
  | cons e rest ih =>
      have he : e.Over := hover e List.mem_cons_self
      obtain ⟨hreplies, hdrops⟩ := ih fun x hx => hover x (List.mem_cons_of_mem e hx)
      simp only [List.flatMap_cons, Settlement.replies_append, Settlement.drops_append,
        List.map_append, he.replies, he.drops, hreplies, hdrops, and_self]

/-- Over or not, a connection has its books, and tells what a connection tells. -/
theorem Standing.tells {channel : Channel} {episodes : List Episode} {phase : Phase}
    (h : Standing channel episodes phase) {events : List Serving.Event}
    (hevents : .connection events ∈ episodes) :
    Serving.Books events ∧ Serving.Tells events := by
  have hover : Serving.Over events → Serving.Books events ∧ Serving.Tells events :=
    fun hover => ⟨hover.books, hover.tells⟩
  cases phase with
  | connecting => exact hover (h _ hevents)
  | waiting delay => exact hover (h _ hevents)
  | stopped => exact hover (h.1 _ hevents)
  | serving c =>
      obtain ⟨past, now, rfl, hpast, halive, -⟩ := h
      rcases List.mem_append.mp hevents with hevents | hevents
      · exact hover (hpast _ hevents)
      · obtain rfl := Episode.connection.inj (List.mem_singleton.mp hevents)
        exact ⟨halive.books, halive.tells⟩

theorem Kept.tells (h : r.Kept) {e : Episode} (he : e ∈ r.episodes) {x : Settlement}
    (hx : x ∈ e.settled) :
    (∃ reply, x.outcome = .reply reply ∧ reply.Told) ∨ x.slot ∈ e.displaced := by
  cases e with
  | refused b =>
      obtain ⟨slot, -, rfl⟩ := List.mem_map.mp hx
      exact .inl ⟨_, rfl, .socketClosed⟩
  | connection events =>
      obtain ⟨hbooks, htells⟩ := h.standing.tells he
      rcases htells x hx with htold | ⟨-, hslot⟩
      · exact .inl htold
      · rw [hbooks.displaced] at hslot
        exact .inr hslot

/-- What a supervisor does with its submissions. -/
structure Accounted (r : Run) : Prop where
  /-- Every submission that was offered was taken in exactly one episode, in the order of the
  channel, or is still in the channel. -/
  taken : r.offered = r.episodes.flatMap Episode.taken ++ r.channel.queued
  /-- Each episode writes and settles what follows from its own events, and nothing else is written
  or settled. -/
  written : r.written = r.episodes.flatMap Episode.written
  settled : r.settled = r.episodes.flatMap Episode.settled
  /-- Every episode is over, but for a connection that is served now. -/
  standing : Standing r.channel r.episodes r.supervisor.phase
  /-- When the supervisor has stopped, every slot that was to be settled has one reply. -/
  stopped : r.supervisor.phase = .stopped →
    r.channel.Exhausted ∧
    (Settlement.replies r.settled).map Prod.fst = r.episodes.flatMap Episode.slots ∧
    Settlement.drops r.settled = r.episodes.flatMap Episode.displaced ∧
    ∀ b ∈ r.offered, ∀ slot ∈ b.wrapped.filterMap (·.slot),
      ∃ reply, (slot, reply) ∈ Settlement.replies r.settled
  /-- Nobody is told that his reply was lost, but for one whose slot had to make room. -/
  told : ∀ x ∈ r.settled, (∀ b ∈ r.offered, b.displaced ≠ some x.slot) →
    (∃ reply, x.outcome = .reply reply ∧ reply.Told) ∧
      (RoundTrip.ofOutcome x.outcome).dispatched ≠ .error "RECIPIENT_FAILURE" (some 500)

theorem Kept.accounted (h : r.Kept) : r.Accounted := by
  refine ⟨h.taken, h.written, h.settled, h.standing, ?_, ?_⟩
  · intro hstopped
    have hstanding := h.standing
    rw [hstopped] at hstanding
    obtain ⟨hover, hexhausted⟩ := hstanding
    obtain ⟨hreplies, hdrops⟩ := replies_episodes r.episodes hover
    rw [← h.settled] at hreplies hdrops
    refine ⟨hexhausted, hreplies, hdrops, ?_⟩
    intro b hb slot hslot
    rw [h.taken, hexhausted.1, List.append_nil] at hb
    obtain ⟨e, he, hbe⟩ := List.mem_flatMap.mp hb
    have hmem : slot ∈ (Settlement.replies r.settled).map Prod.fst := by
      rw [hreplies]
      exact List.mem_flatMap.mpr ⟨e, he, e.wrapped_subset_slots hbe hslot⟩
    obtain ⟨⟨slot', reply⟩, hreply, rfl⟩ := List.mem_map.mp hmem
    exact ⟨reply, hreply⟩
  · intro x hx hdisplaced
    rw [h.settled] at hx
    obtain ⟨e, he, hxe⟩ := List.mem_flatMap.mp hx
    have htold : ∃ reply, x.outcome = .reply reply ∧ reply.Told := by
      rcases h.tells he hxe with htold | hslot
      · exact htold
      · cases e with
        | refused b => exact absurd hslot List.not_mem_nil
        | connection events =>
            obtain ⟨b, hb, hslot⟩ := List.mem_filterMap.mp hslot
            have hoffered : b ∈ r.offered := by
              rw [h.taken]
              exact List.mem_append_left _ (List.mem_flatMap.mpr ⟨_, he, hb⟩)
            exact absurd hslot (hdisplaced b hoffered)
    refine ⟨htold, ?_⟩
    obtain ⟨reply, hreply, htold⟩ := htold
    rw [hreply]
    exact htold.no_code "RECIPIENT_FAILURE" 500

/-- **The supervisor accounts for every submission**, whatever happens to it. -/
theorem submissions_accounted (backoff : Backoff) (ch : Channel) (moves : List Move) :
    (run backoff ch moves).Accounted := by
  apply Kept.accounted
  apply kept_foldl
  exact ⟨rfl, rfl, rfl, by simp [Standing, episodes]⟩

/-- A supervisor does stop: here in the delay after an attempt that was refused. -/
example (backoff : Backoff) :
    (run backoff {} [.refused, .hangUp, .take none]).supervisor.phase = .stopped := rfl

end Run

end RespClient.Supervisor
