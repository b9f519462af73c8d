import RespClient.Proofs.Connection.Life
import RespClient.Proofs.Session.Strokes

/-!
# What happens by itself

A connection settles slots of commands that were handed to it, and tells no more than it can
(`Serving.Within`). So what happens by itself in a session, with a connection or with a supervisor,
is made of strokes that settle slots handed over (`next_strokes`), also while time passes
(`pass_strokes`).
-/

namespace RespClient

/-! ## §1  What a connection settles -/

/-- A text that begins with another letter is not that of a caller whose command was thrown away. -/
theorem Reply.fair_of_head {message : String} {code : Option Nat}
    (h : message.toList.head? ≠ some 't') : (Reply.error message code).Fair := by
  rintro heq
  obtain ⟨rfl, -⟩ := Reply.error.inj heq
  exact h (by decide)

/-- A connection tells nobody that his command was thrown away. -/
theorem Reply.Told.fair {r : Reply} (h : r.Told) : r.Fair := by
  cases h with
  | success data => simp [Fair, Transaction.queuedReply]
  | fail data => simp [Fair, Transaction.queuedReply]
  | fault fault =>
      apply fair_of_head
      cases fault with
      | mismatch kind found =>
          show "Invalid response found".toList.head? ≠ some 't'
          decide
      | invalidInteger text =>
          show ("Invalid integer in response: " ++ text).toList.head? ≠ some 't'
          simp
      | lineCountOverflow count =>
          show ("Invalid response array length: " ++ Numeral.ofInt64 count).toList.head? ≠ some 't'
          simp
      | _ => decide
  | noLine kind =>
      apply fair_of_head
      simp
  | socketClosed =>
      apply fair_of_head
      decide

theorem Settlement.fair_of_dropped {slot : Slot} : (⟨slot, .dropped⟩ : Settlement).Fair := by
  intro r hr
  exact absurd hr (by simp)

theorem Settlement.fair_of_reply {slot : Slot} {r : Reply} (h : r.Fair) :
    (⟨slot, .reply r⟩ : Settlement).Fair := by
  intro r' hr
  exact Outcome.reply.inj hr ▸ h

theorem Command.mem_resolve {c : Command} {r : Reply} {x : Settlement} (hx : x ∈ c.resolve r) :
    c.slot = some x.slot ∧ x.outcome = .reply r := by
  obtain ⟨slot, hslot, rfl⟩ := List.mem_map.mp hx
  exact ⟨Option.mem_toList.mp hslot, rfl⟩

theorem Submission.displaced_mem_slots {b : Submission} {slot : Slot}
    (h : b.displaced = some slot) : slot ∈ b.slots := by
  unfold displaced at h
  split at h
  · next last hexec hlast =>
      split at h
      · exact List.mem_append_right _
          (List.mem_filterMap.mpr ⟨last, List.mem_of_getLast? hlast, h⟩)
      · exact absurd h (by simp)
  · exact absurd h (by simp)

namespace Serving

/-- What may be settled by a connection that has these slots. -/
def Due (slots : List Slot) (xs : List Settlement) : Prop := ∀ x ∈ xs, x.slot ∈ slots ∧ x.Fair

/-- A step settles and keeps none but these slots. -/
structure Within (slots : List Slot) (step : Step) : Prop where
  settled : Due slots step.settled
  next : ∀ c, step.next = .inl c → c.connection.pending.filterMap (·.slot) ⊆ slots

variable {slots : List Slot} {c : Serving} {connection : Connection} {xs : List Settlement}

theorem Within.mono {step : Step} (h : Within slots step) {slots' : List Slot}
    (hslots : slots ⊆ slots') : Within slots' step :=
  ⟨fun x hx => ⟨hslots (h.settled x hx).1, (h.settled x hx).2⟩,
    fun c hnext => List.Subset.trans (h.next c hnext) hslots⟩

theorem due_close (h : connection.pending.filterMap (·.slot) ⊆ slots) :
    Due slots connection.close := by
  intro x hx
  obtain ⟨command, hcommand, hx⟩ := List.mem_flatMap.mp hx
  obtain ⟨hslot, houtcome⟩ := Command.mem_resolve hx
  refine ⟨h (List.mem_filterMap.mpr ⟨command, hcommand, hslot⟩), fun r hr => ?_⟩
  rw [← Outcome.reply.inj (houtcome.symm.trans hr)]
  exact Reply.Told.socketClosed.fair

theorem within_finish (h : connection.pending.filterMap (·.slot) ⊆ slots) (hxs : Due slots xs)
    (ending : Ending) : Within slots (finish connection ending xs) := by
  refine ⟨fun x hx => ?_, fun c hc => absurd hc (by simp [finish])⟩
  rcases List.mem_append.mp hx with hx | hx
  · exact hxs x hx
  · exact due_close h x hx

theorem within_goOn (h : c.connection.pending.filterMap (·.slot) ⊆ slots) (hxs : Due slots xs)
    (written : List UInt8) : Within slots (goOn c written xs) := by
  unfold goOn
  split
  · have hfinish := within_finish h hxs .submissionsClosed
    exact ⟨hfinish.settled, hfinish.next⟩
  · exact ⟨hxs, fun c' hc => Sum.inl.inj hc ▸ h⟩

theorem due_nil : Due slots [] := fun _ hx => absurd hx (by simp)

/-- What is read answers commands that wait. -/
theorem within_receive (h : connection.pending.filterMap (·.slot) ⊆ slots) (chunk : List UInt8) :
    Due slots (connection.receive chunk).settled ∧
      (connection.receive chunk).pending.filterMap (·.slot) ⊆ slots := by
  have hkeeps := Reader.feed_keeps connection.reader connection.pending chunk
  have htold := Reader.feed_told connection.reader connection.pending chunk
  unfold Progress.Keeps at hkeeps
  constructor
  · intro x hx
    obtain ⟨a, ha, hx⟩ := List.mem_flatMap.mp hx
    obtain ⟨hslot, houtcome⟩ := Command.mem_resolve hx
    refine ⟨h (List.mem_filterMap.mpr ⟨a.command, ?_, hslot⟩), fun r hr => ?_⟩
    · rw [← hkeeps]
      exact List.mem_append_left _ (List.mem_map_of_mem ha)
    · rw [← Outcome.reply.inj (houtcome.symm.trans hr)]
      exact (htold a ha).fair
  · intro slot hslot
    obtain ⟨command, hcommand, hslot⟩ := List.mem_filterMap.mp hslot
    refine h (List.mem_filterMap.mpr ⟨command, ?_, hslot⟩)
    rw [← hkeeps]
    exact List.mem_append_right _ hcommand

theorem within_submit (h : connection.pending.filterMap (·.slot) ⊆ slots) {b : Submission}
    (hb : b.slots ⊆ slots) : (connection.submit b).2.pending.filterMap (·.slot) ⊆ slots := by
  show (connection.pending ++ b.wrapped).filterMap (·.slot) ⊆ slots
  rw [List.filterMap_append]
  exact List.append_subset.mpr ⟨h, fun slot hslot => hb (Submission.mem_slots_of_wrapped hslot)⟩

theorem due_displaced {b : Submission} (hb : b.slots ⊆ slots) :
    Due slots (Settlement.drop b.displaced) := by
  intro x hx
  obtain ⟨slot, hslot, rfl⟩ := List.mem_map.mp hx
  exact ⟨hb (Submission.displaced_mem_slots (Option.mem_toList.mp hslot)),
    Settlement.fair_of_dropped⟩

/-- **A connection settles and keeps the slots that were handed to it**, and no others. -/
theorem within_step (h : c.connection.pending.filterMap (·.slot) ⊆ slots) (e : Event)
    (he : ∀ b, e.taken = some b → b.slots ⊆ slots) : Within slots (c.step e) := by
  cases e with
  | read chunk =>
      cases chunk with
      | nil => exact within_finish h due_nil _
      | cons b bytes =>
          obtain ⟨hsettled, hpending⟩ := within_receive h (b :: bytes)
          unfold step
          dsimp only
          split
          · exact within_finish hpending hsettled _
          · exact within_goOn hpending hsettled _
  | readFault fault => exact within_finish h due_nil _
  | submission b fault =>
      have hpending := within_submit h (he b rfl)
      unfold step
      dsimp only
      split
      · exact within_finish hpending (due_displaced (he b rfl)) _
      · exact within_goOn hpending (due_displaced (he b rfl)) _
  | submissionsClosed => exact within_goOn (c := { c with accepting := false }) h due_nil []

end Serving

namespace Session

/-! ## §2  What happens by itself -/

variable {P : String → Prop} {R : Slot → Prop} {handed : List Slot} {s s' : Session}

/-- Nothing is on its way but what was handed over. -/
def Carries (handed : List Slot) (s : Session) : Prop := ∀ slot ∈ s.carried, slot ∈ handed

theorem carries_iff : s.Carries handed ↔
    (∀ b ∈ s.queue, b.slots ⊆ handed) ∧ s.service.slots ⊆ handed := by
  unfold Carries carried
  simp only [List.forall_mem_append, List.forall_mem_flatMap, List.subset_def]

/-- Something happens beyond the callers, and no slot is opened. -/
theorem beyond_stroke (hcarried : s'.Carries handed) (hnear : s'.near = s.near)
    (hnow : s'.now = s.now) : Stroke P R (handed, s) (handed, s') := by
  obtain ⟨-, htimeout, htransactions, hwaits, hreceivers, hsettled⟩ := Near.mk.inj hnear
  refine .beyond ⟨htransactions, hwaits, hsettled⟩ ?_ ⟨Nat.le_of_eq hnow.symm, htimeout⟩
    (List.Subset.refl _) (fun _ => .inl) hcarried
  exact Nat.le_of_eq (congrArg Receivers.next hreceivers).symm

theorem Carries.settle (h : s.Carries handed) (xs : List Settlement) :
    (s.settle xs).Carries handed := by
  have hfar := far_of_aside (settle_aside s xs)
  rw [carries_iff] at h ⊢
  rw [show (s.settle xs).queue = s.queue from congrArg Far.queue hfar,
    show (s.settle xs).service = s.service from congrArg Far.service hfar]
  exact h

theorem settle_stroke (hR : ∀ slot, R slot) {xs : List Settlement} (hxs : Serving.Due handed xs) :
    Stroke P R (handed, s) (handed, s.settle xs) :=
  .settle xs fun x hx => ⟨(hxs x hx).1, hR _, (hxs x hx).2⟩

theorem due_dropped {slots : List Slot} (h : slots ⊆ handed) :
    Serving.Due handed (slots.map (⟨·, .dropped⟩)) := by
  intro x hx
  obtain ⟨slot, hslot, rfl⟩ := List.mem_map.mp hx
  exact ⟨h hslot, Settlement.fair_of_dropped⟩

theorem due_replied {slots : List Slot} (h : slots ⊆ handed) {r : Reply} (hr : r.Fair) :
    Serving.Due handed (slots.map (⟨·, .reply r⟩)) := by
  intro x hx
  obtain ⟨slot, hslot, rfl⟩ := List.mem_map.mp hx
  exact ⟨h hslot, Settlement.fair_of_reply hr⟩

theorem closeChannel_strokes (hR : ∀ slot, R slot) (h : s.Carries handed) :
    Strokes P R (handed, s) (handed, s.closeChannel) := by
  obtain ⟨hqueue, hservice⟩ := carries_iff.mp h
  have hclosed : Session.Carries handed { s with queue := [], closed := true } :=
    carries_iff.mpr ⟨fun _ hb => absurd hb (by simp), hservice⟩
  refine .head (beyond_stroke hclosed rfl rfl) (.single (settle_stroke hR ?_))
  intro x hx
  obtain ⟨b, hb, hx⟩ := List.mem_flatMap.mp hx
  exact due_dropped (hqueue b hb) x hx

/-- An event of the connection is written, settled and remembered. -/
theorem happen_strokes (hR : ∀ slot, R slot) (h : s.Carries handed) {c : Serving}
    {e : Serving.Event} (hstep : Serving.Within handed (c.step e)) :
    Strokes P R (handed, s) (handed, s.happen c e) := by
  unfold happen
  generalize c.step e = step at hstep ⊢
  dsimp only
  have hwrite : Session.Carries handed { s with wire := s.wire ++ step.written } := h
  have hsettled := hwrite.settle step.settled
  have hwritten : Strokes P R (handed, s)
      (handed, Session.settle { s with wire := s.wire ++ step.written } step.settled) :=
    .head (beyond_stroke hwrite rfl rfl) (.single (settle_stroke hR hstep.settled))
  generalize Session.settle { s with wire := s.wire ++ step.written } step.settled = t
    at hsettled hwritten ⊢
  obtain ⟨hqueue, -⟩ := carries_iff.mp hsettled
  refine hwritten.trans ?_
  split
  · next c' hnext =>
      exact .single (beyond_stroke (carries_iff.mpr ⟨hqueue, hstep.next c' hnext⟩) rfl rfl)
  · next ending hnext =>
      have hended : Session.Carries handed
          (Session.release { t with service := .ended, ended := some ending.message }) :=
        carries_iff.mpr ⟨hqueue, fun _ hslot => absurd hslot (by simp [Service.slots, release])⟩
      exact .head (beyond_stroke hended rfl rfl) (closeChannel_strokes hR hended)

/-- What is next for a supervisor is written, settled and remembered. -/
theorem supervise_strokes (hR : ∀ slot, R slot) (h : s.Carries handed) {step : Supervisor.Step}
    (hsettled : Serving.Due handed step.settled)
    (hnext : ∀ c, step.next.phase = .serving c →
      c.connection.pending.filterMap (·.slot) ⊆ handed) :
    Strokes P R (handed, s) (handed, s.supervise step) := by
  unfold supervise
  dsimp only
  have hwrite : Session.Carries handed { s with wire := s.wire ++ step.written } := h
  have hkeeps := hwrite.settle step.settled
  have hwritten : Strokes P R (handed, s)
      (handed, Session.settle { s with wire := s.wire ++ step.written } step.settled) :=
    .head (beyond_stroke hwrite rfl rfl) (.single (settle_stroke hR hsettled))
  generalize Session.settle { s with wire := s.wire ++ step.written } step.settled = t
    at hkeeps hwritten ⊢
  obtain ⟨hqueue, -⟩ := carries_iff.mp hkeeps
  have hidle : ∀ {p : Supervisor} {timer result}, (∀ c, p.phase ≠ .serving c) →
      (Service.supervised p timer result).slots ⊆ handed := by
    intro p timer result hphase slot hslot
    unfold Service.slots at hslot
    dsimp only at hslot
    split at hslot
    · next c hserving => exact absurd hserving (hphase c)
    · exact absurd hslot (by simp)
  refine hwritten.trans ?_
  split
  · next hphase =>
      refine .single (beyond_stroke (carries_iff.mpr ⟨hqueue, ?_⟩) rfl rfl)
      exact hidle (by simp [hphase])
  · next c hphase =>
      refine .single (beyond_stroke (carries_iff.mpr ⟨hqueue, ?_⟩) rfl rfl)
      show Service.slots (.supervised step.next _ _) ⊆ handed
      unfold Service.slots
      simp only [hphase]
      exact hnext c hphase
  · next delay hphase =>
      refine .single (beyond_stroke (carries_iff.mpr ⟨hqueue, ?_⟩) rfl rfl)
      exact hidle (by simp [hphase])
  · next hphase =>
      have hstopped : Session.Carries handed
          { t with
            service := .supervised step.next t.now .refused
            ended := some "stopped" } :=
        carries_iff.mpr ⟨hqueue, hidle (by simp [hphase])⟩
      exact .head (beyond_stroke hstopped rfl rfl) (closeChannel_strokes hR hstopped)

variable {c : Serving} {e : Serving.Event}

/-- What an event is made of comes from the channel or from the transport. -/
structure Event (handed : List Slot) (s : Session) (e : Serving.Event) (s' : Session) : Prop where
  carries : s'.Carries handed
  near : s'.near = s.near
  now : s'.now = s.now
  taken : ∀ b, e.taken = some b → b.slots ⊆ handed

theorem event_of_read (h : s.Carries handed) (hread : s.nextRead? = some (e, s')) :
    Event handed s e s' := by
  have htaken : e.taken = none := by
    rcases nextRead?_far hread with ⟨chunk, rest, -, rfl, -, -⟩ | ⟨rfl | ⟨fault, rfl⟩, -⟩ <;> rfl
  obtain ⟨⟨found, t⟩, -, hfound⟩ := Option.map_eq_some_iff.mp hread
  obtain ⟨rfl, rfl⟩ := Prod.mk.inj hfound
  exact ⟨h, rfl, rfl, fun b hb => absurd (htaken.symm.trans hb) (by simp)⟩

theorem event_of_take (h : s.Carries handed) (htake : s.nextTaken? c = some (e, s')) :
    Event handed s e s' := by
  obtain ⟨hqueue, hservice⟩ := carries_iff.mp h
  unfold nextTaken? at htake
  split at htake
  · split at htake
    · next batch queue hbatch =>
        obtain ⟨rfl, rfl⟩ := Prod.mk.inj (Option.some.inj htake)
        rw [hbatch] at hqueue
        obtain ⟨hfirst, hrest⟩ := List.forall_mem_cons.mp hqueue
        refine ⟨carries_iff.mpr ⟨hrest, hservice⟩, rfl, rfl, fun b hb => ?_⟩
        rw [← Option.some.inj hb]
        exact hfirst
    · split at htake
      · exact absurd htake (by simp)
      · obtain ⟨rfl, rfl⟩ := Prod.mk.inj (Option.some.inj htake)
        exact ⟨h, rfl, rfl, fun b hb => absurd hb (by simp [Serving.Event.taken])⟩
  · exact absurd htake (by simp)

theorem event_of_next (h : s.Carries handed) (hnext : s.nextEvent? c = some (e, s')) :
    Event handed s e s' := by
  unfold nextEvent? at hnext
  split at hnext
  · next found hread =>
      obtain rfl := Option.some.inj hnext
      exact event_of_read h hread
  · exact event_of_take h hnext

theorem Event.stroke (h : Event handed s e s') : Stroke P R (handed, s) (handed, s') :=
  beyond_stroke h.carries h.near h.now

theorem slots_connection (h : s.Carries handed) (hc : s.service = .connection c) :
    c.connection.pending.filterMap (·.slot) ⊆ handed := by
  have hservice := (carries_iff.mp h).2
  rw [hc] at hservice
  exact hservice

theorem slots_serving (h : s.Carries handed) {p : Supervisor} {timer : Nat}
    {result : AttemptResult} (hs : s.service = .supervised p timer result)
    (hc : p.phase = .serving c) : c.connection.pending.filterMap (·.slot) ⊆ handed := by
  have hservice := (carries_iff.mp h).2
  unfold Service.slots at hservice
  rw [hs] at hservice
  simpa only [hc] using hservice

theorem Event.happen (h : Event handed s e s') (hR : ∀ slot, R slot)
    (hc : c.connection.pending.filterMap (·.slot) ⊆ handed) :
    Strokes P R (handed, s) (handed, s'.happen c e) :=
  .head h.stroke (happen_strokes hR h.carries (Serving.within_step hc e h.taken))

/-- An event of a connection that a supervisor has. -/
theorem Event.supervise (h : Event handed s e s') (hR : ∀ slot, R slot) {p : Supervisor}
    (hphase : p.phase = .serving c) (hc : c.connection.pending.filterMap (·.slot) ⊆ handed) :
    Strokes P R (handed, s)
      (handed, match (p.step (.served e)).next.phase with
        | .serving _ => s'.supervise (p.step (.served e))
        | _ => s'.release.supervise (p.step (.served e))) := by
  have hwithin := Serving.within_step hc e h.taken
  have hstep : p.step (.served e) =
      { next := { p with phase := Supervisor.afterServing p.backoff (c.step e).next }
        written := (c.step e).written
        settled := (c.step e).settled } := by
    unfold Supervisor.step
    rw [hphase]
  have hnext : ∀ c', (p.step (.served e)).next.phase = .serving c' →
      c'.connection.pending.filterMap (·.slot) ⊆ handed := by
    intro c' hc'
    rw [hstep] at hc'
    cases hgoes : (c.step e).next with
    | inl own =>
        rw [hgoes] at hc'
        obtain rfl := Supervisor.Phase.serving.inj hc'
        exact hwithin.next own hgoes
    | inr ending =>
        rw [hgoes] at hc'
        cases ending <;> exact absurd hc' (by simp [Supervisor.afterServing])
  have hsettled : Serving.Due handed (p.step (.served e)).settled := by
    rw [hstep]
    exact hwithin.settled
  refine .head h.stroke ?_
  have hcarries := h.carries
  split
  · exact supervise_strokes hR hcarries hsettled hnext
  · have hrelease : s'.release.Carries handed := hcarries
    exact .head (beyond_stroke hrelease rfl rfl) (supervise_strokes hR hrelease hsettled hnext)

theorem decide_strokes (hR : ∀ slot, R slot) (h : s.Carries handed) (p : Supervisor)
    (result : AttemptResult) (hphase : p.phase = .connecting) :
    Strokes P R (handed, s) (handed, s.decide p result) := by
  have hconnected : p.step .connected =
      { next := { backoff := p.backoff.reset, phase := .serving {} } } := by
    unfold Supervisor.step
    rw [hphase]
  have hnew : ∀ t : Session, t.Carries handed →
      Strokes P R (handed, t) (handed, t.supervise (p.step .connected)) := by
    intro t ht
    rw [hconnected]
    refine supervise_strokes hR ht Serving.due_nil fun c hc => ?_
    rw [← Supervisor.Phase.serving.inj hc]
    simp
  unfold decide
  cases result with
  | refused =>
      refine supervise_strokes hR h ?_ fun c hc => ?_
      · unfold Supervisor.step
        rw [hphase]
        exact Serving.due_nil
      · unfold Supervisor.step at hc
        rw [hphase] at hc
        exact absurd hc (by simp)
  | connected =>
      have ht : Session.Carries handed { s with transport := some {} } := h
      exact .head (beyond_stroke ht rfl rfl) (hnew _ ht)
  | dead =>
      have ht : Session.Carries handed { s with transport := some { hungUp := true } } := h
      exact .head (beyond_stroke ht rfl rfl) (hnew _ ht)

/-- A supervisor that waits fails what comes. -/
theorem arrived_strokes (hR : ∀ slot, R slot) (h : s.Carries handed) {p : Supervisor}
    {delay : Duration} (hphase : p.phase = .waiting delay) {batch : Submission}
    {queue : List Submission} (hqueue : s.queue = batch :: queue) (timer : Nat)
    (result : AttemptResult) :
    Strokes P R (handed, s)
      (handed, { Session.settle { s with queue } (p.step (.arrived batch)).settled with
        service := .supervised { p with phase := .waiting delay } timer result }) := by
  obtain ⟨hbatches, hservice⟩ := carries_iff.mp h
  rw [hqueue] at hbatches
  obtain ⟨hbatch, hrest⟩ := List.forall_mem_cons.mp hbatches
  have htaken : Session.Carries handed { s with queue } := carries_iff.mpr ⟨hrest, hservice⟩
  have hsettled : (p.step (.arrived batch)).settled = batch.fail .socketClosed := by
    unfold Supervisor.step
    rw [hphase]
  rw [hsettled]
  refine .head (beyond_stroke htaken rfl rfl) (.head (settle_stroke hR
    (due_replied hbatch Reply.Told.socketClosed.fair)) (.single (beyond_stroke ?_ rfl rfl)))
  obtain ⟨hqueued, -⟩ := carries_iff.mp (htaken.settle (batch.fail .socketClosed))
  exact carries_iff.mpr ⟨hqueued, fun _ hslot => absurd hslot (by simp [Service.slots])⟩

/-- A supervisor goes from one phase to another in which it has no connection. -/
theorem rephase_strokes (hR : ∀ slot, R slot) (h : s.Carries handed) {p : Supervisor}
    {delay : Duration} (hphase : p.phase = .waiting delay) {e : Supervisor.Event}
    (he : e = .retryDue ∨ e = .channelClosed) :
    Strokes P R (handed, s) (handed, s.supervise (p.step e)) := by
  apply supervise_strokes hR h
  · unfold Supervisor.step
    rcases he with rfl | rfl <;> rw [hphase] <;> exact Serving.due_nil
  · intro c hc
    unfold Supervisor.step at hc
    rcases he with rfl | rfl <;> rw [hphase] at hc <;> exact absurd hc (by simp)

/-- What whoever serves the channel does. -/
theorem serve_strokes (hR : ∀ slot, R slot) (h : s.Carries handed) (hserve : s.serve? = some s') :
    Strokes P R (handed, s) (handed, s') := by
  unfold serve? at hserve
  split at hserve
  · exact absurd hserve (by simp)
  · exact absurd hserve (by simp)
  · next c hservice =>
      obtain ⟨⟨e, s₁⟩, hnext, rfl⟩ := Option.map_eq_some_iff.mp hserve
      exact (event_of_next h hnext).happen hR (slots_connection h hservice)
  · next p timer result hservice =>
      split at hserve
      · next hphase =>
          split at hserve
          · obtain rfl := Option.some.inj hserve
            exact decide_strokes hR h p result hphase
          · exact absurd hserve (by simp)
      · next c hphase =>
          obtain ⟨⟨e, s₁⟩, hnext, rfl⟩ := Option.map_eq_some_iff.mp hserve
          exact (event_of_next h hnext).supervise hR hphase (slots_serving h hservice hphase)
      · next delay hphase =>
          split at hserve
          · next batch queue hqueue =>
              obtain rfl := Option.some.inj hserve
              exact arrived_strokes hR h hphase hqueue timer result
          · split at hserve
            · obtain rfl := Option.some.inj hserve
              exact rephase_strokes hR h hphase (.inr rfl)
            · split at hserve
              · obtain rfl := Option.some.inj hserve
                exact rephase_strokes hR h hphase (.inl rfl)
              · exact absurd hserve (by simp)
      · exact absurd hserve (by simp)

/-- **What happens by itself is made of strokes**, and concerns no transaction but those whose
execution ends. -/
theorem next_strokes (hR : ∀ slot, R slot) (h : s.Carries handed) (hnext : s.next? = some s') :
    Strokes P R (handed, s) (handed, s') := by
  unfold next? at hnext
  split at hnext
  · next s₁ hserve =>
      obtain rfl := Option.some.inj hnext
      exact serve_strokes hR h hserve
  · split at hnext
    · obtain rfl := Option.some.inj hnext
      exact .single .expire
    · exact absurd hnext (by simp)

/-! ## §3  Time -/

theorem settle_now (s : Session) (xs : List Settlement) : (s.settle xs).now = s.now :=
  congrArg (fun t => t.now) (settle_aside s xs)

theorem happen_now (s : Session) (c : Serving) (e : Serving.Event) :
    (s.happen c e).now = s.now := by
  unfold happen
  dsimp only
  split
  · exact settle_now ..
  · exact (settle_now ..).trans (settle_now ..)

theorem supervise_now (s : Session) (step : Supervisor.Step) : (s.supervise step).now = s.now := by
  unfold supervise
  dsimp only
  split
  · exact settle_now ..
  · exact settle_now ..
  · exact settle_now ..
  · exact (settle_now ..).trans (settle_now ..)

theorem decide_now (s : Session) (p : Supervisor) (result : AttemptResult) :
    (s.decide p result).now = s.now := by
  cases result <;> exact supervise_now ..

theorem nextEvent?_now {c : Serving} {e : Serving.Event} (h : s.nextEvent? c = some (e, s')) :
    s'.now = s.now := by
  unfold nextEvent? at h
  split at h
  · next found hread =>
      obtain rfl := Option.some.inj h
      obtain ⟨x, -, hx⟩ := Option.map_eq_some_iff.mp hread
      rw [← (Prod.mk.inj hx).2]
  · unfold nextTaken? at h
    split at h
    · split at h
      · rw [← (Prod.mk.inj (Option.some.inj h)).2]
      · split at h
        · exact absurd h (by simp)
        · rw [← (Prod.mk.inj (Option.some.inj h)).2]
    · exact absurd h (by simp)

theorem serve?_now (h : s.serve? = some s') : s'.now = s.now := by
  unfold serve? at h
  split at h
  · exact absurd h (by simp)
  · exact absurd h (by simp)
  · obtain ⟨⟨e, s₁⟩, hnext, rfl⟩ := Option.map_eq_some_iff.mp h
    exact (happen_now ..).trans (nextEvent?_now hnext)
  · split at h
    · split at h
      · rw [← Option.some.inj h]
        exact decide_now ..
      · exact absurd h (by simp)
    · obtain ⟨⟨e, s₁⟩, hnext, rfl⟩ := Option.map_eq_some_iff.mp h
      rw [← nextEvent?_now hnext]
      dsimp only
      split <;> exact supervise_now ..
    · split at h
      · rw [← Option.some.inj h]
        exact settle_now ..
      · split at h
        · rw [← Option.some.inj h]
          exact supervise_now ..
        · split at h
          · rw [← Option.some.inj h]
            exact supervise_now ..
          · exact absurd h (by simp)
    · exact absurd h (by simp)

/-- What happens next happens now. -/
theorem next?_now (h : s.next? = some s') : s'.now = s.now := by
  unfold next? at h
  split at h
  · next hserve =>
      rw [← Option.some.inj h]
      exact serve?_now hserve
  · split at h
    · rw [← Option.some.inj h]
      exact congrArg (fun t => t.now) (expire_aside s)
    · exact absurd h (by simp)

/-- What holds at any later time, and after whatever happens next, holds when time has passed. -/
theorem pass_later {Q : Session → Prop} (time : ∀ s now, s.now ≤ now → Q s → Q { s with now })
    (next : ∀ s s', Q s → s.next? = some s' → Q s') (h : Q s) (millis : Nat) :
    Q (s.pass millis) := by
  have hrest : ∀ n s, Q s → Q (restFor n s) ∧ (restFor n s).now = s.now := by
    intro n
    induction n with
    | zero => exact fun s hs => ⟨hs, rfl⟩
    | succ n ih =>
        intro s hs
        rw [restFor]
        split
        · next s' hnext =>
            obtain ⟨hkeeps, hnow⟩ := ih s' (next s s' hs hnext)
            exact ⟨hkeeps, hnow.trans (next?_now hnext)⟩
        · exact ⟨hs, rfl⟩
  unfold pass
  have hle : s.now ≤ s.now + millis := Nat.le_add_right ..
  generalize s.now + millis = target at hle
  generalize hnow : s.now = now at hle
  fun_induction passFrom now target s with
  | case1 now s hdue => exact (hrest _ _ (time s target (hnow ▸ hle) h)).1
  | case2 now s due hdue hlater ih =>
      obtain ⟨hkeeps, hrests⟩ := hrest _ _ (time s due (hnow ▸ Nat.le_of_lt hlater.1) h)
      exact ih hkeeps hrests hlater.2
  | case3 now s due hdue hlater => exact (hrest _ _ (time s target (hnow ▸ hle) h)).1

theorem pass_strokes (hR : ∀ slot, R slot) (h : Owned handed s) (millis : Nat) :
    Strokes P R (handed, s) (handed, s.pass millis) := by
  refine (pass_later (Q := fun t => Strokes P R (handed, s) (handed, t)) ?_ ?_ .refl millis)
  · intro t now hnow hstrokes
    have howned : Owned handed t := h.strokes hstrokes
    exact hstrokes.tail (.beyond ⟨rfl, rfl, rfl⟩ (Nat.le_refl _) ⟨hnow, rfl⟩
      (List.Subset.refl _) (fun _ => .inl) howned.carried)
  · intro t t' hstrokes hnext
    have howned : Owned handed t := h.strokes hstrokes
    exact hstrokes.trans (next_strokes hR howned.carried hnext)

end Session

end RespClient
