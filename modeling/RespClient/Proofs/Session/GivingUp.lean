import RespClient.Proofs.Connection.Listeners
import RespClient.Proofs.Session.Outcomes

/-!
# Callers who give up

Callers give up when their time is over, and can be made to at any moment. Their commands stay where
they are: a late reply is read for the command that asked for it, and no other gets it. In a session
that means that the connection does not see what callers do. Its life is decided by what happens to
it, which is what it reads and what it takes from the channel (`Session.events`), and the session
shows that life and nothing else (`Lives.shows`): the commands that wait, the state of the reader,
the bytes written, the end, and how each slot ended that was handed over.

So two sessions in which the same happens to the connection differ in nothing but in who gave up
(`giving_up_disturbs_nobody`), however many callers did so and whenever.
-/

namespace RespClient

/-! ## §1  What happens to the connection -/

deriving instance DecidableEq for Serving.Event

/-- The slots that were handed to a connection. -/
def Serving.slots (events : List Serving.Event) : List Slot :=
  (taken events).flatMap Submission.slots

namespace Session

/-- What happens to the connection next by itself. -/
def upcoming (s : Session) : List Serving.Event :=
  match s.service with
  | .connection c => ((s.nextEvent? c).map Prod.fst).toList
  | _ => []

/-- What happens to it while the session runs on at one moment, for so many things at most. -/
def upcomingFor : Nat → Session → List Serving.Event
  | 0, _ => []
  | n + 1, s =>
    match s.next? with
    | some s' => s.upcoming ++ upcomingFor n s'
    | none => []

def upcomingAt (s : Session) (now : Nat) : List Serving.Event :=
  upcomingFor (atMost { s with now }) { s with now }

/-- What happens to it while time passes. -/
def upcomingFrom (now target : Nat) (s : Session) : List Serving.Event :=
  match s.nextDue? now target with
  | none => s.upcomingAt target
  | some due =>
    if _h : now < due ∧ due ≤ target then
      s.upcomingAt due ++ upcomingFrom due target { s with now := due }.rest
    else s.upcomingAt target
  termination_by target - now

/-- What happens to the connection in a move. -/
def befalling (s : Session) : Move → List Serving.Event
  | .act (.pass millis) => s.upcomingFrom s.now (s.now + millis)
  | .read =>
    match s.service with
    | .connection _ => (s.nextRead?.map Prod.fst).toList
    | _ => []
  | .take =>
    match s.service with
    | .connection c => ((s.nextTaken? c).map Prod.fst).toList
    | _ => []
  | _ => []

/-- What happens to the connection in the course of a run. -/
def events (s : Session) : List Move → List Serving.Event
  | [] => []
  | m :: rest => s.befalling m ++ (s.move m).events rest

/-! ## §2  What a session shows of it -/

/-- The connection serves the channel, or has ended. -/
def Has (s : Session) : Serving ⊕ Ending → Prop
  | .inl c => s.service = .connection c ∧ s.ended = none
  | .inr ending => s.service = .ended ∧ s.ended = some ending.message

/-- A caller has heard how his slot ended, unless his time was over before. -/
inductive Knows (now : Nat) (w : Wait) (outcome : Option Outcome) : Prop
  | heard (h : w.result = outcome.map fun o => w.task.reply (.ofOutcome o))
  | gaveUp {deadline : Nat} (due : w.task.deadline? = some deadline) (late : deadline ≤ now)
      (h : w.result = some (w.task.reply .timedOut))

/-- The session shows the life of a connection. -/
structure Shows (events : List Serving.Event) (s : Session) : Prop where
  has : s.Has (Serving.life events).now
  wire : s.wire = (Serving.life events).written
  outcome : ∀ slot ∈ Serving.slots events,
    Settlement.find? s.settled slot = Settlement.find? (Serving.life events).ledger.settled slot
  knows : ∀ w ∈ s.waits, ∀ slot ∈ Serving.slots events, w.task.slot? = some slot →
    Knows s.now w (Settlement.find? (Serving.life events).ledger.settled slot)

/-- What is kept in a session of the life of its connection, if `handed` are the slots that were
handed over. -/
structure Lives (events : List Serving.Event) (handed : List Slot) (s : Session) : Prop where
  owned : Owned handed s
  has : s.Has (Serving.life events).now
  wire : s.wire = (Serving.life events).written
  handed : Serving.slots events ⊆ handed
  pending : ∀ c, (Serving.life events).now = .inl c →
    c.connection.pending.filterMap (·.slot) ⊆ Serving.slots events
  settles : ∀ x ∈ (Serving.life events).ledger.settled, x.slot ∈ Serving.slots events
  ends : ∀ slot ∈ Serving.slots events,
    s.ends slot = (Serving.life events).ledger.settled.filter (·.slot = slot)
  /-- What is in the channel has slots of its own, which have not ended. -/
  queue : ∀ b ∈ s.queue, ∀ slot ∈ b.slots, slot ∉ Serving.slots events ∧ s.ends slot = []
  apart : s.queue.Pairwise fun b b' => ∀ slot ∈ b.slots, slot ∉ b'.slots

variable {events : List Serving.Event} {handed : List Slot} {s s' : Session} {slot : Slot}
  {c : Serving} {e : Serving.Event}

theorem find?_of_ends {xs ys : List Settlement}
    (h : xs.filter (·.slot = slot) = ys.filter (·.slot = slot)) :
    Settlement.find? xs slot = Settlement.find? ys slot := by
  unfold Settlement.find?
  rw [← List.head?_filter, ← List.head?_filter, h]

/-- **A session shows the life of its connection.** -/
theorem Lives.shows (h : Lives events handed s) : Shows events s := by
  have houtcome : ∀ slot ∈ Serving.slots events, Settlement.find? s.settled slot =
      Settlement.find? (Serving.life events).ledger.settled slot := fun slot hslot =>
    find?_of_ends (h.ends slot hslot)
  refine ⟨h.has, h.wire, houtcome, fun w hw slot hslot htask => ?_⟩
  rw [← houtcome slot hslot]
  rcases h.owned.hears w hw slot htask with hheard | ⟨deadline, hdue, hlate, hresult⟩
  · exact .heard hheard
  · exact .gaveUp hdue hlate hresult

theorem slots_snoc (events : List Serving.Event) (e : Serving.Event) :
    Serving.slots (events ++ [e]) =
      Serving.slots events ++ e.taken.toList.flatMap Submission.slots := by
  unfold Serving.slots
  rw [Serving.taken_snoc, List.flatMap_append]

/-! ## §3  What callers do -/

theorem Has.of_same {now : Serving ⊕ Ending} (h : s.Has now) (hservice : s'.service = s.service)
    (hended : s'.ended = s.ended) : s'.Has now := by
  cases now with
  | inl c => exact ⟨hservice.trans h.1, hended.trans h.2⟩
  | inr ending => exact ⟨hservice.trans h.1, hended.trans h.2⟩

theorem Has.direct {now : Serving ⊕ Ending} (h : s.Has now) : s.Direct := by
  cases now with
  | inl c => exact .inr ⟨c, h.1⟩
  | inr ending => exact .inl h.1

theorem ended_of_aside (h : s'.aside = s.aside) : s'.ended = s.ended := by
  have hended : s'.aside.ended = s.aside.ended := congrArg Session.ended h
  exact hended

theorem quiet_ended (s : Session) : Quiet fun t => t.ended = s.ended :=
  ⟨fun _ _ h => h, fun _ _ h => h⟩

theorem settle_ended (s : Session) (xs : List Settlement) : (s.settle xs).ended = s.ended :=
  (quiet_ended s).settle rfl xs

theorem execAtOnce_ended (s : Session) (name id : String) (callers : List Slot) (outer : Reply) :
    (s.execAtOnce name id callers outer).ended = s.ended :=
  (quiet_ended (s.wait id .done (some outer))).afterExec rfl ..

theorem dispatch_ended (s : Session) (id : String) (c : Command) :
    (s.dispatch id c).ended = s.ended := by
  unfold dispatch
  dsimp only
  split <;> rfl

theorem exec_ended (s : Session) (name id : String) (t : Transaction) :
    (s.exec name id t).ended = s.ended := by
  cases hsub : t.submission s.freshSlot.1 with
  | error e =>
      have hexec : s.exec name id t = s.wait id .done (some Transaction.emptyReply) :=
        if_pos (isEmpty_of_submission_error hsub)
      rw [hexec]
      rfl
  | ok batch =>
      rw [exec_of_ok hsub]
      dsimp only
      split
      · exact (execAtOnce_ended ..).trans (settle_ended ..)
      · split
        · exact execAtOnce_ended ..
        · rfl

theorem submit_ended (s : Session) (commands : List (Option String × String × List String))
    (exec : Option String) : (s.submit commands exec).2.ended = s.ended := by
  unfold submit
  dsimp only
  split
  · exact settle_ended ..
  · split
    · exact settle_ended ..
    · split
      · exact settle_ended ..
      · rfl

/-- Nothing that callers do ends the connection. -/
theorem act_ended (hs : s.Direct) {a : Action} (hpass : ∀ millis, a ≠ .pass millis) :
    (s.act a).2.ended = s.ended := by
  cases a with
  | dispatch id name args =>
      simp only [act]
      split
      · rfl
      · split
        · exact dispatch_ended ..
        · rfl
  | call id transaction call =>
      cases transaction with
      | none =>
          simp only [act]
          split
          · rfl
          · split
            · rfl
            · exact dispatch_ended ..
      | some name =>
          simp only [act]
          split <;> rfl
  | multi name =>
      simp only [act]
      split
      · exact (quiet_ended s).putTransaction rfl ..
      · rfl
  | queue name id command args =>
      simp only [act]
      split <;> rfl
  | discard name =>
      simp only [act]
      split
      · rfl
      · exact (quiet_ended s).putTransaction rfl ..
  | exec name id =>
      simp only [act]
      split
      · rfl
      · exact exec_ended ..
  | dropTransaction name => exact (quiet_ended s).loseTransaction rfl ..
  | submit commands exec => exact submit_ended ..
  | forget id => exact settle_ended ..
  | reply bytes =>
      simp only [act]
      split
      · rfl
      · split <;> rfl
  | breakPart part =>
      simp only [act]
      split <;> rfl
  | pass millis => exact absurd rfl (hpass millis)
  | closeReceiver => rcases hs with hs | ⟨c, hs⟩ <;> simp [act, hs]
  | receive => rcases hs with hs | ⟨c, hs⟩ <;> simp [act, hs]
  | _ => rfl

/-- **The connection does not see what callers do**: they hand over what it has not taken yet. -/
theorem Lives.act (h : Lives events handed s) {a : Action} (hpass : ∀ millis, a ≠ .pass millis) :
    ∃ handed', Lives events handed' (s.act a).2 := by
  have hs := h.has.direct
  have hfar := act_far hs hpass
  have hqueue : (s.act a).2.queue = s.queue ++ (s.handOver? a).toList := congrArg Far.queue hfar
  obtain ⟨handed', haloof⟩ := h.owned.act_aloof hs hpass
  have hold : ∀ b ∈ s.queue, b.slots ⊆ handed := (carries_iff.mp h.owned.carried).1
  have hhanded : Serving.slots events ⊆ handed' := List.Subset.trans h.handed haloof.grows
  refine ⟨handed', haloof.owned, ?_, ?_, hhanded, h.pending, h.settles, ?_, ?_, ?_⟩
  · exact h.has.of_same (congrArg Far.service hfar) (act_ended hs hpass)
  · exact (congrArg Far.wire hfar).trans h.wire
  · exact fun slot hslot => (haloof.kept slot (h.handed hslot)).trans (h.ends slot hslot)
  · rw [hqueue]
    intro b hb slot hslot
    rcases List.mem_append.mp hb with hb | hb
    · obtain ⟨hnot, hends⟩ := h.queue b hb slot hslot
      exact ⟨hnot, (haloof.kept slot (hold b hb hslot)).trans hends⟩
    · obtain ⟨-, hnew, hends⟩ := haloof.offered b (Option.mem_toList.mp hb) slot hslot
      exact ⟨fun hmem => hnew (h.handed hmem), hends⟩
  · rw [hqueue, List.pairwise_append]
    refine ⟨h.apart, ?_, fun b hb b' hb' slot hslot hmem => ?_⟩
    · cases s.handOver? a <;> simp
    · obtain ⟨-, hnew, -⟩ := haloof.offered b' (Option.mem_toList.mp hb') slot hmem
      exact hnew (hold b hb hslot)

/-- Nor does it see that their time is over. -/
theorem Lives.expire (h : Lives events handed s) : Lives events handed s.expire := by
  have hfar := far_of_aside (expire_aside s)
  have hqueue : s.expire.queue = s.queue := congrArg Far.queue hfar
  have hold : ∀ b ∈ s.queue, b.slots ⊆ handed := (carries_iff.mp h.owned.carried).1
  refine ⟨h.owned.expire, ?_, (congrArg Far.wire hfar).trans h.wire, h.handed, h.pending, h.settles,
    ?_, ?_, ?_⟩
  · exact h.has.of_same (congrArg Far.service hfar) (ended_of_aside (expire_aside s))
  · exact fun slot hslot =>
      (h.owned.expire_ends (h.handed hslot)).trans (h.ends slot hslot)
  · rw [hqueue]
    intro b hb slot hslot
    obtain ⟨hnot, hends⟩ := h.queue b hb slot hslot
    exact ⟨hnot, (h.owned.expire_ends (hold b hb hslot)).trans hends⟩
  · rw [hqueue]
    exact h.apart

theorem Lives.time (h : Lives events handed s) {now : Nat} (hnow : s.now ≤ now) :
    Lives events handed { s with now } := by
  have howned : Owned handed { s with now } :=
    h.owned.beyond ⟨rfl, rfl, rfl⟩ (Nat.le_refl _) hnow (List.Subset.refl _) (fun _ => .inl)
      h.owned.carried
  have hhas : Session.Has { s with now } (Serving.life events).now := h.has.of_same rfl rfl
  exact ⟨howned, hhas, h.wire, h.handed, h.pending, h.settles, h.ends, h.queue, h.apart⟩

/-! ## §4  What happens to the connection -/

/-- What happens to a connection comes out of the channel or through the transport. -/
structure Comes (s : Session) (e : Serving.Event) (s' : Session) : Prop where
  near : s'.near = s.near
  wire : s'.wire = s.wire
  ended : s'.ended = s.ended
  queue : s.queue = e.taken.toList ++ s'.queue

theorem comes_of_read (h : s.nextRead? = some (e, s')) : Comes s e s' := by
  have htaken : e.taken = none := by
    rcases nextRead?_far h with ⟨chunk, rest, -, rfl, -, -⟩ | ⟨rfl | ⟨fault, rfl⟩, -⟩ <;> rfl
  obtain ⟨⟨found, t⟩, -, hfound⟩ := Option.map_eq_some_iff.mp h
  obtain ⟨rfl, rfl⟩ := Prod.mk.inj hfound
  refine ⟨rfl, rfl, rfl, ?_⟩
  rw [htaken]
  rfl

theorem comes_of_take (h : s.nextTaken? c = some (e, s')) : Comes s e s' := by
  unfold nextTaken? at h
  split at h
  · split at h
    · next batch queue hbatch =>
        obtain ⟨rfl, rfl⟩ := Prod.mk.inj (Option.some.inj h)
        exact ⟨rfl, rfl, rfl, hbatch⟩
    · split at h
      · exact absurd h (by simp)
      · obtain ⟨rfl, rfl⟩ := Prod.mk.inj (Option.some.inj h)
        exact ⟨rfl, rfl, rfl, rfl⟩
  · exact absurd h (by simp)

/-- What a step of the connection settles is settled in the session. Where the connection ends, the
slots of what is left in the channel are settled besides. -/
theorem Calm.happen_ends (h : Calm handed s) (hslot : slot ∈ handed)
    (hstep : Serving.Within handed (c.step e))
    (hqueue : ∀ ending, (c.step e).next = .inr ending → ∀ b ∈ s.queue, slot ∉ b.slots) :
    (s.happen c e).ends slot = s.ends slot ++ (c.step e).settled.filter (·.slot = slot) := by
  obtain ⟨hchannel, -⟩ := carries_iff.mp h.carried
  unfold happen
  generalize c.step e = step at hstep hqueue ⊢
  dsimp only
  have hbelow : ∀ x ∈ step.settled, x.slot.id < s.receivers.next ∧ x.Fair := fun x hx =>
    ⟨h.opened _ (hstep.settled x hx).1, (hstep.settled x hx).2⟩
  have hwrite : Calm handed { s with wire := s.wire ++ step.written } :=
    h.beyond ⟨rfl, rfl, rfl⟩ (Nat.le_refl _) (Nat.le_refl _) (List.Subset.refl _) (fun _ => .inl)
      h.carried
  have hcalm := hwrite.settle hbelow
  have hends := hwrite.settle_ends hslot hbelow
  have hsame : (Session.settle { s with wire := s.wire ++ step.written } step.settled).queue =
      s.queue := congrArg Far.queue (far_of_aside (settle_aside ..))
  generalize Session.settle { s with wire := s.wire ++ step.written } step.settled = t
    at hcalm hends hsame ⊢
  split
  · exact hends
  · next ending hnext =>
      have hclosed : Calm handed (Session.release
          { t with
            service := .ended, ended := some ending.message, queue := [], closed := true }) :=
        hcalm.beyond ⟨rfl, rfl, rfl⟩ (Nat.le_refl _) (Nat.le_refl _) (List.Subset.refl _)
          (fun _ => .inl) fun slot hslot =>
            absurd hslot (by simp [Session.carried, Service.slots, release])
      -- What is left in the channel is discarded, and the slot is none of it.
      have hothers : ∀ x ∈ t.queue.flatMap Submission.discard, x.slot ≠ slot := by
        rintro x hx rfl
        obtain ⟨b, hb, hx⟩ := List.mem_flatMap.mp hx
        obtain ⟨own, hown, rfl⟩ := List.mem_map.mp hx
        exact hqueue ending hnext b (hsame ▸ hb) hown
      have hdiscards : ∀ x ∈ t.queue.flatMap Submission.discard,
          x.slot.id < t.receivers.next ∧ x.Fair := by
        intro x hx
        obtain ⟨b, hb, hx⟩ := List.mem_flatMap.mp hx
        obtain ⟨own, hown, rfl⟩ := List.mem_map.mp hx
        exact ⟨hcalm.opened own (hchannel b (hsame ▸ hb) hown), Settlement.fair_of_dropped⟩
      refine (hclosed.settle_ends hslot hdiscards).trans ?_
      rw [filter_of_others hothers, List.append_nil]
      exact hends

theorem happen_has (s : Session) (c : Serving) (e : Serving.Event) (hended : s.ended = none) :
    (s.happen c e).Has (c.step e).next := by
  unfold happen
  generalize c.step e = step
  dsimp only
  have hsettled : (Session.settle { s with wire := s.wire ++ step.written } step.settled).ended =
      none := (settle_ended ..).trans hended
  generalize Session.settle { s with wire := s.wire ++ step.written } step.settled = t at hsettled ⊢
  cases hnext : step.next with
  | inl c' => exact ⟨rfl, hsettled⟩
  | inr ending =>
      exact ⟨congrArg Far.service (far_of_aside (settle_aside ..)), settle_ended ..⟩

theorem happen_wire (s : Session) (c : Serving) (e : Serving.Event) :
    (s.happen c e).wire = s.wire ++ (c.step e).written := by
  have hwire : (s.happen c e).wire = (s.happen c e).far.wire := rfl
  rw [hwire, happen_far]
  cases (c.step e).next <;> rfl

theorem happen_queue (s : Session) (c : Serving) (e : Serving.Event) :
    (s.happen c e).queue = match (c.step e).next with
      | .inl _ => s.queue
      | .inr _ => [] := by
  have hqueue : (s.happen c e).queue = (s.happen c e).far.queue := rfl
  rw [hqueue, happen_far]
  cases (c.step e).next <;> rfl

theorem slots_subset_snoc (events : List Serving.Event) (e : Serving.Event) :
    Serving.slots events ⊆ Serving.slots (events ++ [e]) := by
  rw [slots_snoc]
  exact List.subset_append_left _ _

theorem Lives.alive (h : Lives events handed s) (hc : s.service = .connection c) :
    (Serving.life events).now = .inl c ∧ s.ended = none := by
  have hhas := h.has
  cases hnow : (Serving.life events).now with
  | inl own =>
      rw [hnow] at hhas
      exact ⟨congrArg Sum.inl (Service.connection.inj (hhas.1.symm.trans hc)), hhas.2⟩
  | inr ending =>
      rw [hnow] at hhas
      exact absurd (hc.symm.trans hhas.1) (by simp)

/-- The connection settles and keeps the slots of what was handed to it. -/
theorem Lives.within (h : Lives events handed s) (hlive : (Serving.life events).now = .inl c)
    (e : Serving.Event) : Serving.Within (Serving.slots (events ++ [e])) (c.step e) := by
  have hpending := List.Subset.trans (h.pending c hlive) (slots_subset_snoc events e)
  refine Serving.within_step hpending e ?_
  intro b hb
  rw [slots_snoc, hb]
  simp

theorem Lives.handed_snoc (h : Lives events handed s) (hevent : Event handed s e s') :
    Serving.slots (events ++ [e]) ⊆ handed := by
  rw [slots_snoc]
  refine List.append_subset.mpr ⟨h.handed, ?_⟩
  cases hb : e.taken with
  | none => simp
  | some b => simpa using hevent.taken b hb

theorem Comes.ends (h : Comes s e s') (slot : Slot) : s'.ends slot = s.ends slot := by
  have hsettled : s'.settled = s.settled := congrArg Near.settled h.near
  exact congrArg (List.filter (·.slot = slot)) hsettled

/-- How the slots had ended before an event that were handed over with it or before. -/
theorem Lives.ends_before (h : Lives events handed s) (hcomes : Comes s e s')
    (hslot : slot ∈ Serving.slots (events ++ [e])) :
    s.ends slot = (Serving.life events).ledger.settled.filter (·.slot = slot) := by
  by_cases hbefore : slot ∈ Serving.slots events
  · exact h.ends slot hbefore
  · have hunsettled : ∀ x ∈ (Serving.life events).ledger.settled, x.slot ≠ slot := by
      rintro x hx rfl
      exact hbefore (h.settles x hx)
    rw [filter_of_others hunsettled]
    rw [slots_snoc] at hslot
    obtain ⟨b, hb, hmem⟩ := List.mem_flatMap.mp ((List.mem_append.mp hslot).resolve_left hbefore)
    refine (h.queue b ?_ slot hmem).2
    rw [hcomes.queue]
    exact List.mem_append_left _ hb

/-- What is left in the channel has other slots than what was taken. -/
theorem Lives.left (h : Lives events handed s) (hcomes : Comes s e s') :
    ∀ b ∈ s'.queue, ∀ slot ∈ b.slots,
      slot ∉ Serving.slots (events ++ [e]) ∧ s.ends slot = [] := by
  intro b hb slot hslot
  have hmem : b ∈ s.queue := by
    rw [hcomes.queue]
    exact List.mem_append_right _ hb
  obtain ⟨hnot, hnone⟩ := h.queue b hmem slot hslot
  refine ⟨fun hin => ?_, hnone⟩
  rw [slots_snoc] at hin
  rcases List.mem_append.mp hin with hin | hin
  · exact hnot hin
  · obtain ⟨b', hb', hin⟩ := List.mem_flatMap.mp hin
    have hapart := h.apart
    rw [hcomes.queue, List.pairwise_append] at hapart
    exact hapart.2.2 b' hb' b hb slot hin hslot

theorem Lives.apart_left (h : Lives events handed s) (hcomes : Comes s e s') :
    s'.queue.Pairwise fun b b' => ∀ slot ∈ b.slots, slot ∉ b'.slots := by
  have hapart := h.apart
  rw [hcomes.queue, List.pairwise_append] at hapart
  exact hapart.2.1

/-- **What happens to the connection is what the session shows.** -/
theorem Lives.happen (h : Lives events handed s) (hc : s.service = .connection c)
    (hevent : Event handed s e s') (hcomes : Comes s e s') :
    Lives (events ++ [e]) handed (s'.happen c e) := by
  obtain ⟨hlive, hended⟩ := h.alive hc
  have hhanded := h.handed_snoc hevent
  have hwithin := h.within hlive e
  have hsteps : Serving.Within handed (c.step e) := hwithin.mono hhanded
  have hleft := h.left hcomes
  have howned : Owned handed s' := h.owned.stroke (P := fun _ => True) (R := fun _ => True)
    hevent.stroke
  have hlife := Serving.life_snoc_of_now hlive e
  have hledger : (Serving.life (events ++ [e])).ledger.settled =
      (Serving.life events).ledger.settled ++ (c.step e).settled :=
    congrArg (fun l : Serving.Life => l.ledger.settled) hlife
  refine ⟨?_, ?_, ?_, hhanded, ?_, ?_, fun slot hslot => ?_, ?_, ?_⟩
  · exact h.owned.strokes (P := fun _ => True) (R := fun _ => True)
      (hevent.happen (fun _ => trivial) (List.Subset.trans (h.pending c hlive) h.handed))
  · rw [hlife]
    exact happen_has s' c e (hcomes.ended.trans hended)
  · rw [hlife, happen_wire, hcomes.wire, h.wire]
  · rw [hlife]
    exact hwithin.next
  · rw [hledger]
    intro x hx
    rcases List.mem_append.mp hx with hx | hx
    · exact slots_subset_snoc events e (h.settles x hx)
    · exact (hwithin.settled x hx).1
  · rw [howned.happen_ends (hhanded hslot) hsteps
      fun ending _ b hb hmem => (hleft b hb slot hmem).1 hslot]
    rw [hcomes.ends, h.ends_before hcomes hslot, hledger, List.filter_append]
  · rw [happen_queue]
    cases hnext : (c.step e).next with
    | inr ending => exact fun b hb => absurd hb (by simp)
    | inl c' =>
        intro b hb slot hslot
        obtain ⟨hnot, hnone⟩ := hleft b hb slot hslot
        -- The step settles what was handed to the connection, and this is still in the channel.
        have hothers : ∀ x ∈ (c.step e).settled, x.slot ≠ slot := by
          rintro x hx rfl
          exact hnot (hwithin.settled x hx).1
        refine ⟨hnot, ?_⟩
        rw [howned.happen_ends ((carries_iff.mp howned.carried).1 b hb hslot) hsteps
          fun ending hend => absurd (hnext.symm.trans hend) (by simp)]
        rw [hcomes.ends, hnone, filter_of_others hothers]
        rfl
  · rw [happen_queue]
    cases (c.step e).next with
    | inr ending => exact List.Pairwise.nil
    | inl c' => exact h.apart_left hcomes

/-! ## §5  Runs -/

theorem Lives.idle (h : Lives events handed s) : Lives (events ++ []) handed s := by
  rw [List.append_nil]
  exact h

theorem Lives.read (h : Lives events handed s) :
    Lives (events ++ s.befalling .read) handed (s.move .read) := by
  rcases h.has.direct with hs | ⟨c, hs⟩
  · simp only [befalling, Session.move, hs]
    exact h.idle
  · cases hread : s.nextRead? with
    | none =>
        rw [move_read_of_none hs hread]
        simp only [befalling, hs, hread]
        exact h.idle
    | some found =>
        rw [move_read_of_some hs hread]
        simp only [befalling, hs, hread]
        exact h.happen hs (event_of_read h.owned.carried hread) (comes_of_read hread)

theorem Lives.take (h : Lives events handed s) :
    Lives (events ++ s.befalling .take) handed (s.move .take) := by
  rcases h.has.direct with hs | ⟨c, hs⟩
  · simp only [befalling, Session.move, hs]
    exact h.idle
  · cases htake : s.nextTaken? c with
    | none =>
        rw [move_take_of_none hs htake]
        simp only [befalling, hs, htake]
        exact h.idle
    | some found =>
        rw [move_take_of_some hs htake]
        simp only [befalling, hs, htake]
        exact h.happen hs (event_of_take h.owned.carried htake) (comes_of_take htake)

theorem comes_of_next (h : s.nextEvent? c = some (e, s')) : Comes s e s' := by
  unfold nextEvent? at h
  split at h
  · next found hread =>
      obtain rfl := Option.some.inj h
      exact comes_of_read hread
  · exact comes_of_take h

/-- What happens by itself is what is upcoming, or somebody's time is over. -/
theorem Lives.next (h : Lives events handed s) (hnext : s.next? = some s') :
    Lives (events ++ s.upcoming) handed s' := by
  have hserve : s.serve? = none → s' = s.expire := by
    intro hnone
    unfold next? at hnext
    rw [hnone] at hnext
    dsimp only at hnext
    split at hnext
    · exact (Option.some.inj hnext).symm
    · exact absurd hnext (by simp)
  rcases h.has.direct with hs | ⟨c, hs⟩
  · rw [hserve (by simp only [serve?, hs])]
    simp only [upcoming, hs]
    exact h.expire.idle
  · cases hevent : s.nextEvent? c with
    | none =>
        rw [hserve (by simp only [serve?, hs, hevent, Option.map_none])]
        simp only [upcoming, hs, hevent]
        exact h.expire.idle
    | some found =>
        obtain ⟨e, s₁⟩ := found
        have hhappen : s' = s₁.happen c e := by
          unfold next? at hnext
          simp only [serve?, hs, hevent, Option.map_some] at hnext
          exact (Option.some.inj hnext).symm
        rw [hhappen]
        simp only [upcoming, hs, hevent]
        exact h.happen hs (event_of_next h.owned.carried hevent) (comes_of_next hevent)

theorem Lives.restFor (h : Lives events handed s) (n : Nat) :
    Lives (events ++ upcomingFor n s) handed (Session.restFor n s) ∧
      (Session.restFor n s).now = s.now := by
  induction n generalizing events s with
  | zero => exact ⟨h.idle, rfl⟩
  | succ n ih =>
      unfold Session.restFor upcomingFor
      cases hnext : s.next? with
      | none => exact ⟨h.idle, rfl⟩
      | some s' =>
          obtain ⟨hrest, hnow⟩ := ih (h.next hnext)
          rw [List.append_assoc] at hrest
          exact ⟨hrest, hnow.trans (next?_now hnext)⟩

theorem Lives.upcomingAt (h : Lives events handed s) {now : Nat} (hnow : s.now ≤ now) :
    Lives (events ++ s.upcomingAt now) handed (Session.rest { s with now }) ∧
      (Session.rest { s with now }).now = now :=
  (h.time hnow).restFor _

theorem Lives.pass (h : Lives events handed s) (millis : Nat) :
    Lives (events ++ s.upcomingFrom s.now (s.now + millis)) handed (s.pass millis) := by
  unfold Session.pass
  have hle : s.now ≤ s.now + millis := Nat.le_add_right ..
  generalize s.now + millis = target at hle
  -- The time from which it passes is kept apart from the session, which goes on by itself.
  generalize hnow : s.now = now at hle
  fun_induction passFrom now target s generalizing events with
  | case1 now s hdue =>
      rw [upcomingFrom, hdue]
      exact (h.upcomingAt (hnow ▸ hle)).1
  | case2 now s due hdue hlater ih =>
      rw [upcomingFrom, hdue]
      dsimp only
      rw [dif_pos hlater, ← List.append_assoc]
      obtain ⟨hrest, hat⟩ := h.upcomingAt (hnow ▸ Nat.le_of_lt hlater.1 : s.now ≤ due)
      exact ih hrest hat hlater.2
  | case3 now s due hdue hlater =>
      rw [upcomingFrom, hdue]
      dsimp only
      rw [dif_neg hlater]
      exact (h.upcomingAt (hnow ▸ hle)).1

theorem befalling_act {a : Action} (hpass : ∀ millis, a ≠ .pass millis) :
    s.befalling (.act a) = [] := by
  cases a with
  | pass millis => exact absurd rfl (hpass millis)
  | _ => rfl

/-- **Every move shows what happens to the connection in it.** -/
theorem Lives.move (h : Lives events handed s) (m : Move) :
    ∃ handed', Lives (events ++ s.befalling m) handed' (s.move m) := by
  cases m with
  | act a =>
      by_cases hpass : ∃ millis, a = .pass millis
      · obtain ⟨millis, rfl⟩ := hpass
        exact ⟨handed, h.pass millis⟩
      · have hothers : ∀ millis, a ≠ .pass millis := fun millis he => hpass ⟨millis, he⟩
        obtain ⟨handed', hact⟩ := h.act hothers
        rw [befalling_act hothers]
        exact ⟨handed', hact.idle⟩
  | read => exact ⟨handed, h.read⟩
  | take => exact ⟨handed, h.take⟩
  | expire => exact ⟨handed, h.expire.idle⟩
  | tick millis => exact ⟨handed, (h.time (Nat.le_add_right ..)).idle⟩

theorem Lives.run (h : Lives events handed s) (moves : List Move) :
    ∃ handed', Lives (events ++ s.events moves) handed' (s.run moves) := by
  induction moves generalizing events handed s with
  | nil => exact ⟨handed, h.idle⟩
  | cons m rest ih =>
      obtain ⟨handed₁, hm⟩ := h.move m
      obtain ⟨handed₂, hrest⟩ := ih hm
      rw [List.append_assoc] at hrest
      exact ⟨handed₂, hrest⟩

theorem lives_connected (timeout : Nat) : Lives [] [] (connected timeout) :=
  ⟨(Begins.connected timeout).owned, ⟨rfl, rfl⟩, rfl, List.Subset.refl _,
    fun c hc => by rw [← Sum.inl.inj hc]; exact List.Subset.refl _,
    fun x hx => absurd hx (by simp [Serving.life]),
    fun slot hslot => absurd hslot (by simp [Serving.slots, Serving.taken]),
    fun b hb => absurd hb (by simp [connected]), List.Pairwise.nil⟩

/-- **Whatever callers do, a session shows the life of its connection.** -/
theorem shows_run (timeout : Nat) (moves : List Move) :
    Shows ((connected timeout).events moves) ((connected timeout).run moves) := by
  obtain ⟨handed, hrun⟩ := (lives_connected timeout).run moves
  exact hrun.shows

/-! ## §6  Two runs -/

/-- As far as the connection and these slots go, two sessions are alike; whoever waits in the first
for such a slot has heard how it ended in the second, unless he gave up. -/
structure Alike (slots : List Slot) (s s' : Session) : Prop where
  /-- The commands that wait and the state of the reader are the same, or the end. -/
  service : s.service = s'.service
  ended : s.ended = s'.ended
  wire : s.wire = s'.wire
  outcome : ∀ slot ∈ slots, Settlement.find? s.settled slot = Settlement.find? s'.settled slot
  knows : ∀ w ∈ s.waits, ∀ slot ∈ slots, w.task.slot? = some slot →
    Knows s.now w (Settlement.find? s'.settled slot)

theorem Has.same {now : Serving ⊕ Ending} (h : s.Has now) (h' : s'.Has now) :
    s.service = s'.service ∧ s.ended = s'.ended := by
  cases now with
  | inl c => exact ⟨h.1.trans h'.1.symm, h.2.trans h'.2.symm⟩
  | inr ending => exact ⟨h.1.trans h'.1.symm, h.2.trans h'.2.symm⟩

theorem Shows.alike (h : Shows events s) (h' : Shows events s') :
    Alike (Serving.slots events) s s' := by
  obtain ⟨hservice, hended⟩ := h.has.same h'.has
  refine ⟨hservice, hended, h.wire.trans h'.wire.symm, fun slot hslot => ?_,
    fun w hw slot hslot htask => ?_⟩
  · exact (h.outcome slot hslot).trans (h'.outcome slot hslot).symm
  · rw [h'.outcome slot hslot]
    exact h.knows w hw slot hslot htask

/-- **Callers who give up disturb nobody.** Where a connection is driven by hand, each call comes to
the same as if nobody had given up, and whoever has not given up has heard the same. Where it serves
a session, the session shows the life of the connection, in which nobody gives up, and two runs are
alike if the same happens to the connection in both, whoever gives up in them and whenever. Runs can
be cut anywhere, so all this holds after every step. -/
theorem giving_up_disturbs_nobody :
    (∀ (moments : List Connection.Moment) (label : String), .givesUp label ∉ moments →
      (Connection.Scene.run moments).Same label
        (Connection.Scene.run (moments.filter Connection.Moment.isPatient))) ∧
    (∀ (timeout : Nat) (moves : List Move),
      Shows ((connected timeout).events moves) ((connected timeout).run moves)) ∧
    ∀ (timeout timeout' : Nat) (moves moves' : List Move),
      (connected timeout).events moves = (connected timeout').events moves' →
      Alike (Serving.slots ((connected timeout).events moves)) ((connected timeout).run moves)
        ((connected timeout').run moves') := by
  refine ⟨fun moments label => Connection.Scene.run_patient moments, shows_run,
    fun timeout timeout' moves moves' hsame => ?_⟩
  have hshows := shows_run timeout' moves'
  rw [← hsame] at hshows
  exact (shows_run timeout moves).alike hshows

/-- The replies to two commands. -/
def twoReplies : List UInt8 :=
  [0x24, 0x31, 0x0D, 0x0A, 0x31, 0x0D, 0x0A, 0x24, 0x31, 0x0D, 0x0A, 0x32, 0x0D, 0x0A]

/-- Two commands are sent, and both replies come when the first caller's time is over. -/
def lateReplies : List Move :=
  [.act (.dispatch "a" "GET" ["k"]), .take, .tick 3, .act (.dispatch "b" "GET" ["l"]), .take,
    .tick 3, .expire, .act (.reply twoReplies), .read]

/-- The same by hand, where the first caller gives up. -/
def lateMoments : List Connection.Moment :=
  [.opens "a", .opens "b",
    .call (.send [{ kind := .get, args := ["k"], slot := some ⟨0⟩ },
      { kind := .get, args := ["l"], slot := some ⟨1⟩ }] none),
    .givesUp "a", .call (.receive twoReplies)]

theorem giving_up_disturbs_nobody_late_replies :
    (Connection.Scene.run lateMoments).Same "b"
        (Connection.Scene.run (lateMoments.filter Connection.Moment.isPatient)) ∧
      (Connection.Scene.run lateMoments).heard = [("b", .reply (.success (.text "2")))] ∧
      Alike (Serving.slots ((connected 5).events lateReplies)) ((connected 5).run lateReplies)
        ((connected 1000).run lateReplies) ∧
      ((connected 5).run lateReplies).waits.map (fun w => (w.id, w.result)) =
        [("a", some RoundTrip.timedOut.dispatched), ("b", some (.success (.text "2")))] ∧
      ((connected 1000).run lateReplies).waits.map (fun w => (w.id, w.result)) =
        [("a", some (.success (.text "1"))), ("b", some (.success (.text "2")))] := by
  refine ⟨giving_up_disturbs_nobody.1 lateMoments "b" (by simp [lateMoments]), ?_,
    giving_up_disturbs_nobody.2.2 5 1000 lateReplies lateReplies ?_, ?_, ?_⟩
  · decide +kernel
  · decide +kernel
  · decide +kernel
  · decide +kernel

end Session

end RespClient
