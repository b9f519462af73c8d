import RespClient.Proofs.Session.Beside

/-!
# The handle of a transaction

What the holder of a transaction can do is record a command, discard what is recorded, execute it,
or drop the handle (`Handling`). Each of these is one operation of the session on the transaction
that the handle holds (`act_of_handling`), and nothing can be done while the handle is away
(`act_of_away`). Executing is the one that takes time: it is over at once (`Owned.exec_atOnce`) or
it is waited for (`exec_begins`).
-/

namespace RespClient

/-! ## §1  What can be done -/

/-- What the holder of a transaction does with it. -/
inductive Handling
  | record (id : String) (made : Except CommandError Command)
  | discard
  | exec (id : String)
  | drop

/-- The one who waits for what is done. -/
def Handling.id? : Handling → Option String
  | .record id _ | .exec id => some id
  | .discard | .drop => none

def Action.handling? (tx : String) : Action → Option Handling
  | .call id (some name) c => if name = tx then some (.record id c.command) else none
  | .queue name id command args =>
    if name = tx then some (.record id (Command.ofName command args)) else none
  | .discard name => if name = tx then some .discard else none
  | .exec name id => if name = tx then some (.exec id) else none
  | .dropTransaction name => if name = tx then some .drop else none
  | _ => none

def Session.Move.handling? (tx : String) : Session.Move → Option Handling
  | .act a => a.handling? tx
  | _ => none

/-- A channel that is closed takes nothing, and without time to wait nothing is waited for. -/
def Session.atOnce? (s : Session) : Option RoundTrip :=
  if s.closed then some .notSubmitted else if s.replyTimeout = 0 then some .timedOut else none

namespace Session

variable {K : String → Prop} {tx : String} {handed : List Slot} {s : Session} {m : Move}
  {c : Handling} {t : Transaction}

/-- The session after something is done with the handle. -/
def handled (s : Session) (tx : String) (t : Transaction) : Handling → Session
  | .record id (.ok c) => s.record tx id t c
  | .record _ (.error _) => s
  | .discard => s.putTransaction tx {}
  | .exec id => s.exec tx id t
  | .drop => s.loseTransaction tx

/-- What is handed over when something is done with the handle. -/
def handing (s : Session) (t : Transaction) : Handling → List Submission
  | .exec _ => if s.closed then [] else (t.submission s.freshSlot.1).toOption.toList
  | _ => []

theorem act_of_handling {a : Action} (h : a.handling? tx = some c)
    (ht : s.transaction? tx = some t) :
    (s.act a).2 = s.handled tx t c ∧ (s.handOver? a).toList = s.handing t c := by
  cases a with
  | call id transaction call =>
      cases transaction with
      | none => exact absurd h (by simp [Action.handling?])
      | some name =>
          obtain ⟨rfl, rfl⟩ : name = tx ∧ Handling.record id call.command = c := by
            simpa [Action.handling?] using h
          refine ⟨?_, by simp [handOver?, handing]⟩
          simp only [act, ht]
          cases call.command <;> rfl
  | queue name id command args =>
      obtain ⟨rfl, rfl⟩ : name = tx ∧ Handling.record id (Command.ofName command args) = c := by
        simpa [Action.handling?] using h
      refine ⟨?_, by simp [handOver?, handing]⟩
      simp only [act, ht]
      cases Command.ofName command args <;> rfl
  | discard name =>
      obtain ⟨rfl, rfl⟩ : name = tx ∧ Handling.discard = c := by
        simpa [Action.handling?] using h
      refine ⟨?_, by simp [handOver?, handing]⟩
      simp only [act, ht]
      rfl
  | exec name id =>
      obtain ⟨rfl, rfl⟩ : name = tx ∧ Handling.exec id = c := by
        simpa [Action.handling?] using h
      refine ⟨?_, ?_⟩
      · simp only [act, ht]
        rfl
      · simp only [handOver?, handing, ht, Option.bind_some]
        cases s.closed <;> rfl
  | dropTransaction name =>
      obtain ⟨rfl, rfl⟩ : name = tx ∧ Handling.drop = c := by
        simpa [Action.handling?] using h
      exact ⟨rfl, by simp [handOver?, handing]⟩
  | _ => exact absurd h (by simp [Action.handling?])

/-- Nothing can be done with a handle that is away. -/
theorem act_of_away {a : Action} (h : a.handling? tx = some c) (ht : s.transaction? tx = none) :
    (s.act a).2 = s ∧ s.handOver? a = none := by
  cases a with
  | call id transaction call =>
      cases transaction with
      | none => exact absurd h (by simp [Action.handling?])
      | some name =>
          obtain ⟨rfl, -⟩ : name = tx ∧ _ := by simpa [Action.handling?] using h
          refine ⟨?_, by simp [handOver?]⟩
          simp only [act, ht]
  | queue name id command args =>
      obtain ⟨rfl, -⟩ : name = tx ∧ _ := by simpa [Action.handling?] using h
      refine ⟨?_, by simp [handOver?]⟩
      simp only [act, ht]
      cases Command.ofName command args <;> rfl
  | discard name =>
      obtain ⟨rfl, -⟩ : name = tx ∧ _ := by simpa [Action.handling?] using h
      refine ⟨?_, by simp [handOver?]⟩
      simp only [act, ht]
  | exec name id =>
      obtain ⟨rfl, -⟩ : name = tx ∧ _ := by simpa [Action.handling?] using h
      refine ⟨?_, by simp [handOver?, ht]⟩
      simp only [act, ht]
  | dropTransaction name =>
      obtain ⟨rfl, -⟩ : name = tx ∧ _ := by simpa [Action.handling?] using h
      refine ⟨?_, by simp [handOver?]⟩
      simp only [act, loseTransaction, ht]
  | _ => exact absurd h (by simp [Action.handling?])

/-- A move that names the transaction does something with its handle, or makes a new one. -/
theorem handling_of_handle (h : m.handle? = some tx) (hone : m ≠ .act (.multi tx)) :
    ∃ c, m.handling? tx = some c := by
  cases m with
  | act a =>
      cases a with
      | call id transaction call =>
          obtain rfl : transaction = some tx := h
          exact ⟨_, if_pos rfl⟩
      | multi name =>
          obtain rfl := Option.some.inj h
          exact absurd rfl hone
      | queue name id command args =>
          obtain rfl := Option.some.inj h
          exact ⟨_, if_pos rfl⟩
      | discard name =>
          obtain rfl := Option.some.inj h
          exact ⟨_, if_pos rfl⟩
      | exec name id =>
          obtain rfl := Option.some.inj h
          exact ⟨_, if_pos rfl⟩
      | dropTransaction name =>
          obtain rfl := Option.some.inj h
          exact ⟨_, if_pos rfl⟩
      | _ => exact absurd h (by simp [Move.handle?, Action.handle?])
  | _ => exact absurd h (by simp [Move.handle?])

/-! ## §2  Recording and losing -/

theorem lose_settled (s : Session) (name : String) :
    (s.loseTransaction name).settled = s.settled ++ s.lost name := by
  rw [loseTransaction_eq, Callers.foldl_tell_settled]
  rfl

/-- The slots of a transaction that is lost are dropped. -/
theorem Bare.dropped (h : s.Bare) (ht : s.transaction? tx = some t) :
    ∀ c ∈ t.batch, (⟨c.2, .dropped⟩ : Settlement) ∈ (s.loseTransaction tx).settled := by
  intro c hc
  rw [lose_settled, h.lost_eq, slotsOf_eq ht]
  exact List.mem_append_right _ (List.mem_map_of_mem (List.mem_map_of_mem hc))

theorem settle_settled (s : Session) (xs : List Settlement) : xs ⊆ (s.settle xs).settled := by
  induction xs generalizing s with
  | nil => exact List.nil_subset _
  | cons x rest ih =>
      refine List.cons_subset.mpr ⟨?_, ih (s.settleOne x)⟩
      refine ((quiet_grows _).settle (.refl (s.settleOne x)) rest).settled ?_
      rw [Callers.settleOne_eq]
      exact (afterExecs_grows _ _ _).settled (List.mem_append_right _ (List.mem_singleton_self x))

/-! ## §3  Executing -/

/-- An execution has begun and ended at once. -/
structure DoneAtOnce (K : String → Prop) (tx id : String) (slots : List Slot) (outer : Reply)
    (s : Session) : Prop where
  phase : s.At K tx (.idle {})
  waits : ∃ w ∈ s.waits, w.id = id ∧ w.task = .done ∧ w.result = some outer
  shares : ∀ x ∈ Transaction.distribute slots outer, x ∈ s.settled

theorem Calm.execAtOnce (h : Calm handed s) (hgone : s.At K tx .gone) (slots : List Slot)
    (hslots : ∀ slot ∈ slots, slot ∉ handed ∧ slot.id < s.receivers.next) (outer : Reply)
    (hfair : outer.Fair) (id : String) :
    DoneAtOnce K tx id slots outer (s.execAtOnce tx id slots outer) ∧
      s.Grows (s.execAtOnce tx id slots outer) := by
  have hwait : Calm handed (s.wait id .done (some outer)) :=
    h.wait id (fun _ hslot => absurd hslot (by simp [Task.callers]))
      (fun _ hslot => absurd hslot (by simp [Task.handed?]))
      fun _ hslot => absurd hslot (by simp [Task.slot?])
  have hafter : (s.wait id .done (some outer)).Grows (s.execAtOnce tx id slots outer) :=
    (quiet_grows _).afterExec (.refl _) ..
  refine ⟨⟨⟨?_, ?_⟩, ?_, afterExec_settled _ tx slots outer⟩, (grows_wait ..).trans hafter⟩
  · unfold Session.execAtOnce
    rw [afterExec_transaction?, if_pos rfl]
  · refine (hwait.afterExec_underWay tx hslots hfair).trans ((wait_underWay s rfl).trans hgone.2)
  · obtain ⟨w, hw, hgoes⟩ := hafter.waits { id, task := .done, result := some outer }
      (List.mem_append_right _ (List.mem_singleton_self _))
    exact ⟨w, hw, hgoes.id, hgoes.task, hgoes.result _ rfl⟩

theorem without_gone (h : s.underWay tx = []) : (s.without tx).At K tx .gone :=
  ⟨lookup_filter_self _, h⟩

theorem grows_without (s : Session) (name : String) : s.Grows (s.without name) :=
  ⟨List.Subset.refl _, (Grows.refl s).waits⟩

/-- Everybody hears that the channel is closed, and then that it took nothing. -/
theorem Owned.exec_refused (h : Owned handed s) (ht : s.transaction? tx = some t)
    (hunder : s.underWay tx = []) {b : Submission} (hb : t.submission s.freshSlot.1 = .ok b)
    (hclosed : s.closed = true) (id : String) :
    DoneAtOnce K tx id t.slots RoundTrip.notSubmitted.executed (s.exec tx id t) ∧
      s.Grows (s.exec tx id t) ∧
      ⟨s.freshSlot.1, .reply RoundTrip.noHandlers⟩ ∈ (s.exec tx id t).settled := by
  have hslots := slots_of_submission (h.bare _ (mem_of_transaction? ht)) hb
  have hopen : Owned (handed ++ [s.freshSlot.1]) s.freshSlot.2 :=
    h.stroke (P := fun _ => True) (R := fun _ => True)
      (open_stroke h _ _ (Nat.le_succ _) s.freshSlot_new)
  have hcalm := hopen.toCalm.without tx
  have hfail : ∀ x ∈ b.fail RoundTrip.noHandlers,
      x.slot.id < (s.freshSlot.2.without tx).receivers.next ∧ x.Fair := by
    intro x hx
    obtain ⟨slot, hslot, rfl⟩ := List.mem_map.mp hx
    rw [hslots] at hslot
    exact ⟨(s.freshSlot_new slot hslot).2, Settlement.fair_of_reply noHandlers_fair⟩
  have hgone :
      ((s.freshSlot.2.without tx).settle (b.fail RoundTrip.noHandlers)).At K tx .gone := by
    rcases (Beside.settle hcalm hfail).phase .gone (without_gone hunder) with
      hstays | ⟨_, hbusy, -, -⟩
    · exact hstays
    · exact absurd hbusy (by simp)
  rw [exec_of_ok hb]
  dsimp only
  rw [if_pos hclosed]
  obtain ⟨hdone, hgrows⟩ := (hcalm.settle hfail).execAtOnce hgone t.slots
    (by rw [settle_next]; exact hopen.mem_slots ht) RoundTrip.notSubmitted.executed
    (by simp [Reply.Fair, RoundTrip.executed, Transaction.queuedReply]) id
  have hfresh : s.Grows s.freshSlot.2 := ⟨List.Subset.refl _, (Grows.refl s).waits⟩
  have hsettle := (quiet_grows _).settle (.refl (s.freshSlot.2.without tx))
    (b.fail RoundTrip.noHandlers)
  refine ⟨hdone, hfresh.trans ((grows_without _ tx).trans (hsettle.trans hgrows)), ?_⟩
  refine hgrows.settled (settle_settled _ _ (List.mem_map.mpr ⟨_, ?_, rfl⟩))
  rw [hslots]
  exact List.mem_singleton_self _

/-- Where nobody is to wait, the time is over as soon as the submission is in the channel. -/
theorem Owned.exec_late (h : Owned handed s) (ht : s.transaction? tx = some t)
    (hunder : s.underWay tx = []) {b : Submission} (hb : t.submission s.freshSlot.1 = .ok b)
    (hclosed : ¬s.closed = true) (hzero : s.replyTimeout = 0) (id : String) :
    DoneAtOnce K tx id t.slots RoundTrip.timedOut.executed (s.exec tx id t) ∧
      s.Grows (s.exec tx id t) := by
  have hslots := slots_of_submission (h.bare _ (mem_of_transaction? ht)) hb
  have hoffer : Owned (handed ++ [s.freshSlot.1])
      { s.freshSlot.2 with queue := s.queue ++ [b] } := by
    have hstroke : Stroke (fun _ => True) (fun _ => True) (handed, s)
        (handed ++ [s.freshSlot.1], { s.freshSlot.2 with queue := s.queue ++ [b] }) := by
      refine offer_stroke h _ [b] ⟨rfl, rfl, rfl⟩ ⟨rfl, rfl⟩ rfl rfl (Nat.le_succ _)
        s.freshSlot_new ?_
      intro b' hb'
      rw [List.mem_singleton.mp hb', hslots]
      exact List.Subset.refl _
    exact h.stroke hstroke
  rw [exec_of_ok hb]
  dsimp only
  rw [if_neg hclosed, if_pos hzero]
  obtain ⟨hdone, hgrows⟩ := (hoffer.toCalm.without tx).execAtOnce (without_gone hunder)
    t.slots (hoffer.mem_slots ht) RoundTrip.timedOut.executed
    (by simp [Reply.Fair, RoundTrip.executed, Transaction.queuedReply]) id
  exact ⟨hdone, ⟨hgrows.settled, hgrows.waits⟩⟩

/-- A transaction is executed, and that is over at once. -/
theorem Owned.exec_atOnce (h : Owned handed s) (ht : s.transaction? tx = some t)
    (hunder : s.underWay tx = []) {b : Submission} (hb : t.submission s.freshSlot.1 = .ok b)
    {trip : RoundTrip} (htrip : s.atOnce? = some trip) (id : String) :
    DoneAtOnce K tx id t.slots trip.executed (s.exec tx id t) ∧ s.Grows (s.exec tx id t) ∧
      (trip = .notSubmitted →
        ⟨s.freshSlot.1, .reply RoundTrip.noHandlers⟩ ∈ (s.exec tx id t).settled) := by
  unfold atOnce? at htrip
  split at htrip
  · next hclosed =>
      obtain rfl := Option.some.inj htrip
      obtain ⟨hdone, hgrows, hrefused⟩ := h.exec_refused ht hunder hb hclosed id
      exact ⟨hdone, hgrows, fun _ => hrefused⟩
  · next hclosed =>
      split at htrip
      · next hzero =>
          obtain rfl := Option.some.inj htrip
          obtain ⟨hdone, hgrows⟩ := h.exec_late ht hunder hb hclosed hzero id
          exact ⟨hdone, hgrows, fun he => absurd he (by simp)⟩
      · exact absurd htrip (by simp)

/-- A transaction is executed, and that is waited for. -/
theorem exec_begins (hunder : s.underWay tx = []) {b : Submission}
    (hb : t.submission s.freshSlot.1 = .ok b) (htrip : s.atOnce? = none) {id : String}
    (hk : K id) :
    (s.exec tx id t).At K tx
      (.busy { id, task := .exec tx t.slots s.freshSlot.1 (s.now + s.replyTimeout) }) ∧
      s.Grows (s.exec tx id t) := by
  unfold atOnce? at htrip
  split at htrip
  · exact absurd htrip (by simp)
  · next hclosed =>
      split at htrip
      · exact absurd htrip (by simp)
      · next hzero =>
          rw [exec_of_ok hb]
          dsimp only
          rw [if_neg hclosed, if_neg hzero]
          refine ⟨⟨lookup_filter_self _, ?_, hk⟩, ?_⟩
          · have hruns : ∀ deadline,
                Wait.runs tx { id, task := .exec tx t.slots s.freshSlot.1 deadline } = true :=
              fun _ => Wait.runs_iff.mpr ⟨⟨_, _, _, rfl⟩, rfl⟩
            show (s.waits ++ [_]).filter (Wait.runs tx) = _
            rw [List.filter_append, show s.waits.filter (Wait.runs tx) = [] from hunder,
              List.filter_cons_of_pos (hruns _)]
            rfl
          · exact ⟨List.Subset.refl _, fun w hw => ⟨w, List.mem_append_left _ hw, .refl w⟩⟩

end Session

end RespClient
