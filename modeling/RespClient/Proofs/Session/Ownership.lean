import Mathlib.Data.List.Flatten
import Mathlib.Data.List.Nodup
import RespClient.Proofs.Session.Conversation

/-!
# Who settles a slot

Two kinds of slots are opened in a session. A slot of the first kind is handed over with a
submission: it is in the channel or with a command on the connection, and whoever has the submission
settles it. A slot of the second kind belongs to the caller of a recorded command: it is kept by the
transaction, then by the execution, and settled with its end. The two never meet (`Owned`), so what
happens to submissions does not touch the callers of a transaction and the other way round, and a
slot that is kept is settled once.

Being told, settling, the end of executions and of waits keep slots where they are (`Calm`) and
settle no slot again (`shares`).
-/

namespace RespClient

/-! ## §1  Where slots are -/

/-- The slot for which a caller waits who has handed something over. -/
def Task.handed? : Task → Option Slot
  | .dispatch slot _ | .exec _ _ slot _ => some slot
  | .queued _ | .done => none

/-- The slots of those who wait for an execution to end. -/
def Task.callers : Task → List Slot
  | .exec _ callers _ _ => callers
  | _ => []

/-- The slots that the execution still has to settle. -/
def Wait.owed (w : Wait) : List Slot := if w.result = none then w.task.callers else []

/-- The slots of commands that wait for their reply on a connection. -/
def Service.slots : Service → List Slot
  | .connection c => c.connection.pending.filterMap (·.slot)
  | .supervised p _ _ =>
    match p.phase with
    | .serving c => c.connection.pending.filterMap (·.slot)
    | _ => []
  | .unserved | .ended => []

/-- The reply is not what a caller is told whose recorded command was thrown away. -/
def Reply.Fair (r : Reply) : Prop := r ≠ Transaction.queuedReply .dropped

def Settlement.Fair (x : Settlement) : Prop := ∀ r, x.outcome = .reply r → r.Fair

namespace Session

/-- The slots of submissions that are under way. -/
def carried (s : Session) : List Slot := s.queue.flatMap Submission.slots ++ s.service.slots

/-- The slots of recorded commands, in transactions and in executions. -/
def callers (s : Session) : List Slot :=
  s.transactions.flatMap (·.2.slots) ++ s.waits.flatMap (·.task.callers)

/-- Those of them that are still to be settled. -/
def kept (s : Session) : List Slot :=
  s.transactions.flatMap (·.2.slots) ++ s.waits.flatMap Wait.owed

/-- How often a slot has been settled or will be, by those who keep it. -/
def shares (s : Session) (slot : Slot) : Nat :=
  (s.settled.map (·.slot)).count slot + s.kept.count slot

/-- Whoever waits has heard how his slot ended, or that his time was over. -/
def Hears (s : Session) : Prop :=
  ∀ w ∈ s.waits, ∀ slot, w.task.slot? = some slot →
    w.result = (Settlement.find? s.settled slot).map (fun o => w.task.reply (.ofOutcome o)) ∨
      ∃ deadline, w.task.deadline? = some deadline ∧ deadline ≤ s.now ∧
        w.result = some (w.task.reply .timedOut)

/-! ## §2  The invariant -/

/-- Recorded commands hold no slots: theirs are kept beside them. -/
def Bare (s : Session) : Prop := ∀ x ∈ s.transactions, ∀ c ∈ x.2.batch, c.1.slot = none

/-- Slots are where they belong, if `handed` are those that were handed over; the callers' slots are
others, and nobody is told anything but how his slot ended. -/
structure Calm (handed : List Slot) (s : Session) : Prop where
  opened : ∀ slot ∈ handed, slot.id < s.receivers.next
  callers : ∀ slot ∈ s.callers, slot ∉ handed ∧ slot.id < s.receivers.next
  carried : ∀ slot ∈ s.carried, slot ∈ handed
  waiting : ∀ w ∈ s.waits, ∀ slot, w.task.handed? = some slot → slot ∈ handed
  names : (s.transactions.map Prod.fst).Nodup
  bare : s.Bare
  below : ∀ x ∈ s.settled, x.slot.id < s.receivers.next
  fair : ∀ x ∈ s.settled, x.Fair
  hears : s.Hears

/-- Slots are where they belong, and no slot that is kept is settled twice. -/
structure Owned (handed : List Slot) (s : Session) : Prop extends Calm handed s where
  once : ∀ slot, slot ∉ handed → s.shares slot ≤ 1

variable {handed : List Slot} {s s' : Session} {x : Settlement} {slot : Slot}

theorem tell_waits (s : Session) (x : Settlement) :
    (s.tell x).waits = s.waits.map fun w =>
      if w.task.slot? = some x.slot ∧ w.result = none then
        { w with result := some (w.task.reply (.ofOutcome x.outcome)) }
      else w := rfl

theorem tasks_of_aside (h : s'.aside = s.aside) :
    s'.waits.map (·.task) = s.waits.map (·.task) := by
  have haside : ∀ s : Session, s.aside.waits.map (·.task) = s.waits.map (·.task) :=
    fun s => List.map_map
  rw [← haside s', h, haside]

theorem Hears.tell (h : s.Hears) (x : Settlement) : (s.tell x).Hears := by
  intro w' hw' slot hslot
  obtain ⟨w, hw, rfl⟩ := List.mem_map.mp hw'
  have hsettled : (s.tell x).settled = s.settled ++ [x] := rfl
  have hnow : (s.tell x).now = s.now := rfl
  have htask : (if w.task.slot? = some x.slot ∧ w.result = none then
      { w with result := some (w.task.reply (.ofOutcome x.outcome)) } else w : Wait).task =
        w.task := by
    split <;> rfl
  rw [htask] at hslot ⊢
  rw [hsettled, hnow, hslot, Settlement.find?_snoc]
  rcases h w hw slot hslot with hheard | ⟨deadline, hdeadline, hlate, hresult⟩
  · left
    cases hfind : Settlement.find? s.settled slot with
    | some o =>
        rw [hfind] at hheard
        rw [if_neg (by simp [hheard])]
        exact hheard
    | none =>
        have hnone : w.result = none := by rw [hheard, hfind]; rfl
        by_cases hx : x.slot = slot
        · simp [hx, hnone]
        · have hne : slot ≠ x.slot := fun he => hx he.symm
          simp [hx, hne, hnone]
  · right
    refine ⟨deadline, hdeadline, hlate, ?_⟩
    rw [if_neg (by simp [hresult])]
    exact hresult

/-! ## §3  Being told, and transactions that come and go -/

theorem callers_of_aside (h : s'.aside = s.aside) :
    s'.waits.flatMap (·.task.callers) = s.waits.flatMap (·.task.callers) := by
  have htasks : ∀ ws : List Wait, ws.flatMap (·.task.callers) =
      (ws.map (·.task)).flatMap Task.callers := fun ws => (List.flatMap_map ..).symm
  rw [htasks, htasks, tasks_of_aside h]

/-- What stays in transactions was there, or is empty. -/
def Shrinks (ts ts' : List (String × Transaction)) : Prop :=
  (ts'.map Prod.fst).Nodup ∧ ∀ x ∈ ts', x ∈ ts ∨ x.2 = {}

theorem Calm.of_aside (h : Calm handed s) (haside : s'.aside = s.aside)
    (htransactions : Shrinks s.transactions s'.transactions)
    (hbelow : ∀ x ∈ s'.settled, x.slot.id < s.receivers.next) (hfair : ∀ x ∈ s'.settled, x.Fair)
    (hhears : s'.Hears) : Calm handed s' := by
  have hnext : s'.receivers.next = s.receivers.next :=
    congrArg (fun t => t.receivers.next) haside
  have hfar := far_of_aside haside
  have hcarried : s'.carried = s.carried := congrArg₂ (fun queue service =>
    List.flatMap Submission.slots queue ++ Service.slots service) (congrArg Far.queue hfar)
      (congrArg Far.service hfar)
  have hcallers : s'.callers ⊆ s.callers := by
    intro slot hslot
    rcases List.mem_append.mp hslot with hslot | hslot
    · obtain ⟨x, hx, hslot⟩ := List.mem_flatMap.mp hslot
      rcases htransactions.2 x hx with hx | hempty
      · exact List.mem_append_left _ (List.mem_flatMap.mpr ⟨x, hx, hslot⟩)
      · rw [hempty] at hslot
        exact absurd hslot (by simp [Transaction.slots])
    · rw [callers_of_aside haside] at hslot
      exact List.mem_append_right _ hslot
  refine ⟨?_, ?_, ?_, ?_, htransactions.1, ?_, ?_, hfair, hhears⟩
  · rw [hnext]
    exact h.opened
  · rw [hnext]
    intro slot hslot
    exact h.callers slot (hcallers hslot)
  · rw [hcarried]
    exact h.carried
  · intro w' hw' slot hslot
    have htask : w'.task ∈ s.waits.map (·.task) := by
      rw [← tasks_of_aside haside]
      exact List.mem_map_of_mem hw'
    obtain ⟨w, hw, heq⟩ := List.mem_map.mp htask
    rw [← heq] at hslot
    exact h.waiting w hw slot hslot
  · intro x hx c hc
    rcases htransactions.2 x hx with hx | hempty
    · exact h.bare x hx c hc
    · rw [hempty] at hc
      exact absurd hc (by simp)
  · rw [hnext]
    exact hbelow

theorem shrinks_refl {ts : List (String × Transaction)} (h : (ts.map Prod.fst).Nodup) :
    Shrinks ts ts := ⟨h, fun _ => .inl⟩

theorem Calm.tell (h : Calm handed s) (hbelow : x.slot.id < s.receivers.next) (hfair : x.Fair) :
    Calm handed (s.tell x) := by
  refine h.of_aside (tell_aside s x) (shrinks_refl h.names) ?_ ?_ (h.hears.tell x)
  · intro y hy
    rcases List.mem_append.mp hy with hy | hy
    · exact h.below y hy
    · rw [List.mem_singleton.mp hy]
      exact hbelow
  · intro y hy
    rcases List.mem_append.mp hy with hy | hy
    · exact h.fair y hy
    · rw [List.mem_singleton.mp hy]
      exact hfair

theorem Calm.tells (h : Calm handed s) {xs : List Settlement}
    (hxs : ∀ x ∈ xs, x.slot.id < s.receivers.next ∧ x.Fair) :
    Calm handed (xs.foldl Session.tell s) := by
  induction xs generalizing s with
  | nil => exact h
  | cons x rest ih =>
      obtain ⟨⟨hbelow, hfair⟩, hrest⟩ := List.forall_mem_cons.mp hxs
      exact ih (h.tell hbelow hfair) hrest

theorem Calm.with_transactions (h : Calm handed s) {ts : List (String × Transaction)}
    (hts : Shrinks s.transactions ts) : Calm handed { s with transactions := ts } :=
  h.of_aside rfl hts h.below h.fair h.hears

/-- The session without a transaction, whose callers' slots are kept by nobody for now. -/
def without (s : Session) (name : String) : Session :=
  { s with transactions := s.transactions.filter (·.1 ≠ name) }

/-- What is settled when a transaction is lost. -/
def lost (s : Session) (name : String) : List Settlement :=
  ((s.transaction? name).map Transaction.discard).getD []

theorem loseTransaction_eq (s : Session) (name : String) :
    s.loseTransaction name = (s.lost name).foldl tell (s.without name) := by
  unfold loseTransaction lost without
  cases htransaction : s.transaction? name with
  | none =>
      have hfilter : s.transactions.filter (·.1 ≠ name) = s.transactions := by
        rw [List.filter_eq_self]
        intro x hx
        have hne := List.lookup_eq_none_iff.mp htransaction x hx
        exact decide_eq_true fun heq => by simp [heq] at hne
      rw [hfilter]
      rfl
  | some t => rfl

theorem mem_of_transaction? {name : String} {t : Transaction}
    (h : s.transaction? name = some t) : (name, t) ∈ s.transactions := by
  obtain ⟨before, after, heq, -⟩ := List.lookup_eq_some_iff.mp h
  rw [heq]
  exact List.mem_append_right _ List.mem_cons_self

/-- A transaction whose commands hold no slots drops the slots of their callers. -/
theorem discard_eq {t : Transaction} (h : ∀ c ∈ t.batch, c.1.slot = none) :
    t.discard = t.slots.map (⟨·, .dropped⟩) := by
  unfold Transaction.discard Transaction.slots
  generalize t.batch = batch at h
  induction batch with
  | nil => rfl
  | cons c rest ih =>
      obtain ⟨hc, hrest⟩ := List.forall_mem_cons.mp h
      rw [List.flatMap_cons, ih hrest]
      show Settlement.drop c.1.slot ++ [⟨c.2, .dropped⟩] ++ _ = _
      rw [hc]
      rfl

/-- The slots of the callers of a transaction. -/
def slotsOf (s : Session) (name : String) : List Slot :=
  ((s.transaction? name).map Transaction.slots).getD []

theorem Bare.lost_eq (h : s.Bare) (name : String) :
    s.lost name = (s.slotsOf name).map (⟨·, .dropped⟩) := by
  unfold lost slotsOf
  cases htransaction : s.transaction? name with
  | none => rfl
  | some t => exact discard_eq (h _ (mem_of_transaction? htransaction))

theorem slotsOf_eq {name : String} {t : Transaction} (h : s.transaction? name = some t) :
    s.slotsOf name = t.slots := by
  rw [slotsOf, h]
  rfl

theorem mem_callers_of_slotsOf (name : String) (hslot : slot ∈ s.slotsOf name) :
    slot ∈ s.callers := by
  cases htransaction : s.transaction? name with
  | none =>
      rw [slotsOf, htransaction] at hslot
      exact absurd hslot (by simp)
  | some t =>
      rw [slotsOf_eq htransaction] at hslot
      exact List.mem_append_left _
        (List.mem_flatMap.mpr ⟨_, mem_of_transaction? htransaction, hslot⟩)

theorem Calm.mem_lost (h : Calm handed s) {name : String} (hx : x ∈ s.lost name) :
    x.slot ∈ s.callers ∧ x.outcome = .dropped := by
  rw [h.bare.lost_eq] at hx
  obtain ⟨slot, hslot, rfl⟩ := List.mem_map.mp hx
  exact ⟨mem_callers_of_slotsOf name hslot, rfl⟩

theorem shrinks_filter {ts : List (String × Transaction)} (h : (ts.map Prod.fst).Nodup)
    (name : String) : Shrinks ts (ts.filter (·.1 ≠ name)) :=
  ⟨(List.filter_sublist.map _).nodup h, fun _ hx => .inl (List.mem_of_mem_filter hx)⟩

theorem Calm.without (h : Calm handed s) (name : String) : Calm handed (s.without name) :=
  h.with_transactions (shrinks_filter h.names name)

theorem Calm.lose (h : Calm handed s) (name : String) : Calm handed (s.loseTransaction name) := by
  rw [loseTransaction_eq]
  refine (h.without name).tells fun x hx => ?_
  obtain ⟨hslot, hdropped⟩ := h.mem_lost hx
  exact ⟨(h.callers _ hslot).2, fun r hr => absurd (hdropped.symm.trans hr) (by simp)⟩

theorem loseTransaction_transactions (s : Session) (name : String) :
    (s.loseTransaction name).transactions = s.transactions.filter (·.1 ≠ name) := by
  rw [loseTransaction_eq, Callers.foldl_tell_transactions]
  rfl

theorem Calm.put (h : Calm handed s) (name : String) :
    Calm handed (s.putTransaction name {}) := by
  have hlose := h.lose name
  refine hlose.with_transactions ⟨?_, ?_⟩
  · rw [List.map_append, List.map_singleton, List.nodup_append]
    refine ⟨hlose.names, List.nodup_singleton _, ?_⟩
    intro n hn n' hn' heq
    rw [loseTransaction_transactions] at hn
    obtain ⟨x, hx, rfl⟩ := List.mem_map.mp hn
    rw [List.mem_singleton.mp hn'] at heq
    simpa [heq] using List.of_mem_filter hx
  · intro x hx
    rcases List.mem_append.mp hx with hx | hx
    · exact .inl hx
    · rw [List.mem_singleton.mp hx]
      exact .inr rfl

theorem element_fair {r : Reply} (h : r.Fair) (index : Nat) : (r.element index).Fair := by
  unfold Reply.element
  split
  · split <;> simp [Reply.Fair, Transaction.queuedReply]
  · split <;> simp [Reply.Fair, Transaction.queuedReply]
  · exact h

theorem distribute_fair {slots : List Slot} {outer : Reply} (h : outer.Fair) :
    ∀ x ∈ Transaction.distribute slots outer, x.Fair := by
  intro x hx r hr
  obtain ⟨⟨slot, index⟩, -, rfl⟩ := List.mem_map.mp hx
  rw [← Outcome.reply.inj hr]
  exact element_fair h index

theorem Calm.afterExec (h : Calm handed s) (name : String) {slots : List Slot} {outer : Reply}
    (hbelow : ∀ slot ∈ slots, slot.id < s.receivers.next) (hfair : outer.Fair) :
    Calm handed (s.afterExec name slots outer) := by
  refine Calm.put ?_ name
  refine h.tells fun x hx => ⟨?_, distribute_fair hfair x hx⟩
  exact hbelow _ (Callers.slot_of_distribute hx)

/-- Executions of transactions end, all with the same reply. -/
def afterExecs (s : Session) (execs : List (String × List Slot)) (outer : Reply) : Session :=
  execs.foldl (fun s (name, slots) => s.afterExec name slots outer) s

theorem afterExec_aside (s : Session) (name : String) (slots : List Slot) (outer : Reply) :
    (s.afterExec name slots outer).aside = s.aside := (quiet_aside s).afterExec rfl ..

theorem Calm.afterExecs (h : Calm handed s) {execs : List (String × List Slot)} {outer : Reply}
    (hbelow : ∀ x ∈ execs, ∀ slot ∈ x.2, slot.id < s.receivers.next) (hfair : outer.Fair) :
    Calm handed (s.afterExecs execs outer) := by
  induction execs generalizing s with
  | nil => exact h
  | cons x rest ih =>
      obtain ⟨hx, hrest⟩ := List.forall_mem_cons.mp hbelow
      refine ih (h.afterExec x.1 hx hfair) ?_
      rw [show (s.afterExec x.1 x.2 outer).receivers.next = s.receivers.next from
        congrArg (fun t => t.receivers.next) (afterExec_aside ..)]
      exact hrest

open Callers (awaits?)

theorem exec_of_awaits? {w : Wait} {name : String} {slots : List Slot}
    (h : awaits? slot w = some (name, slots)) :
    (∃ deadline, w.task = .exec name slots slot deadline) ∧ w.result = none := by
  unfold awaits? at h
  split at h
  · next own deadline htask hresult =>
      split at h
      · next hown =>
          obtain ⟨rfl, rfl⟩ := Prod.mk.inj (Option.some.inj h)
          rw [hown] at htask
          exact ⟨⟨_, htask⟩, hresult⟩
      · exact absurd h (by simp)
  · exact absurd h (by simp)

theorem late_of_isLate {w : Wait} {now : Nat} (h : w.isLate now = true) :
    w.result = none ∧ ∃ deadline, w.task.deadline? = some deadline ∧ deadline ≤ now := by
  unfold Wait.isLate at h
  obtain ⟨hresult, hlate⟩ := Bool.and_eq_true_iff.mp h
  refine ⟨by simpa using hresult, ?_⟩
  cases hdeadline : w.task.deadline? with
  | none => simp [hdeadline] at hlate
  | some deadline => exact ⟨deadline, rfl, by simpa [hdeadline] using hlate⟩

theorem exec_of_expires? {w : Wait} {now : Nat} {name : String} {slots : List Slot}
    (h : expires? now w = some (name, slots)) :
    (∃ slot deadline, w.task = .exec name slots slot deadline) ∧ w.isLate now = true := by
  unfold expires? at h
  split at h
  · next htask =>
      split at h
      · next hlate =>
          obtain ⟨rfl, rfl⟩ := Prod.mk.inj (Option.some.inj h)
          exact ⟨⟨_, _, htask⟩, hlate⟩
      · exact absurd h (by simp)
  · exact absurd h (by simp)

theorem mem_callers_of_wait {w : Wait} (hw : w ∈ s.waits) (hslot : slot ∈ w.task.callers) :
    slot ∈ s.callers :=
  List.mem_append_right _ (List.mem_flatMap.mpr ⟨w, hw, hslot⟩)

/-- What an execution replies is fair where the end of its slot is. -/
theorem outer_fair (hfair : x.Fair) : (RoundTrip.ofOutcome x.outcome).executed.Fair := by
  cases hx : x.outcome with
  | reply r => exact hfair r hx
  | dropped => simp [Reply.Fair, RoundTrip.ofOutcome, RoundTrip.executed, Transaction.queuedReply]

theorem Calm.settleOne (h : Calm handed s) (hbelow : x.slot.id < s.receivers.next)
    (hfair : x.Fair) : Calm handed (s.settleOne x) := by
  refine (h.tell hbelow hfair).afterExecs (fun exec hexec slot hslot => ?_) (outer_fair hfair)
  obtain ⟨w, hw, hawaits⟩ := List.mem_filterMap.mp hexec
  obtain ⟨⟨deadline, htask⟩, -⟩ := exec_of_awaits? hawaits
  refine (h.callers slot (mem_callers_of_wait hw ?_)).2
  rw [htask]
  exact hslot

theorem settleOne_aside (s : Session) (x : Settlement) : (s.settleOne x).aside = s.aside :=
  (quiet_aside s).settleOne rfl x

theorem Calm.settle (h : Calm handed s) {xs : List Settlement}
    (hxs : ∀ x ∈ xs, x.slot.id < s.receivers.next ∧ x.Fair) : Calm handed (s.settle xs) := by
  induction xs generalizing s with
  | nil => exact h
  | cons x rest ih =>
      obtain ⟨⟨hbelow, hfair⟩, hrest⟩ := List.forall_mem_cons.mp hxs
      refine ih (h.settleOne hbelow hfair) ?_
      rw [show (s.settleOne x).receivers.next = s.receivers.next from
        congrArg (fun t => t.receivers.next) (settleOne_aside ..)]
      exact hrest

/-- Those whose time is over are told so. -/
def timeOut (s : Session) : Session :=
  { s with waits := s.waits.map fun w =>
      if w.isLate s.now then { w with result := some (w.task.reply .timedOut) } else w }

theorem expire_eq_afterExecs (s : Session) :
    s.expire = s.timeOut.afterExecs (s.waits.filterMap (expires? s.now))
      RoundTrip.timedOut.executed := rfl

theorem Calm.timeOut (h : Calm handed s) : Calm handed s.timeOut := by
  have haside : s.timeOut.aside = s.aside := by
    refine map_result_aside fun w => ?_
    split
    · exact .inr ⟨_, rfl⟩
    · exact .inl rfl
  refine h.of_aside haside (shrinks_refl h.names) h.below h.fair ?_
  intro w' hw' slot hslot
  obtain ⟨w, hw, rfl⟩ := List.mem_map.mp hw'
  split at hslot
  · next hlate =>
      obtain ⟨-, deadline, hdeadline, hover⟩ := late_of_isLate hlate
      rw [if_pos hlate]
      exact .inr ⟨deadline, hdeadline, hover, rfl⟩
  · next hearly =>
      rw [if_neg hearly]
      exact h.hears w hw slot hslot

theorem Calm.expire (h : Calm handed s) : Calm handed s.expire := by
  rw [expire_eq_afterExecs]
  refine h.timeOut.afterExecs (fun exec hexec slot hslot => ?_) ?_
  · obtain ⟨w, hw, hexpires⟩ := List.mem_filterMap.mp hexec
    obtain ⟨⟨own, deadline, htask⟩, -⟩ := exec_of_expires? hexpires
    refine (h.callers slot (mem_callers_of_wait hw ?_)).2
    rw [htask]
    exact hslot
  · simp [Reply.Fair, RoundTrip.executed, Transaction.queuedReply]

/-! ## §4  Slots that are kept -/

theorem count_settled_snoc (xs : List Settlement) (x : Settlement) (slot : Slot) :
    ((xs ++ [x]).map (·.slot)).count slot =
      (xs.map (·.slot)).count slot + if x.slot = slot then 1 else 0 := by
  rw [List.map_append, List.count_append, List.map_singleton, List.count_singleton]
  simp [beq_iff_eq]

/-- Telling somebody that his slot has ended counts for that slot alone. -/
theorem shares_tell (s : Session) (x : Settlement) (slot : Slot) :
    (s.tell x).shares slot ≤ s.shares slot + if x.slot = slot then 1 else 0 := by
  have hkept : (s.tell x).kept.count slot ≤ s.kept.count slot := by
    refine List.Sublist.count_le _ (List.Sublist.append_left ?_ _)
    rw [tell_waits, List.flatMap_map]
    refine List.Sublist.flatMap_right _ fun w _ => ?_
    split
    · simp [Wait.owed]
    · exact List.Sublist.refl _
  have hsettled : ((s.tell x).settled.map (·.slot)).count slot =
      (s.settled.map (·.slot)).count slot + if x.slot = slot then 1 else 0 :=
    count_settled_snoc ..
  unfold shares
  omega

theorem shares_tells (s : Session) (xs : List Settlement) (slot : Slot) :
    (xs.foldl Session.tell s).shares slot ≤ s.shares slot + (xs.map (·.slot)).count slot := by
  induction xs generalizing s with
  | nil => exact Nat.le_refl _
  | cons x rest ih =>
      have htell := shares_tell s x slot
      have hrest := ih (s.tell x)
      rw [List.foldl_cons, List.map_cons, List.count_cons]
      simp only [beq_iff_eq]
      omega

/-- A transaction and the others together keep what all keep. -/
theorem shares_without (s : Session) (name : String) (slot : Slot) :
    (s.without name).shares slot + (s.slotsOf name).count slot ≤ s.shares slot := by
  have hfilter : ∀ ts : List (String × Transaction),
      ((ts.filter (·.1 ≠ name)).flatMap (·.2.slots)).count slot ≤
        (ts.flatMap (·.2.slots)).count slot := fun ts =>
    (List.filter_sublist.flatMap _).count_le _
  have htransactions :
      ((s.transactions.filter (·.1 ≠ name)).flatMap (·.2.slots)).count slot +
        (s.slotsOf name).count slot ≤ (s.transactions.flatMap (·.2.slots)).count slot := by
    cases htransaction : s.transaction? name with
    | none =>
        rw [slotsOf, htransaction]
        exact hfilter s.transactions
    | some t =>
        obtain ⟨before, after, heq, -⟩ := List.lookup_eq_some_iff.mp htransaction
        have hbefore := hfilter before
        have hafter := hfilter after
        rw [slotsOf_eq htransaction, heq, List.filter_append, List.filter_cons_of_neg (by simp)]
        simp only [List.flatMap_append, List.flatMap_cons, List.count_append]
        omega
  unfold shares kept without
  rw [List.count_append, List.count_append]
  dsimp only
  omega

theorem Bare.shares_lose (h : s.Bare) (name : String) (slot : Slot) :
    (s.loseTransaction name).shares slot ≤ s.shares slot := by
  have hslots : (s.lost name).map (·.slot) = s.slotsOf name := by
    rw [h.lost_eq, List.map_map]
    exact List.map_id _
  have htells := shares_tells (s.without name) (s.lost name) slot
  have hwithout := shares_without s name slot
  rw [hslots] at htells
  rw [loseTransaction_eq]
  omega

theorem Bare.shares_put (h : s.Bare) (name : String) (slot : Slot) :
    (s.putTransaction name {}).shares slot ≤ s.shares slot := by
  refine Nat.le_trans (Nat.le_of_eq ?_) (h.shares_lose name slot)
  unfold shares kept putTransaction
  simp [Transaction.slots]

theorem Bare.put (h : s.Bare) (name : String) : (s.putTransaction name {}).Bare := by
  intro x hx c hc
  rcases List.mem_append.mp hx with hx | hx
  · rw [loseTransaction_transactions] at hx
    exact h x (List.mem_of_mem_filter hx) c hc
  · rw [List.mem_singleton.mp hx] at hc
    exact absurd hc (by simp)

theorem Bare.tells (h : s.Bare) (xs : List Settlement) : (xs.foldl Session.tell s).Bare := by
  unfold Bare
  rw [Callers.foldl_tell_transactions]
  exact h

theorem Bare.afterExec (h : s.Bare) (name : String) (slots : List Slot) (outer : Reply) :
    (s.afterExec name slots outer).Bare := (h.tells _).put name

theorem Bare.shares_afterExec (h : s.Bare) (name : String) (slots : List Slot) (outer : Reply)
    (slot : Slot) :
    (s.afterExec name slots outer).shares slot ≤ s.shares slot + slots.count slot := by
  have htells := shares_tells s (Transaction.distribute slots outer) slot
  rw [Callers.slots_distribute] at htells
  exact Nat.le_trans ((h.tells _).shares_put name slot) htells

theorem Bare.shares_afterExecs (h : s.Bare) (execs : List (String × List Slot)) (outer : Reply)
    (slot : Slot) :
    (s.afterExecs execs outer).shares slot ≤
      s.shares slot + (execs.flatMap Prod.snd).count slot := by
  induction execs generalizing s with
  | nil => exact Nat.le_refl _
  | cons x rest ih =>
      have hx := h.shares_afterExec x.1 x.2 outer slot
      have hrest := ih (h.afterExec x.1 x.2 outer)
      rw [List.flatMap_cons, List.count_append]
      exact Nat.le_trans hrest (by omega)

/-- Waits end by `f`, and with them the executions that `g` finds. Where that concerns the same
waits, what is kept is what the executions keep and what is left. -/
theorem count_owed {f : Wait → Wait} {g : Wait → Option (String × List Slot)} (ws : List Wait)
    (hends : ∀ w name slots, g w = some (name, slots) →
      w.owed = slots ∧ (f w).result ≠ none)
    (hstays : ∀ w, g w = none → (f w).owed.Sublist w.owed) (slot : Slot) :
    ((ws.map f).flatMap Wait.owed).count slot + ((ws.filterMap g).flatMap Prod.snd).count slot ≤
      (ws.flatMap Wait.owed).count slot := by
  induction ws with
  | nil => exact Nat.le_refl _
  | cons w rest ih =>
      rw [List.map_cons, List.flatMap_cons, List.flatMap_cons, List.count_append,
        List.count_append]
      cases hg : g w with
      | none =>
          rw [List.filterMap_cons_none hg]
          have hw := (hstays w hg).count_le slot
          omega
      | some exec =>
          -- The wait keeps nothing any more, and the execution all that it kept.
          obtain ⟨howed, hresult⟩ := hends w exec.1 exec.2 hg
          have hdone : (f w).owed = [] := if_neg hresult
          rw [List.filterMap_cons_some hg, List.flatMap_cons, List.count_append, howed, hdone]
          rw [List.count_nil]
          omega

theorem owed_of_exec {w : Wait} {name : String} {slots : List Slot} {own : Slot} {deadline : Nat}
    (htask : w.task = .exec name slots own deadline) (hresult : w.result = none) :
    w.owed = slots := by
  rw [Wait.owed, if_pos hresult, htask]
  rfl

/-- Settling a slot counts for that slot alone: the executions that its end ends settle what they
kept. -/
theorem Bare.shares_settleOne (h : s.Bare) (x : Settlement) (slot : Slot) :
    (s.settleOne x).shares slot ≤ s.shares slot + if x.slot = slot then 1 else 0 := by
  have hafter := Bare.shares_afterExecs (s := s.tell x) h
    (s.waits.filterMap (awaits? x.slot)) (RoundTrip.ofOutcome x.outcome).executed slot
  have howed := count_owed (f := fun w =>
      if w.task.slot? = some x.slot ∧ w.result = none then
        { w with result := some (w.task.reply (.ofOutcome x.outcome)) }
      else w) (g := awaits? x.slot) s.waits ?_ ?_ slot
  · refine Nat.le_trans hafter ?_
    unfold shares kept
    rw [show (s.tell x).settled = s.settled ++ [x] from rfl, count_settled_snoc,
      List.count_append, List.count_append, tell_waits]
    show _ + ((s.transactions.flatMap (·.2.slots)).count slot + _) + _ ≤ _
    omega
  · intro w name slots hawaits
    obtain ⟨⟨deadline, htask⟩, hresult⟩ := exec_of_awaits? hawaits
    refine ⟨owed_of_exec htask hresult, ?_⟩
    rw [if_pos ⟨by rw [htask]; rfl, hresult⟩]
    simp
  · intro w _
    split
    · simp [Wait.owed]
    · exact List.Sublist.refl _

theorem shares_timeOut (s : Session) (slot : Slot) :
    s.timeOut.shares slot + ((s.waits.filterMap (expires? s.now)).flatMap Prod.snd).count slot ≤
      s.shares slot := by
  have howed := count_owed (f := fun w =>
      if w.isLate s.now then { w with result := some (w.task.reply .timedOut) } else w)
    (g := expires? s.now) s.waits ?_ ?_ slot
  · unfold shares kept
    rw [List.count_append, List.count_append]
    unfold timeOut
    dsimp only
    omega
  · intro w name slots hexpires
    obtain ⟨⟨own, deadline, htask⟩, hlate⟩ := exec_of_expires? hexpires
    refine ⟨owed_of_exec htask (late_of_isLate hlate).1, ?_⟩
    rw [if_pos hlate]
    simp
  · intro w _
    split
    · simp [Wait.owed]
    · exact List.Sublist.refl _

theorem Bare.shares_expire (h : s.Bare) (slot : Slot) : s.expire.shares slot ≤ s.shares slot := by
  have hbare : s.timeOut.Bare := h
  have hafter := hbare.shares_afterExecs (s.waits.filterMap (expires? s.now))
    RoundTrip.timedOut.executed slot
  exact Nat.le_trans hafter (shares_timeOut s slot)

theorem Bare.afterExecs (h : s.Bare) (execs : List (String × List Slot)) (outer : Reply) :
    (s.afterExecs execs outer).Bare := by
  induction execs generalizing s with
  | nil => exact h
  | cons x rest ih => exact ih (h.afterExec x.1 x.2 outer)

theorem Bare.settleOne (h : s.Bare) (x : Settlement) : (s.settleOne x).Bare :=
  Bare.afterExecs (s := s.tell x) h _ _

theorem Bare.shares_settle (h : s.Bare) (xs : List Settlement) (slot : Slot) :
    (s.settle xs).shares slot ≤ s.shares slot + (xs.map (·.slot)).count slot := by
  induction xs generalizing s with
  | nil => exact Nat.le_refl _
  | cons x rest ih =>
      have hone := h.shares_settleOne x slot
      have hrest := ih (h.settleOne x)
      rw [List.map_cons, List.count_cons]
      simp only [beq_iff_eq]
      exact Nat.le_trans hrest (by omega)

end Session

end RespClient
