import Mathlib.Data.List.Nodup
import RespClient.Proofs.Session.Callers
import RespClient.Proofs.Session.Moves

/-!
# What callers hear

A session follows its callers when everybody who waits in it hears how his slot ended, and nothing
else (`Follows`). Whatever callers do keeps that (`Follows.act`), and so does an answer
(`Follows.answer`): the answer of `EXEC` ends the execution, and the callers of the recorded
commands get their shares.
-/

namespace RespClient

/-! ## §1  The end of a slot -/

namespace Settlement

variable {xs : List Settlement} {slot : Slot}

theorem find?_eq_none (h : ∀ x ∈ xs, x.slot ≠ slot) : find? xs slot = none := by
  unfold find?
  rw [Option.map_eq_none_iff, List.find?_eq_none]
  simpa using h

theorem find?_snoc (xs : List Settlement) (x : Settlement) (slot : Slot) :
    find? (xs ++ [x]) slot =
      (find? xs slot).or (if x.slot = slot then some x.outcome else none) := by
  unfold find?
  rw [List.find?_append, Option.map_or, List.find?_singleton]
  congr 1
  by_cases h : x.slot = slot <;> simp [h]

/-- Where no slot ends twice, each end is the one that counts. -/
theorem find?_of_mem (h : (xs.map (·.slot)).Nodup) {x : Settlement} (hx : x ∈ xs) :
    find? xs x.slot = some x.outcome := by
  induction xs with
  | nil => exact absurd hx (by simp)
  | cons y rest ih =>
      rw [List.map_cons, List.nodup_cons] at h
      unfold find? at ih ⊢
      rw [List.find?_cons]
      rcases List.mem_cons.mp hx with rfl | hx
      · simp
      · have hne : y.slot ≠ x.slot := fun he => h.1 (he ▸ List.mem_map_of_mem hx)
        simp only [hne, decide_false]
        exact ih h.2 hx

theorem mem_of_find? {outcome : Outcome} (h : find? xs slot = some outcome) :
    ⟨slot, outcome⟩ ∈ xs := by
  unfold find? at h
  obtain ⟨x, hfind, rfl⟩ := Option.map_eq_some_iff.mp h
  have hslot : x.slot = slot := by simpa using List.find?_some hfind
  rw [← hslot]
  exact List.mem_of_find?_eq_some hfind

/-- The reply that the slot got, if it got one. -/
def reply? (xs : List Settlement) (slot : Slot) : Option Reply :=
  (find? xs slot).bind fun outcome =>
    match outcome with
    | .reply r => some r
    | .dropped => none

theorem reply?_of_mem (h : (xs.map (·.slot)).Nodup) {r : Reply} (hx : ⟨slot, .reply r⟩ ∈ xs) :
    reply? xs slot = some r := by
  unfold reply?
  rw [find?_of_mem h hx]
  rfl

end Settlement

/-! ## §2  Hearing how a slot ended -/

namespace Session

variable {s : Session}

/-- Whoever waits has heard how his slot ended, if it has, and nothing else. -/
def Heard (s : Session) : Prop :=
  ∀ w ∈ s.waits, w.result =
    (w.task.slot?.bind (Settlement.find? s.settled)).map fun o => w.task.reply (.ofOutcome o)

theorem Heard.tell (h : s.Heard) (x : Settlement) : (s.tell x).Heard := by
  intro w' hw'
  obtain ⟨w, hw, rfl⟩ := List.mem_map.mp hw'
  have hheard := h w hw
  have hsettled : (s.tell x).settled = s.settled ++ [x] := rfl
  rw [hsettled]
  cases hslot : w.task.slot? with
  | none =>
      rw [hslot] at hheard
      simp only [hslot, reduceCtorEq, false_and, if_false]
      exact hheard
  | some slot =>
      rw [hslot, Option.bind_some] at hheard
      by_cases htold : slot = x.slot ∧ w.result = none
      · obtain ⟨rfl, hnone⟩ := htold
        rw [hnone, eq_comm, Option.map_eq_none_iff] at hheard
        simp [hslot, hnone, Settlement.find?_snoc, hheard]
      · have hkeep : ¬(some slot = some x.slot ∧ w.result = none) := by simpa using htold
        simp only [hkeep, if_false, hslot, Option.bind_some, Settlement.find?_snoc]
        cases hfind : Settlement.find? s.settled slot with
        | none =>
            have hnone : w.result = none := by rw [hheard, hfind]; rfl
            have hne : x.slot ≠ slot := fun he => htold ⟨he.symm, hnone⟩
            simp [hne, hnone]
        | some o =>
            rw [hheard, hfind]
            rfl

theorem Heard.foldl_tell (h : s.Heard) (xs : List Settlement) :
    (xs.foldl Session.tell s).Heard := by
  induction xs generalizing s with
  | nil => exact h
  | cons x rest ih => exact ih (h.tell x)

/-- Somebody more waits, for a slot that is opened now, while submissions and transactions come and
go. -/
def join (s : Session) (queue : List Submission) (transactions : List (String × Transaction))
    (id : String) (task : Task) : Session :=
  { s.freshSlot.2 with queue, transactions }.wait id task none

/-- Who waits for a slot that has not ended has heard nothing. -/
theorem Heard.join (h : s.Heard) {task : Task} {slot : Slot} (hslot : task.slot? = some slot)
    (hnew : ∀ x ∈ s.settled, x.slot ≠ slot) (queue : List Submission)
    (transactions : List (String × Transaction)) (id : String) :
    (s.join queue transactions id task).Heard := by
  intro w hw
  have hsettled : (s.join queue transactions id task).settled = s.settled := rfl
  rw [hsettled]
  rcases List.mem_append.mp hw with hw | hw
  · exact h w hw
  · rw [List.mem_singleton.mp hw, hslot, Option.bind_some, Settlement.find?_eq_none hnew]
    rfl

/-- The side of the callers: everything but the channel and what is beyond it. -/
structure Near where
  client : Bool
  replyTimeout : Nat
  transactions : List (String × Transaction)
  waits : List Wait
  receivers : Receivers
  settled : List Settlement

def near (s : Session) : Near :=
  ⟨s.client, s.replyTimeout, s.transactions, s.waits, s.receivers, s.settled⟩

/-- Who waits, and for which slot. -/
def places (s : Session) : List (String × Option Slot) := s.waits.map fun w => (w.id, w.task.slot?)

/-- An execution waited for: the transaction, the slots of its callers, and its own. -/
def execution? : Task → Option (String × List Slot × Slot)
  | .exec name callers slot _ => some (name, callers, slot)
  | _ => none

def executions (s : Session) : List (String × List Slot × Slot) :=
  s.waits.filterMap fun w => execution? w.task

theorem places_of_aside {s t : Session} (h : t.aside = s.aside) : t.places = s.places := by
  have haside : ∀ s : Session, s.aside.places = s.places := fun s => List.map_map
  rw [← haside t, h, haside]

theorem executions_of_aside {s t : Session} (h : t.aside = s.aside) :
    t.executions = s.executions := by
  have haside : ∀ s : Session, s.aside.executions = s.executions := fun s => List.filterMap_map
  rw [← haside t, h, haside]

end Session

/-! ## §3  Following the callers -/

/-- In the session the same callers wait for the same slots, and have time to. -/
structure Callers.Roster (tx : String) (g : Callers) (s : Session) : Prop where
  client : s.client = true
  patient : s.replyTimeout ≠ 0
  next : s.receivers.next = g.ids.length
  places : s.places = g.ids.zipIdx.map fun (id, k) => (id, some ⟨k⟩)
  executions : s.executions = g.executing.toList.map fun (slot, callers) => (tx, callers, slot)

/-- The session follows the callers: those who wait hear how their slots ended, and what has ended
is what the answers so far have settled. The transaction is at hand while it is recorded; when
its execution is over it is there again, empty. -/
structure Callers.Follows (tx : String) (g : Callers) (answered : List Answer) (s : Session) :
    Prop where
  roster : g.Roster tx s
  heard : s.Heard
  settled : s.settled = answered.flatMap g.settle
  recording : ∀ t, g.recording = some t → s.transactions = [(tx, t)]
  free : g.recording = none → s.transactions = [] ∨ s.transactions = [(tx, {})]

namespace Callers

open Session

variable {tx : String} {g g' : Callers} {s s' : Session}

theorem Roster.of_aside (h : g.Roster tx s) (haside : s'.aside = s.aside) : g.Roster tx s' := by
  have hclient := congrArg Session.client haside
  have htimeout := congrArg Session.replyTimeout haside
  have hreceivers := congrArg Session.receivers haside
  refine ⟨Eq.trans hclient h.client, ?_, ?_, ?_, ?_⟩
  · exact ne_of_eq_of_ne htimeout h.patient
  · exact (congrArg Receivers.next hreceivers).trans h.next
  · exact (places_of_aside haside).trans h.places
  · exact (executions_of_aside haside).trans h.executions

theorem Roster.slot_eq (h : g.Roster tx s) : s.freshSlot.1 = g.next := congrArg Slot.mk h.next

theorem Roster.join (h : g.Roster tx s) {task : Task} (hslot : task.slot? = some g.next)
    {id : String} (hids : g'.ids = g.ids ++ [id])
    (hexecs : g'.executing.toList.map (fun (slot, callers) => (tx, callers, slot)) =
      g.executing.toList.map (fun (slot, callers) => (tx, callers, slot)) ++
        (execution? task).toList)
    (queue : List Submission) (transactions : List (String × Transaction)) :
    g'.Roster tx (s.join queue transactions id task) := by
  refine ⟨h.client, h.patient, ?_, ?_, ?_⟩
  · show s.receivers.next + 1 = _
    rw [h.next, hids, List.length_append, List.length_singleton]
  · have hplaces : (s.join queue transactions id task).places =
        s.places ++ [(id, some g.next)] := by
      rw [← hslot]
      exact List.map_append
    rw [hplaces, h.places, hids, List.zipIdx_append, List.map_append]
    simp [Callers.next]
  · rw [hexecs, ← h.executions]
    refine List.filterMap_append.trans (congrArg _ ?_)
    show List.filterMap _ [(⟨id, task, none⟩ : Wait)] = _
    rw [List.filterMap_cons, List.filterMap_nil]
    cases execution? task <;> rfl

/-- Following concerns the near side alone. -/
theorem Follows.of_near {answered : List Answer} (h : g.Follows tx answered s)
    (hnear : s'.near = s.near) : g.Follows tx answered s' := by
  obtain ⟨hclient, htimeout, htransactions, hwaits, hreceivers, hsettled⟩ :=
    Near.mk.inj hnear
  refine ⟨⟨?_, ?_, ?_, ?_, ?_⟩, ?_, ?_, ?_, ?_⟩
  · exact hclient.trans h.roster.client
  · exact ne_of_eq_of_ne htimeout h.roster.patient
  · exact (congrArg Receivers.next hreceivers).trans h.roster.next
  · exact (congrArg (List.map _) hwaits).trans h.roster.places
  · exact (congrArg (List.filterMap _) hwaits).trans h.roster.executions
  · intro w hw
    rw [hsettled]
    exact h.heard w (hwaits ▸ hw)
  · exact hsettled.trans h.settled
  · exact htransactions ▸ h.recording
  · exact htransactions ▸ h.free

/-- All that has ended had been opened. -/
theorem Follows.settled_ne {answered : List Answer} (h : g.Follows tx answered s)
    (hfresh : g.Fresh) (hanswered : answered.map (·.command) <+: g.written) :
    ∀ x ∈ s.settled, x.slot ≠ g.next := by
  intro x hx hslot
  rw [h.settled] at hx
  have hbelow : x.slot.id < g.ids.length := by
    refine hfresh.below _ ?_
    rcases List.mem_append.mp (slot_of_settle hx) with hmem | hmem
    · exact List.mem_append_left _ ((hanswered.sublist.filterMap _).subset hmem)
    · exact List.mem_append_right _ hmem
  rw [hslot] at hbelow
  exact Nat.lt_irrefl _ hbelow

variable {answered : List Answer}

theorem Follows.transaction? (h : g.Follows tx answered s) {t : Transaction}
    (ht : g.recording = some t) : s.transaction? tx = some t := by
  unfold Session.transaction?
  rw [h.recording t ht, List.lookup_cons_self]

theorem Follows.dispatch_eq (h : g.Follows tx answered s) (hopen : s.closed = false) (r : Inquiry) :
    (s.act r.dispatch).2 =
      s.join (s.queue ++ [.single (r.command.withSlot g.next)]) s.transactions r.id
        (.dispatch g.next (s.now + s.replyTimeout)) := by
  rw [← h.roster.slot_eq]
  simp only [Inquiry.dispatch, act, r.ofName_eq, h.roster.client, if_true]
  exact dispatch_of_open hopen ..

theorem Follows.queue_eq (h : g.Follows tx answered s) {t : Transaction}
    (ht : g.recording = some t) (r : Inquiry) :
    (s.act (r.queue tx)).2 =
      s.join s.queue [(tx, t.queue r.command g.next)] r.id (.queued g.next) := by
  have htransactions : (s.transactions.map fun x =>
      if x.1 = tx then (x.1, t.queue r.command s.freshSlot.1) else x) =
      [(tx, t.queue r.command g.next)] := by
    rw [h.recording t ht, h.roster.slot_eq]
    simp
  rw [← htransactions, ← h.roster.slot_eq]
  simp only [Inquiry.queue, act, r.ofName_eq, h.transaction? ht]
  rfl

theorem Follows.exec_eq (h : g.Follows tx answered s) (hopen : s.closed = false) {t : Transaction}
    (ht : g.recording = some t) (id : String) {batch : Submission}
    (hbatch : t.submission g.next = .ok batch) :
    (s.act (.exec tx id)).2 =
      s.join (s.queue ++ [batch]) [] id (.exec tx t.slots g.next (s.now + s.replyTimeout)) := by
  have htransactions : s.transactions.filter (·.1 ≠ tx) = [] := by
    rw [h.recording t ht]
    simp
  rw [← htransactions, ← h.roster.slot_eq]
  simp only [act, h.transaction? ht]
  rw [exec_of_ok (h.roster.slot_eq.symm ▸ hbatch)]
  dsimp only
  rw [if_neg (by simp [hopen]), if_neg h.roster.patient]
  rfl

/-- The transaction that is put back replaces none that has recorded anything. -/
theorem putTransaction_of_free (h : s.transactions = [] ∨ s.transactions = [(tx, {})])
    (t : Transaction) : s.putTransaction tx t = { s with transactions := [(tx, t)] } := by
  unfold putTransaction loseTransaction transaction?
  rcases h with h | h
  · simp [h]
  · rw [h, List.lookup_cons_self]
    simp [Transaction.discard]

theorem Follows.multi_eq (h : g.Follows tx answered s) (hrecording : g.recording = none) :
    (s.act (.multi tx)).2 = { s with transactions := [(tx, {})] } := by
  rw [← putTransaction_of_free (h.free hrecording)]
  simp only [act, h.roster.client, if_true]

theorem Follows.ask (h : g.Follows tx answered s) (hopen : s.closed = false)
    (hnew : ∀ x ∈ s.settled, x.slot ≠ g.next) (r : Inquiry) :
    (g.ask r).Follows tx answered (s.act r.dispatch).2 := by
  rw [h.dispatch_eq hopen]
  refine ⟨?_, h.heard.join rfl hnew _ _ r.id, h.settled, h.recording, h.free⟩
  apply h.roster.join
  · rfl
  · rfl
  · exact (List.append_nil _).symm

theorem Follows.multi (h : g.Follows tx answered s) (hrecording : g.recording = none) :
    Follows tx { g with recording := some {} } answered (s.act (.multi tx)).2 := by
  rw [h.multi_eq hrecording]
  refine ⟨⟨h.roster.client, h.roster.patient, h.roster.next, h.roster.places, h.roster.executions⟩,
    h.heard, h.settled, ?_, fun hnone => absurd hnone (by simp)⟩
  intro t ht
  rw [← Option.some.inj ht]

theorem Follows.record (h : g.Follows tx answered s) {t : Transaction}
    (ht : g.recording = some t) (hnew : ∀ x ∈ s.settled, x.slot ≠ g.next) (r : Inquiry) :
    (g.record t r).Follows tx answered (s.act (r.queue tx)).2 := by
  rw [h.queue_eq ht]
  refine ⟨?_, h.heard.join rfl hnew _ _ r.id, h.settled, ?_, ?_⟩
  · apply h.roster.join
    · rfl
    · rfl
    · exact (List.append_nil _).symm
  · intro u hu
    rw [← Option.some.inj hu]
    rfl
  · intro hnone
    exact absurd hnone (by simp [Callers.record])

/-- What was answered before the execution began settles what it would have. -/
theorem settle_exec (hfresh : g.Fresh) (hanswered : answered.map (·.command) <+: g.written)
    {t : Transaction} (ht : g.recording = some t) (id : String) (batch : Submission) :
    answered.flatMap (g.exec t id batch).settle = answered.flatMap g.settle := by
  have hnone : g.executing = none := hfresh.once.resolve_left (by simp [ht])
  refine List.flatMap_congr fun a ha => ?_
  have hold : a.command.slot ≠ some g.next := by
    intro hslot
    have hmem : g.next ∈ g.written.filterMap (·.slot) :=
      (hanswered.sublist.filterMap _).subset
        (List.mem_filterMap.mpr ⟨a.command, List.mem_map_of_mem ha, hslot⟩)
    exact Nat.lt_irrefl _ (hfresh.below _ (List.mem_append_left _ hmem))
  unfold settle
  rw [hnone]
  simp [Callers.exec, hold]

theorem Follows.exec (h : g.Follows tx answered s) (hopen : s.closed = false) (hfresh : g.Fresh)
    (hanswered : answered.map (·.command) <+: g.written) {t : Transaction}
    (ht : g.recording = some t) (id : String) {batch : Submission}
    (hbatch : t.submission g.next = .ok batch) :
    (g.exec t id batch).Follows tx answered (s.act (.exec tx id)).2 := by
  have hnew := h.settled_ne hfresh hanswered
  have hnone : g.executing = none := hfresh.once.resolve_left (by simp [ht])
  rw [h.exec_eq hopen ht id hbatch]
  refine ⟨?_, h.heard.join rfl hnew _ _ id, ?_, ?_, fun _ => .inl rfl⟩
  · apply h.roster.join
    · rfl
    · rfl
    · rw [hnone]
      rfl
  · rw [settle_exec hfresh hanswered ht]
    exact h.settled
  · intro u hu
    exact absurd hu (by simp [Callers.exec])

/-- **What callers do is followed**, and what they hand over goes into the channel. -/
theorem Follows.act (h : g.Follows tx answered s) (hopen : s.closed = false) (hfresh : g.Fresh)
    (hanswered : answered.map (·.command) <+: g.written) {item : Item}
    (hact : g.act? item = some g') :
    g'.Follows tx answered (s.act (item.action tx)).2 ∧
      (s.act (item.action tx)).2.transport = s.transport ∧
      ∃ batches, g'.offered = g.offered ++ batches ∧
        (s.act (item.action tx)).2.far = s.far.offer batches := by
  have hnew := h.settled_ne hfresh hanswered
  rcases act?_cases hact with ⟨r, rfl, rfl⟩ | ⟨rfl, hrec, -, rfl⟩ | ⟨r, t, rfl, ht, rfl⟩ |
    ⟨id, t, batch, rfl, ht, hbatch, rfl⟩
  · refine ⟨h.ask hopen hnew r, ?_⟩
    rw [Item.action, h.dispatch_eq hopen]
    exact ⟨rfl, _, rfl, rfl⟩
  · refine ⟨h.multi hrec, ?_⟩
    rw [Item.action, h.multi_eq hrec]
    exact ⟨rfl, [], (List.append_nil _).symm, (Far.offer_nil _).symm⟩
  · refine ⟨h.record ht hnew r, ?_⟩
    rw [Item.action, h.queue_eq ht]
    exact ⟨rfl, [], (List.append_nil _).symm, (Far.offer_nil _).symm⟩
  · refine ⟨h.exec hopen hfresh hanswered ht id hbatch, ?_⟩
    rw [Item.action, h.exec_eq hopen ht id hbatch]
    exact ⟨rfl, _, rfl, rfl⟩

/-! ## §4  Answers -/

theorem Roster.tell (h : g.Roster tx s) (xs : List Settlement) :
    g.Roster tx (xs.foldl Session.tell s) := h.of_aside ((quiet_aside s).tells rfl xs)

theorem foldl_tell_settled (s : Session) (xs : List Settlement) :
    (xs.foldl Session.tell s).settled = s.settled ++ xs := by
  induction xs generalizing s with
  | nil => exact (List.append_nil _).symm
  | cons x rest ih =>
      rw [List.foldl_cons, ih]
      exact List.append_assoc ..

theorem foldl_tell_transactions (s : Session) (xs : List Settlement) :
    (xs.foldl Session.tell s).transactions = s.transactions := by
  induction xs generalizing s with
  | nil => rfl
  | cons x rest ih => rw [List.foldl_cons, ih, Session.tell]

/-- An execution that waits for a slot and has not ended. -/
def awaits? (slot : Slot) (w : Wait) : Option (String × List Slot) :=
  match w.task, w.result with
  | .exec name callers own _, none => if own = slot then some (name, callers) else none
  | _, _ => none

theorem settleOne_eq (s : Session) (x : Settlement) :
    s.settleOne x = (s.waits.filterMap (awaits? x.slot)).foldl
      (fun s (name, callers) => s.afterExec name callers (RoundTrip.ofOutcome x.outcome).executed)
      (s.tell x) := rfl

theorem eq_exec_of_execution? {task : Task} {name : String} {callers : List Slot} {slot : Slot}
    (h : execution? task = some (name, callers, slot)) :
    ∃ deadline, task = .exec name callers slot deadline := by
  cases task with
  | exec =>
      obtain ⟨rfl, rfl, rfl⟩ : _ ∧ _ ∧ _ := by simpa [execution?] using h
      exact ⟨_, rfl⟩
  | _ => exact absurd h (by simp [execution?])

theorem execution?_of_awaits? {slot : Slot} {w : Wait} {name : String} {callers : List Slot}
    (h : awaits? slot w = some (name, callers)) :
    execution? w.task = some (name, callers, slot) := by
  unfold awaits? at h
  split at h
  · next htask _ =>
      split at h
      · next hown =>
          obtain ⟨rfl, rfl⟩ := Prod.mk.inj (Option.some.inj h)
          rw [htask, hown]
          rfl
      · exact absurd h (by simp)
  · exact absurd h (by simp)

theorem awaits?_eq_none {slot : Slot} {w : Wait} (h : ∀ name callers,
    execution? w.task ≠ some (name, callers, slot)) : awaits? slot w = none := by
  cases hw : awaits? slot w with
  | none => rfl
  | some found => exact absurd (execution?_of_awaits? hw) (h _ _)

/-- An execution waited for is the one there is. -/
theorem Roster.executing_of_wait (h : g.Roster tx s) {w : Wait} (hw : w ∈ s.waits) {name : String}
    {callers : List Slot} {slot : Slot} (hexec : execution? w.task = some (name, callers, slot)) :
    g.executing = some (slot, callers) := by
  have hmem : (name, callers, slot) ∈ s.executions := List.mem_filterMap.mpr ⟨w, hw, hexec⟩
  rw [h.executions] at hmem
  obtain ⟨⟨own, others⟩, hown, heq⟩ := List.mem_map.mp hmem
  obtain ⟨-, rfl, rfl⟩ : _ ∧ others = callers ∧ own = slot := by simpa using heq
  exact Option.mem_toList.mp hown

/-- No execution waits for the slot of another command. -/
theorem awaits_nobody (h : g.Roster tx s) {slot : Slot}
    (hslot : ∀ callers, g.executing ≠ some (slot, callers)) :
    s.waits.filterMap (awaits? slot) = [] := by
  rw [List.filterMap_eq_nil_iff]
  intro w hw
  exact awaits?_eq_none fun name callers hexec => hslot callers (h.executing_of_wait hw hexec)

/-- One execution waits for the slot of `EXEC`, as long as this has not ended. -/
theorem awaits_execution (h : g.Roster tx s) (hheard : s.Heard) {slot : Slot}
    {callers : List Slot} (hexec : g.executing = some (slot, callers))
    (hnew : Settlement.find? s.settled slot = none) :
    s.waits.filterMap (awaits? slot) = [(tx, callers)] := by
  have hall : s.waits.filterMap (fun w => execution? w.task) = [(tx, callers, slot)] := by
    rw [show s.waits.filterMap _ = _ from h.executions, hexec]
    rfl
  obtain ⟨before, w, after, hwaits, hbefore, hw, hafter⟩ := List.filterMap_eq_cons_iff.mp hall
  rw [List.filterMap_eq_nil_iff] at hafter
  obtain ⟨deadline, htask⟩ := eq_exec_of_execution? hw
  have hresult : w.result = none := by
    have hmem : w ∈ s.waits := by
      rw [hwaits]
      exact List.mem_append_right _ List.mem_cons_self
    rw [hheard w hmem, htask, show Task.slot? (.exec tx callers slot deadline) = some slot from rfl,
      Option.bind_some, hnew]
    rfl
  have hone : awaits? slot w = some (tx, callers) := by
    unfold awaits?
    rw [htask, hresult]
    exact if_pos rfl
  have hskip : ∀ {ws : List Wait}, (∀ w ∈ ws, execution? w.task = none) →
      ws.filterMap (awaits? slot) = [] := by
    intro ws hws
    refine List.filterMap_eq_nil_iff.mpr fun w hw => awaits?_eq_none fun name callers => ?_
    rw [hws w hw]
    simp
  rw [hwaits, List.filterMap_append, hskip hbefore, List.filterMap_cons_some hone, hskip hafter]
  rfl

/-- An execution that is over has been answered. -/
theorem Follows.answer_of_result (h : g.Follows tx answered s) {w : Wait} (hw : w ∈ s.waits)
    {name : String} {callers : List Slot} {slot : Slot}
    (hexec : execution? w.task = some (name, callers, slot)) (hresult : w.result.isSome = true) :
    ∃ a ∈ answered, a.command.slot = some slot := by
  obtain ⟨deadline, htask⟩ := eq_exec_of_execution? hexec
  rw [h.heard w hw, htask, Option.isSome_map,
    show Task.slot? (.exec name callers slot deadline) = some slot from rfl, Option.bind_some,
    h.settled] at hresult
  obtain ⟨outcome, hfind⟩ := Option.isSome_iff_exists.mp hresult
  obtain ⟨a, ha, hx⟩ := List.mem_flatMap.mp (Settlement.mem_of_find? hfind)
  refine ⟨a, ha, ?_⟩
  rcases mem_settle.mp hx with ⟨hown, -⟩ | ⟨own, _, hexecuting, hown, -⟩
  · exact hown
  · -- A caller's slot comes with the answer to the execution, whatever slot it is.
    rw [h.roster.executing_of_wait hw hexec] at hexecuting
    obtain ⟨rfl, -⟩ := Prod.mk.inj (Option.some.inj hexecuting)
    exact hown

theorem settle_of_slot {a : Answer} {slot : Slot} (hslot : a.command.slot = some slot) :
    a.settle = [⟨slot, .reply a.reply⟩] := by
  simp [Answer.settle, Command.resolve, hslot, Settlement.deliver]

/-- The answer to `EXEC` ends the execution: the callers get their shares, and then the transaction
comes back. -/
theorem Follows.answer_exec (h : g.Follows tx answered s) (hfresh : g.Fresh) {a : Answer}
    {slot : Slot} {callers : List Slot} (hslot : a.command.slot = some slot)
    (hexec : g.executing = some (slot, callers))
    (hnew : Settlement.find? s.settled slot = none) :
    g.Follows tx (answered ++ [a]) (s.settleOne ⟨slot, .reply a.reply⟩) := by
  have hnone : g.recording = none := hfresh.once.resolve_right (by simp [hexec])
  have hsettle : g.settle a =
      ⟨slot, .reply a.reply⟩ :: Transaction.distribute callers a.reply := by
    unfold settle
    simp [settle_of_slot hslot, hexec, hslot]
  have hfree := h.free hnone
  rw [← foldl_tell_transactions s (g.settle a)] at hfree
  have hafter : s.settleOne ⟨slot, .reply a.reply⟩ =
      ((g.settle a).foldl Session.tell s).putTransaction tx {} := by
    rw [settleOne_eq, awaits_execution h.roster h.heard hexec hnew, hsettle]
    rfl
  rw [hafter, putTransaction_of_free hfree]
  have hroster := h.roster.tell (g.settle a)
  refine ⟨⟨hroster.client, hroster.patient, hroster.next, hroster.places, hroster.executions⟩,
    h.heard.foldl_tell (g.settle a), ?_, fun t ht => absurd ht (by simp [hnone]),
    fun _ => .inr rfl⟩
  rw [List.flatMap_append, List.flatMap_singleton, ← h.settled]
  exact foldl_tell_settled s (g.settle a)

/-- The answer to any other command is heard by the one who waits for it. -/
theorem Follows.answer_other (h : g.Follows tx answered s) {a : Answer} {slot : Slot}
    (hslot : a.command.slot = some slot) (hother : ∀ callers, g.executing ≠ some (slot, callers)) :
    g.Follows tx (answered ++ [a]) (s.settleOne ⟨slot, .reply a.reply⟩) := by
  have hsettle : g.settle a = [⟨slot, .reply a.reply⟩] := by
    unfold settle
    rw [settle_of_slot hslot]
    cases hg : g.executing with
    | none => rfl
    | some exec =>
        obtain ⟨own, callers⟩ := exec
        have hne : slot ≠ own := fun he => hother callers (he ▸ hg)
        simp [hslot, hne]
  rw [settleOne_eq, awaits_nobody h.roster hother]
  refine ⟨h.roster.tell [_], h.heard.tell _, ?_, h.recording, h.free⟩
  rw [List.flatMap_append, List.flatMap_singleton, hsettle, ← h.settled]
  rfl

/-- **An answer is heard** by the callers whose slots it settles. -/
theorem Follows.answer (h : g.Follows tx answered s) (hfresh : g.Fresh) (a : Answer)
    (hnew : ∀ slot callers, g.executing = some (slot, callers) → a.command.slot = some slot →
      Settlement.find? s.settled slot = none) :
    g.Follows tx (answered ++ [a]) (s.settle a.settle) := by
  cases hslot : a.command.slot with
  | none =>
      have hnothing : g.settle a = [] := by
        refine List.eq_nil_iff_forall_not_mem.mpr fun x hx => ?_
        rcases mem_settle.mp hx with ⟨hown, -⟩ | ⟨_, _, -, hown, -⟩ <;> simp [hslot] at hown
      have hsilent : a.settle = [] := by
        simp [Answer.settle, Command.resolve, hslot, Settlement.deliver]
      rw [hsilent]
      refine ⟨h.roster, h.heard, ?_, h.recording, h.free⟩
      rw [List.flatMap_append, List.flatMap_singleton, hnothing, List.append_nil]
      exact h.settled
  | some slot =>
      rw [settle_of_slot hslot]
      by_cases hexec : ∃ callers, g.executing = some (slot, callers)
      · obtain ⟨callers, hexec⟩ := hexec
        exact h.answer_exec hfresh hslot hexec (hnew slot callers hexec hslot)
      · exact h.answer_other hslot fun callers hc => hexec ⟨callers, hc⟩

/-- **Answers are heard**, as long as they answer what was written. -/
theorem Follows.answers (h : g.Follows tx answered s) (hfresh : g.Fresh) {more : List Answer}
    (hwritten : (answered ++ more).map (·.command) <+: g.written) :
    g.Follows tx (answered ++ more) (s.settle (more.flatMap Answer.settle)) := by
  induction more generalizing s answered with
  | nil =>
      rw [List.append_nil]
      exact h
  | cons a rest ih =>
      have hnew : ∀ slot callers, g.executing = some (slot, callers) →
          a.command.slot = some slot → Settlement.find? s.settled slot = none := by
        intro slot callers hexec hslot
        refine Settlement.find?_eq_none fun x hx hxslot => ?_
        rw [h.settled] at hx
        have hmem := slot_of_settle hx
        rw [hxslot] at hmem
        -- The slot of `a` would be there twice.
        have hnodup : (((answered ++ a :: rest).map (·.command)).filterMap (·.slot) ++
            g.shared).Nodup :=
          ((hwritten.sublist.filterMap _).append (List.Sublist.refl _)).nodup hfresh.nodup
        rw [List.map_append, List.filterMap_append, List.map_cons, List.filterMap_cons_some hslot,
          List.append_assoc, List.cons_append, List.nodup_middle, List.nodup_cons] at hnodup
        refine hnodup.1 ?_
        rcases List.mem_append.mp hmem with hmem | hmem
        · exact List.mem_append_left _ hmem
        · exact List.mem_append_right _ (List.mem_append_right _ hmem)
      have hone := h.answer hfresh a hnew
      have hrest := ih hone (by rwa [List.append_assoc])
      rw [List.append_assoc] at hrest
      have hsettle : s.settle ((a :: rest).flatMap Answer.settle) =
          (s.settle a.settle).settle (rest.flatMap Answer.settle) := List.foldl_append
      rw [hsettle]
      exact hrest

/-- **What everybody has heard**, in the order in which they began to wait. -/
theorem Follows.results (h : g.Follows tx answered s) :
    s.waits.map (fun w => (w.id, w.result)) =
      g.ids.zipIdx.map fun (id, k) => (id, Settlement.reply? (answered.flatMap g.settle) ⟨k⟩) := by
  have hresult : ∀ w ∈ s.waits,
      w.result = w.task.slot?.bind (Settlement.reply? (answered.flatMap g.settle)) := by
    intro w hw
    rw [h.heard w hw, h.settled]
    cases w.task.slot? with
    | none => rfl
    | some slot =>
        rw [Option.bind_some, Option.bind_some, Settlement.reply?]
        cases hfind : Settlement.find? (answered.flatMap g.settle) slot with
        | none => rfl
        | some outcome =>
            obtain ⟨r, hr⟩ := outcome_of_settle (Settlement.mem_of_find? hfind)
            obtain rfl : outcome = .reply r := hr
            cases w.task <;> rfl
  have hplaces := congrArg (List.map fun (id, slot?) =>
    (id, Option.bind slot? (Settlement.reply? (answered.flatMap g.settle)))) h.roster.places
  unfold places at hplaces
  rw [List.map_map, List.map_map] at hplaces
  rw [List.map_congr_left fun w hw => congrArg (Prod.mk w.id) (hresult w hw)]
  exact hplaces

end Callers

end RespClient
