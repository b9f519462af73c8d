import Mathlib.Logic.Relation
import RespClient.Proofs.Session.Ownership

/-!
# Strokes

Whatever happens in a session is made of few strokes (`Stroke`): something happens beyond the
callers, slots are settled, somebody begins to wait, a transaction comes or goes. Each of them
leaves every slot with its owner (`Owned.stroke`), and so do strokes in a row (`Owned.strokes`).
In their course slots are only opened and the clock only goes on (`Strokes.opened`).
-/

namespace RespClient.Session

variable {handed : List Slot} {s s' : Session} {slot : Slot}

/-! ## §1  Strokes -/

/-- What a stroke of settling may settle. -/
def Settleable (handed : List Slot) (R : Slot → Prop) (xs : List Settlement) : Prop :=
  ∀ x ∈ xs, x.slot ∈ handed ∧ R x.slot ∧ x.Fair

/-- Somebody can begin to wait who has handed this slot over, or has his reply already. -/
inductive Joins (handed : List Slot) (s : Session) : Task → Option Reply → Prop
  | dispatch (slot : Slot) (deadline : Nat) (mem : slot ∈ handed)
      (unsettled : ∀ x ∈ s.settled, x.slot ≠ slot) :
      Joins handed s (.dispatch slot deadline) none
  | done (result : Option Reply) : Joins handed s .done result

/-- Of such strokes everything is made that happens in a session. Those that concern a transaction
concern one that `P` holds of, and what is settled by those who have submissions are slots that `R`
holds of. With the session go the slots that were handed over. -/
inductive Stroke (P : String → Prop) (R : Slot → Prop) :
    List Slot × Session → List Slot × Session → Prop
  /-- Something happens beyond the callers, and new slots are opened. -/
  | beyond {handed handed' : List Slot} {s s' : Session}
      (near : s'.transactions = s.transactions ∧ s'.waits = s.waits ∧ s'.settled = s.settled)
      (next : s.receivers.next ≤ s'.receivers.next)
      (clock : s.now ≤ s'.now ∧ s'.replyTimeout = s.replyTimeout) (grows : handed ⊆ handed')
      (opened : ∀ slot ∈ handed', slot ∈ handed ∨
        s.receivers.next ≤ slot.id ∧ slot.id < s'.receivers.next)
      (carried : ∀ slot ∈ s'.carried, slot ∈ handed') : Stroke P R (handed, s) (handed', s')
  | settle {handed : List Slot} {s : Session} (xs : List Settlement)
      (h : Settleable handed R xs) : Stroke P R (handed, s) (handed, s.settle xs)
  | expire {handed : List Slot} {s : Session} : Stroke P R (handed, s) (handed, s.expire)
  | put {handed : List Slot} {s : Session} (name : String) (hname : P name) :
      Stroke P R (handed, s) (handed, s.putTransaction name {})
  | lose {handed : List Slot} {s : Session} (name : String) (hname : P name) :
      Stroke P R (handed, s) (handed, s.loseTransaction name)
  | join {handed : List Slot} {s : Session} (id : String) {task : Task} {result : Option Reply}
      (h : Joins handed s task result) : Stroke P R (handed, s) (handed, s.wait id task result)
  | record {handed : List Slot} {s : Session} (name id : String) (hname : P name) {t : Transaction}
      {c : Command} (h : s.transaction? name = some t) (bare : c.slot = none) :
      Stroke P R (handed, s) (handed, s.record name id t c)
  /-- A transaction begins to be executed. -/
  | begins {handed : List Slot} {s : Session} (name id : String) (hname : P name) {t : Transaction}
      {slot : Slot} (deadline : Nat) (h : s.transaction? name = some t) (mem : slot ∈ handed)
      (unsettled : ∀ x ∈ s.settled, x.slot ≠ slot) :
      Stroke P R (handed, s)
        (handed, (s.without name).wait id (.exec name t.slots slot deadline) none)
  /-- A transaction is executed at once, and its own batch is settled before. -/
  | atOnce {handed : List Slot} {s : Session} (name id : String) (hname : P name) {t : Transaction}
      {xs : List Settlement} {outer : Reply} (h : s.transaction? name = some t)
      (hxs : Settleable handed R xs) (fair : outer.Fair) :
      Stroke P R (handed, s)
        (handed, ((s.without name).settle xs).execAtOnce name id t.slots outer)

/-! ## §2  Every stroke leaves slots with their owners -/

theorem Calm.beyond (h : Calm handed s) {handed' : List Slot}
    (hnear : s'.transactions = s.transactions ∧ s'.waits = s.waits ∧ s'.settled = s.settled)
    (hnext : s.receivers.next ≤ s'.receivers.next) (hnow : s.now ≤ s'.now)
    (hgrows : handed ⊆ handed')
    (hopened : ∀ slot ∈ handed', slot ∈ handed ∨
      s.receivers.next ≤ slot.id ∧ slot.id < s'.receivers.next)
    (hcarried : ∀ slot ∈ s'.carried, slot ∈ handed') : Calm handed' s' := by
  obtain ⟨htransactions, hwaits, hsettled⟩ := hnear
  have hcallers : s'.callers = s.callers := by
    unfold Session.callers
    rw [htransactions, hwaits]
  refine ⟨?_, ?_, hcarried, ?_, ?_, ?_, ?_, ?_, ?_⟩
  · intro slot hslot
    rcases hopened slot hslot with hold | ⟨-, hnew⟩
    · exact Nat.lt_of_lt_of_le (h.opened slot hold) hnext
    · exact hnew
  · intro slot hslot
    rw [hcallers] at hslot
    obtain ⟨hnot, hbelow⟩ := h.callers slot hslot
    refine ⟨fun hmem => ?_, Nat.lt_of_lt_of_le hbelow hnext⟩
    rcases hopened slot hmem with hold | ⟨hnew, -⟩
    · exact hnot hold
    · exact Nat.lt_irrefl _ (Nat.lt_of_lt_of_le hbelow hnew)
  · rw [hwaits]
    intro w hw slot hslot
    exact hgrows (h.waiting w hw slot hslot)
  · rw [htransactions]
    exact h.names
  · unfold Bare
    rw [htransactions]
    exact h.bare
  · rw [hsettled]
    intro x hx
    exact Nat.lt_of_lt_of_le (h.below x hx) hnext
  · rw [hsettled]
    exact h.fair
  · unfold Hears
    rw [hwaits, hsettled]
    intro w hw slot hslot
    rcases h.hears w hw slot hslot with hheard | ⟨deadline, hdeadline, hlate, hresult⟩
    · exact .inl hheard
    · exact .inr ⟨deadline, hdeadline, Nat.le_trans hlate hnow, hresult⟩

/-- Somebody more waits. -/
theorem Calm.wait (h : Calm handed s) (id : String) {task : Task} {result : Option Reply}
    (hcallers : ∀ slot ∈ task.callers, slot ∉ handed ∧ slot.id < s.receivers.next)
    (hhanded : ∀ slot, task.handed? = some slot → slot ∈ handed)
    (hhears : ∀ slot, task.slot? = some slot →
      (∀ x ∈ s.settled, x.slot ≠ slot) ∧ result = none) :
    Calm handed (s.wait id task result) := by
  refine ⟨h.opened, ?_, h.carried, ?_, h.names, h.bare, h.below, h.fair, ?_⟩
  · intro slot hslot
    rcases List.mem_append.mp hslot with hslot | hslot
    · exact h.callers slot (List.mem_append_left _ hslot)
    · obtain ⟨w', hw', hslot⟩ := List.mem_flatMap.mp hslot
      rcases List.mem_append.mp hw' with hw' | hw'
      · exact h.callers slot (mem_callers_of_wait hw' hslot)
      · rw [List.mem_singleton.mp hw'] at hslot
        exact hcallers slot hslot
  · intro w' hw' slot hslot
    rcases List.mem_append.mp hw' with hw' | hw'
    · exact h.waiting w' hw' slot hslot
    · rw [List.mem_singleton.mp hw'] at hslot
      exact hhanded slot hslot
  · intro w' hw' slot hslot
    rcases List.mem_append.mp hw' with hw' | hw'
    · exact h.hears w' hw' slot hslot
    · rw [List.mem_singleton.mp hw'] at hslot ⊢
      obtain ⟨hunsettled, hnone⟩ := hhears slot hslot
      left
      rw [show (s.wait id task result).settled = s.settled from rfl, hnone,
        Settlement.find?_eq_none hunsettled]
      rfl

/-- Transactions change, and all that they keep are callers' slots. -/
theorem Calm.transactions (h : Calm handed s) {ts : List (String × Transaction)}
    (hnames : (ts.map Prod.fst).Nodup)
    (hbare : ∀ x ∈ ts, ∀ c ∈ x.2.batch, c.1.slot = none)
    (hslots : ∀ x ∈ ts, ∀ slot ∈ x.2.slots, slot ∉ handed ∧ slot.id < s.receivers.next) :
    Calm handed { s with transactions := ts } := by
  refine ⟨h.opened, ?_, h.carried, h.waiting, hnames, hbare, h.below, h.fair, h.hears⟩
  intro slot hslot
  rcases List.mem_append.mp hslot with hslot | hslot
  · obtain ⟨x, hx, hslot⟩ := List.mem_flatMap.mp hslot
    exact hslots x hx slot hslot
  · exact h.callers slot (List.mem_append_right _ hslot)

theorem Owned.beyond (h : Owned handed s) {handed' : List Slot}
    (hnear : s'.transactions = s.transactions ∧ s'.waits = s.waits ∧ s'.settled = s.settled)
    (hnext : s.receivers.next ≤ s'.receivers.next) (hnow : s.now ≤ s'.now)
    (hgrows : handed ⊆ handed')
    (hopened : ∀ slot ∈ handed', slot ∈ handed ∨
      s.receivers.next ≤ slot.id ∧ slot.id < s'.receivers.next)
    (hcarried : ∀ slot ∈ s'.carried, slot ∈ handed') : Owned handed' s' := by
  refine ⟨h.toCalm.beyond hnear hnext hnow hgrows hopened hcarried, ?_⟩
  intro slot hslot
  have hshares : s'.shares slot = s.shares slot := by
    unfold shares kept
    rw [hnear.1, hnear.2.1, hnear.2.2]
  rw [hshares]
  exact h.once slot fun hold => hslot (hgrows hold)

theorem Calm.settle_handed (h : Calm handed s) {R : Slot → Prop} {xs : List Settlement}
    (hxs : Settleable handed R xs) : Calm handed (s.settle xs) :=
  h.settle fun x hx => ⟨h.opened _ (hxs x hx).1, (hxs x hx).2.2⟩

/-- Settling slots that were handed over does not count for the others. -/
theorem Bare.shares_settle_handed (h : s.Bare) {R : Slot → Prop} {xs : List Settlement}
    (hxs : Settleable handed R xs) (hslot : slot ∉ handed) :
    (s.settle xs).shares slot ≤ s.shares slot := by
  have hother : slot ∉ xs.map (·.slot) := by
    intro hmem
    obtain ⟨x, hx, rfl⟩ := List.mem_map.mp hmem
    exact hslot (hxs x hx).1
  have hsettle := h.shares_settle xs slot
  rwa [List.count_eq_zero_of_not_mem hother, Nat.add_zero] at hsettle

theorem Owned.settle (h : Owned handed s) {R : Slot → Prop} {xs : List Settlement}
    (hxs : Settleable handed R xs) : Owned handed (s.settle xs) :=
  ⟨h.toCalm.settle_handed hxs, fun slot hslot =>
    Nat.le_trans (h.bare.shares_settle_handed hxs hslot) (h.once slot hslot)⟩

theorem Owned.expire (h : Owned handed s) : Owned handed s.expire :=
  ⟨h.toCalm.expire, fun slot hslot =>
    Nat.le_trans (h.bare.shares_expire slot) (h.once slot hslot)⟩

theorem Owned.put (h : Owned handed s) (name : String) : Owned handed (s.putTransaction name {}) :=
  ⟨h.toCalm.put name, fun slot hslot =>
    Nat.le_trans (h.bare.shares_put name slot) (h.once slot hslot)⟩

theorem Owned.lose (h : Owned handed s) (name : String) : Owned handed (s.loseTransaction name) :=
  ⟨h.toCalm.lose name, fun slot hslot =>
    Nat.le_trans (h.bare.shares_lose name slot) (h.once slot hslot)⟩

theorem shares_wait (s : Session) (id : String) (task : Task) (result : Option Reply)
    (slot : Slot) :
    (s.wait id task result).shares slot =
      s.shares slot + ({ id, task, result } : Wait).owed.count slot := by
  unfold shares kept wait
  simp only [List.flatMap_append, List.flatMap_singleton, List.count_append]
  omega

theorem Owned.join (h : Owned handed s) {task : Task} {result : Option Reply}
    (hjoins : Joins handed s task result) (id : String) : Owned handed (s.wait id task result) := by
  have hnobody : task.callers = [] := by cases hjoins <;> rfl
  refine ⟨h.toCalm.wait id ?_ ?_ ?_, ?_⟩
  · rw [hnobody]
    simp
  · intro slot hslot
    cases hjoins with
    | dispatch own deadline hmem hunsettled =>
        obtain rfl := Option.some.inj hslot
        exact hmem
    | done => exact absurd hslot (by simp [Task.handed?])
  · intro slot hslot
    cases hjoins with
    | dispatch own deadline hmem hunsettled =>
        obtain rfl := Option.some.inj hslot
        exact ⟨hunsettled, rfl⟩
    | done => exact absurd hslot (by simp [Task.slot?])
  · intro slot hslot
    have howed : ({ id, task, result } : Wait).owed = [] := by
      unfold Wait.owed
      rw [hnobody, ite_self]
    rw [shares_wait, howed]
    exact h.once slot hslot

theorem kept_subset_callers (s : Session) : s.kept ⊆ s.callers := by
  intro slot hslot
  rcases List.mem_append.mp hslot with hslot | hslot
  · exact List.mem_append_left _ hslot
  · obtain ⟨w, hw, hslot⟩ := List.mem_flatMap.mp hslot
    refine mem_callers_of_wait hw ?_
    unfold Wait.owed at hslot
    split at hslot
    · exact hslot
    · exact absurd hslot (by simp)

/-- The next slot is in no place yet. -/
theorem Calm.shares_fresh (h : Calm handed s) : s.shares s.freshSlot.1 = 0 := by
  have hsettled : s.freshSlot.1 ∉ s.settled.map (·.slot) := by
    intro hmem
    obtain ⟨x, hx, he⟩ := List.mem_map.mp hmem
    exact Nat.lt_irrefl _ (he ▸ h.below x hx)
  have hkept : s.freshSlot.1 ∉ s.kept := fun hmem =>
    Nat.lt_irrefl _ (h.callers _ (kept_subset_callers s hmem)).2
  unfold shares
  rw [List.count_eq_zero_of_not_mem hsettled, List.count_eq_zero_of_not_mem hkept]

/-- The transaction of a name is in one place, and only there something is recorded. -/
theorem record_eq {name : String} {t : Transaction}
    (hnames : (s.transactions.map Prod.fst).Nodup) (h : s.transaction? name = some t) (id : String)
    (c : Command) :
    ∃ before after, s.transactions = before ++ (name, t) :: after ∧
      s.record name id t c =
        { s.freshSlot.2.wait id (.queued s.freshSlot.1) none with
          transactions := before ++ (name, t.queue c s.freshSlot.1) :: after } := by
  obtain ⟨before, after, heq, hbefore⟩ := List.lookup_eq_some_iff.mp h
  refine ⟨before, after, heq, ?_⟩
  rw [heq, List.map_append, List.map_cons, List.nodup_middle, List.nodup_cons] at hnames
  -- Names are different, so that the map changes this entry and no other.
  have hother : ∀ ts : List (String × Transaction), (∀ x ∈ ts, x.1 ≠ name) →
      (ts.map fun x => if x.1 = name then (x.1, t.queue c s.freshSlot.1) else x) = ts := by
    intro ts hts
    refine (List.map_congr_left fun x hx => ?_).trans (List.map_id ts)
    exact if_neg (hts x hx)
  have hmap : (s.transactions.map fun x =>
      if x.1 = name then (x.1, t.queue c s.freshSlot.1) else x) =
        before ++ (name, t.queue c s.freshSlot.1) :: after := by
    rw [heq, List.map_append, List.map_cons, hother before, hother after]
    · exact congrArg (fun x => before ++ x :: after) (if_pos rfl)
    · intro x hx he
      have hmem : x.1 ∈ after.map Prod.fst := List.mem_map_of_mem hx
      exact hnames.1 (List.mem_append_right _ (he ▸ hmem))
    · rintro x hx rfl
      exact absurd (hbefore x hx) (by simp)
  exact congrArg (fun ts => { s.freshSlot.2.wait id (.queued s.freshSlot.1) none with
    transactions := ts }) hmap

theorem slots_queue (t : Transaction) (c : Command) (slot : Slot) :
    (t.queue c slot).slots = t.slots ++ [slot] := List.map_append

theorem Calm.record (h : Calm handed s) {name : String} {t : Transaction} {c : Command}
    (ht : s.transaction? name = some t) (hc : c.slot = none) (id : String) :
    Calm handed (s.record name id t c) := by
  obtain ⟨before, after, heq, hrecord⟩ := record_eq h.names ht id c
  have hbeyond : Calm handed s.freshSlot.2 :=
    h.beyond ⟨rfl, rfl, rfl⟩ (Nat.le_succ _) (Nat.le_refl _) (List.Subset.refl _)
      (fun _ => .inl) h.carried
  have hwait : Calm handed (s.freshSlot.2.wait id (.queued s.freshSlot.1) none) := by
    refine hbeyond.wait id (fun _ hslot => absurd hslot (by simp [Task.callers]))
      (fun _ hslot => absurd hslot (by simp [Task.handed?])) ?_
    intro slot hslot
    obtain rfl := Option.some.inj hslot
    exact ⟨fun x hx he => Nat.lt_irrefl _ (he ▸ h.below x hx), rfl⟩
  have hbare := h.bare
  have hnames := h.names
  have hslots : ∀ y ∈ s.transactions, ∀ slot ∈ y.2.slots,
      slot ∉ handed ∧ slot.id < s.receivers.next + 1 := by
    intro y hy slot hslot
    obtain ⟨hnot, hbelow⟩ :=
      h.callers slot (List.mem_append_left _ (List.mem_flatMap.mpr ⟨y, hy, hslot⟩))
    exact ⟨hnot, Nat.lt_succ_of_lt hbelow⟩
  unfold Bare at hbare
  rw [heq, List.forall_mem_append, List.forall_mem_cons] at hbare hslots
  rw [heq] at hnames
  rw [hrecord]
  refine hwait.transactions (by simpa using hnames) ?_ ?_
  · rw [List.forall_mem_append, List.forall_mem_cons]
    refine ⟨hbare.1, ?_, hbare.2.2⟩
    intro d hd
    rcases List.mem_append.mp hd with hd | hd
    · exact hbare.2.1 d hd
    · rw [List.mem_singleton.mp hd]
      exact hc
  · rw [List.forall_mem_append, List.forall_mem_cons]
    refine ⟨hslots.1, ?_, hslots.2.2⟩
    intro slot hslot
    rw [slots_queue] at hslot
    rcases List.mem_append.mp hslot with hslot | hslot
    · exact hslots.2.1 slot hslot
    · rw [List.mem_singleton.mp hslot]
      exact ⟨fun hmem => Nat.lt_irrefl _ (h.opened _ hmem), Nat.lt_succ_self _⟩

theorem shares_record {name : String} {t : Transaction}
    (hnames : (s.transactions.map Prod.fst).Nodup) (ht : s.transaction? name = some t) (id : String)
    (c : Command) (slot : Slot) :
    (s.record name id t c).shares slot = s.shares slot + [s.freshSlot.1].count slot := by
  obtain ⟨before, after, heq, hrecord⟩ := record_eq hnames ht id c
  have howed : ∀ own : Slot, ({ id, task := .queued own } : Wait).owed = [] := fun _ => ite_self _
  rw [hrecord]
  unfold shares kept
  rw [heq]
  simp only [wait, freshSlot, List.flatMap_append, List.flatMap_cons, List.count_append,
    slots_queue, List.flatMap_nil, List.count_nil]
  rw [howed]
  simp
  omega

theorem Owned.record (h : Owned handed s) {name : String} {t : Transaction} {c : Command}
    (ht : s.transaction? name = some t) (hc : c.slot = none) (id : String) :
    Owned handed (s.record name id t c) := by
  refine ⟨h.toCalm.record ht hc id, ?_⟩
  intro slot hslot
  rw [shares_record h.names ht]
  by_cases hown : s.freshSlot.1 = slot
  · subst hown
    rw [h.toCalm.shares_fresh, List.count_singleton_self]
  · rw [List.count_singleton, if_neg (by simpa using hown)]
    exact h.once slot hslot

/-- The callers' slots of a transaction. -/
theorem Calm.mem_slots (h : Calm handed s) {name : String} {t : Transaction}
    (ht : s.transaction? name = some t) :
    ∀ own ∈ t.slots, own ∉ handed ∧ own.id < s.receivers.next := by
  intro own hown
  refine h.callers own (mem_callers_of_slotsOf name ?_)
  rw [slotsOf_eq ht]
  exact hown

theorem Owned.begins (h : Owned handed s) {name : String} {t : Transaction}
    (ht : s.transaction? name = some t) {slot : Slot} (hmem : slot ∈ handed)
    (hunsettled : ∀ x ∈ s.settled, x.slot ≠ slot) (id : String) (deadline : Nat) :
    Owned handed ((s.without name).wait id (.exec name t.slots slot deadline) none) := by
  refine ⟨(h.toCalm.without name).wait id (h.mem_slots ht) ?_ ?_, ?_⟩
  · intro own hown
    obtain rfl := Option.some.inj hown
    exact hmem
  · intro own hown
    obtain rfl := Option.some.inj hown
    exact ⟨hunsettled, rfl⟩
  · intro own hown
    have hkeeps := shares_without s name own
    rw [slotsOf_eq ht] at hkeeps
    rw [shares_wait, owed_of_exec rfl rfl]
    exact Nat.le_trans hkeeps (h.once own hown)

/-- An execution is over as it begins: its caller has the reply already. -/
theorem Calm.over (h : Calm handed s) {R : Slot → Prop} {xs : List Settlement}
    (hxs : Settleable handed R xs) (name id : String) (outer : Reply) :
    Calm handed (((s.without name).settle xs).wait id .done (some outer)) :=
  ((h.without name).settle_handed hxs).wait id
    (fun _ hslot => absurd hslot (by simp [Task.callers]))
    (fun _ hslot => absurd hslot (by simp [Task.handed?]))
    fun _ hslot => absurd hslot (by simp [Task.slot?])

theorem settle_next (s : Session) (xs : List Settlement) :
    (s.settle xs).receivers.next = s.receivers.next :=
  congrArg (fun t => t.receivers.next) (settle_aside s xs)

theorem Owned.atOnce (h : Owned handed s) {R : Slot → Prop} {name : String} {t : Transaction}
    (ht : s.transaction? name = some t) {xs : List Settlement} (hxs : Settleable handed R xs)
    {outer : Reply} (hfair : outer.Fair) (id : String) :
    Owned handed (((s.without name).settle xs).execAtOnce name id t.slots outer) := by
  have hover := h.toCalm.over hxs name id outer
  have hbelow : ∀ own ∈ t.slots, own.id < ((s.without name).settle xs).receivers.next := by
    intro own hown
    rw [settle_next]
    exact (h.mem_slots ht own hown).2
  refine ⟨hover.afterExec name hbelow hfair, ?_⟩
  intro own hown
  have hkeeps := shares_without s name own
  rw [slotsOf_eq ht] at hkeeps
  have hsettle := (h.toCalm.without name).bare.shares_settle_handed hxs hown
  have hwait := shares_wait ((s.without name).settle xs) id .done (some outer) own
  rw [show ({ id, task := .done, result := some outer } : Wait).owed = [] from rfl,
    List.count_nil] at hwait
  have hafter := hover.bare.shares_afterExec name t.slots outer own
  have honce := h.once own hown
  unfold execAtOnce
  omega

/-- **Every stroke leaves slots with their owners.** -/
theorem Owned.stroke {P : String → Prop} {R : Slot → Prop} {p q : List Slot × Session}
    (h : Owned p.1 p.2) (hstroke : Stroke P R p q) : Owned q.1 q.2 := by
  cases hstroke with
  | beyond hnear hnext hclock hgrows hopened hcarried =>
      exact h.beyond hnear hnext hclock.1 hgrows hopened hcarried
  | settle xs hxs => exact h.settle hxs
  | expire => exact h.expire
  | put name hname => exact h.put name
  | lose name hname => exact h.lose name
  | join id hjoins => exact h.join hjoins id
  | record name id hname ht hc => exact h.record ht hc id
  | begins name id hname deadline ht hmem hunsettled =>
      exact h.begins ht hmem hunsettled id deadline
  | atOnce name id hname ht hxs hfair => exact h.atOnce ht hxs hfair id

/-- Strokes in a row. -/
def Strokes (P : String → Prop) (R : Slot → Prop) :
    List Slot × Session → List Slot × Session → Prop :=
  Relation.ReflTransGen (Stroke P R)

/-- It is later, all wait as long as before, and more slots have been opened, and handed over. -/
structure Opened (p q : List Slot × Session) : Prop where
  grows : p.1 ⊆ q.1
  next : p.2.receivers.next ≤ q.2.receivers.next
  fresh : ∀ slot ∈ q.1, slot ∈ p.1 ∨ p.2.receivers.next ≤ slot.id
  now : p.2.now ≤ q.2.now
  timeout : q.2.replyTimeout = p.2.replyTimeout

theorem Opened.trans {p q r : List Slot × Session} (h : Opened p q) (h' : Opened q r) :
    Opened p r := by
  refine ⟨List.Subset.trans h.grows h'.grows, Nat.le_trans h.next h'.next, fun slot hslot => ?_,
    Nat.le_trans h.now h'.now, h'.timeout.trans h.timeout⟩
  rcases h'.fresh slot hslot with hold | hnew
  · exact h.fresh slot hold
  · exact .inr (Nat.le_trans h.next hnew)

/-- The end of a time that begins now does not move away. -/
theorem Opened.deadline {p q : List Slot × Session} (h : Opened p q) :
    p.2.now + p.2.replyTimeout ≤ q.2.now + q.2.replyTimeout := by
  rw [h.timeout]
  exact Nat.add_le_add_right h.now _

theorem Opened.refl (p : List Slot × Session) : Opened p p :=
  ⟨List.Subset.refl _, Nat.le_refl _, fun _ => .inl, Nat.le_refl _, rfl⟩

/-- Nothing is handed over, and no time passes. -/
theorem opened_of_next (h : s.receivers.next ≤ s'.receivers.next)
    (hclock : s'.now = s.now ∧ s'.replyTimeout = s.replyTimeout) :
    Opened (handed, s) (handed, s') :=
  ⟨List.Subset.refl _, h, fun _ => .inl, Nat.le_of_eq hclock.1.symm, hclock.2⟩

theorem opened_of_aside (h : s'.aside = s.aside) : Opened (handed, s) (handed, s') :=
  opened_of_next (Nat.le_of_eq (congrArg (fun t => t.receivers.next) h).symm)
    ⟨congrArg (fun t => t.now) h, congrArg (fun t => t.replyTimeout) h⟩

theorem Stroke.opened {P : String → Prop} {R : Slot → Prop} {p q : List Slot × Session}
    (h : Stroke P R p q) : Opened p q := by
  cases h with
  | beyond near next clock grows opened carried =>
      exact ⟨grows, next, fun slot hslot => (opened slot hslot).imp_right And.left, clock.1,
        clock.2⟩
  | settle xs hxs => exact opened_of_aside (settle_aside _ _)
  | expire => exact opened_of_aside (expire_aside _)
  | put name hname => exact opened_of_aside ((quiet_aside _).putTransaction rfl ..)
  | lose name hname => exact opened_of_aside ((quiet_aside _).loseTransaction rfl ..)
  | join id hjoins => exact opened_of_next (Nat.le_refl _) ⟨rfl, rfl⟩
  | record name id hname ht hc => exact opened_of_next (Nat.le_succ _) ⟨rfl, rfl⟩
  | begins name id hname deadline ht hmem hunsettled =>
      exact opened_of_next (Nat.le_refl _) ⟨rfl, rfl⟩
  | @atOnce handed s name id hname t xs outer ht hxs hfair =>
      -- The batch is settled, its caller waits, and then the transaction is there again.
      have hsettle : Opened (handed, s) (handed, (s.without name).settle xs) :=
        opened_of_aside (settle_aside (s.without name) xs)
      have hwait : Opened (handed, (s.without name).settle xs)
          (handed, ((s.without name).settle xs).wait id .done (some outer)) :=
        opened_of_next (Nat.le_refl _) ⟨rfl, rfl⟩
      exact hsettle.trans (hwait.trans (opened_of_aside (afterExec_aside ..)))

theorem Strokes.opened {P : String → Prop} {R : Slot → Prop} {p q : List Slot × Session}
    (h : Strokes P R p q) : Opened p q := by
  induction h with
  | refl => exact .refl p
  | tail _ hstroke ih => exact ih.trans hstroke.opened

theorem Owned.strokes {P : String → Prop} {R : Slot → Prop} {p q : List Slot × Session}
    (h : Owned p.1 p.2) (hstrokes : Strokes P R p q) : Owned q.1 q.2 := by
  induction hstrokes with
  | refl => exact h
  | tail _ hstroke ih => exact ih.stroke hstroke

end RespClient.Session
