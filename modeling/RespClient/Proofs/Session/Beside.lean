import RespClient.Proofs.Session.Deeds

/-!
# Beside a transaction

What becomes of a transaction while others act: it keeps what it has recorded, and its execution
goes on until the reply is there or the time is over; then its callers get their shares and it is
there again, empty (`Beside`). Every stroke that does not concern the transaction is of this kind
(`Beside.stroke`), and so is every move that does not (`Beside.move`).
-/

namespace RespClient

/-! ## §1  Waits and executions -/

namespace Wait

/-- The wait is for an execution of the transaction that has not ended. -/
def runs (tx : String) (w : Wait) : Bool :=
  match w.task, w.result with
  | .exec name .., none => name = tx
  | _, _ => false

/-- What may become of a wait: it may get a result, and then keeps it. -/
structure Goes (w w' : Wait) : Prop where
  id : w'.id = w.id
  task : w'.task = w.task
  result : ∀ r, w.result = some r → w'.result = some r

variable {tx : String} {w w₁ w₂ w₃ : Wait}

theorem runs_iff : w.runs tx = true ↔
    (∃ callers slot deadline, w.task = .exec tx callers slot deadline) ∧ w.result = none := by
  unfold runs
  cases htask : w.task <;> cases hresult : w.result <;> simp [eq_comm]

theorem Goes.refl (w : Wait) : w.Goes w := ⟨rfl, rfl, fun _ h => h⟩

theorem Goes.trans (h : w₁.Goes w₂) (h' : w₂.Goes w₃) : w₁.Goes w₃ :=
  ⟨h'.id.trans h.id, h'.task.trans h.task, fun r hr => h'.result r (h.result r hr)⟩

end Wait

namespace Session

variable {K : String → Prop} {tx : String} {handed : List Slot} {s s' s'' : Session}

/-- The executions of a transaction that have not ended. -/
def underWay (s : Session) (tx : String) : List Wait := s.waits.filter (Wait.runs tx)

theorem mem_underWay {w : Wait} : w ∈ s.underWay tx ↔ w ∈ s.waits ∧ w.runs tx = true :=
  List.mem_filter

/-- What some waits are told ends those executions among them, and no others. -/
theorem filter_runs_map (p : Wait → Prop) [DecidablePred p] (reply : Wait → Reply)
    (ws : List Wait) :
    (ws.map fun w => if p w then { w with result := some (reply w) } else w).filter
        (Wait.runs tx) = (ws.filter (Wait.runs tx)).filter (¬p ·) := by
  induction ws with
  | nil => rfl
  | cons w rest ih =>
      have hdone : ∀ r, Wait.runs tx { w with result := some r } = false := by
        intro r
        unfold Wait.runs
        cases w.task <;> rfl
      rw [List.map_cons]
      by_cases hp : p w
      · rw [if_pos hp, List.filter_cons_of_neg (by simp [hdone]), ih]
        by_cases hruns : w.runs tx = true
        · rw [List.filter_cons_of_pos hruns, List.filter_cons_of_neg (by simp [hp])]
        · rw [List.filter_cons_of_neg hruns]
      · rw [if_neg hp]
        by_cases hruns : w.runs tx = true
        · rw [List.filter_cons_of_pos hruns, List.filter_cons_of_pos hruns,
            List.filter_cons_of_pos (by simp [hp]), ih]
        · rw [List.filter_cons_of_neg hruns, List.filter_cons_of_neg hruns, ih]

/-! ## §2  Where a transaction is -/

/-- Where a transaction is: at hand, or away with an execution, or lost. -/
inductive Phase
  | idle (t : Transaction)
  | busy (w : Wait)
  | gone

/-- The transaction is there; `K` holds of those who do not give up. -/
def At (K : String → Prop) (tx : String) (s : Session) : Phase → Prop
  | .idle t => s.transaction? tx = some t ∧ s.underWay tx = []
  | .busy w => s.transaction? tx = none ∧ s.underWay tx = [w] ∧ K w.id
  | .gone => s.transaction? tx = none ∧ s.underWay tx = []

/-- An execution has ended with a reply, and its callers have got their shares. -/
def Ended (s : Session) (w : Wait) : Prop :=
  ∃ outer, (∃ w' ∈ s.waits, w.Goes w' ∧ w'.result = some outer) ∧
    ∀ x ∈ Transaction.distribute w.task.callers outer, x ∈ s.settled

/-- What goes on beside a transaction: what is settled stays so, those who do not give up wait on,
and the transaction stays where it is, unless its execution ends. -/
structure Beside (K : String → Prop) (tx : String) (s s' : Session) : Prop where
  settled : s.settled ⊆ s'.settled
  waits : ∀ w ∈ s.waits, K w.id → ∃ w' ∈ s'.waits, w.Goes w'
  phase : ∀ phase, s.At K tx phase → s'.At K tx phase ∨
    ∃ w, phase = .busy w ∧ s'.At K tx (.idle {}) ∧ s'.Ended w

theorem Beside.refl (s : Session) : Beside K tx s s :=
  ⟨List.Subset.refl _, fun w hw _ => ⟨w, hw, .refl w⟩, fun _ => .inl⟩

/-- An execution that has ended stays so. -/
theorem Ended.mono {w : Wait} (h : s.Ended w) (hw : K w.id) (hbeside : Beside K tx s s') :
    s'.Ended w := by
  obtain ⟨outer, ⟨w', hw', hgoes, hresult⟩, hshares⟩ := h
  obtain ⟨w'', hw'', hgoes'⟩ := hbeside.waits w' hw' (hgoes.id ▸ hw)
  exact ⟨outer, ⟨w'', hw'', hgoes.trans hgoes', hgoes'.result _ hresult⟩,
    fun x hx => hbeside.settled (hshares x hx)⟩

theorem Beside.trans (h : Beside K tx s s') (h' : Beside K tx s' s'') : Beside K tx s s'' := by
  refine ⟨List.Subset.trans h.settled h'.settled, ?_, ?_⟩
  · intro w hw hk
    obtain ⟨w', hw', hgoes⟩ := h.waits w hw hk
    obtain ⟨w'', hw'', hgoes'⟩ := h'.waits w' hw' (hgoes.id ▸ hk)
    exact ⟨w'', hw'', hgoes.trans hgoes'⟩
  · intro phase hat
    rcases h.phase phase hat with hstays | ⟨w, rfl, hidle, hended⟩
    · exact h'.phase phase hstays
    · right
      refine ⟨w, rfl, ?_, hended.mono hat.2.2 h'⟩
      rcases h'.phase _ hidle with hstays | ⟨_, hbusy, -, -⟩
      · exact hstays
      · exact absurd hbusy (by simp)

/-- What is settled stays so, and those who wait do, with what they have heard. -/
structure Grows (s s' : Session) : Prop where
  settled : s.settled ⊆ s'.settled
  waits : ∀ w ∈ s.waits, ∃ w' ∈ s'.waits, w.Goes w'

theorem Grows.refl (s : Session) : s.Grows s :=
  ⟨List.Subset.refl _, fun w hw => ⟨w, hw, .refl w⟩⟩

theorem Grows.trans (h : s.Grows s') (h' : s'.Grows s'') : s.Grows s'' := by
  refine ⟨List.Subset.trans h.settled h'.settled, fun w hw => ?_⟩
  obtain ⟨w', hw', hgoes⟩ := h.waits w hw
  obtain ⟨w'', hw'', hgoes'⟩ := h'.waits w' hw'
  exact ⟨w'', hw'', hgoes.trans hgoes'⟩

/-- Nothing happens to the transaction. -/
theorem Beside.still (h : s.Grows s') (htransaction : s'.transaction? tx = s.transaction? tx)
    (hunderWay : s'.underWay tx = s.underWay tx) : Beside K tx s s' := by
  refine ⟨h.settled, fun w hw _ => h.waits w hw, fun phase hat => .inl ?_⟩
  cases phase <;>
    · simp only [At, htransaction, hunderWay] at hat ⊢
      exact hat

/-! ## §3  Being told -/

theorem grows_map (p : Wait → Prop) [DecidablePred p]
    (reply : Wait → Reply) (hp : ∀ w, p w → w.result = none)
    (hwaits : s'.waits = s.waits.map fun w =>
      if p w then { w with result := some (reply w) } else w)
    (hsettled : s.settled ⊆ s'.settled) : s.Grows s' := by
  refine ⟨hsettled, fun w hw => ⟨_, hwaits ▸ List.mem_map_of_mem hw, ?_⟩⟩
  split
  · next htold => exact ⟨rfl, rfl, fun r hr => absurd ((hp w htold).symm.trans hr) (by simp)⟩
  · exact .refl w

theorem grows_tell (s : Session) (x : Settlement) : s.Grows (s.tell x) :=
  grows_map _ _ (fun _ h => h.2) (tell_waits s x) (List.subset_append_left _ _)

/-- Being told is all that happens to callers where transactions come and go. -/
theorem quiet_grows (s : Session) : Quiet s.Grows :=
  ⟨fun t x h => h.trans (grows_tell t x), fun _ _ h => ⟨h.settled, h.waits⟩⟩

/-- Executions wait for slots that were handed over. -/
def Awaits (handed : List Slot) (tx : String) (s : Session) : Prop :=
  ∀ w ∈ s.underWay tx, ∀ slot, w.task.slot? = some slot → slot ∈ handed

theorem Calm.awaits (h : Calm handed s) (tx : String) : s.Awaits handed tx := by
  intro w hw slot hslot
  obtain ⟨hmem, hruns⟩ := mem_underWay.mp hw
  obtain ⟨⟨callers, own, deadline, htask⟩, -⟩ := Wait.runs_iff.mp hruns
  refine h.waiting w hmem slot ?_
  rw [htask] at hslot ⊢
  exact hslot

theorem underWay_tell (s : Session) (x : Settlement) :
    (s.tell x).underWay tx = (s.underWay tx).filter (·.task.slot? ≠ some x.slot) := by
  unfold underWay
  rw [tell_waits, filter_runs_map (fun w => w.task.slot? = some x.slot ∧ w.result = none)
    (fun w => w.task.reply (.ofOutcome x.outcome))]
  refine List.filter_congr fun w hw => ?_
  obtain ⟨-, hresult⟩ := Wait.runs_iff.mp (List.of_mem_filter hw)
  simp [hresult]

/-- Telling callers how their slots ended ends no execution. -/
theorem Awaits.tells (h : s.Awaits handed tx) {xs : List Settlement}
    (hxs : ∀ x ∈ xs, x.slot ∉ handed) : (xs.foldl Session.tell s).underWay tx = s.underWay tx := by
  induction xs generalizing s with
  | nil => rfl
  | cons x rest ih =>
      obtain ⟨hx, hrest⟩ := List.forall_mem_cons.mp hxs
      have hone : (s.tell x).underWay tx = s.underWay tx := by
        rw [underWay_tell, List.filter_eq_self]
        intro w hw
        exact decide_eq_true fun he => hx (h w hw _ he)
      have hawaits : (s.tell x).Awaits handed tx := by
        unfold Awaits
        rw [hone]
        exact h
      exact (ih hawaits hrest).trans hone

theorem Calm.lose_underWay (h : Calm handed s) (name : String) :
    (s.loseTransaction name).underWay tx = s.underWay tx := by
  rw [loseTransaction_eq]
  have hawaits : (s.without name).Awaits handed tx := h.awaits tx
  refine hawaits.tells fun x hx => ?_
  exact (h.callers _ (h.mem_lost hx).1).1

/-! ## §4  Transactions that come and go -/

theorem lookup_filter_ne {name : String} (h : name ≠ tx) (ts : List (String × Transaction)) :
    (ts.filter (·.1 ≠ name)).lookup tx = ts.lookup tx := by
  induction ts with
  | nil => rfl
  | cons x rest ih =>
      by_cases hx : x.1 = name
      · have hother : (tx == x.1) = false := by simpa [hx] using Ne.symm h
        rw [List.filter_cons_of_neg (by simp [hx]), List.lookup_cons, hother]
        exact ih
      · rw [List.filter_cons_of_pos (by simp [hx]), List.lookup_cons, List.lookup_cons, ih]

theorem lookup_filter_self (ts : List (String × Transaction)) :
    (ts.filter (·.1 ≠ tx)).lookup tx = none := by
  rw [List.lookup_eq_none_iff]
  intro x hx
  have hne : x.1 ≠ tx := by simpa using (List.mem_filter.mp hx).2
  exact bne_iff_ne.mpr (Ne.symm hne)

theorem lookup_replace (name : String) (u : Transaction) (ts : List (String × Transaction)) :
    (ts.map fun (n, t) => if n = name then (n, u) else (n, t)).lookup tx =
      if name = tx then (ts.lookup tx).map fun _ => u else ts.lookup tx := by
  induction ts with
  | nil => simp
  | cons first rest ih =>
      obtain ⟨n, t⟩ := first
      rw [List.map_cons]
      dsimp only
      by_cases hn : n = tx
      · subst hn
        by_cases hname : name = n
        · simp [hname]
        · simp [hname, Ne.symm hname]
      · have hskip : (tx == n) = false := beq_eq_false_iff_ne.mpr (Ne.symm hn)
        split <;> simp only [List.lookup_cons, hskip, ih]

theorem record_transaction? (s : Session) (name id : String) (t : Transaction) (c : Command) :
    (s.record name id t c).transaction? tx =
      if name = tx then (s.transaction? tx).map fun _ => t.queue c s.freshSlot.1
      else s.transaction? tx :=
  lookup_replace name (t.queue c s.freshSlot.1) s.transactions

theorem lose_transaction? (s : Session) (name : String) :
    (s.loseTransaction name).transaction? tx =
      if name = tx then none else s.transaction? tx := by
  unfold transaction?
  rw [loseTransaction_transactions]
  split
  · next he => rw [he, lookup_filter_self]
  · next hne => exact lookup_filter_ne hne _

theorem put_transaction? (s : Session) (name : String) :
    (s.putTransaction name {}).transaction? tx =
      if name = tx then some {} else s.transaction? tx := by
  have hlose : (s.loseTransaction name).transaction? tx =
      if name = tx then none else s.transaction? tx := lose_transaction? s name
  unfold transaction? at hlose ⊢
  unfold putTransaction
  rw [List.lookup_append, hlose]
  split
  · next he =>
      rw [he, List.lookup_cons_self]
      rfl
  · next hne =>
      have hother : (tx == name) = false := by simpa using Ne.symm hne
      rw [List.lookup_cons, hother]
      exact Option.or_none

theorem afterExec_transaction? (s : Session) (name : String) (slots : List Slot) (outer : Reply) :
    (s.afterExec name slots outer).transaction? tx =
      if name = tx then some {} else s.transaction? tx := by
  unfold afterExec
  rw [put_transaction?]
  unfold transaction?
  rw [Callers.foldl_tell_transactions]

theorem Calm.afterExec_underWay (h : Calm handed s) (name : String) {slots : List Slot}
    {outer : Reply} (hslots : ∀ slot ∈ slots, slot ∉ handed ∧ slot.id < s.receivers.next)
    (hfair : outer.Fair) : (s.afterExec name slots outer).underWay tx = s.underWay tx := by
  have htold : Calm handed ((Transaction.distribute slots outer).foldl Session.tell s) :=
    h.tells fun x hx => ⟨(hslots _ (Callers.slot_of_distribute hx)).2, distribute_fair hfair x hx⟩
  refine (htold.lose_underWay name).trans ((h.awaits tx).tells fun x hx => ?_)
  exact (hslots _ (Callers.slot_of_distribute hx)).1

/-- Executions end: what becomes of their callers, and of the transactions. -/
theorem Calm.afterExecs_underWay (h : Calm handed s) {execs : List (String × List Slot)}
    {outer : Reply}
    (hslots : ∀ x ∈ execs, ∀ slot ∈ x.2, slot ∉ handed ∧ slot.id < s.receivers.next)
    (hfair : outer.Fair) : (s.afterExecs execs outer).underWay tx = s.underWay tx := by
  induction execs generalizing s with
  | nil => rfl
  | cons x rest ih =>
      obtain ⟨hx, hrest⟩ := List.forall_mem_cons.mp hslots
      have hone := h.afterExec x.1 (fun slot hslot => (hx slot hslot).2) hfair
      refine (ih hone ?_).trans (h.afterExec_underWay x.1 hx hfair)
      rw [show (s.afterExec x.1 x.2 outer).receivers.next = s.receivers.next from
        congrArg (fun t => t.receivers.next) (afterExec_aside ..)]
      exact hrest

theorem afterExecs_transaction? (s : Session) (execs : List (String × List Slot))
    (outer : Reply) :
    (s.afterExecs execs outer).transaction? tx =
      if tx ∈ execs.map Prod.fst then some {} else s.transaction? tx := by
  induction execs generalizing s with
  | nil => rfl
  | cons x rest ih =>
      refine (ih _).trans ?_
      rw [afterExec_transaction?, List.map_cons]
      by_cases hrest : tx ∈ rest.map Prod.fst
      · rw [if_pos hrest, if_pos (List.mem_cons_of_mem _ hrest)]
      · by_cases hx : x.1 = tx
        · rw [if_neg hrest, if_pos hx, if_pos (hx ▸ List.mem_cons_self)]
        · have hneither : tx ∉ x.1 :: rest.map Prod.fst := by
            rw [List.mem_cons, not_or]
            exact ⟨Ne.symm hx, hrest⟩
          rw [if_neg hrest, if_neg hx, if_neg hneither]

theorem afterExecs_grows (s : Session) (execs : List (String × List Slot)) (outer : Reply) :
    s.Grows (s.afterExecs execs outer) :=
  List.foldlRecOn execs _ (Grows.refl s) fun _ h _ _ => (quiet_grows s).afterExec h ..

theorem afterExec_settled (s : Session) (name : String) (slots : List Slot) (outer : Reply) :
    ∀ x ∈ Transaction.distribute slots outer, x ∈ (s.afterExec name slots outer).settled := by
  intro x hx
  have hput := (quiet_grows _).putTransaction
    (Grows.refl ((Transaction.distribute slots outer).foldl Session.tell s)) name {}
  refine hput.settled ?_
  rw [Callers.foldl_tell_settled]
  exact List.mem_append_right _ hx

/-- The callers of an execution that ends get their shares. -/
theorem afterExecs_settled {execs : List (String × List Slot)} {x : String × List Slot}
    (hx : x ∈ execs) (s : Session) (outer : Reply) :
    ∀ y ∈ Transaction.distribute x.2 outer, y ∈ (s.afterExecs execs outer).settled := by
  intro y hy
  induction execs generalizing s with
  | nil => exact absurd hx (by simp)
  | cons first rest ih =>
      rcases List.mem_cons.mp hx with rfl | hx
      · exact (afterExecs_grows _ rest outer).settled (afterExec_settled s x.1 x.2 outer y hy)
      · exact ih hx _

/-! ## §5  The end of waits -/

variable {execs : List (String × List Slot)}

/-- The execution has ended that is among those that end. -/
theorem ended_of_sweep {s₁ : Session} {p : Wait → Prop} [DecidablePred p] {trip : RoundTrip}
    (hwaits : s₁.waits = s.waits.map fun w =>
      if p w then { w with result := some (w.task.reply trip) } else w)
    {w : Wait} (hw : w ∈ s.waits) (hruns : w.runs tx = true) (hp : p w)
    (hx : (tx, w.task.callers) ∈ execs) : (s₁.afterExecs execs trip.executed).Ended w := by
  obtain ⟨⟨callers, slot, deadline, htask⟩, hresult⟩ := Wait.runs_iff.mp hruns
  have htold : { w with result := some (w.task.reply trip) } ∈ s₁.waits := by
    rw [hwaits]
    exact List.mem_map.mpr ⟨w, hw, if_pos hp⟩
  obtain ⟨w', hw', hgoes⟩ := (afterExecs_grows s₁ execs trip.executed).waits _ htold
  have hstill : w.Goes w' := by
    refine ⟨hgoes.id, hgoes.task, fun r hr => ?_⟩
    exact absurd (hresult.symm.trans hr) (by simp)
  refine ⟨trip.executed, ⟨w', hw', hstill, hgoes.result _ ?_⟩, afterExecs_settled hx s₁ _⟩
  rw [htask]
  rfl

/-- **Some waits end, and the executions among them**: the transaction's own is one of them, and
then it has ended, or nothing happens to it. -/
theorem Beside.sweep {s₁ : Session} (h : Calm handed s) (h₁ : Calm handed s₁)
    (p : Wait → Prop) [DecidablePred p] (trip : RoundTrip) (hfair : trip.executed.Fair)
    (hgrows : s.Grows s₁) (htransactions : s₁.transactions = s.transactions)
    (hnext : s₁.receivers.next = s.receivers.next)
    (hwaits : s₁.waits = s.waits.map fun w =>
      if p w then { w with result := some (w.task.reply trip) } else w)
    (hexecs : ∀ name slots, (name, slots) ∈ execs ↔
      ∃ w ∈ s.waits, w.runs name = true ∧ p w ∧ slots = w.task.callers) :
    Beside K tx s (s₁.afterExecs execs trip.executed) := by
  have hslots : ∀ x ∈ execs, ∀ slot ∈ x.2, slot ∉ handed ∧ slot.id < s₁.receivers.next := by
    intro x hx slot hslot
    obtain ⟨w, hw, -, -, hcallers⟩ := (hexecs x.1 x.2).mp hx
    rw [hnext]
    exact h.callers slot (mem_callers_of_wait hw (hcallers ▸ hslot))
  have hunder : (s₁.afterExecs execs trip.executed).underWay tx =
      (s.underWay tx).filter (¬p ·) := by
    rw [h₁.afterExecs_underWay hslots hfair]
    unfold underWay
    rw [hwaits, filter_runs_map]
  have htransaction : (s₁.afterExecs execs trip.executed).transaction? tx =
      if tx ∈ execs.map Prod.fst then some {} else s₁.transaction? tx :=
    afterExecs_transaction? s₁ execs trip.executed
  have hafter := afterExecs_grows s₁ execs trip.executed
  have hsame : s₁.transaction? tx = s.transaction? tx := congrArg (List.lookup tx) htransactions
  by_cases hmem : tx ∈ execs.map Prod.fst
  · obtain ⟨⟨_, slots⟩, hx, rfl⟩ := List.mem_map.mp hmem
    obtain ⟨w, hw, hruns, hp, rfl⟩ := (hexecs _ slots).mp hx
    -- It is under way, which only a transaction can be whose handle is away.
    have hw' := mem_underWay.mpr ⟨hw, hruns⟩
    rw [if_pos hmem] at htransaction
    refine ⟨List.Subset.trans hgrows.settled hafter.settled,
      fun w hw _ => (hgrows.trans hafter).waits w hw, fun phase hat => ?_⟩
    cases phase with
    | idle t => exact absurd hw' (by rw [hat.2]; simp)
    | gone => exact absurd hw' (by rw [hat.2]; simp)
    | busy own =>
        obtain ⟨-, hone, -⟩ := hat
        rw [hone] at hw' hunder
        obtain rfl := List.mem_singleton.mp hw'
        refine .inr ⟨w, rfl, ⟨htransaction, ?_⟩, ended_of_sweep hwaits hw hruns hp hx⟩
        rw [hunder, List.filter_cons_of_neg (by simp [hp])]
        rfl
  · rw [if_neg hmem] at htransaction
    refine .still (hgrows.trans hafter) (htransaction.trans hsame) ?_
    rw [hunder, List.filter_eq_self]
    intro w hw
    obtain ⟨hw, hruns⟩ := mem_underWay.mp hw
    refine decide_eq_true fun hp => hmem ?_
    exact List.mem_map.mpr ⟨(tx, w.task.callers), (hexecs ..).mpr ⟨w, hw, hruns, hp, rfl⟩, rfl⟩

open Callers (awaits?)

theorem awaits?_iff {slot : Slot} {w : Wait} {name : String} {slots : List Slot} :
    awaits? slot w = some (name, slots) ↔
      w.runs name = true ∧ (w.task.slot? = some slot ∧ w.result = none) ∧
        slots = w.task.callers := by
  constructor
  · intro h
    obtain ⟨⟨deadline, htask⟩, hresult⟩ := exec_of_awaits? h
    refine ⟨Wait.runs_iff.mpr ⟨⟨_, _, _, htask⟩, hresult⟩, ⟨?_, hresult⟩, ?_⟩ <;> rw [htask] <;> rfl
  · rintro ⟨hruns, ⟨hslot, hresult⟩, rfl⟩
    obtain ⟨⟨callers, own, deadline, htask⟩, -⟩ := Wait.runs_iff.mp hruns
    rw [htask] at hslot
    obtain rfl := Option.some.inj hslot
    unfold awaits?
    simp only [htask, hresult, if_true]
    rfl

theorem expires?_iff {now : Nat} {w : Wait} {name : String} {slots : List Slot} :
    expires? now w = some (name, slots) ↔
      w.runs name = true ∧ w.isLate now = true ∧ slots = w.task.callers := by
  constructor
  · intro h
    obtain ⟨⟨own, deadline, htask⟩, hlate⟩ := exec_of_expires? h
    refine ⟨Wait.runs_iff.mpr ⟨⟨_, _, _, htask⟩, (late_of_isLate hlate).1⟩, hlate, ?_⟩
    rw [htask]
    rfl
  · rintro ⟨hruns, hlate, rfl⟩
    obtain ⟨⟨callers, own, deadline, htask⟩, -⟩ := Wait.runs_iff.mp hruns
    unfold expires?
    simp only [htask, hlate, if_true]
    rfl

theorem mem_filterMap_iff {g : Wait → Option (String × List Slot)} {ws : List Wait}
    {p : Wait → Prop} (hg : ∀ w name slots, g w = some (name, slots) ↔
      w.runs name = true ∧ p w ∧ slots = w.task.callers) (name : String) (slots : List Slot) :
    (name, slots) ∈ ws.filterMap g ↔
      ∃ w ∈ ws, w.runs name = true ∧ p w ∧ slots = w.task.callers := by
  rw [List.mem_filterMap]
  exact exists_congr fun w => and_congr_right fun _ => hg w name slots

theorem outcome_fair {x : Settlement} (h : x.Fair) :
    (RoundTrip.ofOutcome x.outcome).executed.Fair := by
  cases hx : x.outcome with
  | reply r => exact h r hx
  | dropped => simp [Reply.Fair, RoundTrip.ofOutcome, RoundTrip.executed, Transaction.queuedReply]

theorem Beside.settleOne (h : Calm handed s) {x : Settlement}
    (hbelow : x.slot.id < s.receivers.next) (hfair : x.Fair) : Beside K tx s (s.settleOne x) := by
  rw [Callers.settleOne_eq]
  exact Beside.sweep h (h.tell hbelow hfair) (fun w => w.task.slot? = some x.slot ∧ w.result = none)
    (RoundTrip.ofOutcome x.outcome) (outcome_fair hfair) (grows_tell s x) rfl rfl (tell_waits s x)
    (mem_filterMap_iff fun _ _ _ => awaits?_iff)

theorem Beside.settle (h : Calm handed s) {xs : List Settlement}
    (hxs : ∀ x ∈ xs, x.slot.id < s.receivers.next ∧ x.Fair) : Beside K tx s (s.settle xs) := by
  induction xs generalizing s with
  | nil => exact .refl s
  | cons x rest ih =>
      obtain ⟨⟨hbelow, hfair⟩, hrest⟩ := List.forall_mem_cons.mp hxs
      refine (Beside.settleOne h hbelow hfair).trans (ih (h.settleOne hbelow hfair) ?_)
      rw [show (s.settleOne x).receivers.next = s.receivers.next from settle_next s [x]]
      exact hrest

theorem Beside.expire (h : Calm handed s) : Beside K tx s s.expire := by
  rw [expire_eq_afterExecs]
  have hgrows : s.Grows s.timeOut := grows_map (fun w => w.isLate s.now = true) _
    (fun _ hlate => (late_of_isLate hlate).1) rfl (List.Subset.refl _)
  refine Beside.sweep h h.timeOut (fun w => w.isLate s.now = true) .timedOut ?_ hgrows rfl rfl rfl
    (mem_filterMap_iff fun _ _ _ => expires?_iff)
  simp [Reply.Fair, RoundTrip.executed, Transaction.queuedReply]

/-! ## §6  Every stroke that does not concern the transaction -/

theorem grows_wait (s : Session) (id : String) (task : Task) (result : Option Reply) :
    s.Grows (s.wait id task result) :=
  ⟨List.Subset.refl _, fun w hw => ⟨w, List.mem_append_left _ hw, .refl w⟩⟩

theorem wait_underWay (s : Session) {id : String} {task : Task} {result : Option Reply}
    (h : Wait.runs tx { id, task, result } = false) :
    (s.wait id task result).underWay tx = s.underWay tx := by
  unfold underWay wait
  rw [List.filter_append, List.filter_cons_of_neg (by simp [h])]
  exact List.append_nil _

/-- Somebody begins to wait, but not for the transaction to be executed. -/
theorem Beside.wait (s : Session) {id : String} {task : Task} {result : Option Reply}
    (h : Wait.runs tx { id, task, result } = false) : Beside K tx s (s.wait id task result) :=
  .still (grows_wait s id task result) rfl (wait_underWay s h)

theorem Beside.without {name : String} (h : name ≠ tx) (s : Session) :
    Beside K tx s (s.without name) :=
  .still ⟨List.Subset.refl _, (Grows.refl s).waits⟩ (lookup_filter_ne h _) rfl

theorem Beside.put (h : Calm handed s) {name : String} (hname : name ≠ tx) :
    Beside K tx s (s.putTransaction name {}) := by
  refine .still ((quiet_grows s).putTransaction (.refl s) name {}) ?_ (h.lose_underWay name)
  rw [put_transaction?, if_neg hname]

theorem Beside.lose (h : Calm handed s) {name : String} (hname : name ≠ tx) :
    Beside K tx s (s.loseTransaction name) := by
  refine .still ((quiet_grows s).loseTransaction (.refl s) name) ?_ (h.lose_underWay name)
  rw [lose_transaction?, if_neg hname]

theorem grows_record (s : Session) (name id : String) (t : Transaction) (c : Command) :
    s.Grows (s.record name id t c) :=
  ⟨List.Subset.refl _, fun w hw => ⟨w, List.mem_append_left _ hw, .refl w⟩⟩

theorem Beside.record {name : String} (hname : name ≠ tx) (t : Transaction) (id : String)
    (c : Command) : Beside K tx s (s.record name id t c) := by
  have htransaction : (s.record name id t c).transaction? tx = s.transaction? tx := by
    rw [record_transaction?, if_neg hname]
  have hruns : Wait.runs tx { id, task := .queued s.freshSlot.1, result := none } = false := rfl
  exact .still (grows_record s name id t c) htransaction (wait_underWay s.freshSlot.2 hruns)

theorem Beside.atOnce (h : Calm handed s) {R : Slot → Prop} {name : String} (hname : name ≠ tx)
    {t : Transaction} (ht : s.transaction? name = some t) {xs : List Settlement}
    (hxs : Settleable handed R xs) {outer : Reply} (hfair : outer.Fair) (id : String) :
    Beside K tx s (((s.without name).settle xs).execAtOnce name id t.slots outer) := by
  have hover := h.over hxs name id outer
  have hsettle : Beside K tx (s.without name) ((s.without name).settle xs) :=
    .settle (h.without name) fun x hx => ⟨h.opened _ (hxs x hx).1, (hxs x hx).2.2⟩
  have hslots : ∀ slot ∈ t.slots, slot ∉ handed ∧
      slot.id < (((s.without name).settle xs).wait id .done (some outer)).receivers.next := by
    show ∀ slot ∈ t.slots, slot ∉ handed ∧
      slot.id < ((s.without name).settle xs).receivers.next
    rw [settle_next]
    exact h.mem_slots ht
  have hafter : Beside K tx (((s.without name).settle xs).wait id .done (some outer))
      (((s.without name).settle xs).execAtOnce name id t.slots outer) := by
    refine .still ((quiet_grows _).afterExec (.refl _) ..) ?_ ?_
    · unfold execAtOnce
      rw [afterExec_transaction?, if_neg hname]
    · exact hover.afterExec_underWay name hslots hfair
  exact (Beside.without hname s).trans (hsettle.trans ((Beside.wait _ rfl).trans hafter))

/-- **Every stroke that concerns other transactions is beside this one.** -/
theorem Beside.stroke {R : Slot → Prop} {p q : List Slot × Session} (h : Owned p.1 p.2)
    (hstroke : Stroke (· ≠ tx) R p q) : Beside K tx p.2 q.2 := by
  cases hstroke with
  | beyond hnear hnext hnow hgrows hopened hcarried =>
      obtain ⟨htransactions, hwaits, hsettled⟩ := hnear
      refine .still ⟨fun x hx => hsettled ▸ hx, fun w hw => ⟨w, hwaits ▸ hw, .refl w⟩⟩ ?_ ?_
      · exact congrArg (List.lookup tx) htransactions
      · exact congrArg (List.filter (Wait.runs tx)) hwaits
  | settle xs hxs =>
      exact .settle h.toCalm fun x hx => ⟨h.opened _ (hxs x hx).1, (hxs x hx).2.2⟩
  | expire => exact .expire h.toCalm
  | put name hname => exact .put h.toCalm hname
  | lose name hname => exact .lose h.toCalm hname
  | join id hjoins => exact .wait _ (by cases hjoins <;> rfl)
  | record name id hname ht hc => exact .record hname _ id _
  | begins name id hname deadline ht hmem hunsettled =>
      refine (Beside.without hname _).trans (.wait _ ?_)
      simpa [Wait.runs] using hname
  | atOnce name id hname ht hxs hfair => exact .atOnce h.toCalm hname ht hxs hfair id

theorem Beside.strokes {R : Slot → Prop} {p q : List Slot × Session} (h : Owned p.1 p.2)
    (hstrokes : Strokes (· ≠ tx) R p q) : Beside K tx p.2 q.2 := by
  induction hstrokes with
  | refl => exact .refl _
  | tail hbefore hstroke ih => exact ih.trans (.stroke (h.strokes hbefore) hstroke)

/-- Somebody gives up, but not the one who waits for the transaction. -/
theorem Beside.forget (h : Owned handed s) {id : String} (hid : ¬K id) :
    Beside K tx s (s.forget id) := by
  rw [forget_eq]
  have hothers : Beside K tx s { s with waits := s.waits.filter (·.id ≠ id) } := by
    have hkeeps : ∀ w ∈ s.waits, K w.id → w ∈ s.waits.filter (·.id ≠ id) := by
      intro w hw hk
      refine List.mem_filter.mpr ⟨hw, decide_eq_true ?_⟩
      rintro rfl
      exact hid hk
    have hunder : underWay { s with waits := s.waits.filter (·.id ≠ id) } tx =
        (s.underWay tx).filter (·.id ≠ id) := by
      unfold underWay
      rw [List.filter_filter, List.filter_filter]
      exact List.filter_congr fun w _ => Bool.and_comm ..
    refine ⟨List.Subset.refl _, fun w hw hk => ⟨w, hkeeps w hw hk, .refl w⟩,
      fun phase hat => .inl ?_⟩
    cases phase with
    | idle t => exact ⟨hat.1, by rw [hunder, hat.2]; rfl⟩
    | gone => exact ⟨hat.1, by rw [hunder, hat.2]; rfl⟩
    | busy w =>
        obtain ⟨hnone, hone, hk⟩ := hat
        refine ⟨hnone, ?_, hk⟩
        have hne : w.id ≠ id := by
          rintro rfl
          exact hid hk
        rw [hunder, hone, List.filter_cons_of_pos (by simpa using hne)]
        rfl
  have hkept : Calm handed { s with waits := s.waits.filter (·.id ≠ id) } :=
    h.toCalm.with_waits (List.filter_subset_self _)
  refine hothers.trans (.settle hkept fun x hx => ?_)
  obtain ⟨slot, hslot, rfl⟩ := List.mem_map.mp hx
  obtain ⟨w, hw, hslot⟩ := List.mem_flatMap.mp hslot
  refine ⟨(h.callers slot (kept_subset_callers s (List.mem_append_right _ ?_))).2,
    Settlement.fair_of_dropped⟩
  exact List.mem_flatMap.mpr ⟨w, List.mem_of_mem_filter hw, hslot⟩

/-- **A move that concerns other transactions is beside this one.** -/
theorem Beside.move (h : Owned handed s) {m : Move} (hother : m.handle? ≠ some tx)
    (hforget : ∀ id, m = .act (.forget id) → ¬K id) : Beside K tx s (s.move m) := by
  by_cases hforgets : ∃ id, m = .act (.forget id)
  · obtain ⟨id, rfl⟩ := hforgets
    exact .forget h (hforget id rfl)
  · have hP : ∀ name, m.handle? = some name → name ≠ tx := by
      rintro name hname rfl
      exact hother hname
    obtain ⟨handed', -, hstrokes⟩ := move_deed h hP fun id he => hforgets ⟨id, he⟩
    exact .strokes h hstrokes

end Session

end RespClient
