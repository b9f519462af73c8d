import RespClient.Proofs.Session.Account

/-!
# The life of a transaction

However a session began and whatever happens in it besides, the account of a transaction is right,
and what was submitted are the batches that were executed, in order and whole
(`life_of_transaction`). What carries the proof is what is kept in the session for the account
(`Stands`): every recorded slot is one that somebody waits for, each batch before is settled or its
execution is waited for, and the transaction is where the account says. No execution has more time
than one that would begin now, so that all of them are over when the reply timeout has passed,
whoever answers or does not.
-/

namespace RespClient

namespace Session

variable {K : String → Prop} {tx : String} {acc : Account} {handed handed' : List Slot}
  {s s' : Session} {batch : List (Command × Slot)} {fate : Fate}
  {m : Move} {c : Handling} {t : Transaction}

/-! ## §1  What is kept for the account -/

/-- The slot is one of a recorded command, and its caller waits. -/
structure Calls (K : String → Prop) (handed : List Slot) (s : Session) (slot : Slot) : Prop where
  kept : slot ∉ handed
  below : slot.id < s.receivers.next
  waits : ∃ w ∈ s.waits, w.task = .queued slot ∧ K w.id

/-- What has been settled for a batch, and who waits for its execution. -/
inductive Kept (K : String → Prop) (tx : String) (s : Session) (batch : List (Command × Slot)) :
    Fate → Prop
  | discarded (h : ∀ c ∈ batch, ⟨c.2, .dropped⟩ ∈ s.settled) : Kept K tx s batch .discarded
  | underWay {e : Execution} {w : Wait} (full : batch ≠ []) (mem : w ∈ s.underWay tx)
      (id : w.id = e.id) (waits : e.Waits tx batch w.task) : Kept K tx s batch (.executed e)
  | ended {e : Execution} {w : Wait} (full : batch ≠ []) (mem : w ∈ s.waits) (kept : K w.id)
      (id : w.id = e.id) (waits : e.Waits tx batch w.task) {outer : Reply}
      (result : w.result = some outer) (atOnce : ∀ trip, e.atOnce = some trip →
        outer = trip.executed)
      (shares : ∀ x ∈ Transaction.distribute (batch.map Prod.snd) outer, x ∈ s.settled)
      (refused : e.atOnce = some .notSubmitted →
        ⟨e.slot, .reply RoundTrip.noHandlers⟩ ∈ s.settled) : Kept K tx s batch (.executed e)

/-- The transaction is where the account says. -/
inductive Place (K : String → Prop) (tx : String) (acc : Account) (s : Session) : Prop
  | idle (held : acc.dropped = false) (phase : s.At K tx (.idle { batch := acc.batch }))
  | busy (held : acc.dropped = false) (empty : acc.batch = []) {w : Wait}
      (phase : s.At K tx (.busy w))
  | gone (dropped : acc.dropped = true) (empty : acc.batch = []) (phase : s.At K tx .gone)

/-- What is kept in the session for the account. -/
structure Stands (K : String → Prop) (tx : String) (acc : Account) (handed : List Slot)
    (s : Session) : Prop where
  owned : Owned handed s
  callers : ∀ c ∈ acc.recorded, s.Calls K handed c.2
  past : ∀ x ∈ acc.past, Kept K tx s x.1 x.2
  place : Place K tx acc s
  /-- An execution under way is one of the account. -/
  away : ∀ w ∈ s.underWay tx, ∃ x ∈ acc.past, ∃ e : Execution,
    x.2 = .executed e ∧ w.id = e.id ∧ e.Waits tx x.1 w.task
  /-- No time is over later than one that begins now. -/
  due : ∀ x ∈ acc.past, ∀ e : Execution, x.2 = .executed e → e.deadline ≤ s.now + s.replyTimeout

theorem Place.phase (h : Place K tx acc s) : ∃ phase, s.At K tx phase := by
  cases h with
  | idle held phase => exact ⟨_, phase⟩
  | busy held empty phase => exact ⟨_, phase⟩
  | gone dropped empty phase => exact ⟨_, phase⟩

theorem Calls.mono {slot : Slot} (h : s.Calls K handed slot)
    (hopened : Opened (handed, s) (handed', s'))
    (hwaits : ∀ w ∈ s.waits, K w.id → ∃ w' ∈ s'.waits, w.Goes w') : s'.Calls K handed' slot := by
  obtain ⟨w, hw, htask, hk⟩ := h.waits
  obtain ⟨w', hw', hgoes⟩ := hwaits w hw hk
  refine ⟨fun hmem => ?_, Nat.lt_of_lt_of_le h.below hopened.next,
    w', hw', hgoes.task.trans htask, hgoes.id ▸ hk⟩
  rcases hopened.fresh slot hmem with hold | hnew
  · exact h.kept hold
  · exact Nat.lt_irrefl _ (Nat.lt_of_lt_of_le h.below hnew)

/-- An execution under way is waited for. -/
theorem task_of_waits {e : Execution} {w : Wait} (hw : w ∈ s.underWay tx)
    (h : e.Waits tx batch w.task) :
    w.task = .exec tx (batch.map Prod.snd) e.slot e.deadline ∧ e.atOnce = none := by
  obtain ⟨⟨callers, slot, deadline, htask⟩, -⟩ := Wait.runs_iff.mp (mem_underWay.mp hw).2
  rw [htask] at h ⊢
  cases h with
  | channel hnone => exact ⟨rfl, hnone⟩

/-- What is kept for a batch stays, or its execution ends. -/
theorem Kept.mono (h : Kept K tx s batch fate) (hsettled : s.settled ⊆ s'.settled)
    (hwaits : ∀ w ∈ s.waits, K w.id → ∃ w' ∈ s'.waits, w.Goes w')
    (haway : ∀ w ∈ s.underWay tx, w ∈ s'.underWay tx ∨ K w.id ∧ s'.Ended w) :
    Kept K tx s' batch fate := by
  cases h with
  | discarded h => exact .discarded fun c hc => hsettled (h c hc)
  | @underWay e w full mem id waits =>
      obtain ⟨htask, hnone⟩ := task_of_waits mem waits
      have hcallers : w.task.callers = batch.map Prod.snd := by rw [htask]; rfl
      rcases haway w mem with hmem | ⟨hk, outer, ⟨w', hw', hgoes, hresult⟩, hshares⟩
      · exact .underWay full hmem id waits
      · refine .ended full hw' (hgoes.id ▸ hk) (hgoes.id.trans id) (hgoes.task ▸ waits) hresult
          ?_ (hcallers ▸ hshares) ?_
        · intro trip htrip
          exact absurd (hnone.symm.trans htrip) (by simp)
        · intro hrefused
          exact absurd (hnone.symm.trans hrefused) (by simp)
  | @ended e w full mem kept id waits outer result atOnce shares refused =>
      obtain ⟨w', hw', hgoes⟩ := hwaits w mem kept
      exact .ended full hw' (hgoes.id ▸ kept) (hgoes.id.trans id) (hgoes.task ▸ waits)
        (hgoes.result _ result) atOnce (fun x hx => hsettled (shares x hx))
        fun he => hsettled (refused he)

/-! ## §2  What happens beside the handle -/

theorem away_of_beside (hplace : Place K tx acc s) (hbeside : Beside K tx s s') :
    ∀ w ∈ s.underWay tx, w ∈ s'.underWay tx ∨ K w.id ∧ s'.Ended w := by
  intro w hw
  obtain ⟨phase, hat⟩ := hplace.phase
  cases phase with
  | idle t => exact absurd hw (by rw [hat.2]; simp)
  | gone => exact absurd hw (by rw [hat.2]; simp)
  | busy own =>
      have hone := hat.2.1
      rw [hone] at hw
      obtain rfl := List.mem_singleton.mp hw
      rcases hbeside.phase _ hat with hstays | ⟨ended, hbusy, -, hended⟩
      · rw [hstays.2.1]
        exact .inl (List.mem_singleton_self _)
      · obtain rfl := Phase.busy.inj hbusy
        exact .inr ⟨hat.2.2, hended⟩

theorem Place.beside (h : Place K tx acc s) (hbeside : Beside K tx s s') : Place K tx acc s' := by
  cases h with
  | idle held phase =>
      rcases hbeside.phase _ phase with hstays | ⟨_, hbusy, -, -⟩
      · exact .idle held hstays
      · exact absurd hbusy (by simp)
  | busy held empty phase =>
      rcases hbeside.phase _ phase with hstays | ⟨_, -, hidle, -⟩
      · exact .busy held empty hstays
      · rw [show ({} : Transaction) = { batch := acc.batch } by rw [empty]] at hidle
        exact .idle held hidle
  | gone dropped empty phase =>
      rcases hbeside.phase _ phase with hstays | ⟨_, hbusy, -, -⟩
      · exact .gone dropped empty hstays
      · exact absurd hbusy (by simp)

/-- The executions under way are among those that were. -/
theorem underWay_of_place (h : Place K tx acc s) (hbeside : Beside K tx s s') :
    s'.underWay tx ⊆ s.underWay tx := by
  obtain ⟨phase, hat⟩ := h.phase
  have hnone : ∀ t, s'.At K tx (.idle t) → s'.underWay tx ⊆ s.underWay tx := by
    intro t hidle
    rw [hidle.2]
    exact List.nil_subset _
  rcases hbeside.phase _ hat with hstays | ⟨_, -, hidle, -⟩
  · cases phase with
    | idle t => exact hnone t hstays
    | gone =>
        rw [hstays.2]
        exact List.nil_subset _
    | busy own =>
        rw [hstays.2.1, hat.2.1]
        exact List.Subset.refl _
  · exact hnone _ hidle

/-- What goes on beside the handle does not concern the account. -/
theorem Stands.beside (h : Stands K tx acc handed s) (howned : Owned handed' s')
    (hopened : Opened (handed, s) (handed', s')) (hbeside : Beside K tx s s') :
    Stands K tx acc handed' s' :=
  ⟨howned, fun c hc => (h.callers c hc).mono hopened hbeside.waits,
    fun x hx => (h.past x hx).mono hbeside.settled hbeside.waits (away_of_beside h.place hbeside),
    h.place.beside hbeside, fun w hw => h.away w (underWay_of_place h.place hbeside hw),
    fun x hx e he => Nat.le_trans (h.due x hx e he) hopened.deadline⟩

/-! ## §3  The account is kept -/

theorem mem_recorded {x : Command × Slot} :
    x ∈ acc.recorded ↔ (∃ y ∈ acc.past, x ∈ y.1) ∨ x ∈ acc.batch := by
  unfold Account.recorded
  rw [List.mem_append, List.mem_flatMap]

theorem mem_recorded_close {x : Command × Slot} :
    x ∈ (acc.close fate).recorded ↔ x ∈ acc.recorded := by
  rw [mem_recorded, mem_recorded]
  simp only [Account.close, List.mem_append, List.mem_singleton, List.not_mem_nil, or_false]
  constructor
  · rintro ⟨y, hy | rfl, hx⟩
    · exact .inl ⟨y, hy, hx⟩
    · exact .inr hx
  · rintro (⟨y, hy, hx⟩ | hx)
    · exact ⟨y, .inl hy, hx⟩
    · exact ⟨_, .inr rfl, hx⟩

/-- Where a transaction is that somebody does something with. -/
theorem Stands.idle (h : Stands K tx acc handed s) (ht : s.transaction? tx = some t) :
    acc.dropped = false ∧ t = { batch := acc.batch } ∧ s.underWay tx = [] := by
  cases h.place with
  | idle held phase => exact ⟨held, Option.some.inj (ht.symm.trans phase.1), phase.2⟩
  | busy held empty phase => exact absurd (ht.symm.trans phase.1) (by simp)
  | gone dropped empty phase => exact absurd (ht.symm.trans phase.1) (by simp)

/-- Where nothing is under way, an account goes on with what is new. -/
theorem Stands.step (h : Stands K tx acc handed s) (hunder : s.underWay tx = [])
    (howned : Owned handed' s') (hopened : Opened (handed, s) (handed', s')) (hgrows : s.Grows s')
    {acc' : Account} (new : List (List (Command × Slot) × Fate))
    (hover : acc'.past = acc.past ++ new)
    (hcallers : ∀ x ∈ acc'.recorded, x ∈ acc.recorded ∨ s'.Calls K handed' x.2)
    (hnew : ∀ x ∈ new, Kept K tx s' x.1 x.2) (hplace : Place K tx acc' s')
    (haway : ∀ w ∈ s'.underWay tx, ∃ x ∈ new, ∃ e : Execution,
      x.2 = .executed e ∧ w.id = e.id ∧ e.Waits tx x.1 w.task)
    (hdue : ∀ x ∈ new, ∀ e : Execution, x.2 = .executed e →
      e.deadline ≤ s.now + s.replyTimeout) : Stands K tx acc' handed' s' := by
  have hwaits : ∀ w ∈ s.waits, K w.id → ∃ w' ∈ s'.waits, w.Goes w' :=
    fun w hw _ => hgrows.waits w hw
  refine ⟨howned, fun x hx => ?_, fun x hx => ?_, hplace, fun w hw => ?_, fun x hx e he => ?_⟩
  · rcases hcallers x hx with hold | hcalls
    · exact (h.callers x hold).mono hopened hwaits
    · exact hcalls
  · rw [hover] at hx
    rcases List.mem_append.mp hx with hx | hx
    · exact (h.past x hx).mono hgrows.settled hwaits fun w hw => absurd hw (by rw [hunder]; simp)
    · exact hnew x hx
  · obtain ⟨x, hx, hexec⟩ := haway w hw
    rw [hover]
    exact ⟨x, List.mem_append_right _ hx, hexec⟩
  · rw [hover] at hx
    refine Nat.le_trans ?_ hopened.deadline
    rcases List.mem_append.mp hx with hx | hx
    · exact h.due x hx e he
    · exact hdue x hx e he

theorem Stands.record (h : Stands K tx acc handed s) (ht : s.transaction? tx = some t) {id : String}
    (hk : K id) {command : Command} (howned : Owned handed' (s.record tx id t command))
    (hopened : Opened (handed, s) (handed', s.record tx id t command)) :
    Stands K tx { acc with batch := acc.batch ++ [(command, s.freshSlot.1)] } handed'
      (s.record tx id t command) := by
  obtain ⟨held, rfl, hunder⟩ := h.idle ht
  have htransaction : (s.record tx id { batch := acc.batch } command).transaction? tx =
      some (Transaction.queue { batch := acc.batch } command s.freshSlot.1) := by
    rw [record_transaction?, if_pos rfl, ht, Option.map_some]
  have hrecord : (s.record tx id { batch := acc.batch } command).underWay tx = [] :=
    (wait_underWay s.freshSlot.2 rfl).trans hunder
  refine h.step hunder howned hopened (grows_record ..) [] (List.append_nil _).symm ?_
    (fun x hx => absurd hx (by simp)) (.idle held ⟨htransaction, hrecord⟩)
    (fun w hw => absurd hw (by rw [hrecord]; simp)) fun x hx => absurd hx (by simp)
  intro x hx
  rcases mem_recorded.mp hx with hold | hx
  · exact .inl (mem_recorded.mpr (.inl hold))
  · rcases List.mem_append.mp hx with hx | hx
    · exact .inl (mem_recorded.mpr (.inr hx))
    · rw [List.mem_singleton.mp hx]
      obtain ⟨hkept, hbelow⟩ := howned.mem_slots htransaction s.freshSlot.1
        (by rw [slots_queue]; exact List.mem_append_right _ (List.mem_singleton_self _))
      exact .inr ⟨hkept, hbelow, { id, task := .queued s.freshSlot.1 },
        List.mem_append_right _ (List.mem_singleton_self _), rfl, hk⟩

/-- A batch is thrown away, and its callers' slots with it. -/
theorem Stands.lose (h : Stands K tx acc handed s) (ht : s.transaction? tx = some t)
    (howned : Owned handed' s') (hopened : Opened (handed, s) (handed', s'))
    (hgrows : (s.loseTransaction tx).Grows s') (hunder : s'.underWay tx = []) {acc' : Account}
    (hover : acc'.past = (acc.close .discarded).past)
    (hbatch : acc'.batch = (acc.close .discarded).batch) (hplace : Place K tx acc' s') :
    Stands K tx acc' handed' s' := by
  obtain ⟨-, rfl, hidle⟩ := h.idle ht
  refine h.step hidle howned hopened
    (((quiet_grows s).loseTransaction (.refl s) tx).trans hgrows) _ hover (fun x hx => .inl ?_)
    (fun x hx => ?_) hplace (fun w hw => absurd hw (by rw [hunder]; simp)) fun x hx e he => ?_
  · have hclose : x ∈ (acc.close .discarded).recorded := by
      rw [mem_recorded, ← hover, ← hbatch, ← mem_recorded]
      exact hx
    exact mem_recorded_close.mp hclose
  · rw [List.mem_singleton.mp hx]
    exact .discarded fun c hc => hgrows.settled (h.owned.bare.dropped ht c hc)
  · rw [List.mem_singleton.mp hx] at he
    exact absurd he (by simp)

theorem Stands.discard (h : Stands K tx acc handed s) (ht : s.transaction? tx = some t)
    (howned : Owned handed' (s.putTransaction tx {}))
    (hopened : Opened (handed, s) (handed', s.putTransaction tx {})) :
    Stands K tx (acc.close .discarded) handed' (s.putTransaction tx {}) := by
  obtain ⟨held, -, hidle⟩ := h.idle ht
  have hunder : (s.putTransaction tx {}).underWay tx = [] :=
    (h.owned.toCalm.lose_underWay tx).trans hidle
  refine h.lose ht howned hopened ⟨List.Subset.refl _, (Grows.refl _).waits⟩ hunder rfl rfl
    (.idle held ⟨?_, hunder⟩)
  rw [put_transaction?, if_pos rfl]
  rfl

theorem Stands.drop (h : Stands K tx acc handed s) (ht : s.transaction? tx = some t)
    (howned : Owned handed' (s.loseTransaction tx))
    (hopened : Opened (handed, s) (handed', s.loseTransaction tx)) :
    Stands K tx { acc.close .discarded with dropped := true } handed' (s.loseTransaction tx) := by
  obtain ⟨-, -, hidle⟩ := h.idle ht
  have hunder : (s.loseTransaction tx).underWay tx = [] :=
    (h.owned.toCalm.lose_underWay tx).trans hidle
  refine h.lose ht howned hopened (.refl _) hunder rfl rfl (.gone rfl rfl ⟨?_, hunder⟩)
  rw [lose_transaction?, if_pos rfl]

/-- A batch is executed. -/
theorem Stands.exec (h : Stands K tx acc handed s) (ht : s.transaction? tx = some t) {id : String}
    (hk : K id) {b : Submission} (hb : t.submission s.freshSlot.1 = .ok b)
    (howned : Owned handed' (s.exec tx id t))
    (hopened : Opened (handed, s) (handed', s.exec tx id t)) :
    Stands K tx (acc.close (.executed (s.executing id))) handed' (s.exec tx id t) := by
  obtain ⟨held, rfl, hidle⟩ := h.idle ht
  have hfull : acc.batch ≠ [] := by
    intro hempty
    have hnot := isEmpty_of_submission_ok hb
    exact absurd hnot (by simp [Transaction.isEmpty, hempty])
  have hdue : ∀ x ∈ [(acc.batch, Fate.executed (s.executing id))], ∀ e : Execution,
      x.2 = .executed e → e.deadline ≤ s.now + s.replyTimeout := by
    intro x hx e he
    rw [List.mem_singleton.mp hx] at he
    rw [← Fate.executed.inj he]
    exact Nat.le_refl _
  cases htrip : s.atOnce? with
  | none =>
      obtain ⟨hphase, hgrows⟩ := exec_begins (K := K) hidle hb htrip hk
      have hunder := hphase.2.1
      refine h.step hidle howned hopened hgrows _ rfl
        (fun x hx => .inl (mem_recorded_close.mp hx))
        (fun x hx => ?_) (.busy held rfl hphase) (fun w hw => ?_) hdue
      · rw [List.mem_singleton.mp hx]
        exact .underWay hfull (by rw [hunder]; exact List.mem_singleton_self _) rfl
          (.channel htrip)
      · rw [hunder] at hw
        rw [List.mem_singleton.mp hw]
        exact ⟨_, List.mem_singleton_self _, _, rfl, rfl, .channel htrip⟩
  | some trip =>
      obtain ⟨hdone, hgrows, hrefused⟩ := h.owned.exec_atOnce (K := K) ht hidle hb htrip id
      obtain ⟨w, hw, hid, htask, hresult⟩ := hdone.waits
      refine h.step hidle howned hopened hgrows _ rfl
        (fun x hx => .inl (mem_recorded_close.mp hx))
        (fun x hx => ?_) (.idle held hdone.phase)
        (fun w hw => absurd hw (by rw [hdone.phase.2]; simp)) hdue
      rw [List.mem_singleton.mp hx]
      refine .ended hfull hw (hid ▸ hk) hid ?_ hresult ?_ hdone.shares ?_
      · rw [htask]
        exact .done htrip
      · intro known hknown
        rw [Option.some.inj (htrip.symm.trans hknown)]
      · intro he
        exact hrefused (Option.some.inj (htrip.symm.trans he))

/-- What a submission settles with `EXEC`, and its commands. -/
def parts (b : Submission) : Option Slot × List Command := (b.exec, b.commands)

theorem empty_of_submission {slot : Slot} {e : CommandError}
    (h : Transaction.submission { batch := acc.batch } slot = .error e) :
    acc.batch.isEmpty = true := isEmpty_of_submission_error h

theorem full_of_submission {slot : Slot} {b : Submission}
    (h : Transaction.submission { batch := acc.batch } slot = .ok b) :
    ¬acc.batch.isEmpty = true := by
  rw [show acc.batch.isEmpty = false from isEmpty_of_submission_ok h]
  simp

theorem filterMap_close {α : Type} (f : List (Command × Slot) × Fate → Option α) (acc : Account)
    (fate : Fate) :
    (acc.close fate).past.filterMap f = acc.past.filterMap f ++ (f (acc.batch, fate)).toList := by
  show (acc.past ++ [(acc.batch, fate)]).filterMap f = _
  rw [List.filterMap_append]
  cases hf : f (acc.batch, fate) with
  | none => rw [List.filterMap_cons_none hf]; rfl
  | some x => rw [List.filterMap_cons_some hf]; rfl

/-- The submissions of an account grow with what is submitted. -/
theorem Stands.submitting (h : Stands K tx acc handed s) (m : Move) :
    (acc.after tx s m).past.filterMap Account.submitted? =
      acc.past.filterMap Account.submitted? ++ (s.submittingIn tx m).map parts := by
  unfold Account.after submittingIn
  cases hm : m.handling? tx with
  | none => exact (List.append_nil _).symm
  | some c =>
      cases ht : s.transaction? tx with
      | none => exact (List.append_nil _).symm
      | some t =>
          obtain ⟨-, rfl, -⟩ := h.idle ht
          cases c with
          | record id made => cases made <;> exact (List.append_nil _).symm
          | discard => exact filterMap_close Account.submitted? acc .discarded
          | drop => exact filterMap_close Account.submitted? acc .discarded
          | exec id =>
              simp only [Account.next, Session.submitting]
              cases hsub : Transaction.submission { batch := acc.batch } s.freshSlot.1 with
              | error e =>
                  rw [if_pos (empty_of_submission hsub)]
                  exact (List.append_nil _).symm
              | ok b =>
                  obtain ⟨hexec, hcommands⟩ := Callers.submission_eq hsub
                  have hsubmitted : Account.submitted? (acc.batch, .executed (s.executing id)) =
                      some (parts b) := by
                    unfold parts
                    rw [hexec, hcommands]
                    rfl
                  rw [if_neg (full_of_submission hsub), filterMap_close, hsubmitted]
                  rfl

/-- What of it is handed over grows with what the channel takes. -/
theorem submissions_exec {e : Execution} {b : Submission} {slot : Slot} (hslot : e.slot = slot)
    (htrip : e.atOnce = s.atOnce?)
    (hb : Transaction.submission { batch := acc.batch } slot = .ok b) :
    (acc.close (.executed e)).past.filterMap Account.submission? =
      acc.past.filterMap Account.submission? ++ (if s.closed then [] else [b]).map parts := by
  obtain ⟨hexec, hcommands⟩ := Callers.submission_eq hb
  have hsubmission : Account.submission? (acc.batch, .executed e) =
      if s.closed = true then none else some (parts b) := by
    unfold Account.submission? parts
    dsimp only
    rw [htrip, hslot, hexec, hcommands]
    unfold atOnce?
    by_cases hclosed : s.closed = true
    · rw [if_pos hclosed, if_pos rfl, if_pos hclosed]
    · rw [if_neg hclosed, if_neg hclosed, if_neg]
      split <;> simp
  rw [filterMap_close, hsubmission]
  cases s.closed <;> rfl

theorem submissions_discarded (acc : Account) :
    (acc.close .discarded).past.filterMap Account.submission? =
      acc.past.filterMap Account.submission? :=
  (filterMap_close Account.submission? acc .discarded).trans (List.append_nil _)

/-- **Whatever is done with the handle, the account is kept**, and with it what is handed over. -/
theorem Stands.handled (h : Stands K tx acc handed s) (ht : s.transaction? tx = some t)
    (hk : ∀ id, c.id? = some id → K id) (howned : Owned handed' (s.handled tx t c))
    (hopened : Opened (handed, s) (handed', s.handled tx t c)) :
    Stands K tx (acc.next s c) handed' (s.handled tx t c) ∧
      (acc.next s c).past.filterMap Account.submission? =
        acc.past.filterMap Account.submission? ++ (s.handing t c).map parts := by
  obtain ⟨-, rfl, -⟩ := h.idle ht
  cases c with
  | record id made =>
      cases made with
      | ok command => exact ⟨h.record ht (hk id rfl) howned hopened, (List.append_nil _).symm⟩
      | error e => exact ⟨h.beside howned hopened (.refl s), (List.append_nil _).symm⟩
  | discard =>
      refine ⟨h.discard ht howned hopened, ?_⟩
      exact (submissions_discarded acc).trans (List.append_nil _).symm
  | drop =>
      refine ⟨h.drop ht howned hopened, ?_⟩
      exact (submissions_discarded acc).trans (List.append_nil _).symm
  | exec id =>
      simp only [Account.next, handing]
      cases hsub : Transaction.submission { batch := acc.batch } s.freshSlot.1 with
      | error e =>
          -- An empty batch is not submitted, and its caller hears so at once.
          have hempty := empty_of_submission hsub
          have hexec : s.exec tx id { batch := acc.batch } =
              s.wait id .done (some Transaction.emptyReply) := if_pos hempty
          simp only [Session.handled, hexec] at howned hopened ⊢
          rw [if_pos hempty]
          refine ⟨h.beside howned hopened (.wait s rfl), ?_⟩
          rw [show (Except.error e : Except CommandError Submission).toOption.toList = [] from rfl,
            ite_self]
          exact (List.append_nil _).symm
      | ok b =>
          rw [if_neg (full_of_submission hsub)]
          exact ⟨h.exec ht (hk id rfl) hsub howned hopened, submissions_exec rfl rfl hsub⟩

/-- **Every move keeps the account.** -/
theorem Stands.move (h : Stands K tx acc handed s) (hone : m ≠ .act (.multi tx))
    (hforget : ∀ id, m = .act (.forget id) → ¬K id)
    (hk : ∀ c id, m.handling? tx = some c → c.id? = some id → K id) :
    ∃ handed', Stands K tx (acc.after tx s m) handed' (s.move m) ∧
      (acc.after tx s m).past.filterMap Account.submission? =
        acc.past.filterMap Account.submission? ++
          (if (m.handling? tx).isSome then s.offering m else []).map parts := by
  obtain ⟨handed', howned, hopened, -⟩ := h.owned.move m
  refine ⟨handed', ?_⟩
  unfold Account.after
  cases hm : m.handling? tx with
  | none =>
      have hother : m.handle? ≠ some tx := by
        intro hhandle
        obtain ⟨c, hc⟩ := handling_of_handle hhandle hone
        exact absurd (hm.symm.trans hc) (by simp)
      exact ⟨h.beside howned hopened (.move h.owned hother hforget), (List.append_nil _).symm⟩
  | some c =>
      cases m with
      | act a =>
          cases ht : s.transaction? tx with
          | none =>
              -- The handle is away with its execution, or dropped: nothing can be done with it.
              obtain ⟨hact, hnone⟩ := act_of_away hm ht
              have hmove : s.move (.act a) = s := hact
              rw [hmove] at howned hopened ⊢
              refine ⟨h.beside howned hopened (.refl s), ?_⟩
              simp [offering, hnone]
          | some t =>
              obtain ⟨hact, hoffer⟩ := act_of_handling hm ht
              have hmove : s.move (.act a) = s.handled tx t c := hact
              have hoffering : s.offering (.act a) = s.handing t c := hoffer
              rw [hmove] at howned hopened ⊢
              rw [hoffering]
              exact h.handled ht (fun id hid => hk c id hm hid) howned hopened
      | _ => exact absurd hm (by simp [Move.handling?])

/-- **Every run keeps the account.** -/
theorem Stands.run (h : Stands K tx acc handed s) {moves : List Move}
    (hone : .act (.multi tx) ∉ moves) (hforget : ∀ id, .act (.forget id) ∈ moves → ¬K id)
    (hk : ∀ m ∈ moves, ∀ c id, m.handling? tx = some c → c.id? = some id → K id) :
    ∃ handed', Stands K tx (s.account tx acc moves) handed' (s.run moves) ∧
      (s.account tx acc moves).past.filterMap Account.submitted? =
        acc.past.filterMap Account.submitted? ++ (s.submitted tx moves).map parts ∧
      (s.account tx acc moves).past.filterMap Account.submission? =
        acc.past.filterMap Account.submission? ++ (s.handedOver tx moves).map parts := by
  induction moves generalizing acc handed s with
  | nil => exact ⟨handed, h, (List.append_nil _).symm, (List.append_nil _).symm⟩
  | cons m rest ih =>
      -- What is submitted in the first move comes before what is submitted in the rest.
      obtain ⟨hm, hrest⟩ := List.forall_mem_cons.mp hk
      obtain ⟨handed₁, hmove, hsubmissions⟩ := h.move
        (fun he => hone (he ▸ List.mem_cons_self))
        (fun id he => hforget id (he ▸ List.mem_cons_self)) hm
      obtain ⟨handed₂, hrun, hsubmitted, hmore⟩ := ih hmove
        (fun hmem => hone (List.mem_cons_of_mem _ hmem))
        (fun id hmem => hforget id (List.mem_cons_of_mem _ hmem)) hrest
      refine ⟨handed₂, hrun, hsubmitted.trans ?_, hmore.trans ?_⟩
      · rw [h.submitting m, submitted, List.map_append, List.append_assoc]
      · rw [hsubmissions, handedOver, List.map_append, List.append_assoc]

/-! ## §4  The account is right -/

theorem find?_of_once {xs : List Settlement} {slot : Slot} {outcome : Outcome}
    (honce : (xs.map (·.slot)).count slot = 1) (hmem : ⟨slot, outcome⟩ ∈ xs) :
    Settlement.find? xs slot = some outcome := by
  induction xs with
  | nil => exact absurd hmem (by simp)
  | cons y rest ih =>
      rw [List.map_cons, List.count_cons] at honce
      unfold Settlement.find? at ih ⊢
      rw [List.find?_cons]
      by_cases hy : y.slot = slot
      · have hrest : (rest.map (·.slot)).count slot = 0 := by simpa [hy] using honce
        rcases List.mem_cons.mp hmem with rfl | hmem
        · simp
        · have hnot := List.count_eq_zero.mp hrest
          exact absurd (List.mem_map.mpr ⟨_, hmem, rfl⟩) hnot
      · have hrest : (rest.map (·.slot)).count slot = 1 := by simpa [hy] using honce
        rcases List.mem_cons.mp hmem with rfl | hmem
        · exact absurd rfl hy
        · simp only [hy, decide_false]
          exact ih hrest hmem

/-- The caller of a recorded command has heard how its slot ended, and nothing else. -/
theorem Hears.queued (h : s.Hears) {w : Wait} (hw : w ∈ s.waits) {slot : Slot}
    (htask : w.task = .queued slot) :
    w.result = (Settlement.find? s.settled slot).map Transaction.queuedReply := by
  rcases h w hw slot (by rw [htask]; rfl) with hheard | ⟨deadline, hdeadline, -, -⟩
  · rw [hheard, htask]
    cases Settlement.find? s.settled slot with
    | none => rfl
    | some outcome => cases outcome <;> rfl
  · exact absurd hdeadline (by rw [htask]; simp [Task.deadline?])

/-- A slot that is kept and that has ended has ended once. -/
theorem Owned.resolved (h : Owned handed s) {slot : Slot} (hcalls : s.Calls K handed slot)
    {outcome : Outcome} (hmem : ⟨slot, outcome⟩ ∈ s.settled) : s.Resolved slot outcome := by
  have honce : (s.settled.map (·.slot)).count slot = 1 := by
    -- What was settled and what is kept have the slot once between them.
    have hle := h.once slot hcalls.kept
    have hpos := List.count_pos_iff.mpr (List.mem_map.mpr ⟨_, hmem, rfl⟩ :
      slot ∈ s.settled.map (·.slot))
    unfold shares at hle
    omega
  obtain ⟨w, hw, htask, -⟩ := hcalls.waits
  refine ⟨hmem, honce, ⟨w, hw, htask⟩, fun w hw htask => ?_⟩
  rw [h.hears.queued hw htask, find?_of_once honce hmem]
  rfl

/-- A slot that is still kept has not ended. -/
theorem Owned.pending (h : Owned handed s) {slot : Slot} (hcalls : s.Calls K handed slot)
    (hmem : slot ∈ s.kept) : s.Pending slot := by
  have hnone : ∀ x ∈ s.settled, x.slot ≠ slot := by
    rintro x hx rfl
    have hle := h.once x.slot hcalls.kept
    have hpos := List.count_pos_iff.mpr (List.mem_map_of_mem hx :
      x.slot ∈ s.settled.map (·.slot))
    have hkept := List.count_pos_iff.mpr hmem
    unfold shares at hle
    omega
  obtain ⟨w, hw, htask, -⟩ := hcalls.waits
  refine ⟨hnone, ⟨w, hw, htask⟩, fun w hw htask => ?_⟩
  rw [h.hears.queued hw htask, Settlement.find?_eq_none hnone]
  rfl

/-- The slot has not ended that somebody waits for who has heard nothing. -/
theorem Hears.unsettled (h : s.Hears) {w : Wait} (hw : w ∈ s.waits) {slot : Slot}
    (hslot : w.task.slot? = some slot) (hresult : w.result = none) :
    Settlement.find? s.settled slot = none := by
  rcases h w hw slot hslot with hheard | ⟨deadline, -, -, hheard⟩
  · exact Option.map_eq_none_iff.mp (hheard.symm.trans hresult)
  · exact absurd (hheard.symm.trans hresult) (by simp)

/-- Where nobody is late, whoever has heard nothing has time left. -/
theorem now_lt_deadline (h : s.hasLate = false) {w : Wait} (hw : w ∈ s.waits)
    (hresult : w.result = none) {deadline : Nat} (hdeadline : w.task.deadline? = some deadline) :
    s.now < deadline := by
  have hlate : w.isLate s.now = false := by simpa using List.any_eq_false.mp h w hw
  simpa [Wait.isLate, hresult, hdeadline] using hlate

theorem Stands.underWay (h : Stands K tx acc handed s) {w : Wait} (hw : w ∈ s.underWay tx)
    (hbatch : ∀ c ∈ batch, s.Calls K handed c.2) {e : Execution} (hid : w.id = e.id)
    (hwaits : e.Waits tx batch w.task) : e.UnderWay tx s batch := by
  obtain ⟨hmem, hruns⟩ := mem_underWay.mp hw
  have hresult := (Wait.runs_iff.mp hruns).2
  obtain ⟨htask, hnone⟩ := task_of_waits hw hwaits
  have howed : w.owed = batch.map Prod.snd := owed_of_exec htask hresult
  refine ⟨hnone, h.owned.hears.unsettled hmem (by rw [htask]; rfl) hresult,
    fun hlate => now_lt_deadline hlate hmem hresult (by rw [htask]; rfl),
    ⟨w, hmem, hid, hwaits, hresult⟩, fun c hc => h.owned.pending (hbatch c hc) ?_⟩
  refine List.mem_append_right _ (List.mem_flatMap.mpr ⟨w, hmem, ?_⟩)
  rw [howed]
  exact List.mem_map_of_mem hc

/-- How the round trip of an execution that is over has ended. -/
theorem Owned.came (h : Owned handed s) {w : Wait} (hw : w ∈ s.waits) {e : Execution}
    (hwaits : e.Waits tx batch w.task) {outer : Reply} (hresult : w.result = some outer)
    (hatOnce : ∀ trip, e.atOnce = some trip → outer = trip.executed) :
    ∃ trip, outer = trip.executed ∧ e.Came s trip := by
  generalize htask : w.task = task at hwaits
  cases hwaits with
  | done htrip => exact ⟨_, hatOnce _ htrip, .atOnce htrip⟩
  | channel hnone =>
      -- He has heard how the slot of his submission ended, or his time was over before that.
      rcases h.hears w hw e.slot (by rw [htask]; rfl) with hheard | ⟨due, hdue, hlate, hheard⟩
      · rw [hresult, htask] at hheard
        obtain ⟨outcome, hfind, houter⟩ := Option.map_eq_some_iff.mp hheard.symm
        exact ⟨.ofOutcome outcome, houter.symm, .heard hnone hfind⟩
      · rw [hresult, htask] at hheard
        rw [htask] at hdue
        obtain rfl := Option.some.inj hdue
        exact ⟨.timedOut, Option.some.inj hheard, .late hnone hlate⟩

theorem share_of_getElem? {x : Command × Slot} {i : Nat} (h : batch[i]? = some x) (outer : Reply) :
    ⟨x.2, .reply (outer.element i)⟩ ∈
      Transaction.distribute (batch.map Prod.snd) outer := by
  refine Callers.mem_distribute ?_ outer
  rw [List.getElem?_map, h]
  rfl

theorem Owned.execution_over (h : Owned handed s) {w : Wait} (hw : w ∈ s.waits) {e : Execution}
    (hbatch : ∀ c ∈ batch, s.Calls K handed c.2) (hid : w.id = e.id)
    (hwaits : e.Waits tx batch w.task) {outer : Reply} (hresult : w.result = some outer)
    (hatOnce : ∀ trip, e.atOnce = some trip → outer = trip.executed)
    (hshares : ∀ x ∈ Transaction.distribute (batch.map Prod.snd) outer, x ∈ s.settled)
    (hrefused : e.atOnce = some .notSubmitted →
      ⟨e.slot, .reply RoundTrip.noHandlers⟩ ∈ s.settled) :
    ∃ trip, e.Over tx s batch trip := by
  obtain ⟨trip, rfl, hcame⟩ := h.came hw hwaits hresult hatOnce
  have hshare : ∀ i c, batch[i]? = some c →
      ⟨c.2, .reply (trip.executed.element i)⟩ ∈ s.settled := fun i c hc =>
    hshares _ (share_of_getElem? hc _)
  refine ⟨trip, hcame, ⟨w, hw, hid, hwaits, hresult⟩, fun i c hc => ?_, fun i hi => ?_,
    fun hfailed => ?_, hrefused⟩
  · exact h.resolved (hbatch c (List.mem_of_getElem? hc)) (hshare i c hc)
  · exact h.fair _ (hshare i batch[i] (List.getElem?_eq_getElem hi)) _ rfl
  · cases trip with
    | answered r => exact absurd rfl (hfailed r)
    | _ => exact ⟨rfl, fun _ => rfl⟩

theorem Stands.borne (h : Stands K tx acc handed s)
    (hbatch : ∀ c ∈ batch, s.Calls K handed c.2) (hkept : Kept K tx s batch fate) :
    fate.Borne tx s batch := by
  cases hkept with
  | discarded hdropped =>
      exact .discarded fun c hc => h.owned.resolved (hbatch c hc) (hdropped c hc)
  | underWay full mem id waits => exact .underWay full (h.underWay mem hbatch id waits)
  | ended full mem kept id waits result atOnce shares refused =>
      obtain ⟨trip, hover⟩ :=
        h.owned.execution_over mem hbatch id waits result atOnce shares refused
      exact .ended full trip hover

theorem Stands.calls_of_mem (h : Stands K tx acc handed s) {x : List (Command × Slot) × Fate}
    (hx : x ∈ acc.past) : ∀ c ∈ x.1, s.Calls K handed c.2 := fun c hc =>
  h.callers c (mem_recorded.mpr (.inl ⟨x, hx, hc⟩))

/-- Once the handle is dropped, every slot has ended. -/
theorem Stands.all_over (h : Stands K tx acc handed s) (hdropped : acc.dropped = true) :
    s.transaction? tx = none ∧ ∀ c ∈ acc.recorded, ∃ outcome, s.Resolved c.2 outcome := by
  cases h.place with
  | idle held phase => exact absurd (hdropped.symm.trans held) (by simp)
  | busy held empty phase => exact absurd (hdropped.symm.trans held) (by simp)
  | gone dropped empty phase =>
      refine ⟨phase.1, fun c hc => ?_⟩
      have hcalls := h.callers c hc
      rcases mem_recorded.mp hc with ⟨x, hx, hmem⟩ | hmem
      · have hkept := h.past x hx
        generalize x.2 = fate at hkept
        cases hkept with
        | discarded hdrops => exact ⟨_, h.owned.resolved hcalls (hdrops c hmem)⟩
        | underWay full mem id waits => exact absurd mem (by rw [phase.2]; simp)
        | @ended e w full mem kept id waits outer result atOnce shares refused =>
            obtain ⟨i, hi⟩ := List.getElem?_of_mem hmem
            exact ⟨_, h.owned.resolved hcalls (shares _ (share_of_getElem? hi outer))⟩
      · exact absurd hmem (by rw [empty]; simp)

/-- **An account that is kept is right.** -/
theorem Stands.right (h : Stands K tx acc handed s) : acc.Right tx s := by
  refine ⟨fun c hc => ?_, fun x hx => h.borne (h.calls_of_mem hx) (h.past x hx), fun hheld => ?_,
    h.all_over⟩
  · refine h.owned.pending (h.callers c (mem_recorded.mpr (.inr hc))) ?_
    cases h.place with
    | idle held phase =>
        refine List.mem_append_left _ (List.mem_flatMap.mpr ⟨_, mem_of_transaction? phase.1, ?_⟩)
        exact List.mem_map_of_mem hc
    | busy held empty phase => exact absurd hc (by rw [empty]; simp)
    | gone dropped empty phase => exact absurd hc (by rw [empty]; simp)
  · cases h.place with
    | idle held phase => exact .inl phase.1
    | busy held empty phase =>
        have hmem := phase.2.1 ▸ List.mem_singleton_self _
        obtain ⟨x, hx, e, hexec, hid, hwaits⟩ := h.away _ hmem
        exact .inr ⟨empty, phase.1, x, hx, e, hexec,
          h.underWay hmem (h.calls_of_mem hx) hid hwaits⟩
    | gone dropped empty phase => exact absurd (hheld.symm.trans dropped) (by simp)

/-- A new handle. -/
theorem Owned.stands (h : Owned handed s) (hclient : s.client = true)
    (hfree : s.underWay tx = []) : Stands K tx {} handed (s.move (.act (.multi tx))) := by
  have hmove : s.move (.act (.multi tx)) = s.putTransaction tx {} := by
    simp only [Session.move, act, hclient, if_true]
  have hunder : (s.putTransaction tx {}).underWay tx = [] :=
    (h.toCalm.lose_underWay tx).trans hfree
  rw [hmove]
  refine ⟨h.put tx, fun c hc => absurd hc (by simp [Account.recorded]),
    fun x hx => absurd hx (by simp), .idle rfl ⟨?_, hunder⟩,
    fun w hw => absurd hw (by rw [hunder]; simp), fun x hx => absurd hx (by simp)⟩
  rw [put_transaction?, if_pos rfl]

/-- What happens without an action does not concern the account. -/
theorem Stands.unattended (h : Stands K tx acc handed s) (hm : ∀ a, m ≠ .act a) :
    ∃ handed', Stands K tx acc handed' (s.move m) := by
  obtain ⟨handed', howned, hopened, -⟩ := h.owned.move m
  have hother : m.handle? ≠ some tx := by
    cases m with
    | act a => exact absurd rfl (hm a)
    | _ => simp [Move.handle?]
  exact ⟨handed', h.beside howned hopened (.move h.owned hother fun _ he => absurd he (hm _))⟩

/-- **When the reply timeout has passed, the account is complete.** -/
theorem Stands.complete (h : Stands K tx acc handed s) {millis : Nat}
    (hmillis : s.replyTimeout ≤ millis) :
    acc.Complete tx ((s.move (.tick millis)).move .expire) := by
  obtain ⟨_, htick⟩ := h.unattended (m := .tick millis) (by simp)
  obtain ⟨_, hexpire⟩ := htick.unattended (m := .expire) (by simp)
  refine hexpire.right.complete (expire_inTime _) fun x hx e he => ?_
  have hnow : ((s.move (.tick millis)).move .expire).now = s.now + millis :=
    congrArg (fun t => t.now) (expire_aside (s.move (.tick millis)))
  rw [hnow]
  exact Nat.le_trans (h.due x hx e he) (Nat.add_le_add_left hmillis _)

/-- **The life of a transaction**: however a session began and whatever happens in it besides, what
is done with the handle alone says what has become of each command that was recorded, what was
submitted, and what of it the channel took. Whatever is under way when all have looked at the clock
has time left, and when the reply timeout has passed, all that was executed is over. Those who wait
for the transaction do not give up. -/
theorem life_of_transaction {s₀ : Session} (hbegins : s₀.Begins) (before after : List Move)
    (tx : String) (hclient : (s₀.run before).client = true)
    (hfree : (s₀.run before).underWay tx = []) (hone : .act (.multi tx) ∉ after)
    (hkept : ∀ m ∈ after, ∀ c id, m.handling? tx = some c → c.id? = some id →
      .act (.forget id) ∉ after) :
    let s := (s₀.run before).move (.act (.multi tx))
    let acc := s.account tx {} after
    acc.Right tx (s.run after) ∧
      (s.submitted tx after).map parts = acc.past.filterMap Account.submitted? ∧
      (s.handedOver tx after).map parts = acc.past.filterMap Account.submission? ∧
      acc.InTime tx (s.run (after ++ [.expire])) ∧
      ∀ millis, s₀.replyTimeout ≤ millis →
        acc.Complete tx (s.run (after ++ [.tick millis, .expire])) := by
  intro s acc
  obtain ⟨handed, howned, -, -⟩ := hbegins.owned.run before
  have hstands : Stands (fun id => .act (.forget id) ∉ after) tx {} handed s :=
    howned.stands hclient hfree
  obtain ⟨handed', hrun, hsubmitted, hsubmissions⟩ :=
    hstands.run hone (fun id hmem hnot => hnot hmem) hkept
  have hmore : ∀ moves, s.run (after ++ moves) = (s.run after).run moves :=
    fun moves => List.foldl_append
  have hwhole : s₀.run (before ++ .act (.multi tx) :: after) = s.run after := List.foldl_append
  refine ⟨hrun.right, hsubmitted.symm, hsubmissions.symm, ?_, fun millis hmillis => ?_⟩
  · obtain ⟨_, hexpire⟩ := hrun.unattended (m := .expire) (by simp)
    rw [hmore]
    exact hexpire.right.inTime (expire_inTime _)
  · obtain ⟨_, -, hopened, -⟩ := hbegins.owned.run (before ++ .act (.multi tx) :: after)
    have htimeout : (s.run after).replyTimeout = s₀.replyTimeout := hwhole ▸ hopened.timeout
    rw [hmore]
    exact hrun.complete (htimeout ▸ hmillis)

/-- A command is recorded and executed. -/
def oneExecution : List Move := [.act (.queue "t" "a" "INCR" ["k"]), .act (.exec "t" "e")]

/-- Besides, `EXEC` is answered, another command is recorded, and the handle dropped. -/
def executedAndDropped : List Move :=
  oneExecution ++ [.take, .act (.reply [0x2B, 0x0D, 0x0A, 0x2B, 0x0D, 0x0A]),
    .act (.reply [0x2A, 0x31, 0x0D, 0x0A, 0x3A, 0x37, 0x0D, 0x0A]), .read,
    .act (.queue "t" "b" "INCR" ["k"]), .act (.dropTransaction "t")]

/-- What those who wait have heard. -/
def heard (s : Session) : List (String × Option Reply) := s.waits.map fun w => (w.id, w.result)

/-- The caller of the command and the one of `EXEC` hear that the round trip has failed. -/
def bothFail : List (String × Option Reply) :=
  ["a", "e"].map fun id => (id, some (.error "gateway timeout" (some 504)))

/-- One round trip for each way in which it can end: `EXEC` is answered, the time is over, the
channel is closed, and the submission is thrown away. -/
theorem life_of_transaction_by_outcome :
    let served := (connected 1000).move (.act (.multi "t"))
    let shut := ((unserved 1000).run [.act .closeReceiver]).move (.act (.multi "t"))
    let alone := (unserved 1000).move (.act (.multi "t"))
    ((served.account "t" {} executedAndDropped).Right "t" (served.run executedAndDropped) ∧
      (served.run executedAndDropped).heard =
        [("a", some (.success (.integer 7))), ("e", some (.success (.array [.integer 7]))),
          ("b", some (Transaction.queuedReply .dropped))]) ∧
    ((served.account "t" {} oneExecution).Complete "t"
        (served.run (oneExecution ++ [.tick 1000, .expire])) ∧
      (served.run oneExecution).heard = [("a", none), ("e", none)] ∧
      (served.run (oneExecution ++ [.tick 1000, .expire])).heard = bothFail) ∧
    ((shut.account "t" {} oneExecution).Right "t" (shut.run oneExecution) ∧
      shut.handedOver "t" oneExecution = [] ∧ (shut.run oneExecution).heard = bothFail) ∧
    (alone.account "t" {} (oneExecution ++ [.act .receive])).Right "t"
        (alone.run (oneExecution ++ [.act .receive])) ∧
      (alone.run (oneExecution ++ [.act .receive])).heard = bothFail := by
  refine ⟨⟨?_, ?_⟩, ⟨?_, ?_, ?_⟩, ⟨?_, ?_, ?_⟩, ?_, ?_⟩
  · refine (life_of_transaction (.connected 1000) [] executedAndDropped "t" rfl rfl ?_ ?_).1 <;>
      simp [executedAndDropped, oneExecution]
  · decide +kernel
  · refine (life_of_transaction (.connected 1000) [] oneExecution "t" rfl rfl ?_ ?_).2.2.2.2 1000
      (Nat.le_refl _) <;> simp [oneExecution]
  · decide +kernel
  · decide +kernel
  · refine (life_of_transaction (.unserved 1000) [.act .closeReceiver] oneExecution "t"
      (by decide +kernel) (by decide +kernel) ?_ ?_).1 <;> simp [oneExecution]
  · decide +kernel
  · decide +kernel
  · refine (life_of_transaction (.unserved 1000) [] (oneExecution ++ [.act .receive]) "t" rfl rfl
      ?_ ?_).1 <;> simp [oneExecution]
  · decide +kernel

end Session

end RespClient
