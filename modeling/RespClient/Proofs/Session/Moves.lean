import RespClient.Session.Action

/-!
# Moves

A session in small steps. Callers and the server act when they like, the served connection reads
or looks into the channel when it can, and time goes on and ends waits: a run is any sequence of
these moves, so it fixes no order between what can be read and what can be taken. What happens by
itself between two actions is a run like any other (`next?_eq_move`).

Most of what a session does concerns callers alone: settling slots and ending waits leave
everything else as it was (`aside`), and what an action does beyond the channel is to hand over a
submission or to send bytes (`act_far`).
-/

namespace RespClient.Session

/-! ## §1  Moves and runs -/

inductive Move
  | act (a : Action)
  /-- The served connection reads, if there is something to read. -/
  | read
  /-- The served connection looks into the channel. -/
  | take
  /-- Waits whose time is over end. -/
  | expire
  | tick (millis : Nat)

def move (s : Session) : Move → Session
  | .act a => (s.act a).2
  | .read =>
    match s.service with
    | .connection c => (s.nextRead?.map fun (e, s) => s.happen c e).getD s
    | _ => s
  | .take =>
    match s.service with
    | .connection c => ((s.nextTaken? c).map fun (e, s) => s.happen c e).getD s
    | _ => s
  | .expire => s.expire
  | .tick millis => { s with now := s.now + millis }

def run (s : Session) (moves : List Move) : Session := moves.foldl move s

section Served

variable {s s' : Session} {c : Serving} {e : Serving.Event}

theorem move_read_of_none (hs : s.service = .connection c) (h : s.nextRead? = none) :
    s.move .read = s := by
  simp only [move, hs, h]
  rfl

theorem move_read_of_some (hs : s.service = .connection c) (h : s.nextRead? = some (e, s')) :
    s.move .read = s'.happen c e := by
  simp only [move, hs, h]
  rfl

theorem move_take_of_none (hs : s.service = .connection c) (h : s.nextTaken? c = none) :
    s.move .take = s := by
  simp only [move, hs, h]
  rfl

theorem move_take_of_some (hs : s.service = .connection c) (h : s.nextTaken? c = some (e, s')) :
    s.move .take = s'.happen c e := by
  simp only [move, hs, h]
  rfl

end Served

/-- The channel is served by a connection, or was. -/
def Direct (s : Session) : Prop := s.service = .ended ∨ ∃ c, s.service = .connection c

/-- **What happens by itself is a move**: a read before a look into the channel, and the end of
waits when there is neither. -/
theorem next?_eq_move {s s' : Session} (hs : s.Direct) (h : s.next? = some s') :
    s' = s.move .read ∨ s' = s.move .take ∨ s' = s.move .expire := by
  unfold next? at h
  split at h
  · next next hserve =>
      obtain rfl := Option.some.inj h
      unfold serve? nextEvent? at hserve
      rcases hs with hs | ⟨c, hs⟩
      · rw [hs] at hserve
        exact absurd hserve (by simp)
      · simp only [hs] at hserve
        unfold move
        simp only [hs]
        cases hread : s.nextRead? with
        | some found =>
            rw [hread] at hserve
            exact .inl (Option.some.inj hserve).symm
        | none =>
            rw [hread] at hserve
            dsimp only at hserve
            rw [hserve]
            exact .inr (.inl rfl)
  · split at h
    · exact .inr (.inr (Option.some.inj h).symm)
    · exact absurd h (by simp)

/-- What holds at any time, and after whatever happens next, holds when time has passed. -/
theorem pass_induct {P : Session → Prop} (time : ∀ s now, P s → P { s with now })
    (next : ∀ s s', P s → s.next? = some s' → P s') {s : Session} (h : P s) (millis : Nat) :
    P (s.pass millis) := by
  have hrest : ∀ n s, P s → P (restFor n s) := by
    intro n
    induction n with
    | zero => exact fun s hs => hs
    | succ n ih =>
        intro s hs
        rw [restFor]
        split
        · next s' hnext => exact ih s' (next s s' hs hnext)
        · exact hs
  unfold pass
  generalize s.now + millis = target
  generalize s.now = now
  fun_induction passFrom now target s with
  | case1 now s hdue => exact hrest _ _ (time s target h)
  | case2 now s due hdue hlater ih => exact ih (hrest _ _ (time s due h))
  | case3 now s due hdue hlater => exact hrest _ _ (time s target h)

/-! ## §2  What only callers see -/

/-- A property of sessions that stays when somebody is told something, and when transactions come
and go. Settling is no more than that. -/
structure Quiet (P : Session → Prop) : Prop where
  tell : ∀ s x, P s → P (s.tell x)
  transactions : ∀ s transactions, P s → P { s with transactions }

namespace Quiet

variable {P : Session → Prop} {s : Session}

theorem tells (h : Quiet P) (hs : P s) (xs : List Settlement) : P (xs.foldl Session.tell s) :=
  List.foldlRecOn xs _ hs fun s hs x _ => h.tell s x hs

theorem loseTransaction (h : Quiet P) (hs : P s) (name : String) : P (s.loseTransaction name) := by
  unfold Session.loseTransaction
  split
  · exact hs
  · exact h.tells (h.transactions s _ hs) _

theorem putTransaction (h : Quiet P) (hs : P s) (name : String) (t : Transaction) :
    P (s.putTransaction name t) :=
  h.transactions _ _ (h.loseTransaction hs name)

theorem afterExec (h : Quiet P) (hs : P s) (name : String) (callers : List Slot) (outer : Reply) :
    P (s.afterExec name callers outer) :=
  h.putTransaction (h.tells hs _) name {}

theorem settleOne (h : Quiet P) (hs : P s) (x : Settlement) : P (s.settleOne x) :=
  List.foldlRecOn _ _ (h.tell s x hs) fun _ hs _ _ => h.afterExec hs ..

theorem settle (h : Quiet P) (hs : P s) (xs : List Settlement) : P (s.settle xs) :=
  List.foldlRecOn xs _ hs fun _ hs x _ => h.settleOne hs x

end Quiet

/-- The session without what callers are told and without what they record. -/
def aside (s : Session) : Session :=
  { s with
    waits := s.waits.map fun w => { w with result := none }
    transactions := []
    settled := [] }

theorem map_result_aside {s : Session} {f : Wait → Wait}
    (hf : ∀ w, f w = w ∨ ∃ r, f w = { w with result := r }) :
    aside { s with waits := s.waits.map f } = s.aside := by
  have hwaits : (s.waits.map f).map (fun w => { w with result := none }) =
      s.waits.map fun w => { w with result := none } := by
    rw [List.map_map]
    refine List.map_congr_left fun w _ => ?_
    rw [Function.comp_apply]
    rcases hf w with h | ⟨r, h⟩ <;> rw [h]
  unfold aside
  rw [hwaits]

theorem tell_aside (s : Session) (x : Settlement) : (s.tell x).aside = s.aside := by
  refine (map_result_aside fun w => ?_ : aside { s with waits := _ } = s.aside)
  split
  · exact .inr ⟨_, rfl⟩
  · exact .inl rfl

theorem quiet_aside (s : Session) : Quiet fun t => t.aside = s.aside :=
  ⟨fun t x h => (tell_aside t x).trans h, fun _ _ h => h⟩

theorem settle_aside (s : Session) (xs : List Settlement) : (s.settle xs).aside = s.aside :=
  (quiet_aside s).settle rfl xs

theorem expire_aside (s : Session) : s.expire.aside = s.aside := by
  refine List.foldlRecOn (motive := fun t => aside t = s.aside) _ _ (map_result_aside fun w => ?_)
    fun _ hs _ _ => (quiet_aside s).afterExec hs ..
  split
  · exact .inr ⟨_, rfl⟩
  · exact .inl rfl

/-- Nobody is late for being told something. -/
theorem quiet_inTime : Quiet fun s => s.hasLate = false := by
  refine ⟨fun s x h => ?_, fun _ _ h => h⟩
  have hall : ∀ w ∈ s.waits, w.isLate s.now = false := by
    simpa [hasLate] using h
  refine List.any_eq_false.mpr fun w' hw' => ?_
  obtain ⟨w, hw, rfl⟩ := List.mem_map.mp hw'
  rw [show (s.tell x).now = s.now from rfl]
  split
  · simp [Wait.isLate]
  · simp [hall w hw]

/-- After those have stopped waiting whose time is over, nobody is late. -/
theorem expire_inTime (s : Session) : s.expire.hasLate = false := by
  refine List.foldlRecOn (motive := fun t => hasLate t = false) _ _ (List.any_eq_false.mpr ?_)
    fun _ hs _ _ => quiet_inTime.afterExec hs ..
  intro w' hw'
  obtain ⟨w, hw, rfl⟩ := List.mem_map.mp hw'
  split
  · simp [Wait.isLate]
  · assumption

/-- Nobody is late for an event of the connection. -/
theorem happen_inTime {s : Session} (h : s.hasLate = false) (c : Serving) (e : Serving.Event) :
    (s.happen c e).hasLate = false := by
  have hsettled : (Session.settle { s with wire := s.wire ++ (c.step e).written }
      (c.step e).settled).hasLate = false := by
    refine quiet_inTime.settle ?_ _
    exact h
  unfold happen
  dsimp only
  split
  · exact hsettled
  · refine quiet_inTime.settle ?_ _
    exact hsettled

/-! ## §3  Beyond the callers -/

/-- The channel and what is beyond it. -/
structure Far where
  queue : List Submission
  closed : Bool
  service : Service
  /-- Bytes that can be read. -/
  inbound : List UInt8
  wire : List UInt8

/-- Submissions are put into the channel. -/
def Far.offer (f : Far) (batches : List Submission) : Far := { f with queue := f.queue ++ batches }

/-- Bytes arrive. -/
def Far.arrive (f : Far) (bytes : List UInt8) : Far := { f with inbound := f.inbound ++ bytes }

/-- The connection ends, and the channel with it. -/
def Far.finish (f : Far) : Far := { f with service := .ended, queue := [], closed := true }

@[simp] theorem Far.offer_nil (f : Far) : f.offer [] = f := by
  rw [offer, List.append_nil]

@[simp] theorem Far.arrive_nil (f : Far) : f.arrive [] = f := by
  rw [arrive, List.append_nil]

def inbound (s : Session) : List UInt8 := (s.transport.getD {}).inbound

def far (s : Session) : Far := ⟨s.queue, s.closed, s.service, s.inbound, s.wire⟩

theorem far_of_aside {s t : Session} (h : t.aside = s.aside) : t.far = s.far := by
  have hfar : t.aside.far = s.aside.far := congrArg far h
  exact hfar

/-- The submission that an action hands over, if any. -/
def handOver? (s : Session) (a : Action) : Option Submission :=
  if s.closed then none
  else
    match a with
    | .dispatch _ name args =>
      if s.client then
        (Command.ofName name args).toOption.map fun c => .single (c.withSlot s.freshSlot.1)
      else none
    | .call _ none c =>
      if s.client then c.command.toOption.map fun c => .single (c.withSlot s.freshSlot.1)
      else none
    | .exec name _ => (s.transaction? name).bind fun t => (t.submission s.freshSlot.1).toOption
    | .submit commands exec =>
      if s.client then (buildSubmission s.receivers commands exec).2.toOption else none
    | _ => none

/-- The bytes that an action brings to the connection. -/
def arriving (s : Session) (a : Action) : List UInt8 :=
  match a, s.transport with
  | .reply bytes, some t => if t.hungUp || t.released then [] else bytes
  | _, _ => []

theorem execAtOnce_far (s : Session) (name id : String) (callers : List Slot) (outer : Reply) :
    (s.execAtOnce name id callers outer).far = s.far :=
  (far_of_aside ((quiet_aside _).afterExec rfl ..)).trans rfl

theorem dispatch_of_open {s : Session} (h : s.closed = false) (id : String) (c : Command) :
    s.dispatch id c =
      { s.freshSlot.2 with
        queue := s.queue ++ [Submission.single (c.withSlot s.freshSlot.1)] }.wait id
          (.dispatch s.freshSlot.1 (s.now + s.replyTimeout)) none := if_neg (by simp [h])

theorem dispatch_far (s : Session) (id : String) (c : Command) :
    (s.dispatch id c).far =
      s.far.offer (if s.closed then [] else [Submission.single (c.withSlot s.freshSlot.1)]) := by
  cases hc : s.closed with
  | true =>
      have hdispatch : s.dispatch id c =
          s.freshSlot.2.wait id .done (some RoundTrip.notSubmitted.dispatched) := if_pos hc
      rw [hdispatch, if_pos rfl, Far.offer_nil]
      rfl
  | false =>
      rw [dispatch_of_open hc]
      rfl

theorem isEmpty_of_submission_error {t : Transaction} {slot : Slot} {e : CommandError}
    (h : t.submission slot = .error e) : t.isEmpty = true := by
  unfold Transaction.submission Submission.transaction Submission.ofCommands at h
  unfold Transaction.isEmpty
  cases hbatch : t.batch with
  | nil => rfl
  | cons x rest =>
      rw [hbatch] at h
      exact absurd h (by simp)

theorem isEmpty_of_submission_ok {t : Transaction} {slot : Slot} {batch : Submission}
    (h : t.submission slot = .ok batch) : t.isEmpty = false := by
  unfold Transaction.submission Submission.transaction Submission.ofCommands at h
  unfold Transaction.isEmpty
  cases hbatch : t.batch with
  | nil =>
      rw [hbatch] at h
      exact absurd h (by simp)
  | cons x rest => rfl

/-- The execution of a transaction that has a batch. -/
theorem exec_of_ok {s : Session} {t : Transaction} {batch : Submission}
    (h : t.submission s.freshSlot.1 = .ok batch) (name id : String) :
    s.exec name id t =
      let slot := s.freshSlot.1
      let s' := { s.freshSlot.2 with transactions := s.transactions.filter (·.1 ≠ name) }
      if s.closed then
        (s'.settle (batch.fail RoundTrip.noHandlers)).execAtOnce name id t.slots
          RoundTrip.notSubmitted.executed
      else
        let s' := { s' with queue := s.queue ++ [batch] }
        if s.replyTimeout = 0 then s'.execAtOnce name id t.slots RoundTrip.timedOut.executed
        else s'.wait id (.exec name t.slots slot (s.now + s.replyTimeout)) none := by
  unfold exec
  rw [isEmpty_of_submission_ok h, if_neg (by simp)]
  dsimp only
  rw [h]
  rfl

/-- Executing a transaction hands its batch over, also where nobody has the time to wait for it. -/
theorem exec_far (s : Session) (name id : String) (t : Transaction) :
    (s.exec name id t).far =
      s.far.offer (if s.closed then [] else (t.submission s.freshSlot.1).toOption.toList) := by
  cases hsub : t.submission s.freshSlot.1 with
  | error e =>
      have hexec : s.exec name id t = s.wait id .done (some Transaction.emptyReply) :=
        if_pos (isEmpty_of_submission_error hsub)
      have hnone : (if s.closed then [] else
          (Except.error e : Except CommandError Submission).toOption.toList) = [] := ite_self _
      rw [hexec, hnone, Far.offer_nil]
      rfl
  | ok batch =>
      rw [exec_of_ok hsub]
      dsimp only
      split
      · rw [execAtOnce_far, far_of_aside (settle_aside ..), Far.offer_nil]
        rfl
      · split
        · rw [execAtOnce_far]
          rfl
        · rfl

theorem submit_far (s : Session) (commands : List (Option String × String × List String))
    (exec : Option String) :
    (s.submit commands exec).2.far =
      s.far.offer (if s.closed then [] else if s.client then
        (buildSubmission s.receivers commands exec).2.toOption.toList else []) := by
  unfold submit
  dsimp only
  generalize hmade : (buildSubmission s.receivers commands exec).2 = made
  generalize (buildSubmission s.receivers commands exec).1 = receivers
  have hnothing : ∀ xs, (Session.settle { s with receivers } xs).far = s.far := fun xs =>
    (far_of_aside (settle_aside ..)).trans rfl
  cases made with
  | error e =>
      have hnone : (if s.closed then [] else if s.client then
          (Except.error e : Except CommandError Submission).toOption.toList else []) = [] := by
        rw [Except.toOption, Option.toList_none, ite_self, ite_self]
      rw [hnone, Far.offer_nil]
      exact hnothing _
  | ok batch =>
      dsimp only
      by_cases hclient : s.client = true
      · rw [if_neg (show ¬(!s.client) = true by simp [hclient]), if_pos hclient]
        split
        · rw [Far.offer_nil]
          exact hnothing _
        · rfl
      · rw [if_pos (show (!s.client) = true by simpa using hclient), if_neg hclient, ite_self,
          Far.offer_nil]
        exact hnothing _

/-- A command that could be made is dispatched, where there is a client to do it. -/
theorem dispatch_made_far {s t : Session} (id : String) {made : Except CommandError Command}
    (done : ∀ c, made = .ok c → s.client = true → t = s.dispatch id c)
    (left : (∀ c, made = .ok c → s.client = false) → t = s) :
    t.far = s.far.offer (if s.closed then none else if s.client then
      made.toOption.map fun c => Submission.single (c.withSlot s.freshSlot.1)
        else none).toList := by
  cases made with
  | error e =>
      rw [left (by simp)]
      simp [Except.toOption]
  | ok c =>
      cases hclient : s.client with
      | false =>
          rw [left fun _ _ => hclient]
          simp
      | true =>
          rw [done c rfl hclient, dispatch_far]
          cases s.closed <;> rfl

theorem act_dispatch_far (s : Session) (id name : String) (args : List String) :
    (s.act (.dispatch id name args)).2.far =
      s.far.offer (s.handOver? (.dispatch id name args)).toList := by
  refine dispatch_made_far id ?_ ?_
  · intro c hc hclient
    simp only [act, hc, hclient, if_true]
  · intro hno
    simp only [act]
    split
    · rfl
    · next c hc => simp [hno c hc]

theorem act_call_far (s : Session) (id : String) (transaction : Option String) (call : Call) :
    (s.act (.call id transaction call)).2.far =
      s.far.offer (s.handOver? (.call id transaction call)).toList := by
  cases transaction with
  | none =>
      refine dispatch_made_far id ?_ ?_
      · intro c hc hclient
        simp [act, hc, hclient]
      · intro hno
        simp only [act]
        split
        · rfl
        · next hclient =>
            split
            · rfl
            · next c hc => simp [hno c hc] at hclient
  | some name =>
      have hnone : s.handOver? (.call id (some name) call) = none := by simp [handOver?]
      rw [hnone, Option.toList_none, Far.offer_nil]
      simp only [act]
      split <;> rfl

theorem act_reply_far (s : Session) (bytes : List UInt8) :
    (s.act (.reply bytes)).2.far = s.far.arrive (s.arriving (.reply bytes)) := by
  simp only [act, arriving]
  cases ht : s.transport with
  | none => rw [Far.arrive_nil]
  | some t =>
      dsimp only
      split
      · rw [Far.arrive_nil]
      · simp [far, inbound, ht, Far.arrive]

theorem act_breakPart_far (s : Session) (part : Transport.Part) :
    (s.act (.breakPart part)).2.far = s.far := by
  simp only [act]
  split
  · rfl
  · next t hsome => cases part <;> simp [far, inbound, hsome, Transport.breakPart]

/-- **What an action does beyond the callers**: it hands a submission to the channel, or brings
bytes, or makes the transport fail later on. -/
theorem act_far {s : Session} (hs : s.Direct) {a : Action} (ha : ∀ millis, a ≠ .pass millis) :
    (s.act a).2.far = (s.far.offer (s.handOver? a).toList).arrive (s.arriving a) := by
  have hquiet : ∀ {t : Session}, t.far = s.far → s.handOver? a = none → s.arriving a = [] →
      t.far = (s.far.offer (s.handOver? a).toList).arrive (s.arriving a) := by
    intro t hfar hnone hbytes
    rw [hfar, hnone, hbytes, Option.toList_none, Far.offer_nil, Far.arrive_nil]
  have hoffer : ∀ {t : Session}, t.far = s.far.offer (s.handOver? a).toList → s.arriving a = [] →
      t.far = (s.far.offer (s.handOver? a).toList).arrive (s.arriving a) := by
    intro t hfar hbytes
    rw [hfar, hbytes, Far.arrive_nil]
  cases a with
  | dispatch id name args => exact hoffer (act_dispatch_far ..) rfl
  | call id transaction call => exact hoffer (act_call_far ..) rfl
  | multi name =>
      refine hquiet ?_ (by simp [handOver?]) rfl
      simp only [act]
      split
      · exact far_of_aside ((quiet_aside s).putTransaction rfl ..)
      · rfl
  | queue name id command args =>
      refine hquiet ?_ (by simp [handOver?]) rfl
      simp only [act]
      split <;> rfl
  | discard name =>
      refine hquiet ?_ (by simp [handOver?]) rfl
      simp only [act]
      split
      · rfl
      · exact far_of_aside ((quiet_aside s).putTransaction rfl ..)
  | exec name id =>
      refine hoffer ?_ rfl
      simp only [act, handOver?]
      split
      · next hnone => simp [hnone]
      · next t hsome =>
          rw [exec_far, hsome]
          cases s.closed <;> rfl
  | dropTransaction name =>
      exact hquiet (far_of_aside ((quiet_aside s).loseTransaction rfl ..)) (by simp [handOver?]) rfl
  | submit commands exec =>
      refine hoffer ((submit_far ..).trans ?_) rfl
      simp only [handOver?]
      cases s.closed <;> cases s.client <;> rfl
  | forget id =>
      exact hquiet ((far_of_aside (settle_aside ..)).trans rfl) (by simp [handOver?]) rfl
  | dropClient => exact hquiet rfl (by simp [handOver?]) rfl
  | reply bytes =>
      have hnone : s.handOver? (.reply bytes) = none := by simp [handOver?]
      rw [hnone, Option.toList_none, Far.offer_nil]
      exact act_reply_far ..
  | hangUp =>
      refine hquiet ?_ (by simp [handOver?]) rfl
      simp only [act, far, inbound]
      cases s.transport <;> rfl
  | breakPart part => exact hquiet (act_breakPart_far ..) (by simp [handOver?]) rfl
  | pass millis => exact absurd rfl (ha millis)
  | closeReceiver =>
      refine hquiet ?_ (by simp [handOver?]) rfl
      rcases hs with hs | ⟨c, hs⟩ <;> simp [act, hs]
  | receive =>
      refine hquiet ?_ (by simp [handOver?]) rfl
      rcases hs with hs | ⟨c, hs⟩ <;> simp [act, hs]

/-! ## §4  Events of the connection -/

/-- What an event does beyond the callers: bytes are written, and the connection goes on, or ends
and the channel with it. -/
theorem happen_far (s : Session) (c : Serving) (e : Serving.Event) :
    (s.happen c e).far =
      let f := { s.far with wire := s.wire ++ (c.step e).written }
      match (c.step e).next with
      | .inl c => { f with service := .connection c }
      | .inr _ => f.finish := by
  unfold happen
  generalize c.step e = step
  obtain ⟨next, written, settled⟩ := step
  dsimp only
  have hsettled : (Session.settle { s with wire := s.wire ++ written } settled).far =
      { s.far with wire := s.wire ++ written } := (far_of_aside (settle_aside ..)).trans rfl
  generalize Session.settle { s with wire := s.wire ++ written } settled = t at hsettled ⊢
  cases next with
  | inl c => exact congrArg (fun f : Far => { f with service := .connection c }) hsettled
  | inr ending =>
      dsimp only at hsettled ⊢
      rw [← hsettled]
      refine (far_of_aside (settle_aside ..)).trans ?_
      simp only [far, inbound, Far.finish, release]
      cases t.transport <;> rfl

/-- What can be read: the next part of what has arrived, or a sign that nothing more will come. -/
theorem nextRead?_far {s s' : Session} {e : Serving.Event} (h : s.nextRead? = some (e, s')) :
    (∃ chunk rest, chunk ≠ [] ∧ e = .read chunk ∧ s.inbound = chunk ++ rest ∧
      s'.far = { s.far with inbound := rest }) ∨
    ((e = .read [] ∨ ∃ fault, e = .readFault fault) ∧ s'.far = s.far) := by
  obtain ⟨⟨found, t⟩, hread, hfound⟩ := Option.map_eq_some_iff.mp h
  obtain ⟨rfl, rfl⟩ := Prod.mk.inj hfound
  unfold Transport.read? at hread
  split at hread
  · obtain ⟨rfl, rfl⟩ := Prod.mk.inj (Option.some.inj hread)
    exact .inr ⟨.inr ⟨_, rfl⟩, rfl⟩
  · split at hread
    · split at hread
      · obtain ⟨rfl, rfl⟩ := Prod.mk.inj (Option.some.inj hread)
        exact .inr ⟨.inl rfl, rfl⟩
      · exact absurd hread (by simp)
    · next hne =>
        obtain ⟨rfl, rfl⟩ := Prod.mk.inj (Option.some.inj hread)
        refine .inl ⟨_, _, ?_, rfl, (List.take_append_drop Transport.readSize _).symm, rfl⟩
        rw [List.isEmpty_iff] at hne
        simpa [Transport.readSize] using hne

/-- What is found in the channel: the oldest submission, or that none can come any more. -/
theorem nextTaken?_far {s s' : Session} {c : Serving} {e : Serving.Event}
    (h : s.nextTaken? c = some (e, s')) :
    (∃ batch queue fault, e = .submission batch fault ∧ s.queue = batch :: queue ∧
      s'.far = { s.far with queue }) ∨
    (e = .submissionsClosed ∧ s'.far = s.far) := by
  unfold nextTaken? at h
  split at h
  · split at h
    · next batch queue hqueue =>
        obtain ⟨rfl, rfl⟩ := Prod.mk.inj (Option.some.inj h)
        exact .inl ⟨batch, queue, _, rfl, hqueue, rfl⟩
    · split at h
      · exact absurd h (by simp)
      · obtain ⟨rfl, rfl⟩ := Prod.mk.inj (Option.some.inj h)
        exact .inr ⟨rfl, rfl⟩
  · exact absurd h (by simp)

end RespClient.Session
