import RespClient.Proofs.Session.Events

/-!
# Deeds

An action opens slots and hands them over, or has to do with the one transaction that it names
(`act_deed`). Together with what happens by itself, all that a session does is made of strokes
(`move_strokes`), and forgetting is the exception: it takes callers away. So slots are with their
owners after any run (`Owned.run`).
-/

namespace RespClient

/-- The transaction that an action names. -/
def Action.handle? : Action → Option String
  | .call _ transaction _ => transaction
  | .multi name | .queue name .. | .discard name | .exec name _ | .dropTransaction name => some name
  | _ => none

theorem Command.slot_ofName {name : String} {args : List String} {c : Command}
    (h : ofName name args = .ok c) : c.slot = none := by
  unfold ofName at h
  split at h
  · rw [← Except.ok.inj h]
  · exact absurd h (by simp)

theorem Call.slot_command {call : Call} {c : Command} (h : call.command = .ok c) :
    c.slot = none := by
  unfold command at h
  split at h
  · exact absurd h (by simp)
  · rw [← Except.ok.inj h]

namespace Session

variable {P : String → Prop} {R : Slot → Prop} {handed : List Slot} {s s' : Session}

/-! ## §1  Slots are opened and handed over -/

/-- Something is made of strokes, and a submission with new slots is handed over with it, if one is
given. -/
def Deed (P : String → Prop) (R : Slot → Prop) (handed : List Slot) (s : Session)
    (batch? : Option Submission) (s' : Session) : Prop :=
  ∃ handed', (∀ b, batch? = some b → ∀ slot ∈ b.slots,
      slot ∈ handed' ∧ s.receivers.next ≤ slot.id) ∧
    Strokes P R (handed, s) (handed', s')

theorem Deed.of_strokes (h : Strokes P R (handed, s) (handed, s')) : Deed P R handed s none s' :=
  ⟨handed, fun _ hb => absurd hb (by simp), h⟩

/-- Slots are opened, and submissions with these slots go into the channel. -/
theorem offer_stroke (h : Owned handed s) (new : List Slot) (batches : List Submission)
    (hnear : s'.transactions = s.transactions ∧ s'.waits = s.waits ∧ s'.settled = s.settled)
    (hclock : s'.now = s.now ∧ s'.replyTimeout = s.replyTimeout) (hservice : s'.service = s.service)
    (hqueue : s'.queue = s.queue ++ batches) (hnext : s.receivers.next ≤ s'.receivers.next)
    (hnew : ∀ slot ∈ new, s.receivers.next ≤ slot.id ∧ slot.id < s'.receivers.next)
    (hbatches : ∀ b ∈ batches, b.slots ⊆ new) : Stroke P R (handed, s) (handed ++ new, s') := by
  have hcarried : s'.Carries (handed ++ new) := by
    obtain ⟨hold, hpending⟩ := carries_iff.mp h.carried
    rw [carries_iff, hqueue, hservice]
    refine ⟨fun b hb => ?_, List.Subset.trans hpending (List.subset_append_left _ _)⟩
    rcases List.mem_append.mp hb with hb | hb
    · exact List.Subset.trans (hold b hb) (List.subset_append_left _ _)
    · exact List.Subset.trans (hbatches b hb) (List.subset_append_right _ _)
  refine .beyond hnear hnext ⟨Nat.le_of_eq hclock.1.symm, hclock.2⟩
    (List.subset_append_left _ _) ?_ hcarried
  intro slot hslot
  exact (List.mem_append.mp hslot).imp_right (hnew slot)

/-- Slots are opened, and nobody has them yet. -/
theorem open_stroke (h : Owned handed s) (new : List Slot) (receivers : Receivers)
    (hnext : s.receivers.next ≤ receivers.next)
    (hnew : ∀ slot ∈ new, s.receivers.next ≤ slot.id ∧ slot.id < receivers.next) :
    Stroke P R (handed, s) (handed ++ new, { s with receivers }) :=
  offer_stroke h new [] ⟨rfl, rfl, rfl⟩ ⟨rfl, rfl⟩ rfl (List.append_nil _).symm hnext hnew
    fun _ hb => absurd hb (by simp)

theorem freshSlot_new (s : Session) : ∀ slot ∈ [s.freshSlot.1],
    s.receivers.next ≤ slot.id ∧ slot.id < s.freshSlot.2.receivers.next := by
  intro slot hslot
  rw [List.mem_singleton.mp hslot]
  exact ⟨Nat.le_refl _, Nat.lt_succ_self _⟩

theorem freshSlot_not_mem (h : Owned handed s) : s.freshSlot.1 ∉ handed := fun hmem =>
  Nat.lt_irrefl _ (h.opened _ hmem)

theorem freshSlot_unsettled (h : Owned handed s) : ∀ x ∈ s.settled, x.slot ≠ s.freshSlot.1 :=
  fun x hx he => Nat.lt_irrefl _ (he ▸ h.below x hx)

/-- A command is dispatched. -/
theorem dispatch_deed (h : Owned handed s) (id : String) (c : Command) :
    Deed P R handed s
      (if s.closed then none else some (Submission.single (c.withSlot s.freshSlot.1)))
      (s.dispatch id c) := by
  cases hclosed : s.closed with
  | true =>
      have hdispatch : s.dispatch id c =
          s.freshSlot.2.wait id .done (some RoundTrip.notSubmitted.dispatched) := if_pos hclosed
      rw [hdispatch, if_pos rfl]
      have hopen : Stroke P R (handed, s) (handed ++ [s.freshSlot.1], s.freshSlot.2) :=
        open_stroke h _ _ (Nat.le_succ _) s.freshSlot_new
      exact ⟨_, fun _ hb => absurd hb (by simp), .head hopen (.single (.join id (.done _)))⟩
  | false =>
      rw [dispatch_of_open hclosed, if_neg (by simp)]
      have hoffer : Stroke P R (handed, s) (handed ++ [s.freshSlot.1],
          { s.freshSlot.2 with
            queue := s.queue ++ [Submission.single (c.withSlot s.freshSlot.1)] }) := by
        refine offer_stroke h _ _ ⟨rfl, rfl, rfl⟩ ⟨rfl, rfl⟩ rfl rfl (Nat.le_succ _)
          s.freshSlot_new ?_
        intro b hb
        rw [List.mem_singleton.mp hb]
        exact List.Subset.refl _
      refine ⟨_, ?_, .head hoffer (.single (.join id (.dispatch _ _ ?_ (freshSlot_unsettled h))))⟩
      · intro b hb slot hslot
        rw [← Option.some.inj hb] at hslot
        exact ⟨List.mem_append_right _ hslot, (s.freshSlot_new slot hslot).1⟩
      · exact List.mem_append_right _ (List.mem_singleton_self _)

/-! ## §2  Transactions are recorded and executed -/

theorem slots_of_submission {t : Transaction} {slot : Slot} {batch : Submission}
    (hbare : ∀ c ∈ t.batch, c.1.slot = none) (h : t.submission slot = .ok batch) :
    batch.slots = [slot] := by
  obtain ⟨hexec, hcommands⟩ := Callers.submission_eq h
  have hnone : batch.commands.filterMap (·.slot) = [] := by
    rw [hcommands, List.filterMap_eq_nil_iff]
    intro c hc
    obtain ⟨x, hx, rfl⟩ := List.mem_map.mp hc
    exact hbare x hx
  unfold Submission.slots
  rw [hexec, hnone]
  rfl

theorem noHandlers_fair : RoundTrip.noHandlers.Fair := by
  simp [Reply.Fair, RoundTrip.noHandlers, Transaction.queuedReply]

/-- A transaction is executed. -/
theorem exec_deed (h : Owned handed s) {name : String} (hname : P name)
    (hR : s.closed = true → ∀ slot, slot ∉ handed → R slot) {t : Transaction}
    (ht : s.transaction? name = some t) (id : String) :
    Deed P R handed s (if s.closed then none else (t.submission s.freshSlot.1).toOption)
      (s.exec name id t) := by
  cases hsub : t.submission s.freshSlot.1 with
  | error e =>
      have hexec : s.exec name id t = s.wait id .done (some Transaction.emptyReply) :=
        if_pos (isEmpty_of_submission_error hsub)
      rw [hexec, show (Except.error e : Except CommandError Submission).toOption = none from rfl,
        ite_self]
      exact .of_strokes (.single (.join id (.done _)))
  | ok batch =>
      have hslots := slots_of_submission (h.bare _ (mem_of_transaction? ht)) hsub
      rw [exec_of_ok hsub]
      dsimp only
      cases hclosed : s.closed with
      | true =>
          rw [if_pos rfl, if_pos rfl]
          have hopen : Stroke P R (handed, s) (handed ++ [s.freshSlot.1], s.freshSlot.2) :=
            open_stroke h _ _ (Nat.le_succ _) s.freshSlot_new
          refine ⟨_, fun _ hb => absurd hb (by simp), .head hopen (.single (.atOnce name id hname
            (s := s.freshSlot.2) ht (fun x hx => ?_) ?_))⟩
          · obtain ⟨slot, hslot, rfl⟩ := List.mem_map.mp hx
            rw [hslots] at hslot
            rw [List.mem_singleton.mp hslot]
            exact ⟨List.mem_append_right _ (List.mem_singleton_self _),
              hR hclosed _ (freshSlot_not_mem h), Settlement.fair_of_reply noHandlers_fair⟩
          · simp [Reply.Fair, RoundTrip.executed, Transaction.queuedReply]
      | false =>
          rw [if_neg (by simp), if_neg (by simp)]
          have hoffer : Stroke P R (handed, s) (handed ++ [s.freshSlot.1],
              { s.freshSlot.2 with queue := s.queue ++ [batch] }) := by
            refine offer_stroke h _ _ ⟨rfl, rfl, rfl⟩ ⟨rfl, rfl⟩ rfl rfl (Nat.le_succ _)
              s.freshSlot_new ?_
            intro b hb
            rw [List.mem_singleton.mp hb, hslots]
            exact List.Subset.refl _
          have hbatch : ∀ b, (Except.ok batch : Except CommandError Submission).toOption = some b →
              ∀ slot ∈ b.slots, slot ∈ handed ++ [s.freshSlot.1] ∧ s.receivers.next ≤ slot.id := by
            intro b hb slot hslot
            rw [← Option.some.inj hb, hslots] at hslot
            exact ⟨List.mem_append_right _ hslot, (s.freshSlot_new slot hslot).1⟩
          split
          · refine ⟨_, hbatch, .head hoffer (.single (.atOnce name id hname
              (s := { s.freshSlot.2 with queue := s.queue ++ [batch] }) ht
              (fun x (hx : x ∈ ([] : List Settlement)) => absurd hx (by simp)) ?_))⟩
            simp [Reply.Fair, RoundTrip.executed, Transaction.queuedReply]
          · refine ⟨_, hbatch, .head hoffer (.single (.begins name id hname
              (s := { s.freshSlot.2 with queue := s.queue ++ [batch] }) _ ht ?_
              (freshSlot_unsettled h)))⟩
            exact List.mem_append_right _ (List.mem_singleton_self _)

/-! ## §3  Commands are submitted as they are -/

/-- Slots are opened one after the other. -/
structure Opens (r r' : Receivers) (new : List (String × Slot)) : Prop where
  waiting : r'.waiting = r.waiting ++ new
  next : r.next ≤ r'.next
  fresh : ∀ x ∈ new, r.next ≤ x.2.id ∧ x.2.id < r'.next

theorem opens_nil (r : Receivers) : Opens r r [] :=
  ⟨(List.append_nil _).symm, Nat.le_refl _, fun _ hx => absurd hx (by simp)⟩

theorem opens_one (r : Receivers) (label : String) :
    Opens r (r.opened label).2 [(label, (r.opened label).1)] := by
  refine ⟨rfl, Nat.le_succ _, fun x hx => ?_⟩
  rw [List.mem_singleton.mp hx]
  exact ⟨Nat.le_refl _, Nat.lt_succ_self _⟩

theorem Opens.append {r₁ r₂ r₃ : Receivers} {xs ys : List (String × Slot)} (h : Opens r₁ r₂ xs)
    (h' : Opens r₂ r₃ ys) : Opens r₁ r₃ (xs ++ ys) := by
  refine ⟨?_, Nat.le_trans h.next h'.next, fun x hx => ?_⟩
  · rw [h'.waiting, h.waiting, List.append_assoc]
  · rcases List.mem_append.mp hx with hx | hx
    · exact ⟨(h.fresh x hx).1, Nat.lt_of_lt_of_le (h.fresh x hx).2 h'.next⟩
    · exact ⟨Nat.le_trans h.next (h'.fresh x hx).1, (h'.fresh x hx).2⟩

/-- The slots of commands that are built are opened for them. -/
theorem build_opens (r : Receivers) (commands : List (Option String × String × List String)) :
    ∃ new, Opens r (build r commands).1 new ∧
      ∀ made, (build r commands).2 = .ok made → made.filterMap (·.slot) ⊆ new.map Prod.snd := by
  induction commands generalizing r with
  | nil =>
      refine ⟨[], opens_nil r, fun made hmade => ?_⟩
      rw [← Except.ok.inj hmade]
      exact List.Subset.refl _
  | cons item rest ih =>
      obtain ⟨label, name, args⟩ := item
      unfold build
      cases hname : Command.ofName name args with
      | error e => exact ⟨[], opens_nil r, fun made hmade => absurd hmade (by simp)⟩
      | ok c =>
          have hbare : c.slot = none := Command.slot_ofName hname
          -- The slot of the command, if it gets one, and those of the rest.
          have hmore : ∀ {c' : Command} {r' : Receivers} {own : List (String × Slot)},
              Opens r r' own → c'.slot.toList ⊆ own.map Prod.snd →
              ∃ new, Opens r (build r' rest).1 new ∧
                ∀ made, (build r' rest).2.map (c' :: ·) = .ok made →
                  made.filterMap (·.slot) ⊆ new.map Prod.snd := by
            intro c' r' own hown hslot
            obtain ⟨new, hnew, hslots⟩ := ih r'
            refine ⟨own ++ new, hown.append hnew, fun made hmade => ?_⟩
            obtain ⟨others, hbuilt, rfl⟩ := ok_of_map_eq_ok hmade
            rw [List.map_append]
            have hothers := List.Subset.trans (hslots others hbuilt)
              (List.subset_append_right (own.map Prod.snd) (new.map Prod.snd))
            cases hc : c'.slot with
            | none =>
                rw [List.filterMap_cons_none hc]
                exact hothers
            | some slot =>
                rw [List.filterMap_cons_some hc]
                refine List.cons_subset.mpr ⟨List.mem_append_left _ (hslot ?_), hothers⟩
                rw [hc]
                exact List.mem_singleton_self _
          cases label with
          | none =>
              refine hmore (opens_nil r) ?_
              rw [hbare]
              exact List.Subset.refl _
          | some label =>
              refine hmore (opens_one r label) ?_
              exact List.Subset.refl _

theorem ofCommands_eq {commands : List Command} {exec : Option Slot} {batch : Submission}
    (h : Submission.ofCommands commands exec = .ok batch) :
    batch.exec = exec ∧ batch.commands = commands := by
  cases commands with
  | nil => exact absurd h (by simp [Submission.ofCommands])
  | cons c rest =>
      rw [← Except.ok.inj h]
      exact ⟨rfl, rfl⟩

/-- The slots of a batch that is built are opened for it. -/
theorem buildSubmission_opens (r : Receivers)
    (commands : List (Option String × String × List String)) (exec : Option String) :
    ∃ new, Opens r (buildSubmission r commands exec).1 new ∧
      ∀ batch, (buildSubmission r commands exec).2 = .ok batch →
        batch.slots ⊆ new.map Prod.snd := by
  obtain ⟨new, hnew, hslots⟩ := build_opens r commands
  unfold buildSubmission
  generalize build r commands = built at hnew hslots
  obtain ⟨r', made⟩ := built
  cases made with
  | error e => exact ⟨new, hnew, fun batch hbatch => absurd hbatch (by simp)⟩
  | ok made =>
      cases exec with
      | none =>
          refine ⟨new, hnew, fun batch hbatch => ?_⟩
          obtain ⟨hexec, hcommands⟩ := ofCommands_eq hbatch
          unfold Submission.slots
          rw [hexec, hcommands]
          exact hslots made rfl
      | some label =>
          refine ⟨_, hnew.append (opens_one r' label), fun batch hbatch => ?_⟩
          obtain ⟨hexec, hcommands⟩ := ofCommands_eq hbatch
          unfold Submission.slots
          rw [hexec, hcommands, List.map_append]
          refine List.append_subset.mpr ⟨?_, ?_⟩
          · exact List.subset_append_right _ _
          · exact List.Subset.trans (hslots made rfl) (List.subset_append_left _ _)

theorem Opens.slots {r r' : Receivers} {new : List (String × Slot)} (h : Opens r r' new) :
    ∀ slot ∈ new.map Prod.snd, r.next ≤ slot.id ∧ slot.id < r'.next := by
  intro slot hslot
  obtain ⟨x, hx, rfl⟩ := List.mem_map.mp hslot
  exact h.fresh x hx

/-- Slots that were opened for nothing are settled at once. -/
theorem settle_opened (h : Owned handed s) {receivers : Receivers} {new : List (String × Slot)}
    (hopens : Opens s.receivers receivers new) (hR : ∀ slot, slot ∉ handed → R slot)
    {xs : List Settlement} (hxs : Serving.Due (new.map Prod.snd) xs) :
    Strokes P R (handed, s)
      (handed ++ new.map Prod.snd, Session.settle { s with receivers } xs) := by
  have hnew : ∀ slot ∈ new.map Prod.snd, slot ∉ handed := fun slot hslot hmem =>
    Nat.lt_irrefl _ (Nat.lt_of_lt_of_le (h.opened slot hmem) (hopens.slots slot hslot).1)
  refine .head (open_stroke h _ receivers hopens.next hopens.slots)
    (.single (.settle xs fun x hx => ⟨?_, hR _ (hnew _ (hxs x hx).1), (hxs x hx).2⟩))
  exact List.mem_append_right _ (hxs x hx).1

/-- Commands are submitted as they are. -/
theorem submit_deed (h : Owned handed s)
    (commands : List (Option String × String × List String)) (exec : Option String)
    (hR : s.handOver? (.submit commands exec) = none → ∀ slot, slot ∉ handed → R slot) :
    Deed P R handed s
      (if s.closed then none else if s.client then
        (buildSubmission s.receivers commands exec).2.toOption else none)
      (s.submit commands exec).2 := by
  obtain ⟨new, hopens, hslots⟩ := buildSubmission_opens s.receivers commands exec
  unfold handOver? at hR
  unfold submit
  dsimp only at hR ⊢
  generalize (buildSubmission s.receivers commands exec).2 = made at hslots hR
  generalize (buildSubmission s.receivers commands exec).1 = receivers at hopens
  have hopened : ((receivers.waiting.drop s.receivers.waiting.length).map (·.2)) =
      new.map Prod.snd := by
    rw [hopens.waiting, List.drop_left]
  cases made with
  | error e =>
      have hnone : (if s.closed then none else if s.client then
          (Except.error e : Except CommandError Submission).toOption else none) = none := by
        rw [Except.toOption, ite_self, ite_self]
      rw [hopened, hnone]
      exact ⟨_, fun _ hb => absurd hb (by simp),
        settle_opened h hopens (hR hnone) (due_dropped (List.Subset.refl _))⟩
  | ok batch =>
      have hbatch := hslots batch rfl
      dsimp only
      by_cases hclient : s.client = true
      · rw [if_neg (show ¬(!s.client) = true by simp [hclient]), if_pos hclient]
        by_cases hclosed : s.closed = true
        · rw [if_pos hclosed] at hR ⊢
          rw [if_pos hclosed]
          exact ⟨_, fun _ hb => absurd hb (by simp),
            settle_opened h hopens (hR rfl) (due_replied hbatch noHandlers_fair)⟩
        · rw [if_neg hclosed, if_neg hclosed]
          refine ⟨handed ++ new.map Prod.snd, fun b hb slot hslot => ?_, .single ?_⟩
          · rw [← Option.some.inj hb] at hslot
            exact ⟨List.mem_append_right _ (hbatch hslot), (hopens.slots slot (hbatch hslot)).1⟩
          · refine offer_stroke h _ [batch] ⟨rfl, rfl, rfl⟩ ⟨rfl, rfl⟩ rfl rfl hopens.next
              hopens.slots ?_
            intro b hb
            rw [List.mem_singleton.mp hb]
            exact hbatch
      · rw [if_neg hclient, ite_self] at hR ⊢
        rw [if_pos (show (!s.client) = true by simpa using hclient)]
        exact ⟨_, fun _ hb => absurd hb (by simp),
          settle_opened h hopens (hR rfl) (due_dropped hbatch)⟩

/-! ## §4  Actions -/

/-- A command that could be made is dispatched, where there is a client to do it. -/
theorem dispatch_made_deed (h : Owned handed s) (id : String)
    {made : Except CommandError Command}
    (done : ∀ c, made = .ok c → s.client = true → s' = s.dispatch id c)
    (left : (∀ c, made = .ok c → s.client = false) → s' = s) :
    Deed P R handed s
      (if s.closed then none else if s.client then
        made.toOption.map fun c => Submission.single (c.withSlot s.freshSlot.1) else none) s' := by
  cases made with
  | error e =>
      have hnone : (Except.error e : Except CommandError Command).toOption = none := rfl
      rw [left (by simp), hnone, Option.map_none, ite_self, ite_self]
      exact .of_strokes .refl
  | ok c =>
      by_cases hclient : s.client = true
      · rw [done c rfl hclient, if_pos hclient]
        exact dispatch_deed h id c
      · rw [left fun _ _ => by simpa using hclient, if_neg hclient, ite_self]
        exact .of_strokes .refl

theorem act_dispatch_deed (h : Owned handed s) (id name : String) (args : List String) :
    Deed P R handed s (s.handOver? (.dispatch id name args))
      (s.act (.dispatch id name args)).2 := by
  refine dispatch_made_deed h id ?_ ?_
  · intro c hc hclient
    simp only [act, hc, hclient, if_true]
  · intro hno
    simp only [act]
    split
    · rfl
    · next c hc => simp [hno c hc]

theorem act_call_deed (h : Owned handed s) (id : String) (call : Call) :
    Deed P R handed s (s.handOver? (.call id none call)) (s.act (.call id none call)).2 := by
  refine dispatch_made_deed h id ?_ ?_
  · intro c hc hclient
    simp [act, hc, hclient]
  · intro hno
    simp only [act]
    split
    · rfl
    · next hclient =>
        split
        · rfl
        · next c hc => simp [hno c hc] at hclient

theorem act_record_strokes (id name : String) (hname : P name) (call : Call) :
    Strokes P R (handed, s) (handed, (s.act (.call id (some name) call)).2) := by
  simp only [act]
  split
  · exact .refl
  · exact .refl
  · next t c ht hc => exact .single (.record name id hname ht (Call.slot_command hc))

theorem act_queue_strokes (name id command : String) (args : List String) (hname : P name) :
    Strokes P R (handed, s) (handed, (s.act (.queue name id command args)).2) := by
  simp only [act]
  split
  · exact .refl
  · exact .refl
  · next c t hc ht => exact .single (.record name id hname ht (Command.slot_ofName hc))

theorem act_exec_deed (h : Owned handed s) (name id : String)
    (hR : s.handOver? (.exec name id) = none → ∀ slot, slot ∉ handed → R slot) (hname : P name) :
    Deed P R handed s (s.handOver? (.exec name id)) (s.act (.exec name id)).2 := by
  simp only [act, handOver?]
  cases ht : s.transaction? name with
  | none =>
      rw [Option.bind_none, ite_self]
      exact .of_strokes .refl
  | some t => exact exec_deed h hname (fun hclosed => hR (by simp [handOver?, hclosed])) ht id

/-- Something happens to the transport, or to the client. -/
theorem side_strokes (h : s.Carries handed) (hnear : s'.near = { s.near with client := s'.client })
    (hnow : s'.now = s.now) (hfar : s'.queue = s.queue ∧ s'.service = s.service) :
    Strokes P R (handed, s) (handed, s') := by
  obtain ⟨-, htimeout, htransactions, hwaits, hreceivers, hsettled⟩ := Near.mk.inj hnear
  have hcarries : s'.Carries handed := by
    rw [carries_iff, hfar.1, hfar.2]
    exact carries_iff.mp h
  refine .single (.beyond ⟨htransactions, hwaits, hsettled⟩ ?_
    ⟨Nat.le_of_eq hnow.symm, htimeout⟩ (List.Subset.refl _) (fun _ => .inl) hcarries)
  exact Nat.le_of_eq (congrArg Receivers.next hreceivers).symm

theorem receive_strokes (h : s.Carries handed) (hR : s.service = .unserved → ∀ slot, R slot) :
    Strokes P R (handed, s) (handed, (s.act .receive).2) := by
  simp only [act]
  split
  · next batch queue hunserved hqueue =>
      obtain ⟨hbatches, hservice⟩ := carries_iff.mp h
      rw [hqueue] at hbatches
      obtain ⟨hbatch, hrest⟩ := List.forall_mem_cons.mp hbatches
      have htaken : Session.Carries handed { s with queue } := carries_iff.mpr ⟨hrest, hservice⟩
      exact .head (beyond_stroke htaken rfl rfl)
        (.single (settle_stroke (hR hunserved) (due_dropped hbatch)))
  · exact .refl

/-- **An action is made of strokes**: those that concern a transaction concern the one that it
names. Slots that were handed over are settled only where nobody serves the channel, and new ones
only where nothing is handed over. -/
theorem act_deed (h : Owned handed s) {a : Action} (hP : ∀ name, a.handle? = some name → P name)
    (hnew : s.handOver? a = none → ∀ slot, slot ∉ handed → R slot)
    (hunserved : s.service = .unserved → ∀ slot, R slot)
    (hpass : ∀ millis, a ≠ .pass millis) (hforget : ∀ id, a ≠ .forget id) :
    Deed P R handed s (s.handOver? a) (s.act a).2 := by
  have hcarries : s.Carries handed := h.carried
  have hsilent : s.handOver? a = none → Strokes P R (handed, s) (handed, (s.act a).2) →
      Deed P R handed s (s.handOver? a) (s.act a).2 := by
    intro hnone hstrokes
    rw [hnone]
    exact .of_strokes hstrokes
  cases a with
  | dispatch id name args => exact act_dispatch_deed h id name args
  | call id transaction call =>
      cases transaction with
      | none => exact act_call_deed h id call
      | some name =>
          exact hsilent (by simp [handOver?]) (act_record_strokes id name (hP name rfl) call)
  | multi name =>
      refine hsilent (by simp [handOver?]) ?_
      simp only [act]
      split
      · exact .single (.put name (hP name rfl))
      · exact .refl
  | queue name id command args =>
      exact hsilent (by simp [handOver?]) (act_queue_strokes name id command args (hP name rfl))
  | discard name =>
      refine hsilent (by simp [handOver?]) ?_
      simp only [act]
      split
      · exact .refl
      · exact .single (.put name (hP name rfl))
  | exec name id => exact act_exec_deed h name id hnew (hP name rfl)
  | dropTransaction name =>
      exact hsilent (by simp [handOver?]) (.single (.lose name (hP name rfl)))
  | submit commands exec =>
      simp only [handOver?]
      exact submit_deed h commands exec hnew
  | forget id => exact absurd rfl (hforget id)
  | dropClient => exact hsilent (by simp [handOver?]) (side_strokes hcarries rfl rfl ⟨rfl, rfl⟩)
  | reply bytes =>
      refine hsilent (by simp [handOver?]) ?_
      simp only [act]
      split
      · exact .refl
      · split
        · exact .refl
        · exact side_strokes hcarries rfl rfl ⟨rfl, rfl⟩
  | hangUp => exact hsilent (by simp [handOver?]) (side_strokes hcarries rfl rfl ⟨rfl, rfl⟩)
  | breakPart part =>
      refine hsilent (by simp [handOver?]) ?_
      simp only [act]
      split
      · exact .refl
      · exact side_strokes hcarries rfl rfl ⟨rfl, rfl⟩
  | pass millis => exact absurd rfl (hpass millis)
  | closeReceiver =>
      refine hsilent (by simp [handOver?]) ?_
      simp only [act]
      split
      · next hnobody => exact closeChannel_strokes (hunserved hnobody) hcarries
      · exact .refl
  | receive =>
      exact hsilent (by simp [handOver?]) (receive_strokes hcarries hunserved)

/-! ## §5  Forgetting -/

/-- Forgetting takes waits away, and drops what executions among them kept. -/
theorem forget_eq (s : Session) (id : String) :
    s.forget id =
      Session.settle { s with waits := s.waits.filter (·.id ≠ id) }
        (((s.waits.filter (·.id = id)).flatMap Wait.owed).map (⟨·, .dropped⟩)) := by
  unfold forget
  rw [List.partition_eq_filter_filter]
  refine congrArg₂ (fun waits callers => Session.settle { s with waits }
    (List.map (fun slot => (⟨slot, .dropped⟩ : Settlement)) callers)) ?_
    (List.flatMap_congr fun w _ => ?_)
  · simp only [Function.comp_def, ne_eq, decide_not]
  · unfold Wait.owed
    cases w.task <;> cases w.result <;> rfl

theorem Calm.with_waits (h : Calm handed s) {waits : List Wait} (hwaits : waits ⊆ s.waits) :
    Calm handed { s with waits } := by
  refine ⟨h.opened, ?_, h.carried, ?_, h.names, h.bare, h.below, h.fair, ?_⟩
  · intro slot hslot
    rcases List.mem_append.mp hslot with hslot | hslot
    · exact h.callers slot (List.mem_append_left _ hslot)
    · obtain ⟨w, hw, hslot⟩ := List.mem_flatMap.mp hslot
      exact h.callers slot (mem_callers_of_wait (hwaits hw) hslot)
  · intro w hw
    exact h.waiting w (hwaits hw)
  · intro w hw
    exact h.hears w (hwaits hw)

/-- **Forgetting leaves slots with their owners**, or settles them. -/
theorem Owned.forget (h : Owned handed s) (id : String) : Owned handed (s.forget id) := by
  rw [forget_eq]
  have hkept : Calm handed { s with waits := s.waits.filter (·.id ≠ id) } :=
    h.toCalm.with_waits (List.filter_subset_self _)
  have hcallers : ∀ slot ∈ (s.waits.filter (·.id = id)).flatMap Wait.owed,
      slot.id < s.receivers.next := by
    intro slot hslot
    obtain ⟨w, hw, hslot⟩ := List.mem_flatMap.mp hslot
    refine (h.callers slot (kept_subset_callers s (List.mem_append_right _ ?_))).2
    exact List.mem_flatMap.mpr ⟨w, List.mem_of_mem_filter hw, hslot⟩
  refine ⟨hkept.settle fun x hx => ?_, fun slot hslot => ?_⟩
  · obtain ⟨slot, hslot, rfl⟩ := List.mem_map.mp hx
    exact ⟨hcallers slot hslot, Settlement.fair_of_dropped⟩
  · have hsettle := hkept.bare.shares_settle
      (((s.waits.filter (·.id = id)).flatMap Wait.owed).map (⟨·, .dropped⟩)) slot
    have hparts := ((List.filter_append_perm (·.id = id) s.waits).flatMap_right
      Wait.owed).count_eq slot
    rw [List.flatMap_append, List.count_append] at hparts
    rw [List.map_map, Function.comp_def, List.map_id'] at hsettle
    refine Nat.le_trans hsettle (Nat.le_trans (Nat.le_of_eq ?_) (h.once slot hslot))
    unfold shares kept
    rw [List.count_append, List.count_append]
    simp only [ne_eq, decide_not]
    omega

/-! ## §6  Moves and runs -/

/-- The transaction that a move names. -/
def Move.handle? : Move → Option String
  | .act a => a.handle?
  | _ => none

/-- **A move is made of strokes**, unless it forgets. -/
theorem move_deed (h : Owned handed s) {m : Move} (hP : ∀ name, m.handle? = some name → P name)
    (hforget : ∀ id, m ≠ .act (.forget id)) :
    ∃ handed', (∀ b ∈ s.offering m, b.slots ⊆ handed') ∧
      Strokes P (fun _ => True) (handed, s) (handed', s.move m) := by
  have hR : ∀ _ : Slot, True := fun _ => trivial
  have hsilent : s.offering m = [] → Strokes P (fun _ => True) (handed, s) (handed, s.move m) →
      ∃ handed', (∀ b ∈ s.offering m, b.slots ⊆ handed') ∧
        Strokes P (fun _ => True) (handed, s) (handed', s.move m) := by
    intro hnone hstrokes
    rw [hnone]
    exact ⟨handed, fun _ hb => absurd hb (by simp), hstrokes⟩
  have hcarries : s.Carries handed := h.carried
  cases m with
  | act a =>
      by_cases hpass : ∃ millis, a = .pass millis
      · obtain ⟨millis, rfl⟩ := hpass
        exact hsilent (by simp [offering, handOver?]) (pass_strokes hR h millis)
      · obtain ⟨handed', hbatch, hstrokes⟩ := act_deed h hP (fun _ slot _ => hR slot) (fun _ => hR)
          (fun millis he => hpass ⟨millis, he⟩) (fun id he => hforget id (congrArg Move.act he))
        exact ⟨handed', fun b hb slot hslot => (hbatch b (Option.mem_toList.mp hb) slot hslot).1,
          hstrokes⟩
  | read =>
      refine hsilent rfl ?_
      unfold Session.move
      dsimp only
      split
      · next c hc =>
          cases hread : s.nextRead? with
          | none => exact .refl
          | some found =>
              exact (event_of_read hcarries hread).happen hR (slots_connection hcarries hc)
      · exact .refl
  | take =>
      refine hsilent rfl ?_
      unfold Session.move
      dsimp only
      split
      · next c hc =>
          cases htake : s.nextTaken? c with
          | none => exact .refl
          | some found =>
              exact (event_of_take hcarries htake).happen hR (slots_connection hcarries hc)
      · exact .refl
  | expire => exact hsilent rfl (.single .expire)
  | tick millis =>
      exact hsilent rfl (.single (.beyond ⟨rfl, rfl, rfl⟩ (Nat.le_refl _)
        ⟨Nat.le_add_right .., rfl⟩ (List.Subset.refl _) (fun _ => .inl) hcarries))

/-- Slots are with their owners after any move. -/
theorem Owned.move (h : Owned handed s) (m : Move) :
    ∃ handed', Owned handed' (s.move m) ∧ Opened (handed, s) (handed', s.move m) ∧
      ∀ b ∈ s.offering m, b.slots ⊆ handed' := by
  by_cases hforget : ∃ id, m = .act (.forget id)
  · obtain ⟨id, rfl⟩ := hforget
    refine ⟨handed, h.forget id, ?_, fun b hb => absurd hb ?_⟩
    · -- The one who gives up waits no more, and what he kept is dropped.
      have hleaves : Opened (handed, s) (handed, { s with waits := s.waits.filter (·.id ≠ id) }) :=
        opened_of_next (Nat.le_refl _) ⟨rfl, rfl⟩
      show Opened (handed, s) (handed, s.forget id)
      rw [forget_eq]
      exact hleaves.trans (opened_of_aside (settle_aside ..))
    · simp [offering, handOver?]
  · obtain ⟨handed', hbatches, hstrokes⟩ := move_deed (P := fun _ => True) h (fun _ _ => trivial)
      fun id he => hforget ⟨id, he⟩
    exact ⟨handed', h.strokes hstrokes, hstrokes.opened, hbatches⟩

/-- **Slots are with their owners after any run**, and all slots of what was handed over are among
those that were. -/
theorem Owned.run (h : Owned handed s) (moves : List Move) :
    ∃ handed', Owned handed' (s.run moves) ∧ Opened (handed, s) (handed', s.run moves) ∧
      ∀ b ∈ s.offered moves, b.slots ⊆ handed' := by
  induction moves generalizing handed s with
  | nil =>
      exact ⟨handed, h, .refl _, fun b hb => absurd hb (by simp [offered])⟩
  | cons m rest ih =>
      obtain ⟨handed₁, hm, hopened, hbatches⟩ := h.move m
      obtain ⟨handed₂, hrest, hopened', hbatches'⟩ := ih hm
      refine ⟨handed₂, hrest, hopened.trans hopened', fun b hb => ?_⟩
      rcases List.mem_append.mp hb with hb | hb
      · exact List.Subset.trans (hbatches b hb) hopened'.grows
      · exact hbatches' b hb

/-- A session as it begins. -/
inductive Begins : Session → Prop
  | unserved (timeout : Nat) : Begins (unserved timeout)
  | connected (timeout : Nat) : Begins (connected timeout)
  | supervised (timeout : Nat) (backoff : Backoff) (script : List Attempt) :
      Begins (supervised timeout backoff script)

theorem Begins.owned (h : s.Begins) : Owned [] s := by
  have hempty : s.transactions = [] ∧ s.waits = [] ∧ s.settled = [] ∧ s.queue = [] ∧
      s.service.slots = [] := by
    cases h <;> exact ⟨rfl, rfl, rfl, rfl, rfl⟩
  obtain ⟨htransactions, hwaits, hsettled, hqueue, hservice⟩ := hempty
  refine ⟨⟨?_, ?_, ?_, ?_, ?_, ?_, ?_, ?_, ?_⟩, ?_⟩ <;>
    simp [callers, carried, Bare, Hears, shares, kept, htransactions, hwaits, hsettled, hqueue,
      hservice]

end Session

end RespClient
