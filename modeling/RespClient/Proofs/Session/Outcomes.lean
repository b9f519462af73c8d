import RespClient.Proofs.Session.Deeds

/-!
# How slots that were handed over end

Much happens in a session besides: callers begin to wait and give up, transactions are recorded,
executed and lost, and all of this settles slots. But it settles the slots of the callers of
recorded commands, and never one that was handed over with a submission (`Owned.strokes_ends`). How
such a slot ends is left to whoever has the submission, and each time it is settled adds what was
settled and nothing else (`Calm.settle_ends`).
-/

namespace RespClient.Session

variable {P : String → Prop} {R : Slot → Prop} {handed : List Slot} {s s' : Session} {slot : Slot}
  {x : Settlement} {xs : List Settlement}

/-! ## §1  What settling adds -/

/-- How a slot has ended so far. -/
def ends (s : Session) (slot : Slot) : List Settlement := s.settled.filter (·.slot = slot)

theorem filter_of_others (h : ∀ x ∈ xs, x.slot ≠ slot) : xs.filter (·.slot = slot) = [] := by
  rw [List.filter_eq_nil_iff]
  intro x hx
  simpa using h x hx

theorem tells_ends (s : Session) (xs : List Settlement) (slot : Slot) :
    (xs.foldl tell s).ends slot = s.ends slot ++ xs.filter (·.slot = slot) := by
  unfold ends
  rw [Callers.foldl_tell_settled, List.filter_append]

/-- A transaction is lost, and no slot that was handed over with it. -/
theorem Calm.lose_ends (h : Calm handed s) (hslot : slot ∈ handed) (name : String) :
    (s.loseTransaction name).ends slot = s.ends slot := by
  have hlost : ∀ x ∈ s.lost name, x.slot ≠ slot := by
    rintro x hx rfl
    exact (h.callers _ (h.mem_lost hx).1).1 hslot
  rw [loseTransaction_eq, tells_ends, filter_of_others hlost, List.append_nil]
  rfl

theorem Calm.put_ends (h : Calm handed s) (hslot : slot ∈ handed) (name : String) :
    (s.putTransaction name {}).ends slot = s.ends slot := h.lose_ends hslot name

/-- The end of an execution settles the slots of its callers. -/
theorem Calm.afterExec_ends (h : Calm handed s) (hslot : slot ∈ handed) (name : String)
    {slots : List Slot} (hslots : ∀ own ∈ slots, own ∉ handed ∧ own.id < s.receivers.next)
    {outer : Reply} (hfair : outer.Fair) :
    (s.afterExec name slots outer).ends slot = s.ends slot := by
  have hothers : ∀ x ∈ Transaction.distribute slots outer, x.slot ≠ slot := by
    rintro x hx rfl
    exact (hslots _ (Callers.slot_of_distribute hx)).1 hslot
  have htold : Calm handed ((Transaction.distribute slots outer).foldl Session.tell s) :=
    h.tells fun x hx => ⟨(hslots _ (Callers.slot_of_distribute hx)).2, distribute_fair hfair x hx⟩
  refine (htold.put_ends hslot name).trans ?_
  rw [tells_ends, filter_of_others hothers, List.append_nil]

theorem Calm.afterExecs_ends (h : Calm handed s) (hslot : slot ∈ handed)
    {execs : List (String × List Slot)}
    (hslots : ∀ x ∈ execs, ∀ own ∈ x.2, own ∉ handed ∧ own.id < s.receivers.next)
    {outer : Reply} (hfair : outer.Fair) :
    (s.afterExecs execs outer).ends slot = s.ends slot := by
  induction execs generalizing s with
  | nil => rfl
  | cons x rest ih =>
      obtain ⟨hx, hrest⟩ := List.forall_mem_cons.mp hslots
      have hnext : (s.afterExec x.1 x.2 outer).receivers.next = s.receivers.next :=
        congrArg (fun t => t.receivers.next) (afterExec_aside ..)
      have hcalm := h.afterExec x.1 (fun own hown => (hx own hown).2) hfair
      refine (ih hcalm ?_).trans (h.afterExec_ends hslot x.1 hx hfair)
      rw [hnext]
      exact hrest

theorem Calm.settleOne_ends (h : Calm handed s) (hslot : slot ∈ handed)
    (hbelow : x.slot.id < s.receivers.next) (hfair : x.Fair) :
    (s.settleOne x).ends slot = s.ends slot ++ [x].filter (·.slot = slot) := by
  refine ((h.tell hbelow hfair).afterExecs_ends hslot ?_ (outer_fair hfair)).trans
    (tells_ends s [x] slot)
  intro exec hexec own hown
  obtain ⟨w, hw, hawaits⟩ := List.mem_filterMap.mp hexec
  obtain ⟨⟨deadline, htask⟩, -⟩ := exec_of_awaits? hawaits
  refine h.callers own (mem_callers_of_wait hw ?_)
  rw [htask]
  exact hown

/-- **Settling adds to how a slot has ended what is settled for it**, and nothing else. -/
theorem Calm.settle_ends (h : Calm handed s) (hslot : slot ∈ handed)
    (hxs : ∀ x ∈ xs, x.slot.id < s.receivers.next ∧ x.Fair) :
    (s.settle xs).ends slot = s.ends slot ++ xs.filter (·.slot = slot) := by
  induction xs generalizing s with
  | nil => exact (List.append_nil _).symm
  | cons x rest ih =>
      obtain ⟨⟨hbelow, hfair⟩, hrest⟩ := List.forall_mem_cons.mp hxs
      have hnext : (s.settleOne x).receivers.next = s.receivers.next :=
        congrArg (fun t => t.receivers.next) (settleOne_aside ..)
      refine (ih (h.settleOne hbelow hfair) (by rw [hnext]; exact hrest)).trans ?_
      rw [h.settleOne_ends hslot hbelow hfair, List.append_assoc, ← List.filter_append]
      rfl

theorem Calm.expire_ends (h : Calm handed s) (hslot : slot ∈ handed) :
    s.expire.ends slot = s.ends slot := by
  rw [expire_eq_afterExecs]
  refine h.timeOut.afterExecs_ends hslot (fun exec hexec own hown => ?_) ?_
  · obtain ⟨w, hw, hexpires⟩ := List.mem_filterMap.mp hexec
    obtain ⟨⟨_, deadline, htask⟩, -⟩ := exec_of_expires? hexpires
    refine h.callers own (mem_callers_of_wait hw ?_)
    rw [htask]
    exact hown
  · simp [Reply.Fair, RoundTrip.executed, Transaction.queuedReply]

/-! ## §2  What strokes leave alone -/

theorem Calm.settle_handed_ends (h : Calm handed s) (hslot : slot ∈ handed) (hR : ¬R slot)
    (hxs : Settleable handed R xs) : (s.settle xs).ends slot = s.ends slot := by
  have hothers : ∀ x ∈ xs, x.slot ≠ slot := by
    rintro x hx rfl
    exact hR (hxs x hx).2.1
  rw [h.settle_ends hslot fun x hx => ⟨h.opened _ (hxs x hx).1, (hxs x hx).2.2⟩,
    filter_of_others hothers, List.append_nil]

/-- A stroke settles no slot that was handed over but those that it may. -/
theorem Owned.stroke_ends {p q : List Slot × Session} (h : Owned p.1 p.2)
    (hstroke : Stroke P R p q) (hslot : slot ∈ p.1) (hR : ¬R slot) :
    q.2.ends slot = p.2.ends slot := by
  cases hstroke with
  | beyond near next now grows opened carried =>
      unfold ends
      rw [near.2.2]
  | settle xs hxs => exact h.settle_handed_ends hslot hR hxs
  | expire => exact h.expire_ends hslot
  | put name hname => exact h.put_ends hslot name
  | lose name hname => exact h.lose_ends hslot name
  | join id hjoins => rfl
  | record name id hname ht hc => rfl
  | begins name id hname deadline ht hmem hunsettled => rfl
  | @atOnce handed s name id hname t xs outer ht hxs hfair =>
      have hover := h.toCalm.over hxs name id outer
      have hslots : ∀ own ∈ t.slots, own ∉ handed ∧
          own.id < ((s.without name).settle xs).receivers.next := by
        rw [settle_next]
        exact h.mem_slots ht
      exact (hover.afterExec_ends hslot name hslots hfair).trans
        ((h.toCalm.without name).settle_handed_ends hslot hR hxs)

/-- A slot that is new has not ended. -/
theorem Owned.stroke_ends_new {p q : List Slot × Session} (h : Owned p.1 p.2)
    (hstroke : Stroke P R p q) (hnew : slot ∈ q.1) (hslot : slot ∉ p.1) : q.2.ends slot = [] := by
  cases hstroke with
  | beyond near next now grows opened carried =>
      have hfresh := ((opened slot hnew).resolve_left hslot).1
      refine filter_of_others ?_
      rw [near.2.2]
      rintro x hx rfl
      exact Nat.lt_irrefl _ (Nat.lt_of_lt_of_le (h.below x hx) hfresh)
  | _ => exact absurd hnew hslot

/-- **Strokes settle no slot that was handed over but those that they may**, and none that is handed
over with them. -/
theorem Owned.strokes_ends {p q : List Slot × Session} (h : Owned p.1 p.2)
    (hstrokes : Strokes P R p q) (hR : ¬R slot) :
    (slot ∈ p.1 → q.2.ends slot = p.2.ends slot) ∧
      (slot ∈ q.1 → slot ∉ p.1 → q.2.ends slot = []) := by
  induction hstrokes with
  | refl => exact ⟨fun _ => rfl, fun hmem hnot => absurd hmem hnot⟩
  | @tail q r hsome hstroke ih =>
      have howned : Owned q.1 q.2 := h.strokes hsome
      have hgrows := (Strokes.opened hsome).grows
      refine ⟨fun hslot => ?_, fun hnew hslot => ?_⟩
      · exact (howned.stroke_ends hstroke (hgrows hslot) hR).trans (ih.1 hslot)
      · by_cases hmem : slot ∈ q.1
        · exact (howned.stroke_ends hstroke hmem hR).trans (ih.2 hmem hslot)
        · exact howned.stroke_ends_new hstroke hnew hmem

/-! ## §3  What callers leave alone -/

/-- What callers have done: more slots have been handed over, those of the given submission among
them, and none of all these has been settled by it. -/
structure Aloof (handed handed' : List Slot) (s : Session) (batch? : Option Submission)
    (s' : Session) : Prop where
  owned : Owned handed' s'
  grows : handed ⊆ handed'
  kept : ∀ slot ∈ handed, s'.ends slot = s.ends slot
  offered : ∀ b, batch? = some b → ∀ slot ∈ b.slots,
    slot ∈ handed' ∧ slot ∉ handed ∧ s'.ends slot = []

/-- Whoever gives up leaves alone what was handed over. -/
theorem Owned.forget_aloof (h : Owned handed s) (id : String) :
    Aloof handed handed s none (s.forget id) := by
  refine ⟨h.forget id, List.Subset.refl _, fun slot hslot => ?_, fun b hb => absurd hb (by simp)⟩
  have hcallers : ∀ own ∈ (s.waits.filter (·.id = id)).flatMap Wait.owed, own ∈ s.callers := by
    intro own hown
    obtain ⟨w, hw, hown⟩ := List.mem_flatMap.mp hown
    exact kept_subset_callers s (List.mem_append_right _
      (List.mem_flatMap.mpr ⟨w, List.mem_of_mem_filter hw, hown⟩))
  have hkept : Calm handed { s with waits := s.waits.filter (·.id ≠ id) } :=
    h.toCalm.with_waits (List.filter_subset_self _)
  rw [forget_eq, hkept.settle_ends hslot, filter_of_others, List.append_nil]
  · rfl
  · rintro x hx rfl
    obtain ⟨own, hown, rfl⟩ := List.mem_map.mp hx
    exact (h.callers own (hcallers own hown)).1 hslot
  · intro x hx
    obtain ⟨own, hown, rfl⟩ := List.mem_map.mp hx
    exact ⟨(h.callers own (hcallers own hown)).2, Settlement.fair_of_dropped⟩

/-- **What is done in a session settles no slot that was handed over**, where the channel is
served. -/
theorem Owned.act_aloof (h : Owned handed s) (hs : s.Direct) {a : Action}
    (hpass : ∀ millis, a ≠ .pass millis) :
    ∃ handed', Aloof handed handed' s (s.handOver? a) (s.act a).2 := by
  by_cases hforget : ∃ id, a = .forget id
  · obtain ⟨id, rfl⟩ := hforget
    refine ⟨handed, ?_⟩
    rw [show s.handOver? (.forget id) = none by simp [handOver?]]
    exact h.forget_aloof id
  · have hserved : s.service ≠ .unserved := by
      rcases hs with hs | ⟨c, hs⟩ <;> rw [hs] <;> simp
    -- Slots that are opened for nothing are settled, but only where nothing is handed over.
    obtain ⟨handed', hbatch, hstrokes⟩ := act_deed (P := fun _ => True)
      (R := fun slot => slot ∉ handed ∧ s.handOver? a = none) h (fun _ _ => trivial)
      (fun hnone slot hslot => ⟨hslot, hnone⟩) (fun hunserved => absurd hunserved hserved) hpass
      fun id he => hforget ⟨id, he⟩
    refine ⟨handed', h.strokes hstrokes, hstrokes.opened.grows, fun slot hslot => ?_,
      fun b hb slot hslot => ?_⟩
    · exact (h.strokes_ends hstrokes fun hR => hR.1 hslot).1 hslot
    · obtain ⟨hmem, hnew⟩ := hbatch b hb slot hslot
      have hfresh : slot ∉ handed := fun hold =>
        Nat.lt_irrefl _ (Nat.lt_of_lt_of_le (h.opened slot hold) hnew)
      refine ⟨hmem, hfresh, (h.strokes_ends hstrokes ?_).2 hmem hfresh⟩
      exact fun hR => absurd (hb.symm.trans hR.2) (by simp)

end RespClient.Session
