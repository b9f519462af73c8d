import Mathlib.Data.List.Nodup
import RespClient.Proofs.Command.Wrapping
import RespClient.Session.Action

/-!
# Callers

Callers ask for commands, and one transaction is recorded and executed among them. `Callers` is what
they have done so far, apart from time and from what they hear: who waits, and what was handed
over. The one that waits in place `k` waits for slot `k`, so no slot is there twice (`Fresh`).

An answer settles the slot of its command, and the answer of `EXEC` those of all commands that were
recorded (`settle`). So every slot that ends is one of the callers' (`slot_of_settle`).
-/

namespace RespClient

/-! ## §1  What callers do -/

namespace Callers

/-- A command that can be asked for by name, and a name for its reply. -/
structure Inquiry where
  id : String
  name : String
  args : List String
  kind : Kind
  named : Kind.ofName? name = some kind := by decide +kernel

namespace Inquiry

def command (r : Inquiry) : Command := { kind := r.kind, args := r.args }

/-- The command is sent. -/
def dispatch (r : Inquiry) : Action := .dispatch r.id r.name r.args

/-- The command is recorded by a transaction. -/
def queue (r : Inquiry) (tx : String) : Action := .queue tx r.id r.name r.args

theorem ofName_eq (r : Inquiry) : Command.ofName r.name r.args = .ok r.command := by
  unfold Command.ofName
  rw [r.named]
  rfl

end Inquiry

end Callers

structure Callers where
  /-- Those who wait, in the order of their slots. -/
  ids : List String := []
  /-- The transaction, while it is recorded. -/
  recording : Option Transaction := none
  /-- The slot of `EXEC` and those of the recorded commands, once the transaction is executed. -/
  executing : Option (Slot × List Slot) := none
  offered : List Submission := []

namespace Callers

inductive Item
  | ask (r : Inquiry)
  | multi
  | record (r : Inquiry)
  | exec (id : String)

def Item.action (tx : String) : Item → Action
  | .ask r => r.dispatch
  | .multi => .multi tx
  | .record r => r.queue tx
  | .exec id => .exec tx id

/-- The slot that is opened next. -/
def next (g : Callers) : Slot := ⟨g.ids.length⟩

def ask (g : Callers) (r : Inquiry) : Callers :=
  { g with
    ids := g.ids ++ [r.id]
    offered := g.offered ++ [.single (r.command.withSlot g.next)] }

def record (g : Callers) (t : Transaction) (r : Inquiry) : Callers :=
  { g with ids := g.ids ++ [r.id], recording := some (t.queue r.command g.next) }

def exec (g : Callers) (t : Transaction) (id : String) (batch : Submission) : Callers :=
  { ids := g.ids ++ [id]
    recording := none
    executing := some (g.next, t.slots)
    offered := g.offered ++ [batch] }

/-- The callers after an item. There is one transaction, and it is not executed empty. -/
def act? (g : Callers) : Item → Option Callers
  | .ask r => some (g.ask r)
  | .multi =>
    if g.recording = none ∧ g.executing = none then some { g with recording := some {} } else none
  | .record r => g.recording.map fun t => g.record t r
  | .exec id => g.recording.bind fun t => (t.submission g.next).toOption.map (g.exec t id)

/-- The callers after several items. -/
def acts? (g : Callers) : List Item → Option Callers
  | [] => some g
  | item :: rest => (g.act? item).bind fun g => g.acts? rest

/-- The commands handed over, as they are written. -/
def written (g : Callers) : List Command := g.offered.flatMap Submission.wrapped

/-- The slots of the recorded commands. -/
def shared (g : Callers) : List Slot :=
  (g.recording.map Transaction.slots).getD [] ++ (g.executing.map Prod.snd).getD []

/-- The slots of the commands handed over, and those of the recorded commands. -/
def slots (g : Callers) : List Slot := g.written.filterMap (·.slot) ++ g.shared

/-- What an answer settles: the slot of its command, and with the reply of `EXEC` the slots of the
recorded commands. -/
def settle (g : Callers) (a : Answer) : List Settlement :=
  a.settle ++
    match g.executing with
    | some (slot, callers) =>
      if a.command.slot = some slot then Transaction.distribute callers a.reply else []
    | none => []

/-! ## §2  No slot is there twice -/

/-- All slots are different, and were opened. -/
structure Fresh (g : Callers) : Prop where
  nodup : g.slots.Nodup
  below : ∀ x ∈ g.slots, x.id < g.ids.length
  /-- Recorded commands hold no slots: theirs are kept beside them. -/
  bare : ∀ t, g.recording = some t → ∀ c ∈ t.batch.map Prod.fst, c.slot = none
  once : g.recording = none ∨ g.executing = none
  sent : ∀ slot callers, g.executing = some (slot, callers) → slot ∈ g.written.filterMap (·.slot)
  kept : ∀ batch ∈ g.offered, batch.displaced = none

variable {g g' : Callers} {item : Item} {answered : List Answer}

theorem fresh_empty : Fresh {} := by
  refine ⟨?_, ?_, ?_, .inl rfl, ?_, ?_⟩ <;> simp [slots, written, shared]

/-- The next slot is a new one. -/
theorem Fresh.cons (h : g.Fresh) {slots : List Slot} (hperm : slots.Perm (g.next :: g.slots)) :
    slots.Nodup ∧ ∀ x ∈ slots, x.id < g.ids.length + 1 := by
  constructor
  · refine hperm.nodup_iff.mpr (List.nodup_cons.mpr ⟨fun hmem => ?_, h.nodup⟩)
    exact Nat.lt_irrefl _ (h.below _ hmem)
  · intro x hx
    rcases List.mem_cons.mp (hperm.mem_iff.mp hx) with rfl | hx
    · exact Nat.lt_succ_self _
    · exact Nat.lt_succ_of_lt (h.below x hx)

theorem submission_eq {t : Transaction} {slot : Slot} {batch : Submission}
    (h : t.submission slot = .ok batch) :
    batch.exec = some slot ∧ batch.commands = t.batch.map Prod.fst := by
  unfold Transaction.submission Submission.transaction Submission.ofCommands at h
  split at h
  · exact absurd h (by simp)
  · next c rest hcs =>
      obtain rfl := Except.ok.inj h
      exact ⟨rfl, hcs.symm⟩

theorem displaced_of_bare {batch : Submission} (h : ∀ c ∈ batch.commands, c.slot = none) :
    batch.displaced = none := by
  unfold Submission.displaced
  split
  · next last hexec hlast =>
      split
      · exact h last (List.mem_of_getLast? hlast)
      · rfl
  · rfl

theorem written_ask (g : Callers) (r : Inquiry) :
    (g.ask r).written = g.written ++ [r.command.withSlot g.next] := List.flatMap_append

theorem written_exec (g : Callers) (t : Transaction) (id : String) (batch : Submission) :
    (g.exec t id batch).written = g.written ++ batch.wrapped := by
  unfold written exec
  rw [List.flatMap_append, List.flatMap_singleton]

theorem Fresh.ask (h : g.Fresh) (r : Inquiry) : (g.ask r).Fresh := by
  have hwritten : (g.ask r).written.filterMap (·.slot) =
      g.written.filterMap (·.slot) ++ [g.next] := by
    rw [written_ask, List.filterMap_append]
    rfl
  have hslots : (g.ask r).slots = g.written.filterMap (·.slot) ++ g.next :: g.shared := by
    rw [slots, hwritten, List.append_assoc]
    rfl
  obtain ⟨hnodup, hbelow⟩ := h.cons (hslots ▸ List.perm_middle)
  refine ⟨hnodup, ?_, h.bare, h.once, ?_, ?_⟩
  · rw [Callers.ask, List.length_append]
    exact hbelow
  · intro slot callers hexec
    rw [hwritten]
    exact List.mem_append_left _ (h.sent slot callers hexec)
  · intro batch hbatch
    rcases List.mem_append.mp hbatch with hbatch | hbatch
    · exact h.kept batch hbatch
    · rw [List.mem_singleton.mp hbatch]
      rfl

theorem Fresh.record (h : g.Fresh) {t : Transaction} (ht : g.recording = some t) (r : Inquiry) :
    (g.record t r).Fresh := by
  have hexec : g.executing = none := h.once.resolve_left (by simp [ht])
  have hslots : (g.record t r).slots = g.slots ++ [g.next] := by
    simp [slots, shared, written, Callers.record, ht, hexec, Transaction.slots, Transaction.queue]
  obtain ⟨hnodup, hbelow⟩ := h.cons (hslots ▸ List.perm_append_singleton g.next g.slots)
  refine ⟨hnodup, ?_, ?_, .inr hexec, h.sent, h.kept⟩
  · rw [Callers.record, List.length_append]
    exact hbelow
  · intro u hu c hc
    obtain rfl := Option.some.inj hu
    rw [Transaction.queue, List.map_append] at hc
    rcases List.mem_append.mp hc with hc | hc
    · exact h.bare t ht c hc
    · rw [List.mem_singleton.mp hc]
      rfl

theorem Fresh.exec (h : g.Fresh) {t : Transaction} (ht : g.recording = some t) (id : String)
    {batch : Submission} (hbatch : t.submission g.next = .ok batch) :
    (g.exec t id batch).Fresh := by
  have hexec : g.executing = none := h.once.resolve_left (by simp [ht])
  obtain ⟨hslot, hcommands⟩ := submission_eq hbatch
  have hbare : ∀ c ∈ batch.commands, c.slot = none := by
    rw [hcommands]
    exact h.bare t ht
  have hwritten : (g.exec t id batch).written.filterMap (·.slot) =
      g.written.filterMap (·.slot) ++ [g.next] := by
    rw [written_exec, List.filterMap_append, Submission.slots_wrapped hslot hbare]
  have hslots : (g.exec t id batch).slots = g.written.filterMap (·.slot) ++ g.next :: g.shared := by
    rw [slots, hwritten, List.append_assoc]
    simp [shared, Callers.exec, ht, hexec]
  obtain ⟨hnodup, hbelow⟩ := h.cons (hslots ▸ List.perm_middle)
  refine ⟨hnodup, ?_, fun _ hu => absurd hu (by simp [Callers.exec]), .inl rfl, ?_, ?_⟩
  · rw [Callers.exec, List.length_append]
    exact hbelow
  · intro slot callers hsome
    obtain ⟨rfl, -⟩ := Prod.mk.inj (Option.some.inj hsome)
    rw [hwritten]
    exact List.mem_append_right _ (List.mem_singleton_self _)
  · intro b hb
    rcases List.mem_append.mp hb with hb | hb
    · exact h.kept b hb
    · rw [List.mem_singleton.mp hb]
      exact displaced_of_bare hbare

/-- What an item does, by cases. -/
theorem act?_cases (h : g.act? item = some g') :
    (∃ r, item = .ask r ∧ g' = g.ask r) ∨
    (item = .multi ∧ g.recording = none ∧ g.executing = none ∧
      g' = { g with recording := some {} }) ∨
    (∃ r t, item = .record r ∧ g.recording = some t ∧ g' = g.record t r) ∨
    (∃ id t batch, item = .exec id ∧ g.recording = some t ∧ t.submission g.next = .ok batch ∧
      g' = g.exec t id batch) := by
  cases item with
  | ask r => exact .inl ⟨r, rfl, (Option.some.inj h).symm⟩
  | multi =>
      dsimp only [act?] at h
      split at h
      · next hnone => exact .inr (.inl ⟨rfl, hnone.1, hnone.2, (Option.some.inj h).symm⟩)
      · exact absurd h (by simp)
  | record r =>
      obtain ⟨t, ht, rfl⟩ := Option.map_eq_some_iff.mp h
      exact .inr (.inr (.inl ⟨r, t, rfl, ht, rfl⟩))
  | exec id =>
      obtain ⟨t, ht, h⟩ := Option.bind_eq_some_iff.mp h
      obtain ⟨batch, hbatch, rfl⟩ := Option.map_eq_some_iff.mp h
      refine .inr (.inr (.inr ⟨id, t, batch, rfl, ht, ?_, rfl⟩))
      cases hsub : t.submission g.next with
      | error e =>
          rw [hsub] at hbatch
          exact absurd hbatch (by simp [Except.toOption])
      | ok b =>
          rw [hsub] at hbatch
          rw [Option.some.inj hbatch]

/-- **No slot is there twice**, whatever callers do. -/
theorem Fresh.act (h : g.Fresh) (hact : g.act? item = some g') : g'.Fresh := by
  rcases act?_cases hact with ⟨r, -, rfl⟩ | ⟨-, hrec, hexec, rfl⟩ | ⟨r, t, -, ht, rfl⟩ |
    ⟨id, t, batch, -, ht, hbatch, rfl⟩
  · exact h.ask r
  · have hslots : slots { g with recording := some {} } = g.slots := by
      simp [slots, shared, written, hrec, Transaction.slots]
    refine ⟨hslots ▸ h.nodup, hslots ▸ h.below, ?_, .inr hexec, h.sent, h.kept⟩
    intro t ht c hc
    obtain rfl := Option.some.inj ht
    exact absurd hc (by simp)
  · exact h.record ht r
  · exact h.exec ht id hbatch

/-- Submissions already handed over stay where they are. -/
theorem offered_prefix_of_act (hact : g.act? item = some g') : g.offered <+: g'.offered := by
  rcases act?_cases hact with ⟨r, -, rfl⟩ | ⟨-, -, -, rfl⟩ | ⟨r, t, -, -, rfl⟩ |
    ⟨id, t, batch, -, -, -, rfl⟩
  · exact List.prefix_append _ _
  · exact List.prefix_rfl
  · exact List.prefix_rfl
  · exact List.prefix_append _ _

/-! ## §3  One item after the other -/

variable {items : List Item}

theorem acts?_append (g : Callers) (xs ys : List Item) :
    g.acts? (xs ++ ys) = (g.acts? xs).bind fun g => g.acts? ys := by
  induction xs generalizing g with
  | nil => rfl
  | cons x rest ih =>
      rw [List.cons_append, acts?, acts?, Option.bind_assoc]
      exact congrArg _ (funext ih)

theorem Fresh.acts (h : g.Fresh) (hacts : g.acts? items = some g') : g'.Fresh := by
  induction items generalizing g with
  | nil =>
      obtain rfl := Option.some.inj hacts
      exact h
  | cons item rest ih =>
      obtain ⟨g₁, hact, hrest⟩ := Option.bind_eq_some_iff.mp hacts
      exact ih (h.act hact) hrest

theorem offered_prefix_of_acts (h : g.acts? items = some g') : g.offered <+: g'.offered := by
  induction items generalizing g with
  | nil =>
      obtain rfl := Option.some.inj h
      exact List.prefix_rfl
  | cons item rest ih =>
      obtain ⟨g₁, hact, hrest⟩ := Option.bind_eq_some_iff.mp h
      exact (offered_prefix_of_act hact).trans (ih hrest)

theorem written_prefix_of_acts (h : g.acts? items = some g') : g.written <+: g'.written := by
  obtain ⟨later, hlater⟩ := offered_prefix_of_acts h
  refine ⟨later.flatMap Submission.wrapped, ?_⟩
  rw [written, written, ← List.flatMap_append, hlater]

/-- An execution stays the one there is. -/
theorem executing_of_act (hfresh : g.Fresh) (hact : g.act? item = some g')
    {execution : Slot × List Slot} (h : g.executing = some execution) :
    g'.executing = some execution := by
  have hrecording : g.recording = none := hfresh.once.resolve_right (by simp [h])
  rcases act?_cases hact with ⟨r, -, rfl⟩ | ⟨-, -, hnone, -⟩ | ⟨r, t, -, ht, -⟩ |
    ⟨id, t, batch, -, ht, -, -⟩
  · exact h
  · exact absurd h (by simp [hnone])
  · exact absurd ht (by simp [hrecording])
  · exact absurd ht (by simp [hrecording])

theorem executing_of_acts (hfresh : g.Fresh) (hacts : g.acts? items = some g')
    {execution : Slot × List Slot} (h : g.executing = some execution) :
    g'.executing = some execution := by
  induction items generalizing g with
  | nil =>
      obtain rfl := Option.some.inj hacts
      exact h
  | cons item rest ih =>
      obtain ⟨g₁, hact, hrest⟩ := Option.bind_eq_some_iff.mp hacts
      exact ih (hfresh.act hact) hrest (executing_of_act hfresh hact h)

/-! ## §4  What answers settle -/

theorem mem_settle {x : Settlement} {a : Answer} :
    x ∈ g.settle a ↔ (a.command.slot = some x.slot ∧ x.outcome = .reply a.reply) ∨
      ∃ slot callers, g.executing = some (slot, callers) ∧ a.command.slot = some slot ∧
        x ∈ Transaction.distribute callers a.reply := by
  have hown : x ∈ a.settle ↔ a.command.slot = some x.slot ∧ x.outcome = .reply a.reply := by
    unfold Answer.settle Command.resolve Settlement.deliver
    cases hslot : a.command.slot with
    | none => simp
    | some slot =>
        obtain ⟨xslot, outcome⟩ := x
        simp [eq_comm]
  unfold settle
  rw [List.mem_append, hown]
  refine or_congr_right ?_
  cases g.executing with
  | none => simp
  | some exec =>
      obtain ⟨slot, callers⟩ := exec
      dsimp only
      split
      · next hslot =>
          constructor
          · intro hx
            exact ⟨slot, callers, rfl, hslot, hx⟩
          · rintro ⟨_, _, hexec, -, hx⟩
            obtain ⟨rfl, rfl⟩ := Prod.mk.inj (Option.some.inj hexec)
            exact hx
      · next hslot =>
          refine ⟨fun hx => absurd hx (by simp), ?_⟩
          rintro ⟨_, _, hexec, hslot', -⟩
          obtain ⟨rfl, rfl⟩ := Prod.mk.inj (Option.some.inj hexec)
          exact absurd hslot' hslot

theorem slot_of_distribute {x : Settlement} {callers : List Slot} {outer : Reply}
    (hx : x ∈ Transaction.distribute callers outer) : x.slot ∈ callers := by
  obtain ⟨⟨slot, i⟩, hmem, rfl⟩ := List.mem_map.mp hx
  exact List.fst_mem_of_mem_zipIdx hmem

theorem mem_distribute {callers : List Slot} {slot : Slot} {i : Nat} (h : callers[i]? = some slot)
    (outer : Reply) : ⟨slot, .reply (outer.element i)⟩ ∈ Transaction.distribute callers outer :=
  List.mem_map.mpr ⟨(slot, i), List.mem_zipIdx_iff_getElem?.mpr h, rfl⟩

theorem mem_shared {slot x : Slot} {callers : List Slot} (h : g.executing = some (slot, callers))
    (hx : x ∈ callers) : x ∈ g.shared := by
  unfold shared
  rw [h]
  exact List.mem_append_right _ hx

/-- The slots that answers settle are those of their commands and those of the recorded commands. -/
theorem slot_of_settle {x : Settlement} (hx : x ∈ answered.flatMap g.settle) :
    x.slot ∈ (answered.map (·.command)).filterMap (·.slot) ++ g.shared := by
  obtain ⟨a, ha, hx⟩ := List.mem_flatMap.mp hx
  rcases mem_settle.mp hx with ⟨hslot, -⟩ | ⟨slot, callers, hexec, -, hx⟩
  · exact List.mem_append_left _
      (List.mem_filterMap.mpr ⟨a.command, List.mem_map_of_mem ha, hslot⟩)
  · exact List.mem_append_right _ (mem_shared hexec (slot_of_distribute hx))

/-- Answers settle slots with replies. -/
theorem outcome_of_settle {x : Settlement} (hx : x ∈ answered.flatMap g.settle) :
    ∃ r, x.outcome = .reply r := by
  obtain ⟨a, -, hx⟩ := List.mem_flatMap.mp hx
  rcases mem_settle.mp hx with ⟨-, hown⟩ | ⟨_, callers, -, -, hx⟩
  · exact ⟨_, hown⟩
  · obtain ⟨_, -, rfl⟩ := List.mem_map.mp hx
    exact ⟨_, rfl⟩

theorem slots_distribute (callers : List Slot) (outer : Reply) :
    (Transaction.distribute callers outer).map (·.slot) = callers := by
  unfold Transaction.distribute
  rw [List.map_map]
  exact List.zipIdx_map_fst 0 callers

/-- An answer settles no slot twice. -/
theorem nodup_settle_one {a : Answer} (hshared : g.shared.Nodup)
    (hnew : ∀ slot, a.command.slot = some slot → slot ∉ g.shared) :
    ((g.settle a).map (·.slot)).Nodup := by
  unfold settle Answer.settle Command.resolve Settlement.deliver
  cases hslot : a.command.slot with
  | none => cases g.executing <;> simp
  | some slot =>
      cases hexec : g.executing with
      | none => simp
      | some exec =>
          obtain ⟨own, callers⟩ := exec
          dsimp only
          split
          · have hcallers : callers.Nodup := by
              unfold shared at hshared
              rw [hexec] at hshared
              exact hshared.of_append_right
            have hnot : slot ∉ callers := fun h => hnew slot hslot (mem_shared hexec h)
            rw [List.map_append, slots_distribute]
            simpa using ⟨hnot, hcallers⟩
          · simp

/-- **Answers settle no slot twice.** -/
theorem nodup_settle
    (h : ((answered.map (·.command)).filterMap (·.slot) ++ g.shared).Nodup) :
    ((answered.flatMap g.settle).map (·.slot)).Nodup := by
  induction answered with
  | nil => exact List.nodup_nil
  | cons a rest ih =>
      have hshared := h.of_append_right
      have htail : ((rest.map (·.command)).filterMap (·.slot) ++ g.shared).Nodup :=
        (((List.sublist_cons_self a rest).map _).filterMap _ |>.append_right _).nodup h
      have hold : ∀ b ∈ rest, ∀ slot, b.command.slot = some slot →
          slot ∈ (rest.map (·.command)).filterMap (·.slot) := fun b hb slot hslot =>
        List.mem_filterMap.mpr ⟨b.command, List.mem_map_of_mem hb, hslot⟩
      have hnew : ∀ slot, a.command.slot = some slot →
          slot ∉ (rest.map (·.command)).filterMap (·.slot) ++ g.shared := by
        intro slot hslot
        rw [List.map_cons, List.filterMap_cons_some hslot, List.cons_append, List.nodup_cons] at h
        exact h.1
      rw [List.flatMap_cons, List.map_append, List.nodup_append]
      refine ⟨nodup_settle_one hshared fun slot hslot hmem =>
        hnew slot hslot (List.mem_append_right _ hmem), ih htail, ?_⟩
      intro _ hxslot _ hyslot heq
      obtain ⟨x, hx, rfl⟩ := List.mem_map.mp hxslot
      obtain ⟨y, hy, rfl⟩ := List.mem_map.mp hyslot
      rcases mem_settle.mp hx with ⟨hslot, -⟩ | ⟨own, callers, hexec, hown, hx⟩
      · exact hnew _ hslot (heq ▸ slot_of_settle hy)
      · -- The callers' slots come with this answer alone.
        have hmem := mem_shared hexec (slot_of_distribute hx)
        obtain ⟨b, hb, hyb⟩ := List.mem_flatMap.mp hy
        rcases mem_settle.mp hyb with ⟨hslot, -⟩ | ⟨own', _, hexec', hown', -⟩
        · exact List.disjoint_of_nodup_append htail (hold b hb _ hslot) (heq ▸ hmem)
        · obtain ⟨rfl, -⟩ := Prod.mk.inj (Option.some.inj (hexec.symm.trans hexec'))
          exact hnew own hown (List.mem_append_left _ (hold b hb own hown'))

end Callers

end RespClient
