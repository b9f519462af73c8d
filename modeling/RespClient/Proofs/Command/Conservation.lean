import RespClient.Command.Frame
import RespClient.Proofs.Command.Wrapping

/-!
# Wrapping loses and duplicates nothing

A batch falls apart in one way: a `MULTI` in front if there is one, an `EXEC` at its end if there
is one, and everything in between (`TakenApart`). Either end may be missing, and a batch of one
command may be nothing but an end. Wrapping keeps all three parts, adds the end that is missing,
and gives the `EXEC` the transaction's slot (`TakenApart.wrapped_eq`).

- §1: what of a command reaches the wire.
- §2: the three parts of a batch.
- §3: the block, part by part, and the slots in it.
- §4: a block that is wrapped again is the same block but for the slot of `EXEC`.
- §5: a batch that fails.
-/

namespace RespClient

/-! ## §1  What is written of a command -/

namespace Command

/-- What of a command goes over the wire: everything but the slot. -/
def request (c : Command) : Kind × List String := (c.kind, c.args)

@[simp] theorem request_withSlot (c : Command) (slot : Slot) :
    (c.withSlot slot).request = c.request := rfl

theorem frames_congr {xs ys : List Command} (h : xs.map request = ys.map request) :
    frames xs = frames ys := by
  have hframes (zs : List Command) :
      frames zs = (zs.map request).flatMap fun (kind, args) => frame { kind, args } := by
    rw [frames, List.flatMap_map]
    rfl
  rw [hframes xs, hframes ys, h]

end Command

namespace Submission

/-! ## §2  The parts of a batch -/

/-- The batch is a `MULTI`, a body and an `EXEC`. An end is missing only where the batch does not
have that command at that end. -/
structure TakenApart (commands : List Command) (front : Option Command) (body : List Command)
    (back : Option Command) : Prop where
  whole : commands = front.toList ++ (body ++ back.toList)
  front_kind : ∀ c ∈ front, c.kind = .multi
  back_kind : ∀ c ∈ back, c.kind = .exec
  no_front : front = none → ∀ c ∈ commands.head?, c.kind ≠ .multi
  no_back : back = none → ∀ c ∈ commands.getLast?, c.kind ≠ .exec

theorem exists_front (commands : List Command) :
    ∃ front : Option Command, commands = front.toList ++ withoutMulti commands ∧
      (∀ c ∈ front, c.kind = .multi) ∧
      (front = none → ∀ c ∈ commands.head?, c.kind ≠ .multi) := by
  cases commands with
  | nil => exact ⟨none, rfl, by simp, by simp⟩
  | cons c rest =>
      rw [withoutMulti]
      split
      · next hkind => exact ⟨some c, rfl, by simpa using hkind, by simp⟩
      · next hkind => exact ⟨none, rfl, by simp, by simpa using hkind⟩

theorem exists_back (commands : List Command) :
    ∃ back : Option Command, commands = withoutExec commands ++ back.toList ∧
      (∀ c ∈ back, c.kind = .exec) ∧
      (back = none → ∀ c ∈ commands.getLast?, c.kind ≠ .exec) := by
  unfold withoutExec
  split
  · next c hlast =>
      split
      · next hkind =>
          obtain ⟨before, rfl⟩ := List.getLast?_eq_some_iff.mp hlast
          exact ⟨some c, by rw [List.dropLast_concat]; rfl, by simpa using hkind, by simp⟩
      · next hkind => exact ⟨none, by simp, by simp, by simpa [hlast] using hkind⟩
  · next hlast => exact ⟨none, by simp, by simp, by simp [hlast]⟩

/-- Every batch falls apart. The `EXEC` is looked for behind the `MULTI`, so no command is taken
for both. -/
theorem exists_takenApart (commands : List Command) :
    ∃ front body back, TakenApart commands front body back := by
  obtain ⟨front, hwhole, hfront, hnofront⟩ := exists_front commands
  obtain ⟨back, hrest, hback, hnoback⟩ := exists_back (withoutMulti commands)
  refine ⟨front, withoutExec (withoutMulti commands), back, ?_, hfront, hback, hnofront, ?_⟩
  · rw [← hrest]
    exact hwhole
  · intro hnone c hc hkind
    rw [hwhole, Option.mem_def, List.getLast?_append] at hc
    cases hlast : (withoutMulti commands).getLast? with
    | some d =>
        rw [hlast] at hc
        obtain rfl : d = c := Option.some.inj hc
        exact hnoback hnone d hlast hkind
    | none =>
        -- Nothing is behind the `MULTI`, so it is itself the last command.
        rw [hlast, Option.none_or] at hc
        cases front with
        | none => exact absurd hc (by simp)
        | some d =>
            obtain rfl : d = c := by simpa using hc
            exact absurd (hkind.symm.trans (hfront d rfl)) (by decide)

variable {commands body : List Command} {front back : Option Command} {slot : Slot}

namespace TakenApart

theorem withoutMulti_eq (h : TakenApart commands front body back) :
    withoutMulti commands = body ++ back.toList := by
  cases front with
  | some c => rw [h.whole, Option.toList_some, List.singleton_append, withoutMulti,
      if_pos (h.front_kind c rfl)]
  | none =>
      have hwhole : commands = body ++ back.toList := h.whole
      rw [← hwhole]
      cases hcommands : commands with
      | nil => rfl
      | cons c rest => exact if_neg (h.no_front rfl c (by rw [hcommands]; rfl))

theorem opening_eq (h : TakenApart commands front body back) :
    opening commands = front.getD { kind := .multi } := by
  cases front with
  | some c => rw [h.whole, Option.toList_some, List.singleton_append, opening,
      if_pos (h.front_kind c rfl), Option.getD_some]
  | none =>
      cases hcommands : commands with
      | nil => rfl
      | cons c rest => exact if_neg (h.no_front rfl c (by rw [hcommands]; rfl))

/-- Without an `EXEC` at the end of the batch there is none at the end of the body. -/
theorem body_last (h : TakenApart commands front body none) {c : Command}
    (hc : body.getLast? = some c) : c.kind ≠ .exec := by
  refine h.no_back rfl c ?_
  rw [h.whole, Option.toList_none, List.append_nil, Option.mem_def, List.getLast?_append, hc]
  rfl

theorem withoutExec_eq (h : TakenApart commands front body back) :
    withoutExec (body ++ back.toList) = body := by
  unfold withoutExec
  cases back with
  | some c =>
      rw [Option.toList_some, List.getLast?_concat]
      dsimp only
      rw [if_pos (h.back_kind c rfl), List.dropLast_concat]
  | none =>
      rw [Option.toList_none, List.append_nil]
      split
      · next c hlast => exact if_neg (h.body_last hlast)
      · rfl

theorem closing_eq (h : TakenApart commands front body back) (slot : Slot) :
    closing slot (body ++ back.toList) = (back.getD { kind := .exec }).withSlot slot := by
  unfold closing
  cases back with
  | some c =>
      rw [Option.toList_some, List.getLast?_concat]
      exact if_pos (h.back_kind c rfl)
  | none =>
      rw [Option.toList_none, List.append_nil]
      split
      · next c hlast => exact if_neg (h.body_last hlast)
      · rfl

/-! ## §3  The block -/

variable {s : Submission}

/-- **The block, part by part.** -/
theorem wrapped_eq (h : TakenApart s.commands front body back) (hexec : s.exec = some slot) :
    s.wrapped = front.getD { kind := .multi } ::
      (body ++ [(back.getD { kind := .exec }).withSlot slot]) := by
  rw [wrapped_of_exec hexec, Submission.body, h.opening_eq, h.withoutMulti_eq, h.withoutExec_eq,
    h.closing_eq]

theorem displaced_eq (h : TakenApart s.commands front body back) (hexec : s.exec = some slot) :
    s.displaced = back.bind (·.slot) := by
  unfold displaced
  cases back with
  | some c =>
      have hlast : s.commands.getLast? = some c := by
        rw [h.whole, Option.toList_some, ← List.append_assoc, List.getLast?_concat]
      rw [hexec, hlast]
      exact if_pos (h.back_kind c rfl)
  | none =>
      split
      · next hlast => exact if_neg (h.no_back rfl _ hlast)
      · rfl

/-- The slots in the block and the slot that the transaction's own has replaced are those of the
batch and the transaction's. -/
theorem slots_perm (h : TakenApart s.commands front body back) (hexec : s.exec = some slot) :
    (s.wrapped.filterMap (·.slot) ++ s.displaced.toList).Perm
      (slot :: s.commands.filterMap (·.slot)) := by
  have hfront : [front.getD { kind := .multi }].filterMap (·.slot) =
      front.toList.filterMap (·.slot) := by cases front <;> rfl
  have hback : back.toList.filterMap (·.slot) = (back.bind (·.slot)).toList := by
    cases back with
    | none => rfl
    | some c => cases hslot : c.slot <;> simp [hslot]
  have hslots : s.wrapped.filterMap (·.slot) =
      front.toList.filterMap (·.slot) ++ (body.filterMap (·.slot) ++ [slot]) := by
    rw [h.wrapped_eq hexec, ← List.singleton_append, List.filterMap_append, hfront,
      List.filterMap_append]
    rfl
  rw [hslots, h.displaced_eq hexec, h.whole, List.filterMap_append, List.filterMap_append, hback]
  simp only [← List.append_assoc]
  rw [List.append_assoc, List.singleton_append]
  exact List.perm_middle

end TakenApart

/-! ## §4  Wrapped again -/

theorem closed_concat_exec {xs : List Command} {c : Command} (h : c.kind = .exec) (slot : Slot) :
    closed slot (xs ++ [c]) = xs ++ [c.withSlot slot] := by
  rw [closed_eq, withoutExec, closing, List.getLast?_concat]
  dsimp only
  rw [if_pos h, if_pos h, List.dropLast_concat]

variable {s : Submission}

/-- A block has both ends, so as a batch of its own it is written as it is, but for the slot. -/
theorem wrapped_again {again : Submission} {other : Slot} (hexec : s.exec = some slot)
    (hcommands : again.commands = s.wrapped) (hother : again.exec = some other) :
    again.wrapped.map Command.request = s.wrapped.map Command.request := by
  rw [wrapped_of_exec hexec] at hcommands ⊢
  unfold wrapped
  rw [hother, hcommands]
  dsimp only
  rw [opened, if_pos (opening_kind _), ← List.cons_append, closed_concat_exec (closing_kind _ _)]
  simp

/-! ## §5  A batch that fails -/

/-- How often the batch holds a slot: as the transaction's own, and as that of a command. -/
def holders (s : Submission) (slot : Slot) : Nat :=
  (if s.exec = some slot then 1 else 0) + s.commands.countP (·.slot = some slot)

theorem count_slots (s : Submission) (slot : Slot) : s.slots.count slot = s.holders slot := by
  have hexec : s.exec.toList.count slot = if s.exec = some slot then 1 else 0 := by
    cases s.exec with
    | none => rfl
    | some own => simp [List.count_singleton]
  have hcommands : (s.commands.filterMap (·.slot)).count slot =
      s.commands.countP (·.slot = some slot) := by
    rw [List.count, List.countP_filterMap]
    refine List.countP_congr fun c _ => ?_
    cases c.slot <;> simp
  rw [slots, List.count_append, hexec, hcommands, holders]

/-- Each holder of a slot is told the reply, and nobody else. -/
theorem filter_fail (s : Submission) (reply : Reply) (slot : Slot) :
    (s.fail reply).filter (·.slot = slot) =
      List.replicate (s.holders slot) ⟨slot, .reply reply⟩ := by
  rw [← count_slots, fail, List.filter_map]
  have hfilter : s.slots.filter ((fun t : Settlement => decide (t.slot = slot)) ∘
      fun t => ⟨t, .reply reply⟩) = List.replicate (s.slots.count slot) slot :=
    List.filter_eq slot
  rw [hfilter, List.map_replicate]

/-- **Wrapping loses and duplicates nothing.** A transaction of any commands is a `MULTI`, the
commands without that end, and an `EXEC` that owns the transaction's slot. The caller's own ends
are used where the batch has them, and only the slot of the caller's `EXEC` is replaced. The block,
given as a transaction again, is written in the same bytes. And a batch that fails tells each
holder of a slot once. -/
theorem wrapping_conserves :
    (∀ (commands : List Command) (exec : Slot), commands ≠ [] →
      ∃ (s : Submission) (front : Option Command) (body : List Command) (back : Option Command),
        transaction commands exec = .ok s ∧
        TakenApart commands front body back ∧
        s.wrapped = front.getD { kind := .multi } ::
          (body ++ [(back.getD { kind := .exec }).withSlot exec]) ∧
        s.displaced = back.bind (·.slot) ∧
        (s.wrapped.filterMap (·.slot) ++ s.displaced.toList).Perm
          (exec :: commands.filterMap (·.slot)) ∧
        ∀ other : Slot, ∃ again : Submission,
          transaction s.wrapped other = .ok again ∧
          again.wrapped.map Command.request = s.wrapped.map Command.request ∧
          Command.frames again.wrapped = Command.frames s.wrapped) ∧
    ∀ (s : Submission) (reply : Reply) (slot : Slot),
      (s.fail reply).filter (·.slot = slot) =
        List.replicate (s.holders slot) ⟨slot, .reply reply⟩ := by
  refine ⟨fun commands exec hne => ?_, filter_fail⟩
  obtain ⟨front, body, back, hparts⟩ := exists_takenApart commands
  let s : Submission := { commands, exec := some exec, commands_ne_nil := hne }
  have hmade : transaction commands exec = .ok s := by
    cases commands with
    | nil => exact absurd rfl hne
    | cons c rest => rfl
  refine ⟨s, front, body, back, hmade, hparts, hparts.wrapped_eq rfl, hparts.displaced_eq rfl,
    hparts.slots_perm rfl, fun other => ?_⟩
  have hwrapped : s.wrapped ≠ [] := by
    rw [hparts.wrapped_eq rfl]
    exact List.cons_ne_nil _ _
  let again : Submission :=
    { commands := s.wrapped, exec := some other, commands_ne_nil := hwrapped }
  have hagain : transaction s.wrapped other = .ok again := by
    cases hcommands : s.wrapped with
    | nil => exact absurd hcommands hwrapped
    | cons c rest => simp [transaction, ofCommands, again, hcommands]
  have hsame : again.wrapped.map Command.request = s.wrapped.map Command.request :=
    wrapped_again rfl rfl rfl
  exact ⟨again, hagain, hsame, Command.frames_congr hsame⟩

/-- A batch with both ends, and with another `EXEC` and another `MULTI` among its commands. -/
def endsWithin : List Command :=
  [{ kind := .multi }, { kind := .exec, slot := some ⟨1⟩ }, { kind := .multi },
    { kind := .get, args := ["a"], slot := some ⟨2⟩ }, { kind := .exec, slot := some ⟨3⟩ }]

/-- The ends within are commands like others. Of the slots only that of the last command goes. -/
theorem wrapping_conserves_ends_within :
    ∃ s : Submission, transaction endsWithin ⟨9⟩ = .ok s ∧
      s.wrapped = endsWithin.dropLast ++ [{ kind := .exec, slot := some ⟨9⟩ }] ∧
      s.displaced = some ⟨3⟩ ∧
      (s.wrapped.filterMap (·.slot) ++ s.displaced.toList).Perm
        (⟨9⟩ :: endsWithin.filterMap (·.slot)) ∧
      ∀ other : Slot, ∃ again : Submission, transaction s.wrapped other = .ok again ∧
        Command.frames again.wrapped = Command.frames s.wrapped := by
  obtain ⟨s, front, body, back, hmade, -, -, -, hslots, hagain⟩ :=
    wrapping_conserves.1 endsWithin ⟨9⟩ (by decide)
  obtain rfl := Except.ok.inj hmade
  refine ⟨_, hmade, rfl, rfl, hslots, fun other => ?_⟩
  obtain ⟨again, hmade', -, hframes⟩ := hagain other
  exact ⟨again, hmade', hframes⟩

end Submission

end RespClient
