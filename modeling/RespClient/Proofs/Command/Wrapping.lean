import RespClient.Submission

/-!
# The block of a transaction

A transaction is written as one block: a `MULTI`, the commands of the batch, and an `EXEC` that
owns the transaction's slot (`wrapped_of_exec`). A `MULTI` in front of the batch or an `EXEC` at its
end is the block's own, so the block has the same shape whether the caller wrote them or not.
-/

namespace RespClient.Submission

/-! ## §1  The two ends -/

/-- The `MULTI` in front: the caller's, if there is one. -/
def opening : List Command → Command
  | [] => { kind := .multi }
  | c :: _ => if c.kind = .multi then c else { kind := .multi }

def withoutMulti : List Command → List Command
  | [] => []
  | c :: rest => if c.kind = .multi then rest else c :: rest

/-- The `EXEC` at the end: the caller's, if there is one, but with the transaction's slot. -/
def closing (slot : Slot) (commands : List Command) : Command :=
  match commands.getLast? with
  | some c => if c.kind = .exec then c.withSlot slot else { kind := .exec, slot := some slot }
  | none => { kind := .exec, slot := some slot }

def withoutExec (commands : List Command) : List Command :=
  match commands.getLast? with
  | some c => if c.kind = .exec then commands.dropLast else commands
  | none => commands

/-- What stands between `MULTI` and `EXEC`. -/
def body (s : Submission) : List Command := withoutExec (withoutMulti s.commands)

variable {s : Submission} {slot : Slot} {commands : List Command}

@[simp] theorem opening_kind (commands : List Command) : (opening commands).kind = .multi := by
  unfold opening
  split
  · rfl
  · split
    · assumption
    · rfl

@[simp] theorem closing_kind (slot : Slot) (commands : List Command) :
    (closing slot commands).kind = .exec := by
  unfold closing
  split
  · split
    · assumption
    · rfl
  · rfl

@[simp] theorem closing_slot (slot : Slot) (commands : List Command) :
    (closing slot commands).slot = some slot := by
  unfold closing
  split
  · split <;> rfl
  · rfl

/-! ## §2  The block -/

theorem opened_eq (commands : List Command) :
    opened commands = opening commands :: withoutMulti commands := by
  cases commands with
  | nil => rfl
  | cons c rest =>
      rw [opened, opening, withoutMulti]
      split <;> rfl

theorem closed_eq (slot : Slot) (commands : List Command) :
    closed slot commands = withoutExec commands ++ [closing slot commands] := by
  induction commands with
  | nil => rfl
  | cons c rest ih =>
      cases rest with
      | nil =>
          unfold closed withoutExec closing
          dsimp only [List.getLast?_singleton]
          split <;> rfl
      | cons d rest =>
          -- The end is that of the tail, and the head stays in front of it.
          have hlast : (c :: d :: rest).getLast? = (d :: rest).getLast? :=
            List.getLast?_cons_cons ..
          rw [closed, ih, closing, closing, hlast, ← List.cons_append]
          congr 1
          unfold withoutExec
          rw [hlast]
          split
          · split
            · rw [List.dropLast_cons_of_ne_nil (List.cons_ne_nil d rest)]
            · rfl
          · rfl

/-- **The block of a transaction.** -/
theorem wrapped_of_exec (h : s.exec = some slot) :
    s.wrapped =
      opening s.commands :: (s.body ++ [closing slot (withoutMulti s.commands)]) := by
  unfold wrapped
  rw [h]
  dsimp only
  rw [opened_eq]
  cases hrest : withoutMulti s.commands with
  | nil =>
      unfold closed body closing
      rw [if_neg (by simp), hrest]
      rfl
  | cons c rest =>
      rw [closed, closed_eq, body, hrest]

/-- A batch without the slot of a transaction is written as it is. -/
theorem wrapped_of_not_exec (h : s.exec = none) : s.wrapped = s.commands := by
  unfold wrapped
  rw [h]

/-! ## §3  Batches that hold neither end -/

theorem withoutMulti_of_ne (h : ∀ c ∈ commands, c.kind ≠ .multi) :
    withoutMulti commands = commands := by
  cases commands with
  | nil => rfl
  | cons c rest => exact if_neg (h c List.mem_cons_self)

theorem withoutExec_of_ne (h : ∀ c ∈ commands, c.kind ≠ .exec) :
    withoutExec commands = commands := by
  unfold withoutExec
  split
  · next c hlast => exact if_neg (h c (List.mem_of_getLast? hlast))
  · rfl

/-- **The block of a batch that holds neither end.** -/
theorem wrapped_of_ne (h : s.exec = some slot)
    (hends : ∀ c ∈ s.commands, c.kind ≠ .multi ∧ c.kind ≠ .exec) :
    s.wrapped =
      { kind := .multi } :: (s.commands ++ [{ kind := .exec, slot := some slot }]) := by
  have hmulti : withoutMulti s.commands = s.commands :=
    withoutMulti_of_ne fun c hc => (hends c hc).1
  have hbody : s.body = s.commands := by
    unfold body
    rw [hmulti, withoutExec_of_ne fun c hc => (hends c hc).2]
  have hopening : opening s.commands = { kind := .multi } := by
    unfold opening
    split
    · rfl
    · next c rest hcommands => exact if_neg (hends c (by rw [hcommands]; simp)).1
  have hclosing : closing slot s.commands = { kind := .exec, slot := some slot } := by
    unfold closing
    split
    · next c hlast => exact if_neg (hends c (List.mem_of_getLast? hlast)).2
    · rfl
  rw [wrapped_of_exec h, hbody, hmulti, hopening, hclosing]

theorem withoutMulti_sublist (commands : List Command) :
    (withoutMulti commands).Sublist commands := by
  cases commands with
  | nil => exact List.Sublist.refl _
  | cons c rest =>
      rw [withoutMulti]
      split
      · exact List.sublist_cons_self c rest
      · exact List.Sublist.refl _

theorem withoutExec_sublist (commands : List Command) :
    (withoutExec commands).Sublist commands := by
  unfold withoutExec
  split
  · split
    · exact List.dropLast_sublist _
    · exact List.Sublist.refl _
  · exact List.Sublist.refl _

theorem body_subset (s : Submission) : s.body ⊆ s.commands :=
  ((withoutExec_sublist _).trans (withoutMulti_sublist _)).subset

theorem opening_slot (h : ∀ c ∈ commands, c.slot = none) : (opening commands).slot = none := by
  cases commands with
  | nil => rfl
  | cons c rest =>
      rw [opening]
      split
      · exact h c List.mem_cons_self
      · rfl

/-- Nobody else's slot is in a block whose commands have none. -/
theorem slots_wrapped (h : s.exec = some slot) (hslots : ∀ c ∈ s.commands, c.slot = none) :
    s.wrapped.filterMap (·.slot) = [slot] := by
  have hbody : s.body.filterMap (·.slot) = [] :=
    List.filterMap_eq_nil_iff.mpr fun c hc => hslots c (s.body_subset hc)
  rw [wrapped_of_exec h, List.filterMap_cons_none (opening_slot hslots), List.filterMap_append,
    hbody]
  simp

/-! ## §4  Whose slots are in a block -/

theorem opening_mem (commands : List Command) :
    opening commands ∈ commands ∨ (opening commands).slot = none := by
  cases commands with
  | nil => exact .inr rfl
  | cons c rest =>
      rw [opening]
      split
      · exact .inl List.mem_cons_self
      · exact .inr rfl

/-- The commands as they are written carry no slots but those of the submission. -/
theorem mem_slots_of_wrapped (h : slot ∈ s.wrapped.filterMap (·.slot)) : slot ∈ s.slots := by
  obtain ⟨c, hc, hslot⟩ := List.mem_filterMap.mp h
  have hcommands : c ∈ s.commands → slot ∈ s.slots := fun hmem =>
    List.mem_append_right _ (List.mem_filterMap.mpr ⟨c, hmem, hslot⟩)
  cases hexec : s.exec with
  | none =>
      rw [wrapped_of_not_exec hexec] at hc
      exact hcommands hc
  | some own =>
      rw [wrapped_of_exec hexec] at hc
      rcases List.mem_cons.mp hc with rfl | hc
      · rcases opening_mem s.commands with hmem | hnone
        · exact hcommands hmem
        · exact absurd (hnone ▸ hslot) (by simp)
      · rcases List.mem_append.mp hc with hc | hc
        · exact hcommands (s.body_subset hc)
        · rw [List.mem_singleton.mp hc, closing_slot] at hslot
          exact List.mem_append_left _ (by rw [hexec, Option.mem_toList, hslot])

end RespClient.Submission
