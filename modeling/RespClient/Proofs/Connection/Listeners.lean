import RespClient.Proofs.Connection.Runs

/-!
# Who still listens

A connection settles the slots of its commands, and whoever waits for a slot hears of it, if he
still waits. Giving up takes a receiver away and nothing else: the connection does not learn of it,
and those who wait under other labels hear what they would have heard (`run_patient`).
-/

namespace RespClient

namespace Receivers

variable {r r' : Receivers} {label : String}

/-- Those who wait under a label. -/
def under (r : Receivers) (label : String) : List (String × Slot) :=
  r.waiting.filter (·.1 = label)

theorem forget_under {other : String} (h : other ≠ label) :
    (r.forget other).2.under label = r.under label := by
  unfold forget under
  rw [List.partition_eq_filter_filter, List.filter_filter]
  refine List.filter_congr fun x _ => ?_
  by_cases hx : x.1 = label <;> simp [hx, Ne.symm h]

/-- What is heard under a label, and who still waits there, depends on who waits there. -/
theorem collect_under (r : Receivers) (label : String) (xs : List Settlement) :
    (r.collect xs).1.filter (·.1 = label) =
        (r.under label).filterMap (fun x => (Settlement.find? xs x.2).map (x.1, ·)) ∧
      (r.collect xs).2.under label =
        (r.under label).filter fun x => (Settlement.find? xs x.2).isNone := by
  unfold collect under
  constructor
  · rw [List.filter_filterMap, List.filterMap_filter]
    refine congrArg (r.waiting.filterMap ·) (funext fun x => ?_)
    obtain ⟨own, slot⟩ := x
    dsimp only
    cases Settlement.find? xs slot <;> by_cases hown : own = label <;> simp [hown]
  · rw [List.filter_filter, List.filter_filter]
    exact List.filter_congr fun x _ => Bool.and_comm ..

end Receivers

namespace Connection

/-! ## §1  A connection and its listeners -/

/-- What is done with a connection, and by those who wait for its replies. -/
inductive Moment
  /-- A slot is opened, under a label. -/
  | opens (label : String)
  | call (a : Call)
  /-- The connection is closed; no call can be made after that. -/
  | close
  /-- Whoever waits under the label gives up. -/
  | givesUp (label : String)

def Moment.isPatient : Moment → Bool
  | .givesUp _ => false
  | _ => true

/-- What a call comes to: the fault in what was received, the bytes written, the slots settled. -/
structure Effect where
  fault : Option Fault := none
  written : List UInt8 := []
  settled : List Settlement := []
  /-- The connection after it, if it is not closed. -/
  connection : Option Connection

/-- A write that fails has written nothing that counts. -/
def effect (c : Connection) : Call → Effect
  | .send commands fault =>
    { written := if fault.isNone then (c.send commands).1 else []
      connection := some (c.send commands).2 }
  | .submit b fault =>
    { written := if fault.isNone then (c.submit b).1 else []
      settled := Settlement.drop b.displaced
      connection := some (c.submit b).2 }
  | .receive chunk =>
    { fault := (c.receive chunk).fault
      settled := (c.receive chunk).settled
      connection := some (c.receive chunk).connection }

/-- A connection driven by hand, and those who listen. -/
structure Scene where
  connection : Option Connection := some {}
  receivers : Receivers := {}
  /-- What each call has come to, and the end. -/
  record : List Effect := []
  heard : List (String × Outcome) := []

namespace Scene

/-- A call is made, and those who wait hear of the slots that it settles. -/
def take (t : Scene) (e : Effect) : Scene :=
  { connection := e.connection
    receivers := (t.receivers.collect e.settled).2
    record := t.record ++ [e]
    heard := t.heard ++ (t.receivers.collect e.settled).1 }

def next (t : Scene) : Moment → Scene
  | .opens label => { t with receivers := (t.receivers.opened label).2 }
  | .call a =>
    match t.connection with
    | some c => t.take (c.effect a)
    | none => t
  | .close =>
    match t.connection with
    | some c => t.take { settled := c.close, connection := none }
    | none => t
  | .givesUp label => { t with receivers := (t.receivers.forget label).2 }

/-- What has been heard under a label. -/
def heardUnder (t : Scene) (label : String) : List (String × Outcome) :=
  t.heard.filter (·.1 = label)

/-- A new connection, and one thing after the other. -/
def run (moments : List Moment) : Scene := moments.foldl next {}

/-! ## §2  Giving up disturbs nobody -/

/-- All is the same but for those who wait under other labels. -/
structure Same (label : String) (t t' : Scene) : Prop where
  connection : t.connection = t'.connection
  record : t.record = t'.record
  next : t.receivers.next = t'.receivers.next
  waiting : t.receivers.under label = t'.receivers.under label
  heard : t.heardUnder label = t'.heardUnder label

variable {label : String} {t t' : Scene}

theorem Same.take (h : Same label t t') (e : Effect) : Same label (t.take e) (t'.take e) := by
  obtain ⟨hheard, hwaiting⟩ := t.receivers.collect_under label e.settled
  obtain ⟨hheard', hwaiting'⟩ := t'.receivers.collect_under label e.settled
  refine ⟨rfl, congrArg (· ++ [e]) h.record, h.next, ?_, ?_⟩
  · exact hwaiting.trans ((congrArg _ h.waiting).trans hwaiting'.symm)
  · have hbefore : t.heard.filter (·.1 = label) = t'.heard.filter (·.1 = label) := h.heard
    unfold Scene.take heardUnder
    rw [List.filter_append, List.filter_append, hheard, hheard', h.waiting, hbefore]

/-- What one does who does not give up keeps all the same. -/
theorem Same.next_both (h : Same label t t') (m : Moment) (hm : m.isPatient = true) :
    Same label (t.next m) (t'.next m) := by
  have hconnection := h.connection
  cases m with
  | opens own =>
      refine ⟨h.connection, h.record, congrArg (· + 1) h.next, ?_, h.heard⟩
      have hwaiting := h.waiting
      unfold Receivers.under at hwaiting
      unfold Scene.next Receivers.opened Receivers.under
      rw [List.filter_append, List.filter_append, hwaiting, h.next]
  | call a =>
      unfold Scene.next
      rw [hconnection]
      cases t'.connection with
      | none => exact h
      | some c => exact h.take (c.effect a)
  | close =>
      unfold Scene.next
      rw [hconnection]
      cases t'.connection with
      | none => exact h
      | some c => exact h.take _
  | givesUp own => exact absurd hm (by simp [Moment.isPatient])

/-- Somebody else gives up. -/
theorem Same.gives_up (h : Same label t t') {other : String} (hother : other ≠ label) :
    Same label (t.next (.givesUp other)) t' :=
  ⟨h.connection, h.record, h.next, (Receivers.forget_under hother).trans h.waiting, h.heard⟩

theorem Same.run (h : Same label t t') {moments : List Moment}
    (hkept : .givesUp label ∉ moments) :
    Same label (moments.foldl Scene.next t)
      ((moments.filter Moment.isPatient).foldl Scene.next t') := by
  induction moments generalizing t t' with
  | nil => exact h
  | cons m rest ih =>
      have hrest : .givesUp label ∉ rest := fun hmem => hkept (List.mem_cons_of_mem _ hmem)
      cases hm : m.isPatient with
      | true =>
          rw [List.filter_cons_of_pos hm]
          exact ih (h.next_both m hm) hrest
      | false =>
          -- The second run stands still while somebody else gives up in the first.
          rw [List.filter_cons_of_neg (by simp [hm])]
          cases m with
          | givesUp other =>
              refine ih (h.gives_up ?_) hrest
              rintro rfl
              exact hkept List.mem_cons_self
          | _ => exact absurd hm (by simp [Moment.isPatient])

theorem Same.refl (label : String) (t : Scene) : Same label t t := ⟨rfl, rfl, rfl, rfl, rfl⟩

/-- **A run and the same run without anybody who gives up**: each call comes to the same and leaves
the same connection, and whoever has not given up has heard the same. -/
theorem run_patient (moments : List Moment) {label : String} (hkept : .givesUp label ∉ moments) :
    Same label (run moments) (run (moments.filter Moment.isPatient)) :=
  (Same.refl label {}).run hkept

end Scene

end Connection

end RespClient
