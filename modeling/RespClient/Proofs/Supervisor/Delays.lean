import Mathlib.Algebra.Group.Nat.Defs
import Mathlib.Data.List.DropRight
import RespClient.Proofs.Supervisor.Episodes

/-!
# How long a supervisor waits

A supervisor waits after every setback: an attempt that is refused, or a connection that is lost.
The delay doubles with the refusals in a row and begins anew with every connection, so it has a
closed form in the setbacks before it: `base * 2 ^ k`, cut at the maximum, after a refusal with `k`
refusals directly before it, and the base, cut at the maximum, after a lost connection.

The program never computes that number. It keeps the delay of the next refusal, doubles it within
the range of durations and cuts it each time. That this comes to the same rests on one fact
(`Backoff.nanos_double_min`): the maximum is itself a duration, so a doubling that is stopped by
the range would have been cut anyway.

- §1: refusals in a row.
- §2: setbacks and delays of a run.
- §3: where the back-off stands in a run.
- §4: the delays of a run.
-/

namespace RespClient

/-! ## §1  Refusals in a row -/

namespace Backoff

theorem nanos_min (a b : Duration) : (a.min b).nanos = min a.nanos b.nanos := by
  unfold Duration.min
  split <;> omega

/-- Doubling within the range of durations is exact below any maximum. -/
theorem nanos_double_min (d max : Duration) :
    (d.double.min max).nanos = min (2 * d.nanos) max.nanos := by
  have hdouble : d.double.nanos = min (2 * d.nanos) Duration.longest := rfl
  have hmax := max.nanos_le
  rw [nanos_min, hdouble]
  omega

variable {base max : Duration}

/-- What is kept after so many refusals in a row. -/
def failed (base max : Duration) : Nat → Backoff
  | 0 => new base max
  | k + 1 => (failed base max k).failure.2

theorem base_failed (k : Nat) : (failed base max k).base = base := by
  induction k with
  | zero => rfl
  | succ k ih => exact ih

theorem max_failed (k : Nat) : (failed base max k).max = max := by
  induction k with
  | zero => rfl
  | succ k ih => exact ih

/-- **The delay after `k` refusals in a row**, in exact arithmetic. -/
theorem nanos_failed (k : Nat) :
    (failed base max k).current.nanos = min (base.nanos * 2 ^ k) max.nanos := by
  induction k with
  | zero =>
      rw [Nat.pow_zero, Nat.mul_one]
      exact nanos_min base max
  | succ k ih =>
      calc (failed base max (k + 1)).current.nanos
          = ((failed base max k).current.double.min (failed base max k).max).nanos := rfl
        _ = min (2 * min (base.nanos * 2 ^ k) max.nanos) max.nanos := by
            rw [max_failed, nanos_double_min, ih]
        _ = min (base.nanos * 2 ^ (k + 1)) max.nanos := by
            rw [Nat.pow_succ, ← Nat.mul_assoc]
            omega

theorem reset_failed (k : Nat) : (failed base max k).reset = new base max := by
  unfold reset new
  rw [base_failed, max_failed]

end Backoff

namespace Supervisor

/-! ## §2  Setbacks and delays -/

/-- Why a supervisor has to connect again. -/
inductive Setback
  /-- The attempt to connect failed. -/
  | refused
  /-- The attempt connected, and the connection was lost. -/
  | lost
  deriving DecidableEq, Repr

/-- One way to a setback, and to the next attempt after it. -/
def Setback.moves : Setback → List Move
  | .refused => [.refused, .retryDue]
  | .lost => [.connected, .read [], .retryDue]

/-- The setback that an event is. A connection that nobody needs any more is none. -/
def setback? (s : Supervisor) (e : Event) : Option Setback :=
  match s.phase, e with
  | .connecting, .refused => some .refused
  | .serving c, .served e =>
    match (c.step e).next with
    | .inl _ | .inr .submissionsClosed => none
    | .inr _ => some .lost
  | _, _ => none

/-- The delay that begins with an event: the supervisor waits after it and did not before. -/
def delay? (s : Supervisor) (e : Event) : Option Duration :=
  match s.phase, (s.step e).next.phase with
  | .waiting _, _ => none
  | _, .waiting delay => some delay
  | _, _ => none

/-- The supervisor after these events. -/
def after (s : Supervisor) (events : List Event) : Supervisor :=
  events.foldl (fun s e => (s.step e).next) s

/-- What can be seen in the course of events, each of them in the state in which it happens. -/
def log {α : Type} (see? : Supervisor → Event → Option α) (s : Supervisor) : List Event → List α
  | [] => []
  | e :: rest => (see? s e).toList ++ log see? (s.step e).next rest

def setbacks (s : Supervisor) (events : List Event) : List Setback := log setback? s events

def delays (s : Supervisor) (events : List Event) : List Duration := log delay? s events

theorem log_concat {α : Type} (see? : Supervisor → Event → Option α) (s : Supervisor)
    (events : List Event) (e : Event) :
    log see? s (events ++ [e]) = log see? s events ++ (see? (s.after events) e).toList := by
  induction events generalizing s with
  | nil => exact List.append_nil _
  | cons first rest ih =>
      rw [List.cons_append, log, ih, log, List.append_assoc]
      rfl

/-- The number of refusals at the end of a list of setbacks. -/
def streak (past : List Setback) : Nat := (past.rtakeWhile (· = .refused)).length

@[simp] theorem streak_refused (past : List Setback) :
    streak (past ++ [.refused]) = streak past + 1 := by
  simp [streak]

@[simp] theorem streak_lost (past : List Setback) : streak (past ++ [.lost]) = 0 := by
  simp [streak]

/-- The delay that is due after a setback, in nanoseconds. -/
def due (base max : Duration) (past : List Setback) : Setback → Nat
  | .refused => min (base.nanos * 2 ^ streak past) max.nanos
  | .lost => min base.nanos max.nanos

theorem due_le (base max : Duration) (past : List Setback) (x : Setback) :
    due base max past x ≤ max.nanos := by
  cases x with
  | refused => exact min_le_right _ _
  | lost => exact min_le_right _ _

/-! ## §3  Where the back-off stands -/

/-- A supervisor that has not done anything yet. -/
def beginning (base max : Duration) : Supervisor := { backoff := .new base max }

/-- How many refusals the back-off counts when there are `refusals` at the end of the setbacks: the
same number, but none once the next attempt has connected. -/
def Counts (refusals k : Nat) : Phase → Prop
  | .connecting | .waiting _ => k = refusals
  | .serving _ => k = 0
  | .stopped => True

namespace Run

variable {base max : Duration} {r : Run}

/-- Each setback of a run has had its delay. -/
structure Paced (base max : Duration) (r : Run) : Prop where
  followed : r.supervisor = (beginning base max).after r.history
  backoff : ∃ k, r.supervisor.backoff = .failed base max k ∧
    Counts (streak (setbacks (beginning base max) r.history)) k r.supervisor.phase
  once : (delays (beginning base max) r.history).length =
    (setbacks (beginning base max) r.history).length
  due : ∀ i x d, (setbacks (beginning base max) r.history)[i]? = some x →
    (delays (beginning base max) r.history)[i]? = some d →
    d.nanos = Supervisor.due base max ((setbacks (beginning base max) r.history).take i) x

/-- The setbacks and the delays of a run grow with what can be seen of an event. -/
theorem Paced.seen (h : r.Paced base max) (e : Event) (ch : Channel) :
    setbacks (beginning base max) (r.happen e ch).history =
        setbacks (beginning base max) r.history ++ (setback? r.supervisor e).toList ∧
      delays (beginning base max) (r.happen e ch).history =
        delays (beginning base max) r.history ++ (delay? r.supervisor e).toList := by
  rw [h.followed]
  exact ⟨log_concat setback? _ r.history e, log_concat delay? _ r.history e⟩

theorem followed_happen (h : r.Paced base max) (e : Event) (ch : Channel) :
    (r.happen e ch).supervisor = (beginning base max).after (r.happen e ch).history := by
  show (r.supervisor.step e).next = List.foldl _ _ (r.history ++ [e])
  rw [List.foldl_append, h.followed]
  rfl

/-- An event that is no setback, and that no delay begins with. -/
theorem Paced.quiet {e : Event} {ch : Channel} (h : r.Paced base max)
    (hsetback : setback? r.supervisor e = none) (hdelay : delay? r.supervisor e = none) {k : Nat}
    (hbackoff : (r.supervisor.step e).next.backoff = .failed base max k)
    (hcounts : Counts (streak (setbacks (beginning base max) r.history)) k
      (r.supervisor.step e).next.phase) : (r.happen e ch).Paced base max := by
  obtain ⟨hsetbacks, hdelays⟩ := h.seen e ch
  rw [hsetback, Option.toList_none, List.append_nil] at hsetbacks
  rw [hdelay, Option.toList_none, List.append_nil] at hdelays
  refine ⟨followed_happen h e ch, ⟨k, hbackoff, ?_⟩, ?_, ?_⟩
  · rw [hsetbacks]
    exact hcounts
  · rw [hsetbacks, hdelays]
    exact h.once
  · rw [hsetbacks, hdelays]
    exact h.due

/-- A setback, and the delay that begins with it. -/
theorem Paced.setBack {e : Event} {ch : Channel} {x : Setback} {d : Duration}
    (h : r.Paced base max) (hsetback : setback? r.supervisor e = some x)
    (hdelay : delay? r.supervisor e = some d) {k : Nat}
    (hdue : d.nanos = Supervisor.due base max (setbacks (beginning base max) r.history) x)
    (hbackoff : (r.supervisor.step e).next.backoff = .failed base max k)
    (hcounts : Counts (streak (setbacks (beginning base max) r.history ++ [x])) k
      (r.supervisor.step e).next.phase) : (r.happen e ch).Paced base max := by
  obtain ⟨hsetbacks, hdelays⟩ := h.seen e ch
  rw [hsetback, Option.toList_some] at hsetbacks
  rw [hdelay, Option.toList_some] at hdelays
  refine ⟨followed_happen h e ch, ⟨k, hbackoff, ?_⟩, ?_, ?_⟩
  · rw [hsetbacks]
    exact hcounts
  · rw [hsetbacks, hdelays, List.length_append, List.length_append, h.once]
    rfl
  · intro i y c hy hc
    rw [hsetbacks] at hy ⊢
    rw [hdelays] at hc
    have hi : i < (setbacks (beginning base max) r.history ++ [x]).length :=
      (List.getElem?_eq_some_iff.mp hy).1
    rw [List.length_append, List.length_singleton, Nat.lt_succ_iff_lt_or_eq] at hi
    rcases hi with hi | rfl
    · -- The setbacks before an earlier one are still the same.
      rw [List.getElem?_append_left hi] at hy
      rw [List.getElem?_append_left (by rw [h.once]; exact hi)] at hc
      rw [List.take_append_of_le_length hi.le]
      exact h.due i y c hy hc
    · rw [List.getElem?_concat_length] at hy
      rw [← h.once, List.getElem?_concat_length] at hc
      obtain rfl := Option.some.inj hy
      obtain rfl := Option.some.inj hc
      rw [List.take_left]
      exact hdue

theorem paced_turn {e : Event} {ch : Channel} (h : r.Paced base max) (turn : Turn r e ch) :
    (r.happen e ch).Paced base max := by
  obtain ⟨k, hbackoff, hcounts⟩ := h.backoff
  cases turn with
  | connected hphase =>
      have hstep := step_connected hphase
      refine h.quiet (k := 0) (by simp [setback?, hphase]) (by simp [delay?, hphase, hstep]) ?_ ?_
      · rw [hstep, hbackoff]
        exact Backoff.reset_failed k
      · rw [hstep]
        rfl
  | refused hphase =>
      have hstep := step_refused hphase
      rw [hphase] at hcounts
      have hk : k = streak (setbacks (beginning base max) r.history) := hcounts
      refine h.setBack (x := .refused) (d := r.supervisor.backoff.failure.1) (k := k + 1)
        (by simp [setback?, hphase]) (by simp [delay?, hphase, hstep]) ?_ ?_ ?_
      · rw [hbackoff, Supervisor.due, ← hk]
        exact Backoff.nanos_failed k
      · rw [hstep, hbackoff]
        rfl
      · rw [hstep]
        show k + 1 = streak _
        rw [streak_refused, hk]
  | @served c e ch hphase _ _ _ =>
      have hstep := step_served hphase e
      rw [hphase] at hcounts
      obtain rfl : k = 0 := hcounts
      have hkept : (r.supervisor.step (.served e)).next.backoff = .failed base max 0 := by
        rw [hstep, hbackoff]
      cases hnext : (c.step e).next with
      | inl c' =>
          rw [hnext] at hstep
          refine h.quiet (by simp [setback?, hphase, hnext])
            (by simp [delay?, hphase, hstep, afterServing]) hkept ?_
          rw [hstep]
          rfl
      | inr ending =>
          rw [hnext] at hstep
          by_cases hending : ending = .submissionsClosed
          · subst hending
            refine h.quiet (by simp [setback?, hphase, hnext])
              (by simp [delay?, hphase, hstep, afterServing]) hkept ?_
            rw [hstep]
            trivial
          · have hwaiting : afterServing r.supervisor.backoff (.inr ending) =
                .waiting r.supervisor.backoff.current := by
              cases ending <;> first | rfl | exact absurd rfl hending
            rw [hwaiting] at hstep
            refine h.setBack (x := .lost) (d := r.supervisor.backoff.current) ?_
              (by simp [delay?, hphase, hstep]) ?_ hkept ?_
            · cases ending <;> first | exact absurd rfl hending | simp [setback?, hphase, hnext]
            · rw [hbackoff]
              exact Backoff.nanos_min base max
            · rw [hstep]
              exact (streak_lost _).symm
  | retryDue hphase =>
      have hstep := step_retryDue hphase
      rw [hphase] at hcounts
      refine h.quiet (by simp [setback?, hphase]) (by simp [delay?, hphase])
        (by rw [hstep]; exact hbackoff) ?_
      rw [hstep]
      exact hcounts
  | @arrived _ b _ hphase _ =>
      have hstep := step_arrived hphase b
      refine h.quiet (by simp [setback?, hphase]) (by simp [delay?, hphase])
        (by rw [hstep]; exact hbackoff) ?_
      rw [hstep]
      exact hcounts
  | channelClosed hphase _ =>
      have hstep := step_channelClosed hphase
      refine h.quiet (by simp [setback?, hphase]) (by simp [delay?, hphase])
        (by rw [hstep]; exact hbackoff) ?_
      rw [hstep]
      trivial

theorem paced_move (h : r.Paced base max) (m : Move) : (r.move m).Paced base max := by
  rcases move_cases r m with ⟨e, ch, turn, hmove⟩ | ⟨hsupervisor, hhistory⟩
  · rw [hmove]
    exact paced_turn h turn
  · refine ⟨?_, ?_, ?_, ?_⟩
    · rw [hsupervisor, hhistory]
      exact h.followed
    · rw [hsupervisor, hhistory]
      exact h.backoff
    · rw [hhistory]
      exact h.once
    · rw [hhistory]
      exact h.due

theorem paced_foldl (h : r.Paced base max) (moves : List Move) :
    (moves.foldl move r).Paced base max := by
  induction moves generalizing r with
  | nil => exact h
  | cons m rest ih => exact ih (paced_move h m)

theorem paced_run (base max : Duration) (ch : Channel) (moves : List Move) :
    (run (.new base max) ch moves).Paced base max := by
  apply paced_foldl
  exact ⟨rfl, ⟨0, rfl, rfl⟩, rfl, by simp [setbacks, log]⟩

/-! ## §4  The delays of a run -/

/-- From refusal to refusal the streak only grows. -/
theorem streak_take_le {xs : List Setback} {i j : Nat} (hij : i ≤ j)
    (h : ∀ k, i ≤ k → k < j → xs[k]? = some .refused) :
    streak (xs.take i) ≤ streak (xs.take j) := by
  induction j, hij using Nat.le_induction with
  | base => exact Nat.le_refl _
  | succ j hij ih =>
      have hj : xs[j]? = some .refused := h j hij (Nat.lt_succ_self j)
      have hi := ih fun k hik hkj => h k hik (Nat.lt_succ_of_lt hkj)
      rw [List.take_add_one, hj, Option.toList_some, streak_refused]
      exact Nat.le_succ_of_le hi

/-- What is said of the delays of a run, by the setbacks they follow on. -/
structure Timed (base max : Duration) (setbacks : List Setback) (delays : List Duration) :
    Prop where
  /-- There is one delay after each setback. -/
  once : delays.length = setbacks.length
  lost : ∀ (i : Nat) (d : Duration), setbacks[i]? = some .lost → delays[i]? = some d →
    d.nanos = min base.nanos max.nanos
  /-- The exponent is the number of refusals directly before this one. -/
  refused : ∀ (i : Nat) (d : Duration), setbacks[i]? = some .refused → delays[i]? = some d →
    d.nanos = min (base.nanos * 2 ^ streak (setbacks.take i)) max.nanos
  ascending : ∀ (i j : Nat) (d e : Duration), i ≤ j →
    (∀ k, i ≤ k → k ≤ j → setbacks[k]? = some .refused) →
    delays[i]? = some d → delays[j]? = some e → d.nanos ≤ e.nanos
  bounded : ∀ d ∈ delays, d.nanos ≤ max.nanos

theorem Paced.timed (h : r.Paced base max) :
    Timed base max (setbacks (beginning base max) r.history)
      (delays (beginning base max) r.history) := by
  refine ⟨h.once, fun i d => h.due i .lost d, fun i d => h.due i .refused d, ?_, ?_⟩
  · intro i j d e hij hrefused hd he
    have hstreak := streak_take_le hij fun k hik hkj => hrefused k hik hkj.le
    rw [h.due i .refused d (hrefused i le_rfl hij) hd,
      h.due j .refused e (hrefused j hij le_rfl) he]
    simp only [Supervisor.due]
    have hgrow : base.nanos * 2 ^ streak ((setbacks (beginning base max) r.history).take i) ≤
        base.nanos * 2 ^ streak ((setbacks (beginning base max) r.history).take j) :=
      Nat.mul_le_mul_left _ (Nat.pow_le_pow_right (by decide) hstreak)
    omega
  · intro d hd
    obtain ⟨i, hi, rfl⟩ := List.getElem_of_mem hd
    have hset : i < (setbacks (beginning base max) r.history).length := by
      rw [← h.once]
      exact hi
    rw [h.due i _ _ (List.getElem?_eq_getElem hset) (List.getElem?_eq_getElem hi)]
    exact due_le base max _ _

/-- What is said of the back-off in the course of a run. -/
structure Steady (base max : Duration) (setbacks : List Setback) (s : Supervisor) : Prop where
  /-- It is what the refusals since the last connection have made of a new one. -/
  counts : ∃ k, s.backoff = .failed base max k ∧ Counts (streak setbacks) k s.phase
  /-- The next doubling is exact, whatever the range of durations. -/
  exact : s.backoff.failure.2.current.nanos = min (2 * s.backoff.current.nanos) max.nanos
  /-- A connection makes it new, -/
  reset : s.backoff.reset = .new base max
  /-- and new it stays while the connection is served. -/
  served : ∀ c, s.phase = .serving c → s.backoff = .new base max
  /-- A delay that has begun is not changed by anything that happens meanwhile. -/
  waits : ∀ d, s.phase = .waiting d →
    ∀ e, (s.step e).next.phase = .waiting d ∨ e = .retryDue ∨ e = .channelClosed

theorem Paced.steady (h : r.Paced base max) :
    Steady base max (setbacks (beginning base max) r.history) r.supervisor := by
  obtain ⟨k, hbackoff, hcounts⟩ := h.backoff
  refine ⟨⟨k, hbackoff, hcounts⟩, ?_, ?_, ?_, ?_⟩
  · rw [hbackoff]
    show ((Backoff.failed base max k).current.double.min (Backoff.failed base max k).max).nanos = _
    rw [Backoff.max_failed, Backoff.nanos_double_min]
  · rw [hbackoff]
    exact Backoff.reset_failed k
  · intro c hphase
    rw [hphase] at hcounts
    obtain rfl : k = 0 := hcounts
    exact hbackoff
  · intro d hphase e
    cases e with
    | connected => left; simp [step, hphase]
    | refused => left; simp [step, hphase]
    | served e => left; simp [step, hphase]
    | retryDue => exact .inr (.inl rfl)
    | arrived b => left; rw [step_arrived hphase]; exact hphase
    | channelClosed => exact .inr (.inr rfl)

/-- A move that is an event of the supervisor. -/
theorem Paced.moved (h : r.Paced base max) (m : Move) (e : Event) (phase : Phase)
    (x? : Option Setback) (hmove : r.move m = r.happen e r.channel)
    (hphase : (r.supervisor.step e).next.phase = phase)
    (hsetback : setback? r.supervisor e = x?) :
    (r.move m).Paced base max ∧ (r.move m).supervisor.phase = phase ∧
      setbacks (beginning base max) (r.move m).history =
        setbacks (beginning base max) r.history ++ x?.toList := by
  refine ⟨paced_move h m, ?_, ?_⟩
  · rw [hmove]
    exact hphase
  · rw [hmove, ← hsetback]
    exact (h.seen e r.channel).1

/-- The delay is over. -/
theorem Paced.retried {d : Duration} (h : r.Paced base max)
    (hphase : r.supervisor.phase = .waiting d) :
    (r.move .retryDue).supervisor.phase = .connecting ∧
      setbacks (beginning base max) (r.move .retryDue).history =
        setbacks (beginning base max) r.history := by
  obtain ⟨-, hnext, hset⟩ := h.moved .retryDue .retryDue .connecting none
    (by simp [move, event?, hphase]) (by rw [step_retryDue hphase]) (by simp [setback?, hphase])
  rw [Option.toList_none, List.append_nil] at hset
  exact ⟨hnext, hset⟩

/-- The server hangs up on a connection. -/
theorem Paced.hungUp {c : Serving} (h : r.Paced base max)
    (hphase : r.supervisor.phase = .serving c) :
    (r.move (.read [])).Paced base max ∧
      (r.move (.read [])).supervisor.phase = .waiting r.supervisor.backoff.current ∧
      setbacks (beginning base max) (r.move (.read [])).history =
        setbacks (beginning base max) r.history ++ [.lost] :=
  h.moved (.read []) (.served (.read [])) (.waiting r.supervisor.backoff.current) (some .lost)
    (by simp [move, event?, hphase]) (by rw [step_served hphase]; rfl)
    (by simp [setback?, hphase, Serving.step, Serving.finish])

/-- Any setback can come next, and another attempt after it. -/
theorem Paced.setBackBy (h : r.Paced base max) (hphase : r.supervisor.phase = .connecting)
    (x : Setback) :
    (x.moves.foldl move r).supervisor.phase = .connecting ∧
      setbacks (beginning base max) (x.moves.foldl move r).history =
        setbacks (beginning base max) r.history ++ [x] := by
  cases x with
  | refused =>
      obtain ⟨h1, hphase1, hset1⟩ := h.moved .refused .refused _ (some .refused)
        (by simp [move, event?, hphase]) (by rw [step_refused hphase]) (by simp [setback?, hphase])
      obtain ⟨hphase2, hset2⟩ := h1.retried hphase1
      exact ⟨hphase2, hset2.trans hset1⟩
  | lost =>
      obtain ⟨h1, hphase1, hset1⟩ := h.moved .connected .connected _ none
        (by simp [move, event?, hphase]) (by rw [step_connected hphase])
        (by simp [setback?, hphase])
      rw [Option.toList_none, List.append_nil] at hset1
      obtain ⟨h2, hphase2, hset2⟩ := h1.hungUp hphase1
      rw [hset1] at hset2
      obtain ⟨hphase3, hset3⟩ := h2.retried hphase2
      exact ⟨hphase3, hset3.trans hset2⟩

/-- Every list of setbacks is that of some run. -/
theorem exists_moves (base max : Duration) (ch : Channel) (xs : List Setback) :
    ∃ moves, (run (.new base max) ch moves).supervisor.phase = .connecting ∧
      setbacks (beginning base max) (run (.new base max) ch moves).history = xs := by
  induction xs using List.reverseRecOn with
  | nil => exact ⟨[], rfl, rfl⟩
  | append_singleton xs x ih =>
      obtain ⟨moves, hphase, hxs⟩ := ih
      have hnext := (paced_run base max ch moves).setBackBy hphase x
      refine ⟨moves ++ x.moves, ?_⟩
      rw [run, List.foldl_append]
      exact ⟨hnext.1, hnext.2.trans (by rw [hxs])⟩

/-- What is said of the delays and of the back-off of a run. -/
structure Regular (base max : Duration) (r : Run) : Prop where
  delays : Timed base max (setbacks (beginning base max) r.history)
    (delays (beginning base max) r.history)
  backoff : Steady base max (setbacks (beginning base max) r.history) r.supervisor

/-- **The delays of every run.** In whatever way the attempts to connect end, the delay after a
refusal is the base doubled for each refusal directly before it, and the delay after a lost
connection is the base, both cut at the maximum; and every sequence of setbacks is that of some
run. -/
theorem delays_in_closed_form (base max : Duration) (ch : Channel) :
    (∀ moves, Regular base max (run (.new base max) ch moves)) ∧
    ∀ xs, ∃ moves, setbacks (beginning base max) (run (.new base max) ch moves).history = xs := by
  refine ⟨fun moves => ?_, fun xs => ?_⟩
  · have hpaced := paced_run base max ch moves
    exact ⟨hpaced.timed, hpaced.steady⟩
  · obtain ⟨moves, -, hxs⟩ := exists_moves base max ch xs
    exact ⟨moves, hxs⟩

/-- Two refusals, a connection that is lost at once, and another refusal. -/
example :
    (delays (beginning (.ofMillis 100) (.ofMillis 1000))
      [.refused, .retryDue, .refused, .retryDue, .connected, .served (.read []), .retryDue,
        .refused]).map Duration.millis = [100, 200, 100, 100] := by
  decide +kernel

end Run

end Supervisor

end RespClient
