import RespClient.Proofs.Connection.Runs
import RespClient.Proofs.Reader.Waiting

/-!
# Connections in step

A connection is in step with what was written and received on it when it is where a reader would be
that had every command written so far waiting from the beginning (`Connection.InStep`). A read keeps
it since a stream may be cut anywhere, a submission since commands behind the others do not matter.
-/

namespace RespClient

/-! ## §1  What keeps a connection in step -/

/-- The connection is where a reader of all that was received is, for whom all that was written was
waiting. -/
structure Connection.InStep (c : Connection) (written : List Command) (received : List UInt8) :
    Prop where
  sound : (Reader.feed {} written received).fault = none
  here : (Reader.feed {} written received).connection = c

namespace Connection.InStep

variable {c : Connection} {written : List Command} {received : List UInt8}

theorem empty : InStep {} [] [] := by
  refine ⟨?_, ?_⟩ <;> rw [Reader.feed_nil]
  rfl

/-- Commands that are written now have nothing to do with what was received before. -/
theorem feed_send (h : c.InStep written received) (commands : List Command) :
    Reader.feed {} (written ++ commands) received =
      (Reader.feed {} written received).more commands :=
  Reader.feed_more (by rw [h.sound]; simp) commands

theorem send (h : c.InStep written received) (commands : List Command) :
    (c.send commands).2.InStep (written ++ commands) received := by
  refine ⟨by rw [h.feed_send]; exact h.sound, ?_⟩
  rw [h.feed_send, ← h.here]
  rfl

/-- A chunk goes on from what was received before. -/
theorem feed_receive (h : c.InStep written received) (chunk : List UInt8) :
    Reader.feed {} written (received ++ chunk) =
      { c.receive chunk with
        answered := (Reader.feed {} written received).answered ++ (c.receive chunk).answered } := by
  rw [Reader.feed_append, Progress.andThen_of_ok h.sound, ← h.here]
  rfl

theorem receive (h : c.InStep written received) {chunk : List UInt8}
    (hsound : (c.receive chunk).fault = none) :
    (c.receive chunk).connection.InStep written (received ++ chunk) := by
  refine ⟨by rw [h.feed_receive]; exact hsound, ?_⟩
  rw [h.feed_receive]
  rfl

/-- Bytes that continue a stream without a fault are received without one. -/
theorem sound_of_prefix (h : c.InStep written received) {chunk stream : List UInt8}
    (hpart : received ++ chunk <+: stream)
    (hstream : (Reader.feed {} written stream).fault = none) :
    (c.receive chunk).fault = none := by
  have hall := Reader.fault_of_prefix hpart hstream
  rw [Reader.feed_append, Progress.andThen_of_ok h.sound] at hall
  rw [← h.here]
  exact hall

/-- The commands answered and those waiting are the commands written. -/
theorem queue (h : c.InStep written received) :
    written = (Reader.feed {} written received).answered.map (·.command) ++ c.pending := by
  have hkeeps : (Reader.feed {} written received).Keeps written := Reader.feed_keeps ..
  rw [← h.here]
  exact hkeeps.symm

end Connection.InStep

/-! ## §2  Where serving goes on -/

namespace Serving

variable {c c' : Serving} {e : Event}

/-- Where serving goes on, it goes on from the connection after the event. -/
theorem connection_of_next (h : (c.step e).next = .inl c') : c'.connection = c.after e := by
  rcases step_next c {} e with ⟨accepting, hnext, -, -⟩ | ⟨ending, hnext, -, -⟩
  · rw [h] at hnext
    rw [Sum.inl.inj hnext]
  · rw [h] at hnext
    exact absurd hnext (by simp)

theorem fault_of_next {chunk : List UInt8} (hne : chunk ≠ [])
    (h : (c.step (.read chunk)).next = .inl c') : (c.connection.receive chunk).fault = none := by
  obtain ⟨b, bytes, rfl⟩ := List.exists_cons_of_ne_nil hne
  cases hf : (c.connection.receive (b :: bytes)).fault with
  | none => rfl
  | some fault =>
      simp only [step, hf] at h
      exact absurd h (by simp [finish])

theorem writeFault_of_next {batch : Submission} {fault : Option IoFault}
    (h : (c.step (.submission batch fault)).next = .inl c') : fault = none := by
  cases fault with
  | none => rfl
  | some fault => exact absurd h (by simp [step, finish])

/-- A submission is written whole or not at all, and nothing else is written. -/
theorem step_written (c : Serving) (e : Event) :
    (c.step e).written = match e with
      | .submission batch none => Command.frames batch.wrapped
      | _ => [] := by
  have hgoOn : ∀ (c : Serving) written settled, (goOn c written settled).written = written := by
    intro c written settled
    unfold goOn
    split <;> rfl
  cases e with
  | read bytes =>
      cases bytes with
      | nil => rfl
      | cons b bytes =>
          simp only [step]
          split
          · rfl
          · exact hgoOn ..
  | readFault fault => rfl
  | submission batch fault =>
      cases fault with
      | none => exact hgoOn ..
      | some fault => rfl
  | submissionsClosed => exact hgoOn ..

end Serving

end RespClient
