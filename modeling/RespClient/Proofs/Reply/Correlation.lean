import RespClient.Proofs.Reply.Turns

/-!
# Replies reach their commands

A stream of encoded values, one for each waiting command, may be cut anywhere: what has arrived
answers exactly the commands whose replies are entirely there, each with the value that was sent
for it, and the rest of the stream is still to come (`feed_encodings`).

One value is a step (`feed_bytes_append`). Where the stream ends inside a value nothing is
answered for it: the value would be answered twice, or at the wrong byte (`feed_part`).
-/

namespace RespClient.Reader

open Value (bytesAll)

/-- Commands outside transactions, and a value for each of them that can be sent for its reply. -/
def Exchange (commands : List Command) (values : List Value) : Prop :=
  List.Forall₂ (fun c v => (c.kind ≠ .multi ∧ c.kind ≠ .exec) ∧ v.Answers c ∧ v.Sendable 0)
    commands values

/-- The first `k` commands are answered by the first `k` values, the others wait, and the reader
is as new if and only if the bytes are those of the `k` values. -/
structure Correlates (p : Progress) (commands : List Command) (values : List Value)
    (bytes : List UInt8) (k : Nat) : Prop where
  fault : p.fault = none
  answered : p.answered = ((commands.zip values).take k).map fun (c, v) => ⟨c, v.reply⟩
  settled : p.settled = ((commands.zip values).take k).flatMap fun (c, v) => c.resolve v.reply
  pending : p.pending = commands.drop k
  fresh : p.reader = {} ↔ bytes = bytesAll (values.take k)

variable {c : Command} {v : Value} {commands : List Command}

/-- **A value in front of any other bytes** answers the oldest command and leaves the reader as
new. -/
theorem feed_bytes_append (hkind : c.kind ≠ .multi ∧ c.kind ≠ .exec) (hans : v.Answers c)
    (hsend : v.Sendable 0) (commands : List Command) (rest : List UInt8) :
    feed {} (c :: commands) (v.bytes ++ rest) =
      Progress.andThen { reader := {}, pending := commands, answered := [⟨c, v.reply⟩] }
        fun r pending => feed r pending rest := by
  have hturn : feed {} (c :: commands) (v.bytes ++ rest) = _ :=
    feed_turn hsend (fun _ => hans) commands rest
  rw [multiAfter_of_ne hkind.1 hkind.2] at hturn
  exact hturn

/-- **A part of a value** answers nothing, and shows in the reader unless it is empty. -/
theorem feed_part (hkind : c.kind ≠ .multi ∧ c.kind ≠ .exec) (hans : v.Answers c)
    (hsend : v.Sendable 0) (commands : List Command) {bytes : List UInt8}
    (hpart : bytes <+: v.bytes) (hne : bytes ≠ v.bytes) :
    (feed {} (c :: commands) bytes).answered = [] ∧
      (feed {} (c :: commands) bytes).pending = c :: commands ∧
      (feed {} (c :: commands) bytes).fault = none ∧
      ((feed {} (c :: commands) bytes).reader = {} ↔ bytes = []) := by
  obtain ⟨tail, htail⟩ := hpart
  have htailne : tail ≠ [] := by
    rintro rfl
    exact hne (by rw [← htail, List.append_nil])
  have hwhole := feed_bytes_append hkind hans hsend commands []
  simp only [List.append_nil, feed_nil, Progress.andThen_stay] at hwhole
  rw [← htail, feed_append] at hwhole
  have hkeeps := feed_keeps {} (c :: commands) bytes
  cases hf : (feed {} (c :: commands) bytes).fault with
  | some fault =>
      rw [Progress.andThen_of_fault hf] at hwhole
      rw [hwhole] at hf
      exact absurd hf (by simp)
  | none =>
      rw [Progress.andThen_of_ok hf] at hwhole
      have hansd := congrArg Progress.answered hwhole
      -- The answer comes with the tail: a tail that answers nothing ends within a value.
      have ha : (feed {} (c :: commands) bytes).answered = [] := by
        rcases List.append_eq_singleton_iff.mp hansd with ⟨ha, -⟩ | ⟨-, hsilent⟩
        · exact ha
        · have hfault := congrArg Progress.fault hwhole
          have hreader := congrArg Progress.reader hwhole
          refine absurd ?_ (not_between_of_silent htailne hfault hsilent)
          unfold Between
          rw [show (feed _ _ tail).reader = {} from hreader]
      unfold Progress.Keeps at hkeeps
      rw [ha] at hkeeps
      refine ⟨ha, hkeeps, rfl, ?_⟩
      constructor
      · intro hreader
        by_contra hbytes
        refine not_between_of_silent hbytes hf ha ?_
        unfold Between
        rw [hreader]
      · rintro rfl
        rw [feed_nil]

/-- **Replies reach their commands**: whatever part of the stream has arrived, the commands answered
are those whose replies are entirely in it, in order, and each got the value sent for it. -/
theorem feed_encodings {commands : List Command} {values : List Value} {bytes : List UInt8}
    (h : Exchange commands values) (hbytes : bytes <+: bytesAll values) :
    ∃ k, (∀ i, i < k ↔ i < values.length ∧ bytesAll (values.take (i + 1)) <+: bytes) ∧
      Correlates (feed {} commands bytes) commands values bytes k := by
  induction h generalizing bytes with
  | nil =>
      obtain rfl : bytes = [] := List.prefix_nil.mp hbytes
      refine ⟨0, by simp, ?_⟩
      rw [feed_nil]
      exact ⟨rfl, rfl, rfl, rfl, by simp [bytesAll]⟩
  | @cons c v commands values hcv _ ih =>
      obtain ⟨hkind, hans, hsend⟩ := hcv
      rw [bytesAll] at hbytes
      by_cases hwhole : v.bytes <+: bytes
      · obtain ⟨rest, rfl⟩ := hwhole
        obtain ⟨k, hk, hcorr⟩ := ih ((List.prefix_append_right_inj _).mp hbytes)
        refine ⟨k + 1, ?_, ?_⟩
        · rintro (_ | i)
          · simp [bytesAll]
          · rw [List.take_succ_cons, bytesAll, List.prefix_append_right_inj, List.length_cons,
              Nat.add_lt_add_iff_right, Nat.add_lt_add_iff_right]
            exact hk i
        · rw [feed_bytes_append hkind hans hsend, Progress.andThen_of_ok rfl]
          refine ⟨hcorr.fault, congrArg (_ :: ·) hcorr.answered, ?_, hcorr.pending, ?_⟩
          · exact congrArg (c.resolve v.reply ++ ·) hcorr.settled
          · rw [List.take_succ_cons, bytesAll, List.append_right_inj]
            exact hcorr.fresh
      · have hpart : bytes <+: v.bytes :=
          (List.prefix_or_prefix_of_prefix hbytes (List.prefix_append _ _)).resolve_right hwhole
        have hne : bytes ≠ v.bytes := by
          rintro rfl
          exact hwhole (List.prefix_refl _)
        obtain ⟨ha, hp, hf, hr⟩ := feed_part hkind hans hsend commands hpart hne
        refine ⟨0, ?_, hf, ha, ?_, hp, hr⟩
        · intro i
          simp only [Nat.not_lt_zero, false_iff, not_and]
          intro _ hin
          rw [List.take_succ_cons, bytesAll] at hin
          exact hwhole ((List.prefix_append _ _).trans hin)
        · rw [Progress.settled, ha]
          rfl

/-- A stream cut after the marker of the second reply: an array with a line end inside a bulk
string, then a null. -/
theorem feed_encodings_cut_in_second :
    ∃ k, (∀ i, i < k ↔ i < [Value.array [.integer 7, .bulk [0x0D, 0x0A]], .nilBulk].length ∧
        bytesAll ([.array [.integer 7, .bulk [0x0D, 0x0A]], .nilBulk].take (i + 1)) <+:
          (Value.array [.integer 7, .bulk [0x0D, 0x0A]]).bytes ++ [0x24]) ∧
      Correlates
        (feed {} [{ kind := .lrange, slot := some ⟨0⟩ }, { kind := .get, slot := some ⟨1⟩ }]
          ((Value.array [.integer 7, .bulk [0x0D, 0x0A]]).bytes ++ [0x24]))
        [{ kind := .lrange, slot := some ⟨0⟩ }, { kind := .get, slot := some ⟨1⟩ }]
        [.array [.integer 7, .bulk [0x0D, 0x0A]], .nilBulk]
        ((Value.array [.integer 7, .bulk [0x0D, 0x0A]]).bytes ++ [0x24]) k := by
  refine feed_encodings (.cons ⟨by decide, .inl rfl, ?_⟩ (.cons ⟨by decide, .inl rfl, ?_⟩ .nil)) ?_
  · simp [Value.Sendable, Value.SendableAll, countLimit]
  · simp [Value.Sendable]
  · rw [bytesAll, List.prefix_append_right_inj]
    exact ⟨_, rfl⟩

end RespClient.Reader
