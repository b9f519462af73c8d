import RespClient.Proofs.Reader.Queue

/-!
# Who waits behind does not matter

Reading looks at the front of the queue alone. Commands that are queued behind the others stay
where they are, and everything else comes out as it would without them, as long as there was a
command for every reply (`feed_more`). So a command may just as well be queued before the bytes
that answer earlier commands are read, or after.

Of the commands answered, the reader itself remembers one thing, whether replies are mere
acknowledgements: the commands alone decide it (`feed_remembers`).
-/

namespace RespClient

/-- Only the beginning and the execution of a transaction change what replies are. -/
theorem Reader.multiAfter_of_ne {kind : Kind} (hmulti : kind ≠ .multi) (hexec : kind ≠ .exec)
    (inMulti : Bool) : multiAfter inMulti kind = inMulti := by
  unfold multiAfter
  split
  · exact absurd rfl hmulti
  · exact absurd rfl hexec
  · rfl

/-- Are replies acknowledgements after these commands are reached? -/
def Reader.multiAfterAll (inMulti : Bool) (commands : List Command) : Bool :=
  commands.foldl (fun m c => multiAfter m c.kind) inMulti

theorem Reader.multiAfterAll_append (inMulti : Bool) (cs ds : List Command) :
    multiAfterAll inMulti (cs ++ ds) = multiAfterAll (multiAfterAll inMulti cs) ds :=
  List.foldl_append

namespace Progress

/-- The same, with more commands waiting behind. -/
def more (p : Progress) (later : List Command) : Progress :=
  { p with pending := p.pending ++ later }

theorem more_andThen {p : Progress} {later : List Command}
    {next : Reader → List Command → Progress}
    (h : p.fault = none →
      next p.reader (p.pending ++ later) = (next p.reader p.pending).more later) :
    (p.more later).andThen next = (p.andThen next).more later := by
  have hsame : (p.more later).fault = p.fault := rfl
  cases hf : p.fault with
  | some fault => rw [andThen_of_fault hf, andThen_of_fault (hsame.trans hf)]
  | none =>
      have hnext : next (p.more later).reader (p.more later).pending =
          (next p.reader p.pending).more later := h hf
      rw [andThen_of_ok hf, andThen_of_ok (hsame.trans hf), hnext]
      rfl

/-- Acknowledgements are expected as the commands answered say. -/
def Remembers (p : Progress) (inMulti : Bool) : Prop :=
  p.reader.inMulti = Reader.multiAfterAll inMulti (p.answered.map (·.command))

theorem Remembers.andThen {p : Progress} {inMulti : Bool} (h : p.Remembers inMulti)
    {next : Reader → List Command → Progress}
    (hnext : (next p.reader p.pending).Remembers p.reader.inMulti) :
    (p.andThen next).Remembers inMulti := by
  cases hf : p.fault with
  | some fault =>
      rw [andThen_of_fault hf]
      exact h
  | none =>
      unfold Remembers at h hnext ⊢
      rw [andThen_of_ok hf, List.map_append, Reader.multiAfterAll_append, ← h]
      exact hnext

end Progress

namespace Reader

/-! ## §1  Commands behind the others -/

theorem finish_more {r : Reader} {pending : List Command}
    (h : (finish r pending).fault ≠ some .unexpectedReply) (later : List Command) :
    finish r (pending ++ later) = (finish r pending).more later := by
  cases pending with
  | nil => exact absurd rfl h
  | cons c rest =>
      unfold finish
      dsimp only [List.cons_append]
      split
      · rfl
      · split <;> rfl

theorem store_more {r : Reader} {pending : List Command} {line : Line}
    (h : (store r pending line).fault ≠ some .unexpectedReply) (later : List Command) :
    store r (pending ++ later) line = (store r pending line).more later := by
  unfold store at h ⊢
  dsimp only at h ⊢
  split
  · next hlast =>
      rw [if_pos hlast] at h
      exact finish_more h later
  · rfl

theorem addLine_more {r : Reader} {pending : List Command} {line : Line}
    (h : (addLine r pending line).fault ≠ some .unexpectedReply) (later : List Command) :
    addLine r (pending ++ later) line = (addLine r pending line).more later := by
  unfold addLine at h ⊢
  dsimp only at h ⊢
  cases ho : line.opening with
  | error fault => rfl
  | ok opening =>
      rw [ho] at h
      cases opening with
      | nothing => exact store_more h later
      | payload length => exact store_more h later
      | elements count =>
          dsimp only at h ⊢
          split
          · next hfits =>
              rw [if_pos hfits] at h
              exact store_more h later
          · rfl

/-- **Who waits behind does not matter**, in any state and for any bytes that find a command for
each of their replies. -/
theorem feed_more {r : Reader} {pending : List Command} {chunk : List UInt8}
    (h : (feed r pending chunk).fault ≠ some .unexpectedReply) (later : List Command) :
    feed r (pending ++ later) chunk = (feed r pending chunk).more later := by
  induction chunk generalizing r pending with
  | nil =>
      rw [feed_nil, feed_nil]
      rfl
  | cons b rest ih =>
      have hbyte : (feed r pending [b]).fault ≠ some .unexpectedReply →
          feed r (pending ++ later) [b] = (feed r pending [b]).more later := by
        intro hb
        rcases feed_byte_cases r b with ⟨line, -, hcase⟩ | ⟨payload, line, hcase⟩ | ⟨line, hcase⟩
        · rw [hcase, hcase]
          rfl
        · rw [hcase] at hb ⊢
          rw [hcase]
          exact addLine_more hb later
        · rw [hcase, hcase]
          rfl
      rw [feed_cons] at h
      have hone : (feed r pending [b]).fault ≠ some .unexpectedReply := by
        intro hf
        rw [Progress.andThen_of_fault hf] at h
        exact h hf
      rw [feed_cons, feed_cons r pending b rest, hbyte hone]
      refine Progress.more_andThen fun hf => ?_
      rw [Progress.andThen_of_ok hf] at h
      exact ih h

/-- Where a stream is read without a fault, so is every part of it from the beginning. -/
theorem fault_of_append {r : Reader} {pending : List Command} {x y : List UInt8}
    (h : (feed r pending (x ++ y)).fault = none) : (feed r pending x).fault = none := by
  cases hf : (feed r pending x).fault with
  | none => rfl
  | some fault =>
      rw [feed_append, Progress.andThen_of_fault hf, hf] at h
      exact absurd h (by simp)

theorem fault_of_prefix {r : Reader} {pending : List Command} {x y : List UInt8} (hpre : x <+: y)
    (h : (feed r pending y).fault = none) : (feed r pending x).fault = none := by
  obtain ⟨tail, rfl⟩ := hpre
  exact fault_of_append h

/-! ## §2  What the reader remembers -/

theorem finish_remembers (r : Reader) (pending : List Command) :
    (finish r pending).Remembers r.inMulti := by
  cases pending with
  | nil => rfl
  | cons c rest =>
      unfold finish
      dsimp only
      split
      · rfl
      · split <;> rfl

/-- **What the reader remembers**: replies are acknowledgements as the commands answered say,
whatever the bytes were. -/
theorem feed_remembers (r : Reader) (pending : List Command) (chunk : List UInt8) :
    (feed r pending chunk).Remembers r.inMulti := by
  refine feed_induction (P := fun r _ p => p.Remembers r.inMulti) ?_ ?_ ?_ r pending chunk
  · intro r r' pending fault h
    exact h
  · intro r r' pending h
    rw [← h]
    exact finish_remembers r' pending
  · intro r pending p next hp hnext
    exact hp.andThen hnext

end Reader

end RespClient
