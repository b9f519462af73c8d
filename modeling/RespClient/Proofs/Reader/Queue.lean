import RespClient.Proofs.Reader.Chunks

/-!
# No command is lost

Whatever bytes arrive, in whatever state: the commands answered, followed by those still waiting,
are the commands that were waiting. Answers leave at the front of the queue and nowhere else, so
a reply never reaches any command but the oldest. The proof goes from a reply over a line and a
byte to a chunk, and so does every proof about what a chunk answers: that way is `feed_induction`.
-/

namespace RespClient

/-- The commands answered and those left are all of `pending`, in order. -/
def Progress.Keeps (p : Progress) (pending : List Command) : Prop :=
  p.answered.map (·.command) ++ p.pending = pending

theorem Progress.Keeps.andThen {p : Progress} {pending : List Command} (h : p.Keeps pending)
    {next : Reader → List Command → Progress}
    (hnext : (next p.reader p.pending).Keeps p.pending) : (p.andThen next).Keeps pending := by
  cases hf : p.fault with
  | some fault =>
      rw [andThen_of_fault hf]
      exact h
  | none =>
      unfold Keeps at h hnext ⊢
      rw [andThen_of_ok hf, List.map_append, List.append_assoc, hnext]
      exact h

namespace Reader

/-- What holds of every complete reply, of whatever answers nothing, and of two such things in a
row, holds of every chunk: a line either completes a reply or answers nothing. -/
theorem feed_induction {P : Reader → List Command → Progress → Prop}
    (silent : ∀ (r r' : Reader) pending fault, r'.inMulti = r.inMulti →
      P r pending { reader := r', pending, fault })
    (complete : ∀ (r r' : Reader) pending, r'.inMulti = r.inMulti → P r pending (finish r' pending))
    (inRow : ∀ r pending (p : Progress) next, P r pending p →
      P p.reader p.pending (next p.reader p.pending) → P r pending (p.andThen next))
    (r : Reader) (pending : List Command) (chunk : List UInt8) :
    P r pending (feed r pending chunk) := by
  have hstore : ∀ (r r' : Reader) pending line, r'.inMulti = r.inMulti →
      P r pending (store r' pending line) := by
    intro r r' pending line h
    unfold store
    dsimp only
    split
    · exact complete _ _ _ h
    · exact silent _ _ _ _ h
  have hline : ∀ (r r' : Reader) pending line, r'.inMulti = r.inMulti →
      P r pending (addLine r' pending line) := by
    intro r r' pending line h
    unfold addLine
    dsimp only
    split
    · exact silent _ _ _ _ h
    · exact hstore _ _ _ _ h
    · split
      · exact hstore _ _ _ _ h
      · exact silent _ _ _ _ h
    · exact hstore _ _ _ _ h
  induction chunk generalizing r pending with
  | nil =>
      rw [feed_nil]
      exact silent _ _ _ _ rfl
  | cons b rest ih =>
      have hbyte : P r pending (feed r pending [b]) := by
        rcases feed_byte_cases r b with ⟨line, -, h⟩ | ⟨payload, line, h⟩ | ⟨line, h⟩
        · rw [h]
          exact silent _ _ _ _ rfl
        · rw [h]
          exact hline _ _ _ _ rfl
        · rw [h]
          exact silent _ _ _ _ rfl
      rw [feed_cons]
      exact inRow _ _ _ _ hbyte (ih _ _)

/-- A complete reply uses up the oldest command, whether it can be decoded or not. -/
theorem finish_keeps (r : Reader) (pending : List Command) : (finish r pending).Keeps pending := by
  cases pending with
  | nil => rfl
  | cons c rest =>
      unfold finish
      dsimp only
      split
      · rfl
      · split <;> rfl

/-- **No command is lost**: a chunk answers the oldest commands and leaves the others. -/
theorem feed_keeps (r : Reader) (pending : List Command) (chunk : List UInt8) :
    (feed r pending chunk).Keeps pending := by
  refine feed_induction (P := fun _ pending p => p.Keeps pending) ?_ ?_ ?_ r pending chunk
  · intro r r' pending fault h
    rfl
  · intro r r' pending h
    exact finish_keeps r' pending
  · intro r pending p next hp hnext
    exact hp.andThen hnext

end Reader

end RespClient
