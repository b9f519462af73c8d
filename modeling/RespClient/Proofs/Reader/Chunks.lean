import RespClient.Reader.Basic

/-!
# Chunks do not matter

`Reader.feed` works on chunks: it searches the chunk at hand for a line end, tests the
`CR` on the line assembled so far, and copies bulk strings by number. Here it is brought
down to single bytes. The step is `feed_cons`: a chunk is its first byte, then the rest.
It holds in every state, also in those a fault leaves behind, so no invariant is needed;
everything about cutting the stream (`feed_append`, `feedPieces_eq_feed`) follows from it.
-/

namespace RespClient

/-! ## §1  Progress as a chain -/

namespace Progress

theorem andThen_of_fault {p : Progress} {fault : Fault} (h : p.fault = some fault)
    (next : Reader → List Command → Progress) : p.andThen next = p := by
  simp only [andThen, h]

theorem andThen_of_ok {p : Progress} (h : p.fault = none)
    (next : Reader → List Command → Progress) :
    p.andThen next = { next p.reader p.pending with
      answered := p.answered ++ (next p.reader p.pending).answered } := by
  simp only [andThen, h]

/-- Nothing has happened yet: what comes next is all there is. -/
@[simp] theorem start_andThen (r : Reader) (pending : List Command)
    (next : Reader → List Command → Progress) :
    andThen { reader := r, pending } next = next r pending := by
  simp [andThen]

/-- Nothing happens any more. -/
theorem andThen_stay (p : Progress) :
    p.andThen (fun r pending => { reader := r, pending }) = p := by
  rcases p with ⟨r, pending, answered, _ | fault⟩
  · simp [andThen]
  · rfl

theorem andThen_assoc (p : Progress) (f g : Reader → List Command → Progress) :
    (p.andThen f).andThen g = p.andThen fun r pending => (f r pending).andThen g := by
  rcases p with ⟨r, pending, answered, _ | fault⟩
  · cases hf : (f r pending).fault with
    | none => simp [andThen, hf, List.append_assoc]
    | some fault => simp [andThen, hf]
  · rfl

end Progress

namespace Reader

variable {r : Reader} {pending : List Command} {chunk before after : List UInt8}

/-! ## §2  What one call does -/

@[simp] theorem feed_nil (r : Reader) (pending : List Command) :
    feed r pending [] = { reader := r, pending } := by
  rw [feed]
  rfl

/-- Inside a bulk string whose end is not in the chunk. -/
theorem feed_payload_short {length : Nat} (hp : r.payload = some length)
    (hs : r.partialLine.length + chunk.length < length + 2) :
    feed r pending chunk =
      { reader := { r with partialLine := r.partialLine ++ chunk }, pending } := by
  cases chunk with
  | nil => simp
  | cons b rest =>
      have htake : (b :: rest).take (length + 2 - r.partialLine.length) = b :: rest :=
        List.take_of_length_le (by omega)
      rw [feed]
      simp only [hp, List.isEmpty_cons, Bool.false_eq_true, if_false, htake, List.length_append, hs,
        if_true]

/-- Inside a bulk string that ends in the chunk: its last two bytes decide. -/
theorem feed_payload_full {length : Nat} (hp : r.payload = some length)
    (hlt : r.partialLine.length < length + 2)
    (hs : length + 2 ≤ r.partialLine.length + chunk.length) :
    feed r pending chunk =
      let needed := length + 2 - r.partialLine.length
      let line := r.partialLine ++ chunk.take needed
      if line.drop length = Frame.crlf then
        (addLine { r with partialLine := [], payload := none } pending
          (.payload (line.take length))).andThen fun r pending =>
            feed r pending (chunk.drop needed)
      else
        { reader := { r with partialLine := line }
          pending
          fault := some .invalidBulkTerminator } := by
  cases chunk with
  | nil => exact absurd hs (by simp; omega)
  | cons b rest =>
      have hlen : ¬ (r.partialLine ++
          (b :: rest).take (length + 2 - r.partialLine.length)).length < length + 2 := by
        rw [List.length_append, List.length_take]
        omega
      have hneeded : 0 < length + 2 - r.partialLine.length := by omega
      rw [feed]
      simp only [hp, List.isEmpty_cons, Bool.false_eq_true, if_false, hlen, hneeded, true_and,
        dite_eq_ite]

/-- A bulk string whose end was refused is refused again, whatever comes. -/
theorem feed_payload_refused {length : Nat} (hp : r.payload = some length)
    (hge : length + 2 ≤ r.partialLine.length) (hc : chunk ≠ []) :
    feed r pending chunk =
      { reader := r, pending, fault := some .invalidBulkTerminator } := by
  obtain ⟨line, completed, expected, payload, inMulti⟩ := r
  obtain rfl : payload = some length := hp
  have hneeded : length + 2 - line.length = 0 := Nat.sub_eq_zero_of_le hge
  have hlen : ¬ line.length < length + 2 := Nat.not_lt_of_le hge
  rw [feed]
  simp [List.isEmpty_iff, hc, hneeded, hlen]

/-- Outside bulk strings, without a line end in the chunk. -/
theorem feed_control_none (hp : r.payload = none) (hcut : cutLine chunk = none) :
    feed r pending chunk =
      { reader := { r with partialLine := r.partialLine ++ chunk }, pending } := by
  cases chunk with
  | nil => simp
  | cons b rest =>
      rw [feed]
      simp only [List.isEmpty_cons, Bool.false_eq_true, if_false]
      split
      · next h => exact absurd (hp.symm.trans h) (by simp)
      · split
        · rfl
        · next h => exact absurd (hcut.symm.trans h) (by simp)

/-- Outside bulk strings, with an `LF` in the chunk: it ends a line if a `CR` is before it. -/
theorem feed_control_some (hp : r.payload = none) (hcut : cutLine chunk = some (before, after)) :
    feed r pending chunk =
      let line := r.partialLine ++ before
      if line.getLast? = some 0x0D then
        (addLine { r with partialLine := [] } pending (.control line.dropLast)).andThen
          fun r pending => feed r pending after
      else feed { r with partialLine := line ++ [0x0A] } pending after := by
  have hc : chunk ≠ [] := by
    rintro rfl
    simp [cutLine] at hcut
  conv => lhs; rw [feed]
  simp only [List.isEmpty_iff, hc, if_false]
  split
  · next h => exact absurd (hp.symm.trans h) (by simp)
  · split
    · next h => exact absurd (hcut.symm.trans h) (by simp)
    · next h =>
        obtain ⟨rfl, rfl⟩ := Prod.mk.inj (Option.some.inj (hcut.symm.trans h))
        rfl

/-! ## §3  One byte at a time -/

/-- One byte of a bulk string. -/
theorem feed_cons_payload {length : Nat} (hp : r.payload = some length) (b : UInt8)
    (rest : List UInt8) :
    feed r pending (b :: rest) =
      (feed r pending [b]).andThen fun r pending => feed r pending rest := by
  rcases Nat.lt_or_ge r.partialLine.length (length + 2) with hlt | hge
  · rcases Nat.lt_or_ge (r.partialLine.length + 1) (length + 2) with hshort | hlast
    · -- The byte is not the last one, so the rest is read with one byte less to go.
      have hone : feed r pending [b] =
          { reader := { r with partialLine := r.partialLine ++ [b] }, pending } :=
        feed_payload_short hp (by simpa using hshort)
      rw [hone, Progress.start_andThen]
      have hp' : ({ r with partialLine := r.partialLine ++ [b] } : Reader).payload = some length :=
        hp
      have hneeded : length + 2 - r.partialLine.length =
          (length + 2 - (r.partialLine ++ [b]).length) + 1 := by
        rw [List.length_append, List.length_singleton]
        omega
      rcases Nat.lt_or_ge (r.partialLine.length + (b :: rest).length) (length + 2) with hs | hs
      · rw [feed_payload_short hp hs, feed_payload_short hp' (by simp at hs ⊢; omega)]
        simp
      · rw [feed_payload_full hp hlt hs, feed_payload_full hp' (by simpa using hshort)
          (by simp at hs ⊢; omega)]
        simp only [hneeded, List.take_succ_cons, List.drop_succ_cons, List.append_assoc,
          List.singleton_append]
    · -- The byte is the last one: both sides judge the same line.
      have hneeded : length + 2 - r.partialLine.length = 1 := by omega
      have hlast' : length + 2 ≤ r.partialLine.length + [b].length := hlast
      rw [feed_payload_full hp hlt (by simp; omega), feed_payload_full hp hlt hlast']
      simp only [hneeded, List.take_succ_cons, List.take_zero, List.drop_succ_cons, List.drop_zero]
      split
      · rw [Progress.andThen_assoc]
        simp
      · rw [Progress.andThen_of_fault rfl]
  · rw [feed_payload_refused hp hge (by simp), feed_payload_refused hp hge (by simp),
      Progress.andThen_of_fault rfl]

/-- One byte outside bulk strings. -/
theorem feed_cons_control (hp : r.payload = none) (b : UInt8) (rest : List UInt8) :
    feed r pending (b :: rest) =
      (feed r pending [b]).andThen fun r pending => feed r pending rest := by
  by_cases hb : b = 0x0A
  · have hcut : ∀ tail : List UInt8, cutLine (b :: tail) = some ([], tail) := by
      intro tail
      simp [cutLine, hb]
    rw [feed_control_some hp (hcut rest), feed_control_some hp (hcut [])]
    simp only [List.append_nil]
    split
    · rw [Progress.andThen_assoc]
      simp
    · simp
  · have hone : cutLine [b] = none := by simp [cutLine, hb]
    have hp' : ({ r with partialLine := r.partialLine ++ [b] } : Reader).payload = none := hp
    rw [feed_control_none hp hone, Progress.start_andThen]
    cases hcut : cutLine rest with
    | none =>
        rw [feed_control_none hp (by simp [cutLine, hb, hcut]), feed_control_none hp' hcut]
        simp
    | some cut =>
        rw [feed_control_some hp (by simp only [cutLine, hb, if_false, hcut]; rfl),
          feed_control_some hp' hcut]
        simp

/-- **A chunk is its first byte, then the rest**, in every state. -/
theorem feed_cons (r : Reader) (pending : List Command) (b : UInt8) (rest : List UInt8) :
    feed r pending (b :: rest) =
      (feed r pending [b]).andThen fun r pending => feed r pending rest := by
  cases hp : r.payload with
  | none => exact feed_cons_control hp b rest
  | some length => exact feed_cons_payload hp b rest

theorem feed_append (r : Reader) (pending : List Command) (x y : List UInt8) :
    feed r pending (x ++ y) =
      (feed r pending x).andThen fun r pending => feed r pending y := by
  induction x generalizing r pending with
  | nil => simp
  | cons b rest ih =>
      rw [List.cons_append, feed_cons, feed_cons r pending b rest, Progress.andThen_assoc]
      simp only [ih]

/-- **What a byte does**, whoever waits: it makes the line longer, or ends it, or ends a bulk string
wrongly. -/
theorem feed_byte_cases (r : Reader) (b : UInt8) :
    (∃ line, line ≠ [] ∧ ∀ pending,
      feed r pending [b] = { reader := { r with partialLine := line }, pending }) ∨
    (∃ payload line, ∀ pending,
      feed r pending [b] = addLine { r with partialLine := [], payload } pending line) ∨
    (∃ line, ∀ pending, feed r pending [b] =
      { reader := { r with partialLine := line }
        pending
        fault := some .invalidBulkTerminator }) := by
  rcases Option.eq_none_or_eq_some r.payload with hp | ⟨length, hp⟩
  · cases hcut : cutLine [b] with
    | none =>
        refine .inl ⟨r.partialLine ++ [b], ?_, fun pending => feed_control_none hp hcut⟩
        simp
    | some cut =>
        obtain ⟨before, after⟩ := cut
        obtain ⟨rfl, rfl⟩ : before = [] ∧ after = [] := by
          have hlen := congrArg List.length (cutLine_eq_some hcut)
          simp only [List.length_append, List.length_cons, List.length_nil] at hlen
          exact ⟨List.eq_nil_of_length_eq_zero (by omega), List.eq_nil_of_length_eq_zero (by omega)⟩
        simp only [feed_control_some hp hcut, feed_nil, Progress.andThen_stay]
        split
        · exact .inr (.inl ⟨r.payload, _, fun pending => rfl⟩)
        · refine .inl ⟨r.partialLine ++ [] ++ [0x0A], ?_, fun pending => rfl⟩
          simp
  · rcases Nat.lt_or_ge (r.partialLine.length + 1) (length + 2) with hshort | hlast
    · refine .inl ⟨r.partialLine ++ [b], ?_, fun pending => feed_payload_short hp hshort⟩
      simp
    rcases Nat.lt_or_ge r.partialLine.length (length + 2) with hlt | hge
    · have hlast : length + 2 ≤ r.partialLine.length + [b].length := hlast
      have hneeded : length + 2 - r.partialLine.length = 1 := by omega
      simp only [feed_payload_full hp hlt hlast, hneeded, List.drop_succ_cons, List.drop_zero,
        feed_nil, Progress.andThen_stay]
      split
      · exact .inr (.inl ⟨none, _, fun pending => rfl⟩)
      · exact .inr (.inr ⟨r.partialLine ++ [b].take 1, fun pending => rfl⟩)
    · exact .inr (.inr ⟨r.partialLine,
        fun pending => feed_payload_refused hp hge (List.cons_ne_nil b [])⟩)

/-! ## §4  Pieces -/

/-- The pieces of a stream are read in turn, up to the first fault. -/
def feedPieces (r : Reader) (pending : List Command) : List (List UInt8) → Progress
  | [] => { reader := r, pending }
  | piece :: rest =>
      (feed r pending piece).andThen fun r pending => feedPieces r pending rest

/-- **However a stream is cut, it is read the same**: from every state and for every queue, the
pieces in turn answer the same commands with the same replies, stop at the same fault, and leave
the same commands waiting and the same reader as the stream in one chunk. -/
theorem feedPieces_eq_feed (r : Reader) (pending : List Command) (pieces : List (List UInt8)) :
    feedPieces r pending pieces = feed r pending pieces.flatten := by
  induction pieces generalizing r pending with
  | nil => simp [feedPieces]
  | cons piece rest ih =>
      rw [List.flatten_cons, feed_append, feedPieces]
      simp only [ih]

end Reader

end RespClient
