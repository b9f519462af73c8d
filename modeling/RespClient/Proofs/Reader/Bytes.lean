import RespClient.Proofs.Reader.Refinement
import RespClient.Proofs.Reader.Waiting

/-!
# What a byte does

A byte makes the line longer or ends it, inside a bulk string or outside; or it is the last byte of
a bulk string that does not end in a line end (`ReadByte`, `feed_byte`). These are all the ways in
which a reader moves on; where a line ends, it is one of six things (`ReadLine`, `addLine_cases`).
What a byte keeps, a chunk without a fault keeps (`feed_kept`), and where a chunk has a fault, one
byte has it (`fault_at`).

§4 names the states a reader gets into: by anything that is read (`Reachable`), and by what is read
without a fault (`Sound`).
-/

namespace RespClient.Reader

/-! ## §1  One byte -/

/-- What reading a byte comes to, whoever waits. -/
inductive ReadByte (r : Reader) (b : UInt8) (read : List Command → Progress) : Prop
  /-- A byte of a line. -/
  | text (line : List UInt8) (outside : r.payload = none)
      (reads : ∀ pending, read pending = { reader := { r with partialLine := line }, pending })
  /-- The last byte of a line. -/
  | line (header : List UInt8) (outside : r.payload = none)
      (ends : r.partialLine ++ [b] = header ++ Frame.crlf)
      (reads : ∀ pending, read pending =
        addLine { r with partialLine := [], payload := none } pending (.control header))
  /-- A byte of a bulk string or its end, but not the last one. -/
  | content (length : Nat) (inside : r.payload = some length)
      (more : r.partialLine.length + 1 < length + 2)
      (reads : ∀ pending, read pending =
        { reader := { r with partialLine := r.partialLine ++ [b] }, pending })
  /-- The last byte of a bulk string and its end. -/
  | string (content : List UInt8) (inside : r.payload = some content.length)
      (ends : r.partialLine ++ [b] = content ++ Frame.crlf)
      (reads : ∀ pending, read pending =
        addLine { r with partialLine := [], payload := none } pending (.payload content))
  /-- The last byte of a bulk string and of something else than its end. -/
  | refused (length : Nat) (inside : r.payload = some length)
      (full : r.partialLine.length + 1 = length + 2)
      (wrong : (r.partialLine ++ [b]).drop length ≠ Frame.crlf)
      (reads : ∀ pending, read pending =
        { reader := { r with partialLine := r.partialLine ++ [b] }
          pending
          fault := some .invalidBulkTerminator })
  /-- A byte after that. -/
  | again (length : Nat) (inside : r.payload = some length)
      (full : length + 2 ≤ r.partialLine.length)
      (reads : ∀ pending, read pending =
        { reader := r, pending, fault := some .invalidBulkTerminator })

theorem feed_byte_outside {r : Reader} (hp : r.payload = none) (b : UInt8) :
    ReadByte r b fun pending => feed r pending [b] := by
  have hsame : ({ r with partialLine := [] } : Reader) =
      { r with partialLine := [], payload := none } := by rw [hp]
  by_cases hb : b = 0x0A
  · have hcut : cutLine [b] = some ([], []) := by simp [cutLine, hb]
    by_cases hcr : r.partialLine.getLast? = some 0x0D
    · obtain ⟨header, hheader⟩ := List.getLast?_eq_some_iff.mp hcr
      refine .line header hp (by rw [hheader, hb]; simp [Frame.crlf]) fun pending => ?_
      rw [feed_control_some hp hcut]
      simp only [List.append_nil, hheader, List.getLast?_concat, if_true, feed_nil,
        Progress.andThen_stay, List.dropLast_concat, hsame]
    · refine .text (r.partialLine ++ [0x0A]) hp fun pending => ?_
      rw [feed_control_some hp hcut]
      simp only [List.append_nil, hcr, if_false, feed_nil]
  · exact .text (r.partialLine ++ [b]) hp fun pending =>
      feed_control_none hp (by simp [cutLine, hb])

theorem feed_byte_inside {r : Reader} {length : Nat} (hp : r.payload = some length) (b : UInt8) :
    ReadByte r b fun pending => feed r pending [b] := by
  rcases Nat.lt_or_ge r.partialLine.length (length + 2) with hlt | hge
  · rcases Nat.lt_or_ge (r.partialLine.length + 1) (length + 2) with hshort | hlast
    · exact .content length hp hshort fun pending => feed_payload_short hp hshort
    · have hneeded : length + 2 - r.partialLine.length = 1 := by omega
      have hlen : (r.partialLine ++ [b]).length = length + 2 := by
        rw [List.length_append, List.length_singleton]
        omega
      have hread : ∀ pending, feed r pending [b] =
          if (r.partialLine ++ [b]).drop length = Frame.crlf then
            addLine { r with partialLine := [], payload := none } pending
              (.payload ((r.partialLine ++ [b]).take length))
          else
            { reader := { r with partialLine := r.partialLine ++ [b] }
              pending
              fault := some .invalidBulkTerminator } := by
        intro pending
        have hs : length + 2 ≤ r.partialLine.length + [b].length := hlast
        rw [feed_payload_full hp hlt hs]
        simp only [hneeded, List.take_succ_cons, List.take_zero, List.drop_succ_cons,
          List.drop_zero, feed_nil, Progress.andThen_stay]
      by_cases hend : (r.partialLine ++ [b]).drop length = Frame.crlf
      · have htake : ((r.partialLine ++ [b]).take length).length = length := by
          rw [List.length_take, hlen]
          omega
        refine .string ((r.partialLine ++ [b]).take length) (by rw [htake, hp]) ?_ fun pending => ?_
        · rw [← hend, List.take_append_drop]
        · rw [hread, if_pos hend]
      · refine .refused length hp (by omega) hend fun pending => ?_
        rw [hread, if_neg hend]
  · exact .again length hp hge fun pending => feed_payload_refused hp hge (List.cons_ne_nil b [])

/-- **What a byte does**, in every state. -/
theorem feed_byte (r : Reader) (b : UInt8) : ReadByte r b fun pending => feed r pending [b] := by
  cases hp : r.payload with
  | none => exact feed_byte_outside hp b
  | some length => exact feed_byte_inside hp b

/-! ## §2  One line -/

/-- What a line comes to, whoever waits. -/
inductive ReadLine (r : Reader) (line : Line) (read : List Command → Progress) : Prop
  | unreadable (fault : Fault) (opening : line.opening = .error fault)
      (reads : ∀ pending, read pending =
        { reader := { r with expected := r.expected - 1 }, pending, fault := some fault })
  /-- The elements cannot be counted. -/
  | tooMany (count : Int64) (opening : line.opening = .ok (.elements count))
      (exceeds : countLimit ≤ r.expected - 1 + count.toInt.toNat)
      (reads : ∀ pending, read pending =
        { reader := { r with expected := r.expected - 1 }
          pending
          fault := some (.lineCountOverflow count) })
  | elements (count : Int64) (opening : line.opening = .ok (.elements count))
      (fits : r.expected - 1 + count.toInt.toNat < countLimit)
      (reads : ∀ pending, read pending =
        { reader := { r with
            expected := r.expected - 1 + count.toInt.toNat
            completed := r.completed ++ [line] }
          pending })
  | payload (length : Nat) (opening : line.opening = .ok (.payload length))
      (reads : ∀ pending, read pending =
        { reader := { r with
            expected := r.expected - 1 + 1
            completed := r.completed ++ [line]
            payload := some length }
          pending })
  /-- The line is a value, or the end of one, inside a reply. -/
  | inner (opening : line.opening = .ok .nothing) (more : r.expected - 1 ≠ 0)
      (reads : ∀ pending, read pending =
        { reader := { r with expected := r.expected - 1, completed := r.completed ++ [line] }
          pending })
  /-- The line is the last one of a reply. -/
  | last (opening : line.opening = .ok .nothing) (enough : r.expected ≤ 1)
      (reads : ∀ pending, read pending =
        finish { r with expected := 0, completed := r.completed ++ [line] } pending)

/-- **What a line comes to**, in every state. -/
theorem addLine_cases (r : Reader) (line : Line) :
    ReadLine r line fun pending => addLine r pending line := by
  cases ho : line.opening with
  | error fault => exact .unreadable fault ho (addLine_fault ho r)
  | ok opening =>
      cases opening with
      | nothing =>
          by_cases h0 : r.expected - 1 = 0
          · refine .last ho (Nat.le_of_sub_eq_zero h0) fun pending => ?_
            rw [addLine_nothing ho, h0]
            rfl
          · refine .inner ho h0 fun pending => ?_
            rw [addLine_nothing ho]
            exact deliver_of_ne_zero h0 pending
      | elements count =>
          by_cases hfits : r.expected - 1 + count.toInt.toNat < countLimit
          · exact .elements count ho hfits (addLine_elements ho (pos_of_opening_elements ho) hfits)
          · exact .tooMany count ho (Nat.not_lt.mp hfits) (addLine_overflow ho hfits)
      | payload length => exact .payload length ho (addLine_payload ho r)

/-! ## §3  Byte after byte -/

/-- What every byte without a fault keeps, a chunk without a fault keeps. -/
theorem feed_kept {I : Reader → Prop}
    (byte : ∀ r pending b, I r → (feed r pending [b]).fault = none → I (feed r pending [b]).reader)
    {r : Reader} {pending : List Command} {chunk : List UInt8} (h : I r)
    (hf : (feed r pending chunk).fault = none) : I (feed r pending chunk).reader := by
  induction chunk generalizing r pending with
  | nil =>
      rw [feed_nil]
      exact h
  | cons b rest ih =>
      have hone : (feed r pending [b]).fault = none := fault_of_append (y := rest) hf
      rw [feed_cons, Progress.andThen_of_ok hone] at hf ⊢
      exact ih (byte r pending b h hone) hf

/-- Where a chunk has a fault, one of its bytes has it, after others without one; what comes later
is not read. -/
theorem fault_at {r : Reader} {pending : List Command} {chunk : List UInt8} {fault : Fault}
    (h : (feed r pending chunk).fault = some fault) :
    ∃ before b after, chunk = before ++ b :: after ∧ (feed r pending before).fault = none ∧
      (feed (feed r pending before).reader (feed r pending before).pending [b]).fault = some fault ∧
      feed r pending chunk =
        (feed r pending before).andThen fun r pending => feed r pending [b] := by
  induction chunk generalizing r pending with
  | nil => exact absurd h (by simp)
  | cons b rest ih =>
      cases hb : (feed r pending [b]).fault with
      | some first =>
          have hall : feed r pending (b :: rest) = feed r pending [b] := by
            rw [feed_cons, Progress.andThen_of_fault hb]
          refine ⟨[], b, rest, rfl, by rw [feed_nil], ?_, ?_⟩
          · rw [feed_nil, ← hall]
            exact h
          · rw [feed_nil, Progress.start_andThen]
            exact hall
      | none =>
          rw [feed_cons, Progress.andThen_of_ok hb] at h
          obtain ⟨before, c, after, rfl, hbefore, hc, hfeed⟩ := ih h
          have hfirst := feed_cons r pending b before
          rw [Progress.andThen_of_ok hb] at hfirst
          refine ⟨b :: before, c, after, rfl, by rw [hfirst]; exact hbefore,
            by rw [hfirst]; exact hc, ?_⟩
          rw [feed_cons, feed_cons r pending b before, Progress.andThen_assoc,
            Progress.andThen_of_ok hb, Progress.andThen_of_ok hb, hfeed]

/-! ## §4  States -/

/-- A state a reader gets into, whatever is read and whoever waits, also after faults. -/
inductive Reachable : Reader → Prop
  | fresh : Reachable {}
  | fed {r : Reader} (h : Reachable r) (pending : List Command) (chunk : List UInt8) :
      Reachable (feed r pending chunk).reader

/-- A state a reader gets into by chunks that are read without a fault, whoever waits for each. -/
inductive Sound : Reader → Prop
  | fresh : Sound {}
  | fed {r : Reader} (h : Sound r) {pending : List Command} {chunk : List UInt8}
      (ok : (feed r pending chunk).fault = none) : Sound (feed r pending chunk).reader

theorem Sound.reachable {r : Reader} (h : r.Sound) : r.Reachable := by
  induction h with
  | fresh => exact .fresh
  | fed _ _ ih => exact .fed ih _ _

end RespClient.Reader
