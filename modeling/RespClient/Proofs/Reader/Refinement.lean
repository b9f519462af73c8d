import RespClient.Proofs.Reader.Chunks
import RespClient.Proofs.Reader.Spelling

/-!
# The reader is the plain reader

`Reader.feed` keeps a count of outstanding lines and a flat queue of lines; `readReplies`
reads trees by recursive descent. They answer the same commands with the same replies and
stop at the same fault, on every stream.

- §1: bytes to lines. Bytes without `CR LF` extend the line, a line and its end are one
  `addLine`.
- §2: lines to values. Feeding a value from the start of a line leaves its lines in the queue
  and the count one lower (`feed_value`); this is the induction over nested arrays, and the
  count is the number of values outstanding in all of them.
- §3: between two values nothing is kept, within a value something is (`not_between_of_silent`).
- §4: values to replies, and the whole stream.
-/

namespace RespClient

open Descent (announced readFirst readContent readMany readValue readReplies)
open Spelling (linesAll ValidAll)

namespace Reader

variable {r : Reader} {pending : List Command} {chunk : List UInt8}

/-! ## §1  Lines -/

/-- The lines so far are handed on if no further line is needed. -/
def deliver (r : Reader) (pending : List Command) : Progress :=
  if r.expected = 0 then finish r pending else { reader := r, pending }

theorem deliver_of_ne_zero (h : r.expected ≠ 0) (pending : List Command) :
    deliver r pending = { reader := r, pending } := if_neg h

/-- A line that announces nothing. -/
theorem addLine_nothing {line : Line} (h : line.opening = .ok .nothing) (r : Reader)
    (pending : List Command) :
    addLine r pending line =
      deliver { r with expected := r.expected - 1, completed := r.completed ++ [line] }
        pending := by
  simp only [addLine, h]
  rfl

/-- A line that announces a bulk string: the string is one line more, so some line is needed. -/
theorem addLine_payload {line : Line} {length : Nat} (h : line.opening = .ok (.payload length))
    (r : Reader) (pending : List Command) :
    addLine r pending line =
      { reader := { r with
          expected := r.expected - 1 + 1
          completed := r.completed ++ [line]
          payload := some length }
        pending } := by
  simp only [addLine, h, store, Nat.add_eq_zero_iff, Nat.one_ne_zero, and_false, if_false]

/-- A line that announces elements is kept, if they can be counted. -/
theorem addLine_elements {line : Line} {count : Int64} (h : line.opening = .ok (.elements count))
    {r : Reader} (hpos : 0 < count) (hfits : r.expected - 1 + count.toInt.toNat < countLimit)
    (pending : List Command) :
    addLine r pending line =
      { reader := { r with
          expected := r.expected - 1 + count.toInt.toNat
          completed := r.completed ++ [line] }
        pending } := by
  have hne : r.expected - 1 + count.toInt.toNat ≠ 0 :=
    fun h => announced_count_ne_zero hpos (Nat.eq_zero_of_add_eq_zero_left h)
  simp only [addLine, h, hfits, store, hne, if_true, if_false]

theorem addLine_overflow {line : Line} {count : Int64} (h : line.opening = .ok (.elements count))
    {r : Reader} (hfits : ¬ r.expected - 1 + count.toInt.toNat < countLimit)
    (pending : List Command) :
    addLine r pending line =
      { reader := { r with expected := r.expected - 1 }
        pending
        fault := some (.lineCountOverflow count) } := by
  simp only [addLine, h, hfits, if_false]

/-- A line that cannot be read is not kept. -/
theorem addLine_fault {line : Line} {f : Fault} (h : line.opening = .error f) (r : Reader)
    (pending : List Command) :
    addLine r pending line =
      { reader := { r with expected := r.expected - 1 }, pending, fault := some f } := by
  simp only [addLine, h]

/-- Bytes without `CR LF` extend the line that is being assembled. -/
theorem feed_of_no_crlf (hp : r.payload = none)
    (h : ¬ Frame.crlf <:+: r.partialLine ++ chunk) :
    feed r pending chunk =
      { reader := { r with partialLine := r.partialLine ++ chunk }, pending } := by
  induction chunk generalizing r with
  | nil => simp
  | cons b rest ih =>
      have hstep : feed r pending [b] =
          { reader := { r with partialLine := r.partialLine ++ [b] }, pending } := by
        by_cases hb : b = 0x0A
        · have hcut : cutLine [b] = some ([], []) := by simp [cutLine, hb]
          have hlast : ¬ r.partialLine.getLast? = some 0x0D := by
            intro hlast
            obtain ⟨line, hline⟩ := List.getLast?_eq_some_iff.mp hlast
            exact h ⟨line, rest, by rw [hline, hb]; simp [Frame.crlf]⟩
          rw [feed_control_some hp hcut]
          simp [hlast, hb]
        · exact feed_control_none hp (by simp [cutLine, hb])
      have ih := ih (r := { r with partialLine := r.partialLine ++ [b] }) hp (by simpa using h)
      rw [feed_cons, hstep, Progress.start_andThen, ih]
      simp

/-- A line and its end. -/
theorem feed_line {line : List UInt8} (hp : r.payload = none) (hl : r.partialLine = [])
    (h : ¬ Frame.crlf <:+: line) (rest : List UInt8) :
    feed r pending (line ++ Frame.crlf ++ rest) =
      (addLine r pending (.control line)).andThen fun r pending => feed r pending rest := by
  have hbody : feed r pending line = { reader := { r with partialLine := line }, pending } := by
    rw [feed_of_no_crlf hp (by rw [hl]; exact h), hl, List.nil_append]
  have hend : feed { r with partialLine := line } pending Frame.crlf =
      addLine r pending (.control line) := by
    have hcut : cutLine Frame.crlf = some ([0x0D], []) := rfl
    rw [feed_control_some (r := { r with partialLine := line }) hp hcut]
    have hr : ({ r with partialLine := [] } : Reader) = r := by rw [← hl]
    simp [hr, Progress.andThen_stay]
  rw [List.append_assoc, feed_append, hbody, Progress.start_andThen, feed_append, hend]

/-! ## §2  Values -/

/-- Reading follows the plain reader: it goes on after what was found, and stops without an
answer where the stream is short or faulty. -/
def Follows {α : Type} {size : Nat} (p : Progress) (pending : List Command) (scan : Scan α size)
    (next : α → List UInt8 → Progress) : Prop :=
  match scan with
  | .done value rest _ => p = next value rest
  | .short => p.answered = [] ∧ p.pending = pending ∧ p.fault = none
  | .fault fault => p.answered = [] ∧ p.pending = pending ∧ p.fault = some fault

theorem Follows.map {α β : Type} {m n : Nat} {p : Progress} {scan : Scan α m} {f : α → β}
    {h : m ≤ n} {next : β → List UInt8 → Progress}
    (hp : Follows p pending scan fun value rest => next (f value) rest) :
    Follows p pending (scan.map f h) next := by
  cases scan <;> exact hp

/-- Reading a value from the start of a line follows the plain reader, when the lines
`completed` are there already and `expected` are counted. -/
def FollowsValue (bytes : List UInt8) : Prop :=
  ∀ (completed : List Line) (expected : Nat) (inMulti : Bool) (pending : List Command),
    Follows (feed { completed, expected, inMulti } pending bytes) pending
      (readValue (expected - 1) bytes) fun v rest =>
        (deliver { completed := completed ++ v.lines, expected := expected - 1, inMulti }
          pending).andThen fun r pending => feed r pending rest

/-- The elements of an array, when `outstanding` values are still to come after it. -/
theorem feed_elements {size : Nat} (hvalue : ∀ bytes, bytes.length < size → FollowsValue bytes)
    (outstanding : Nat) (inMulti : Bool) (pending : List Command) (n : Nat) :
    ∀ (completed : List Line) (bytes : List UInt8) (h : bytes.length < size),
      Follows (feed { completed, expected := outstanding + (n + 1), inMulti } pending bytes) pending
        (readMany (fun outstanding bytes _ => readValue outstanding bytes) outstanding (n + 1)
          bytes h) fun vs rest =>
            (deliver { completed := completed ++ linesAll vs, expected := outstanding, inMulti }
              pending).andThen fun r pending => feed r pending rest := by
  induction n with
  | zero =>
      intro completed bytes h
      have hv := hvalue bytes h completed (outstanding + 0 + 1) inMulti pending
      rw [Nat.add_sub_cancel] at hv
      rw [readMany]
      cases hread : readValue (outstanding + 0) bytes with
      | short =>
          rw [hread] at hv
          exact hv
      | fault f =>
          rw [hread] at hv
          exact hv
      | done v rest shorter =>
          rw [hread] at hv
          refine hv.trans ?_
          simp only [linesAll, List.append_nil, Nat.add_zero]
  | succ n ih =>
      intro completed bytes h
      have hv := hvalue bytes h completed (outstanding + (n + 1) + 1) inMulti pending
      rw [Nat.add_sub_cancel] at hv
      rw [readMany]
      cases hread : readValue (outstanding + (n + 1)) bytes with
      | short =>
          rw [hread] at hv
          exact hv
      | fault f =>
          rw [hread] at hv
          exact hv
      | done v rest shorter =>
          rw [hread] at hv
          -- More elements are needed, so the reader just goes on.
          have hgo :
              feed { completed, expected := outstanding + (n + 1) + 1, inMulti } pending bytes =
                feed
                  { completed := completed ++ v.lines, expected := outstanding + (n + 1), inMulti }
                  pending rest := by
            refine hv.trans ?_
            dsimp only
            rw [deliver_of_ne_zero (Nat.succ_ne_zero _), Progress.start_andThen]
          have ih := ih (completed ++ v.lines) rest (shorter.trans h)
          rw [← hgo] at ih
          simp only [List.append_assoc] at ih
          exact ih.map

/-- The content of a bulk string and its end, after its header. -/
theorem feed_content (completed : List Line) (expected length : Nat) (inMulti : Bool)
    (pending : List Command) (bytes : List UInt8) :
    Follows (feed { completed, expected := expected + 1, payload := some length, inMulti } pending
        bytes) pending (readContent length bytes) fun content rest =>
      (deliver { completed := completed ++ [.payload content], expected, inMulti }
        pending).andThen fun r pending => feed r pending rest := by
  rw [readContent]
  split
  · next hshort =>
      rw [feed_payload_short rfl (by simpa using hshort)]
      exact ⟨rfl, rfl, rfl⟩
  · next hlong =>
      have htake : (bytes.take (length + 2)).drop length = (bytes.drop length).take 2 := by
        rw [List.drop_take, Nat.add_sub_cancel_left]
      rw [feed_payload_full rfl (by simp) (by simpa using Nat.not_lt.mp hlong)]
      simp only [List.nil_append, List.length_nil, Nat.sub_zero, htake]
      split
      · rw [addLine_nothing rfl, List.take_take, Nat.min_eq_left (by omega)]
        rfl
      · exact ⟨rfl, rfl, rfl⟩

/-- **A value is read as the plain reader reads it**: from the start of a line, whatever lines
are there already and however many are counted. The plain reader's outstanding values are the
lines counted after this one. -/
theorem feed_value (bytes : List UInt8) : FollowsValue bytes := by
  induction hlen : bytes.length using Nat.strong_induction_on generalizing bytes with
  | _ size ih =>
      subst hlen
      intro completed expected inMulti pending
      rw [readValue]
      cases hfirst : readFirst bytes with
      | short =>
          have hcut := cutCrlf_eq_none (Descent.cutCrlf_of_readFirst_short hfirst)
          rw [feed_of_no_crlf rfl (by simpa using hcut)]
          exact ⟨rfl, rfl, rfl⟩
      | fault f =>
          obtain ⟨header, rest, hcut, hann⟩ := Descent.cutCrlf_of_readFirst_fault hfirst
          obtain ⟨rfl, hno⟩ := cutCrlf_eq_some hcut
          rw [feed_line rfl rfl hno, addLine_fault ((opening_control header).trans hann),
            Progress.andThen_of_fault rfl]
          exact ⟨rfl, rfl, rfl⟩
      | done first rest shorter =>
          obtain ⟨header, opening⟩ := first
          obtain ⟨hcut, hann⟩ := Descent.cutCrlf_of_readFirst_done hfirst
          obtain ⟨hbytes, hno⟩ := cutCrlf_eq_some hcut
          have hopening := (opening_control header).trans hann
          have hline : feed { completed, expected, inMulti } pending bytes =
              (addLine { completed, expected, inMulti } pending (.control header)).andThen
                fun r pending => feed r pending rest := by
            rw [hbytes]
            exact feed_line rfl rfl hno rest
          cases opening with
          | nothing =>
              rw [addLine_nothing hopening] at hline
              exact hline
          | payload length =>
              rw [addLine_payload hopening, Progress.start_andThen] at hline
              have hcontent := feed_content (completed ++ [.control header]) (expected - 1) length
                inMulti pending rest
              rw [← hline] at hcontent
              simp only [List.append_assoc] at hcontent
              exact hcontent.map
          | elements count =>
              dsimp only
              split
              · next hfits =>
                  obtain ⟨text, -, -, hpos⟩ := announced_eq_elements hann
                  obtain ⟨n, hn⟩ : ∃ n, count.toInt.toNat = n + 1 :=
                    Nat.exists_eq_succ_of_ne_zero (announced_count_ne_zero hpos)
                  rw [addLine_elements hopening hpos hfits, Progress.start_andThen] at hline
                  have hall := feed_elements
                    (fun tail h => ih tail.length h tail rfl) (expected - 1)
                    inMulti pending n (completed ++ [.control header]) rest shorter
                  rw [hn] at hline ⊢
                  rw [← hline] at hall
                  simp only [List.append_assoc] at hall
                  exact hall.map
              · next hfits =>
                  rw [addLine_overflow hopening hfits, Progress.andThen_of_fault rfl] at hline
                  rw [hline]
                  exact ⟨rfl, rfl, rfl⟩

/-! ## §3  Between two values -/

/-- Nothing of a value has been read. -/
def Between (r : Reader) : Prop := r = { inMulti := r.inMulti }

instance (r : Reader) : Decidable r.Between := by
  unfold Between
  infer_instance

theorem not_between_of_partialLine (h : r.partialLine ≠ []) : ¬ r.Between := by
  intro hb
  rw [hb] at h
  exact h rfl

theorem not_between_of_expected (h : r.expected ≠ 0) : ¬ r.Between := by
  intro hb
  rw [hb] at h
  exact h rfl

/-- A complete reply shows: a command is answered, or there is a fault. -/
theorem finish_not_silent (r : Reader) (pending : List Command)
    (hf : (finish r pending).fault = none) : (finish r pending).answered ≠ [] := by
  cases pending with
  | nil => exact absurd hf (by simp [finish])
  | cons c rest =>
      unfold finish
      dsimp only
      split
      · simp
      · split <;> simp

theorem pos_of_opening_elements {line : Line} {count : Int64}
    (h : line.opening = .ok (.elements count)) : 0 < count := by
  cases line with
  | payload content => exact absurd h (by simp [Line.opening])
  | control header =>
      obtain ⟨text, -, -, hpos⟩ := announced_eq_elements ((opening_control header).symm.trans h)
      exact hpos

/-- After a line that answers nothing more lines are needed. -/
theorem expected_of_addLine_silent {line : Line} (hf : (addLine r pending line).fault = none)
    (ha : (addLine r pending line).answered = []) :
    (addLine r pending line).reader.expected ≠ 0 := by
  cases ho : line.opening with
  | error f => exact absurd hf (by simp [addLine_fault ho])
  | ok opening =>
      cases opening with
      | nothing =>
          rw [addLine_nothing ho] at hf ha ⊢
          unfold deliver at hf ha ⊢
          split at hf
          · next h0 =>
              rw [if_pos h0] at ha
              exact absurd ha (finish_not_silent _ _ hf)
          · next h0 =>
              rw [if_neg h0]
              exact h0
      | payload length =>
          rw [addLine_payload ho]
          exact Nat.succ_ne_zero _
      | elements count =>
          have hpos := pos_of_opening_elements ho
          by_cases hfits : r.expected - 1 + count.toInt.toNat < countLimit
          · rw [addLine_elements ho hpos hfits]
            exact fun h0 => announced_count_ne_zero hpos (Nat.eq_zero_of_add_eq_zero_left h0)
          · exact absurd hf (by simp [addLine_overflow ho hfits])

/-- A byte that answers nothing belongs to a value. -/
theorem not_between_of_byte (b : UInt8) (hf : (feed r pending [b]).fault = none)
    (ha : (feed r pending [b]).answered = []) : ¬ (feed r pending [b]).reader.Between := by
  rcases feed_byte_cases r b with ⟨line, hline, h⟩ | ⟨payload, line, h⟩ | ⟨line, h⟩
  · rw [h]
    exact not_between_of_partialLine hline
  · rw [h] at hf ha ⊢
    exact not_between_of_expected (expected_of_addLine_silent hf ha)
  · rw [h] at hf
    exact absurd hf (by simp)

/-- **Where nothing is answered, the reader is within a value.** -/
theorem not_between_of_silent (hne : chunk ≠ []) (hf : (feed r pending chunk).fault = none)
    (ha : (feed r pending chunk).answered = []) : ¬ (feed r pending chunk).reader.Between := by
  obtain ⟨front, b, rfl⟩ := (List.eq_nil_or_concat' chunk).resolve_left hne
  rw [feed_append] at hf ha ⊢
  cases hfront : (feed r pending front).fault with
  | some f =>
      rw [Progress.andThen_of_fault hfront, hfront] at hf
      exact absurd hf (by simp)
  | none =>
      rw [Progress.andThen_of_ok hfront] at hf ha ⊢
      exact not_between_of_byte b hf (List.append_eq_nil_iff.mp ha).2

/-! ## §4  Replies -/

theorem acknowledgement_lines {v : Spelling} (hv : v.Valid) (kind : Kind) :
    acknowledgement kind v.lines = v.acknowledgement := by
  obtain ⟨marker, text, hh⟩ := hv.header_eq_cons
  obtain ⟨rest, hl⟩ := v.lines_eq_cons
  rw [hl, hh, acknowledgement, Spelling.acknowledgement, hh]
  rfl

/-- The lines of a value answer the oldest command, and none is left over. -/
theorem finish_lines {v : Spelling} (hv : v.Valid) {inMulti : Bool} {c : Command} {reply : Reply}
    (h : v.answer (multiAfter inMulti c.kind) c.kind = .ok reply) (pending : List Command) :
    finish { completed := v.lines, inMulti } (c :: pending) =
      { reader := { inMulti := multiAfter inMulti c.kind }
        pending
        answered := [⟨c, reply⟩] } := by
  unfold finish
  unfold Spelling.answer at h
  dsimp only
  split at h
  · next hm =>
      obtain rfl := Except.ok.inj h
      rw [if_pos hm, acknowledgement_lines hv]
  · next hm =>
      have hd := decodeReply_lines hv c.kind
      rw [h] at hd
      have hd : decodeReply c.kind v.lines = ⟨.ok reply, []⟩ := hd
      rw [if_neg hm, hd]

/-- A value that is no reply of the oldest command still uses it up. -/
theorem finish_fault {v : Spelling} (hv : v.Valid) {inMulti : Bool} {c : Command} {fault : Fault}
    (h : v.answer (multiAfter inMulti c.kind) c.kind = .error fault) (pending : List Command) :
    ∃ r, finish { completed := v.lines, inMulti } (c :: pending) =
      { reader := r
        pending
        answered := [⟨c, .error fault.summary none⟩]
        fault := some fault } := by
  unfold finish
  unfold Spelling.answer at h
  dsimp only
  split at h
  · exact absurd h (by simp)
  · next hm =>
      have hd : (decodeReply c.kind v.lines).result = .error fault := by
        have hd := decodeReply_lines hv c.kind
        rw [h] at hd
        exact hd
      rw [if_neg hm]
      rcases hdec : decodeReply c.kind v.lines with ⟨_ | _, rest⟩
      · rw [hdec] at hd
        obtain rfl := Except.error.inj hd
        exact ⟨_, rfl⟩
      · rw [hdec] at hd
        exact absurd hd (by simp)

/-- One reply at the front of the stream. -/
theorem feed_of_readValue {v : Spelling} {bytes rest : List UInt8}
    {shorter : rest.length < bytes.length} (h : readValue 0 bytes = .done v rest shorter)
    (inMulti : Bool) (pending : List Command) :
    feed { inMulti } pending bytes = (finish { completed := v.lines, inMulti } pending).andThen
      fun r pending => feed r pending rest := by
  have hv := feed_value bytes [] 0 inMulti pending
  rw [Nat.zero_sub, h] at hv
  exact hv

/-- The reader has come to what the plain reader came to. -/
structure Agrees (p : Progress) (o : Descent.Outcome) : Prop where
  answered : p.answered = o.answered
  pending : p.pending = o.pending
  fault : p.fault = o.fault
  between : p.fault = none → (p.reader.Between ↔ o.between = true)

/-- **The reader is the plain reader**: on every stream and for every queue, from between two
values, they answer the same commands with the same replies, leave the same commands waiting, stop
at the same fault if at any, and otherwise agree whether the stream ends between two values. -/
theorem feed_agrees_readReplies (inMulti : Bool) (pending : List Command) (bytes : List UInt8) :
    Agrees (feed { inMulti } pending bytes) (readReplies inMulti pending bytes) := by
  induction hlen : bytes.length using Nat.strong_induction_on
    generalizing inMulti pending bytes with
  | _ size ih =>
      subst hlen
      have hv := feed_value bytes [] 0 inMulti pending
      rw [Nat.zero_sub] at hv
      rw [readReplies]
      cases hread : readValue 0 bytes with
      | short =>
          rw [hread] at hv
          obtain ⟨ha, hp, hf⟩ := hv
          refine ⟨ha, hp, hf, fun _ => ?_⟩
          cases bytes with
          | nil =>
              rw [feed_nil]
              exact ⟨fun _ => rfl, fun _ => rfl⟩
          | cons b rest =>
              exact ⟨fun hb => absurd hb (not_between_of_silent (by simp) hf ha), by simp⟩
      | fault f =>
          rw [hread] at hv
          obtain ⟨ha, hp, hf⟩ := hv
          exact ⟨ha, hp, hf, fun hnone => absurd (hf.symm.trans hnone) (by simp)⟩
      | done v rest shorter =>
          have hvalid := Descent.valid_of_readValue hread
          rw [feed_of_readValue hread]
          cases pending with
          | nil => exact ⟨rfl, rfl, rfl, fun h => absurd h (by simp [finish, Progress.andThen])⟩
          | cons c pending =>
              dsimp only
              cases hanswer : v.answer (multiAfter inMulti c.kind) c.kind with
              | error f =>
                  obtain ⟨r, hfin⟩ := finish_fault hvalid hanswer pending
                  rw [hfin, Progress.andThen_of_fault rfl]
                  exact ⟨rfl, rfl, rfl, fun h => absurd h (by simp)⟩
              | ok reply =>
                  have ih := ih rest.length shorter (multiAfter inMulti c.kind) pending rest rfl
                  rw [finish_lines hvalid hanswer, Progress.andThen_of_ok rfl]
                  exact ⟨congrArg (_ :: ·) ih.answered, ih.pending, ih.fault, ih.between⟩

end Reader

end RespClient
