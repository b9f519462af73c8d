import RespClient.Proofs.Reader.Bytes
import RespClient.Proofs.Reader.Loop

/-!
# Bounded numbers

Whatever bytes come, the count of lines stays a word, the length of a bulk string has room for its
line end, and no more bytes are kept than string and line end have (`Safe`). Every byte keeps this,
also one at which reading stops: a fault may leave the count lower than the lines that are there
would have it, or a string whose end was refused, but no number out of bounds. So none of the
operations of the loop can fail, in any state and on any chunk (`no_operation_fails`).

- §1: what a complete reply, decoded or not, leaves of the lines.
- §2: what every byte keeps.
- §3: what follows for the loop.
-/

namespace RespClient

/-! ## §1  Lines that are left -/

/-- Decoding takes lines from the front. -/
theorem decodeLines_rest (stack : List OpenArray) (lines : List Line) :
    (decodeLines stack lines).rest <:+ lines := by
  induction hlen : lines.length using Nat.strong_induction_on generalizing stack lines with
  | _ size ih =>
      subst hlen
      cases lines with
      | nil => simp [decodeLines]
      | cons line rest =>
          have hstep : ∀ (after : List Line) (stack : List OpenArray), after <:+ rest →
              (decodeLines stack after).rest <:+ line :: rest := by
            intro after stack h
            have hlen : after.length < (line :: rest).length := Nat.lt_succ_of_le h.length_le
            exact (ih _ hlen stack after rfl).trans (h.trans (List.suffix_cons line rest))
          have hstay : ∀ after : List Line, after <:+ rest → after <:+ line :: rest :=
            fun after h => h.trans (List.suffix_cons line rest)
          have hresume : ∀ (value : Data) (after : List Line), after <:+ rest →
              (resume value stack after).rest <:+ line :: rest := by
            intro value after h
            unfold resume
            split
            · exact hstay after h
            · exact hstep after _ h
          rw [decodeLines_cons]
          split
          · split
            · exact hstay rest (List.suffix_refl _)
            · split
              · exact hresume _ _ (List.suffix_refl _)
              · split
                · exact hresume _ _ (List.suffix_refl _)
                · exact hstep _ _ (List.suffix_refl _)
          · split
            · split
              · exact List.nil_suffix
              · split
                · exact hresume _ _ (List.suffix_refl _)
                · exact List.nil_suffix
            · next payload after =>
                split
                · exact hstay _ (List.suffix_refl _)
                · split
                  · exact hresume _ _ (List.suffix_refl _)
                  · exact hresume _ _ (List.suffix_cons payload after)
          · split
            · exact hstay _ (List.suffix_refl _)
            · exact hresume _ _ (List.suffix_refl _)
          · exact hresume _ _ (List.suffix_refl _)

theorem decodeReply_rest (kind : Kind) (lines : List Line) :
    (decodeReply kind lines).rest <:+ lines := by
  cases lines with
  | nil => exact List.suffix_refl _
  | cons line rest =>
      have hrest : rest <:+ line :: rest := List.suffix_cons line rest
      have hshape : ∀ marker, (if marker = kind.shape.marker
          then (decodeLines [] (line :: rest)).map Reply.success
          else ⟨.error (.mismatch kind marker), rest⟩).rest <:+ line :: rest := by
        intro marker
        split
        · exact decodeLines_rest [] (line :: rest)
        · exact hrest
      unfold decodeReply
      dsimp only
      split
      · exact hrest
      · split
        · exact hrest
        · split
          · split
            · exact hrest
            · split
              · exact hrest
              · exact hshape _
          · exact hshape _

namespace Reader

variable {r : Reader} {pending : List Command}

/-- A complete reply changes nothing but the lines, of which only some are left, and what replies
are. -/
theorem finish_reader (r : Reader) (pending : List Command) :
    ∃ lines inMulti, lines <:+ r.completed ∧
      (finish r pending).reader = { r with completed := lines, inMulti } := by
  cases pending with
  | nil => exact ⟨r.completed, r.inMulti, List.suffix_refl _, rfl⟩
  | cons c rest =>
      unfold finish
      dsimp only
      split
      · exact ⟨[], _, List.nil_suffix, rfl⟩
      · split
        · exact ⟨[], _, List.nil_suffix, rfl⟩
        · next fault left hdecode =>
            have hleft := decodeReply_rest c.kind r.completed
            rw [hdecode] at hleft
            exact ⟨left, _, hleft, rfl⟩

/-! ## §2  What every byte keeps -/

/-- The numbers are bounded, and every header that is kept has its marker. -/
structure Safe (r : Reader) : Prop extends Bounded r where
  marked : Line.control [] ∉ r.completed

/-- The length of a bulk string is a 64-bit integer, so it has room for two bytes more in a word. -/
theorem length_of_opening {line : Line} {length : Nat} (h : line.opening = .ok (.payload length)) :
    length + 2 < countLimit := by
  cases line with
  | payload content => exact absurd h (by simp [Line.opening])
  | control header =>
      obtain ⟨-, i, -, -, -, hn⟩ := announced_eq_payload ((opening_control header).symm.trans h)
      have hword := i.toInt_lt
      have hlimit : countLimit = 2 ^ 64 := rfl
      omega

/-- Outside bulk strings only the count can be out of bounds. -/
theorem Safe.of_count (hcount : r.expected < countLimit) (hp : r.payload = none)
    (hmarked : Line.control [] ∉ r.completed) : r.Safe :=
  ⟨⟨hcount, by simp [hp], by simp [hp], by simp [hp]⟩, hmarked⟩

theorem Safe.finish (hcount : r.expected < countLimit) (hp : r.payload = none)
    (hmarked : Line.control [] ∉ r.completed) (pending : List Command) :
    (finish r pending).reader.Safe := by
  obtain ⟨lines, inMulti, hlines, hreader⟩ := finish_reader r pending
  rw [hreader]
  exact .of_count hcount hp fun hin => hmarked (hlines.subset hin)

theorem marked_snoc {lines : List Line} (h : Line.control [] ∉ lines) {line : Line}
    {opening : Line.Opening} (ho : line.opening = .ok opening) :
    Line.control [] ∉ lines ++ [line] := by
  intro hin
  rcases List.mem_append.mp hin with hin | hin
  · exact h hin
  · rw [← List.mem_singleton.mp hin] at ho
    exact absurd ho (by simp [Line.opening])

theorem Safe.addLine (h : r.Safe) (line : Line) (pending : List Command) :
    (addLine { r with partialLine := [], payload := none } pending line).reader.Safe := by
  have hcount := h.count
  have hone := one_lt_countLimit
  have hless : r.expected - 1 < countLimit := by omega
  cases addLine_cases { r with partialLine := [], payload := none } line with
  | unreadable fault ho hread =>
      rw [hread]
      exact .of_count hless rfl h.marked
  | tooMany count ho hexceeds hread =>
      rw [hread]
      exact .of_count hless rfl h.marked
  | elements count ho hfits hread =>
      rw [hread]
      exact .of_count hfits rfl (marked_snoc h.marked ho)
  | payload length ho hread =>
      rw [hread]
      refine ⟨⟨by dsimp only; omega, ?_, ?_, ?_⟩, marked_snoc h.marked ho⟩
      all_goals
        intro n hn
        obtain rfl : length = n := Option.some.inj hn
      · exact length_of_opening ho
      · exact Nat.zero_le _
      · simp [Frame.crlf]
  | inner ho hmore hread =>
      rw [hread]
      exact .of_count hless rfl (marked_snoc h.marked ho)
  | last ho henough hread =>
      rw [hread]
      exact .finish (Nat.zero_lt_of_lt hone) rfl (marked_snoc h.marked ho) pending

/-- One byte more of a bulk string, or of what stands where its end should be. -/
theorem Safe.content (h : r.Safe) {length : Nat} (hp : r.payload = some length) {line : List UInt8}
    (hroom : line.length ≤ length + 2) (hend : line.drop length ≠ Frame.crlf) :
    ({ r with partialLine := line } : Reader).Safe := by
  refine ⟨⟨h.count, h.length, ?_, ?_⟩, h.marked⟩
  all_goals
    intro n hn
    obtain rfl : length = n := Option.some.inj (hp.symm.trans hn)
  · exact hroom
  · exact hend

/-- Every byte keeps a reader safe, also one that has a fault. -/
theorem Safe.byte (h : r.Safe) (pending : List Command) (b : UInt8) :
    (feed r pending [b]).reader.Safe := by
  cases feed_byte r b with
  | text line hp hread =>
      rw [hread]
      exact .of_count h.count hp h.marked
  | line header hp hends hread =>
      rw [hread]
      exact h.addLine _ pending
  | content length hp hmore hread =>
      have hlen : (r.partialLine ++ [b]).length < length + 2 := by simpa using hmore
      rw [hread]
      apply h.content hp hlen.le
      intro hend
      -- Too few bytes are there for the string and a line end.
      have htwo := congrArg List.length hend
      simp only [List.length_drop, Frame.crlf, List.length_cons, List.length_nil] at htwo
      omega
  | string content hp hends hread =>
      rw [hread]
      exact h.addLine _ pending
  | refused length hp hfull hwrong hread =>
      rw [hread]
      exact h.content hp (by simpa using hfull.le) hwrong
  | again length hp hfull hread =>
      rw [hread]
      exact h

theorem Safe.feed (h : r.Safe) (pending : List Command) (chunk : List UInt8) :
    (feed r pending chunk).reader.Safe := by
  cases hf : (Reader.feed r pending chunk).fault with
  | none => exact feed_kept (fun r pending b h _ => h.byte pending b) h hf
  | some fault =>
      obtain ⟨before, b, after, -, hbefore, hb, hfeed⟩ := fault_at hf
      rw [hfeed, Progress.andThen_of_ok hbefore]
      exact (feed_kept (fun r pending b h _ => h.byte pending b) h hbefore).byte _ b

theorem Reachable.safe (h : r.Reachable) : r.Safe := by
  induction h with
  | fresh => exact .of_count (Nat.zero_lt_of_lt one_lt_countLimit) rfl (by simp)
  | fed _ pending chunk ih => exact ih.feed pending chunk

/-! ## §3  Nothing fails -/

/-- A complete reply is handed on. The text of a header is what comes after its marker, so it cannot
be taken of a header without one: there must be none among the lines. -/
def handOn? (r : Reader) (pending : List Command) : Option Progress :=
  if Line.control [] ∈ r.completed then none else some (finish r pending)

theorem Safe.handsOn (h : r.Safe) : HandsOn handOn? r := by
  intro line pending _ ho _
  exact if_neg (marked_snoc h.marked ho)

/-- A turn leads to a state like any other, also one that ends in a fault. -/
theorem Turned.reachable {chunk rest : List UInt8} {p : Progress} (hr : r.Reachable)
    (h : Turned r pending chunk p rest) : p.reader.Reachable := by
  cases hf : p.fault with
  | some fault =>
      have hall := h.step
      rw [Progress.andThen_of_fault hf] at hall
      rw [← hall]
      exact .fed hr pending chunk
  | none =>
      obtain ⟨taken, -, -, rfl⟩ := h.taken hf
      exact .fed hr pending taken

theorem Turned.length_lt {chunk rest : List UInt8} {p : Progress}
    (h : Turned r pending chunk p rest) (hf : p.fault = none) : rest.length < chunk.length := by
  obtain ⟨taken, hne, rfl, -⟩ := h.taken hf
  have hpos := List.length_pos_of_ne_nil hne
  rw [List.length_append]
  omega

/-- **No operation of the reader fails**, in any state that any bytes lead to, also after faults,
and whatever chunk comes: a turn of its loop takes at least one byte or ends in a fault, and after
no more turns than there are bytes the loop has read the chunk. The count is always a word, the
length of a bulk string has room for two bytes more, and no more bytes are kept than that. -/
theorem no_operation_fails (h : r.Reachable) (pending : List Command) (chunk : List UInt8) :
    loop? handOn? chunk.length r pending chunk = some (feed r pending chunk) ∧
      (chunk ≠ [] → ∃ p rest, turn? handOn? r pending chunk = some (p, rest) ∧
        p.reader.Reachable ∧ (p.fault = none → rest.length < chunk.length)) ∧
      r.expected < countLimit ∧
      ∀ length, r.payload = some length →
        length + 2 < countLimit ∧ r.partialLine.length ≤ length + 2 := by
  have hsafe := h.safe
  refine ⟨?_, ?_, hsafe.count, ?_⟩
  · exact loop?_eq (I := Safe) (fun r h => h.toBounded) (fun r h => h.handsOn)
      (fun r pending chunk h _ => h.feed pending chunk) hsafe (Nat.le_refl _) pending
  · intro hne
    obtain ⟨p, rest, hturn, hturned⟩ := turn?_eq hsafe.toBounded hsafe.handsOn hne pending
    exact ⟨p, rest, hturn, hturned.reachable h, hturned.length_lt⟩
  · intro length hp
    exact ⟨hsafe.length length hp, hsafe.room length hp⟩

/-- After a string of one byte whose end was refused, another byte is refused too. -/
theorem no_operation_fails_after_refusal :
    let r : Reader :=
      { partialLine := [0x61, 0x62, 0x63]
        completed := [.control [0x24, 0x31]]
        expected := 1
        payload := some 1 }
    r.Reachable ∧
      loop? handOn? 1 r [] [0x64] =
        some { reader := r, pending := [], fault := some .invalidBulkTerminator } ∧
      r.expected < countLimit ∧ 1 + 2 < countLimit ∧ r.partialLine.length ≤ 1 + 2 := by
  intro r
  -- The bytes of `$1`, its line end, and `abc`.
  have hfeed : feed {} [] [0x24, 0x31, 0x0D, 0x0A, 0x61, 0x62, 0x63] =
      { reader := r, pending := [], fault := some .invalidBulkTerminator } := by decide +kernel
  have hr : r.Reachable := by
    have h := Reachable.fed .fresh [] [0x24, 0x31, 0x0D, 0x0A, 0x61, 0x62, 0x63]
    rwa [hfeed] at h
  obtain ⟨hloop, -, hcount, hpayload⟩ := no_operation_fails hr [] [0x64]
  have hagain : feed r [] [0x64] =
      { reader := r, pending := [], fault := some .invalidBulkTerminator } := by decide +kernel
  obtain ⟨hlength, hroom⟩ := hpayload 1 rfl
  exact ⟨hr, hloop.trans (congrArg some hagain), hcount, hlength, hroom⟩

end Reader

end RespClient
