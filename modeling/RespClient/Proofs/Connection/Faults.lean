import RespClient.Proofs.Connection.Ledger
import RespClient.Proofs.Reader.Unfinished

/-!
# What a fault costs

Reading stops at one byte, the last one of a line. Up to there replies are read as if the stream
ended before that byte. Then either no reply is complete yet, or nobody waits for it, and no command
is reached (`Blocked`); or the line completes a reply that the oldest command cannot be told, and
that command is told the fault (`Spoilt`). Whoever waits behind goes on waiting, until the
connection closes.

- §1: lines and values that cannot be read.
- §2: how a byte stops the reading.
- §3: the whole chunk, and the end of the connection.
-/

namespace RespClient

open Descent (announced)
open Spelling (linesAll ValidAll)

/-! ## §1  Lines and values that cannot be read -/

/-- There is no integer in the bytes, also without the blanks around them. -/
def NoInteger (bytes : List UInt8) : Prop := Numeral.int64? (Blank.trim (Utf8.lossy bytes)) = none

/-- The bytes of a line and of its end. -/
def Line.written : Line → List UInt8
  | .control bytes | .payload bytes => bytes ++ Frame.crlf

theorem Line.integer_eq_error {marker : UInt8} {text : List UInt8} {fault : Fault}
    (h : (Line.control (marker :: text)).integer = .error fault) :
    NoInteger text ∧ fault = .invalidInteger (Utf8.lossy text) := by
  have htext : (Line.control (marker :: text)).text = Utf8.lossy text := rfl
  unfold Line.integer at h
  rw [htext] at h
  split at h
  · exact absurd h (by simp)
  · next hnone => exact ⟨hnone, (Except.error.inj h).symm⟩

theorem Line.integer_eq_ok {marker : UInt8} {text : List UInt8} {i : Int64}
    (h : (Line.control (marker :: text)).integer = .ok i) :
    Numeral.int64? (Blank.trim (Utf8.lossy text)) = some i := by
  have htext : (Line.control (marker :: text)).text = Utf8.lossy text := rfl
  unfold Line.integer at h
  rw [htext] at h
  split at h
  · next hsome => rw [hsome, Except.ok.inj h]
  · exact absurd h (by simp)

/-- A line that cannot be read is empty, or the header of an array or a bulk string without its
number. -/
theorem announced_eq_error {header : List UInt8} {fault : Fault}
    (h : announced header = .error fault) :
    (header = [] ∧ fault = .emptyLine) ∨
      ∃ shape text, (shape = Shape.array ∨ shape = Shape.bulk) ∧ header = shape.marker :: text ∧
        NoInteger text ∧ fault = .invalidInteger (Utf8.lossy text) := by
  cases header with
  | nil => exact .inl ⟨rfl, (Except.error.inj h).symm⟩
  | cons marker text =>
      have hnumber : ∀ {α : Type} {f : Int64 → α},
          (Line.control (marker :: text)).integer.map f = .error fault →
            NoInteger text ∧ fault = .invalidInteger (Utf8.lossy text) := by
        intro α f h
        exact Line.integer_eq_error (error_of_map_eq_error h)
      rw [announced] at h
      split at h
      · next ha => exact .inr ⟨.array, text, .inl rfl, by rw [ha], hnumber h⟩
      · split at h
        · next hb => exact .inr ⟨.bulk, text, .inr rfl, by rw [hb], hnumber h⟩
        · exact absurd h (by simp)

namespace Spelling

/-- One of the lines is to be an integer and is none. -/
def HasBadInteger (v : Spelling) (fault : Fault) : Prop :=
  ∃ text, Line.control (Shape.integer.marker :: text) ∈ v.lines ∧ NoInteger text ∧
    fault = .invalidInteger (Utf8.lossy text)

theorem lineData_eq_error {header : List UInt8} {fault : Fault}
    (hv : announced header = .ok .nothing) (h : lineData header = .error fault) :
    (line header).HasBadInteger fault := by
  unfold lineData at h
  rcases announced_eq_nothing hv with
    ⟨text, count, rfl, hi, -⟩ | ⟨text, length, rfl, -, -⟩ | ⟨marker, text, rfl, ha, hb⟩
  · simp only [List.head?_cons, Option.bind_some, Shape.ofMarker?_marker, hi, Except.map] at h
    exact absurd h (by simp)
  · simp only [List.head?_cons, Option.bind_some, Shape.ofMarker?_marker] at h
    exact absurd h (by simp)
  · simp only [List.head?_cons, Option.bind_some] at h
    cases hs : Shape.ofMarker? marker with
    | none => exact absurd h (by simp [hs])
    | some shape =>
        obtain rfl := Shape.marker_of_ofMarker? hs
        rw [hs] at h
        cases shape with
        | array => exact absurd rfl ha
        | bulk => exact absurd rfl hb
        | status => exact absurd h (by simp)
        | error => exact absurd h (by simp)
        | integer =>
            have hi := error_of_map_eq_error h
            exact ⟨text, List.mem_singleton.mpr rfl, Line.integer_eq_error hi⟩

mutual
/-- A value that cannot be had has an integer that is none: all its headers were read before. -/
theorem data_eq_error : ∀ {v : Spelling} {fault : Fault}, v.Valid → v.data = .error fault →
    v.HasBadInteger fault
  | .line header, fault, hv, h => by
      rw [Valid] at hv
      rw [data] at h
      exact lineData_eq_error hv h
  | .bulk header content, fault, hv, h => by
      rw [data] at h
      exact absurd h (by simp)
  | .array header elements, fault, hv, h => by
      rw [Valid] at hv
      rw [data] at h
      obtain ⟨text, hmem, hbad⟩ := dataAll_eq_error hv.2.2 (error_of_map_eq_error h)
      refine ⟨text, ?_, hbad⟩
      rw [lines]
      exact List.mem_cons_of_mem _ hmem

theorem dataAll_eq_error : ∀ {vs : List Spelling} {fault : Fault}, ValidAll vs →
    dataAll vs = .error fault →
    ∃ text, Line.control (Shape.integer.marker :: text) ∈ linesAll vs ∧ NoInteger text ∧
      fault = .invalidInteger (Utf8.lossy text)
  | [], fault, _, h => absurd h (by simp [dataAll])
  | v :: vs, fault, hv, h => by
      rw [ValidAll] at hv
      rw [dataAll] at h
      rw [linesAll]
      cases hd : v.data with
      | error fault' =>
          rw [hd] at h
          obtain rfl : fault' = fault := Except.error.inj h
          obtain ⟨text, hmem, hbad⟩ := data_eq_error hv.1 hd
          exact ⟨text, List.mem_append_left _ hmem, hbad⟩
      | ok value =>
          rw [hd] at h
          obtain ⟨text, hmem, hbad⟩ := dataAll_eq_error hv.2 (error_of_map_eq_error h)
          exact ⟨text, List.mem_append_right _ hmem, hbad⟩
end

/-- A value that is no reply of a command has another marker than the command's, or an integer that
is none. -/
theorem reply_eq_error {v : Spelling} {kind : Kind} {fault : Fault} (hv : v.Valid)
    (h : v.reply kind = .error fault) :
    (∃ found, v.header.head? = some found ∧ found ≠ kind.shape.marker ∧
      found ≠ Shape.error.marker ∧ fault = .mismatch kind found) ∨ v.HasBadInteger fault := by
  obtain ⟨marker, text, hheader⟩ := hv.header_eq_cons
  have hhead : v.header.head? = some marker := by rw [hheader]; rfl
  simp only [reply, hhead] at h
  split at h
  · exact absurd h (by simp)
  · next herror =>
      split at h
      · exact absurd h (by simp)
      · split at h
        · exact .inr (data_eq_error hv (error_of_map_eq_error h))
        · next hshape =>
            exact .inl ⟨marker, hhead, hshape, herror, (Except.error.inj h).symm⟩

end Spelling

/-! ## §2  How a byte stops the reading -/

namespace Reader

/-- The bytes of a line and its end complete a value. -/
structure Completes (r : Reader) (written : List UInt8) (v : Spelling) : Prop where
  valid : v.Valid
  lines : ∃ last : Line, last.written = written ∧ v.lines = r.completed ++ [last]

/-- The bytes of a line stop the reading, and no command is reached. -/
inductive Blocked (r : Reader) (pending : List Command) (written : List UInt8) : Fault → Prop
  | emptyLine (outside : r.payload = none) (empty : written = Frame.crlf) :
      Blocked r pending written .emptyLine
  /-- The header of an array or a bulk string has no number. -/
  | number (shape : Shape) (text : List UInt8) (outside : r.payload = none)
      (header : shape = .array ∨ shape = .bulk)
      (ends : written = shape.marker :: text ++ Frame.crlf)
      (bad : NoInteger text) : Blocked r pending written (.invalidInteger (Utf8.lossy text))
  /-- The header of an array has more elements than can be counted. -/
  | tooMany (count : Int64) (text : List UInt8) (outside : r.payload = none)
      (ends : written = Shape.array.marker :: text ++ Frame.crlf)
      (number : Numeral.int64? (Blank.trim (Utf8.lossy text)) = some count)
      (exceeds : countLimit ≤ r.expected - 1 + count.toInt.toNat) :
      Blocked r pending written (.lineCountOverflow count)
  /-- A bulk string is not followed by a line end. -/
  | terminator (length : Nat) (inside : r.payload = some length)
      (full : written.length = length + 2) (wrong : written.drop length ≠ Frame.crlf) :
      Blocked r pending written .invalidBulkTerminator
  /-- Nobody waits for the reply. -/
  | unexpected (v : Spelling) (whole : r.Completes written v) (nobody : pending = []) :
      Blocked r pending written .unexpectedReply

/-- The bytes of a line complete a value that is no reply of the command. -/
inductive Spoilt (r : Reader) (written : List UInt8) (c : Command) : Fault → Prop
  /-- It begins with another marker than the command's. -/
  | mismatch (v : Spelling) (found : UInt8) (whole : r.Completes written v)
      (outside : multiAfter r.inMulti c.kind = false) (first : v.header.head? = some found)
      (wrong : found ≠ c.kind.shape.marker) (noError : found ≠ Shape.error.marker) :
      Spoilt r written c (.mismatch c.kind found)
  /-- One of its lines is to be an integer and is none. -/
  | number (v : Spelling) (text : List UInt8) (whole : r.Completes written v)
      (outside : multiAfter r.inMulti c.kind = false)
      (line : Line.control (Shape.integer.marker :: text) ∈ v.lines) (bad : NoInteger text) :
      Spoilt r written c (.invalidInteger (Utf8.lossy text))

/-- Reading goes on from `p` and ends in `q` without reaching a command. -/
structure ReachesNone (p q : Progress) : Prop where
  answered : q.answered = p.answered
  settled : q.settled = p.settled
  pending : q.pending = p.pending

/-- Reading goes on from `p` and ends in `q`; it reaches the oldest command and tells it the
fault. -/
structure ReachesOldest (p q : Progress) (c : Command) (fault : Fault) : Prop where
  answered : q.answered = p.answered ++ [⟨c, .error fault.summary none⟩]
  settled : q.settled =
    p.settled ++ c.slot.toList.map (⟨·, .reply (.error fault.summary none)⟩)
  pending : p.pending = c :: q.pending

/-- Slots are settled as the commands are answered. -/
theorem ReachesNone.of_answered {p q : Progress} (hanswered : q.answered = p.answered)
    (hpending : q.pending = p.pending) : ReachesNone p q := by
  refine ⟨hanswered, ?_, hpending⟩
  rw [Progress.settled, Progress.settled, hanswered]

theorem ReachesOldest.of_answered {p q : Progress} {c : Command} {fault : Fault}
    (hanswered : q.answered = p.answered ++ [⟨c, .error fault.summary none⟩])
    (hpending : p.pending = c :: q.pending) : ReachesOldest p q c fault := by
  refine ⟨hanswered, ?_, hpending⟩
  rw [Progress.settled, hanswered, List.flatMap_append, List.flatMap_singleton]
  rfl

/-- What a fault costs: nothing, or the oldest command. -/
def Costs (p q : Progress) (written : List UInt8) (fault : Fault) : Prop :=
  (Blocked p.reader p.pending written fault ∧ ReachesNone p q) ∨
    ∃ c, Spoilt p.reader written c fault ∧ ReachesOldest p q c fault

variable {r : Reader} {pending : List Command} {fault : Fault} {written : List UInt8}

/-- A complete value of which the reply cannot be handed on. -/
theorem costs_of_finish {v : Spelling} (h : r.Completes written v)
    (hf : (finish { completed := v.lines, inMulti := r.inMulti } pending).fault = some fault) :
    Costs { reader := r, pending } (finish { completed := v.lines, inMulti := r.inMulti } pending)
      written fault := by
  cases pending with
  | nil =>
      obtain rfl : .unexpectedReply = fault := Option.some.inj hf
      exact .inl ⟨.unexpected v h rfl, .of_answered rfl rfl⟩
  | cons c rest =>
      cases hanswer : v.answer (multiAfter r.inMulti c.kind) c.kind with
      | ok reply =>
          rw [finish_lines h.valid hanswer] at hf
          exact absurd hf (by simp)
      | error fault' =>
          obtain ⟨left, hfinish⟩ := finish_fault h.valid hanswer rest
          rw [hfinish] at hf ⊢
          obtain rfl : fault' = fault := Option.some.inj hf
          have houtside : multiAfter r.inMulti c.kind = false := by
            rw [← Bool.not_eq_true]
            intro hm
            rw [hm] at hanswer
            exact absurd hanswer (by simp [Spelling.answer])
          rw [houtside] at hanswer
          refine .inr ⟨c, ?_, .of_answered rfl rfl⟩
          rcases Spelling.reply_eq_error h.valid hanswer with
            ⟨found, hfirst, hwrong, herror, rfl⟩ | ⟨text, hline, hbad, rfl⟩
          · exact .mismatch v found h houtside hfirst hwrong herror
          · exact .number v text h houtside hline hbad

/-- A line that stops the reading. -/
theorem costs_of_addLine {line : Line} {u : Unfinished} (h : r.Account u) (he : r.Expects line)
    (hf : (addLine { r with partialLine := [], payload := none } pending line).fault = some fault) :
    Costs { reader := r, pending }
      (addLine { r with partialLine := [], payload := none } pending line) line.written fault := by
  cases addLine_cases { r with partialLine := [], payload := none } line with
  | unreadable fault' ho hread =>
      rw [hread] at hf ⊢
      obtain rfl : fault' = fault := Option.some.inj hf
      cases line with
      | payload content => exact absurd ho (by simp [Line.opening])
      | control header =>
          rcases announced_eq_error ((opening_control header).symm.trans ho) with
            ⟨rfl, rfl⟩ | ⟨shape, text, hshape, rfl, hbad, rfl⟩
          · exact .inl ⟨.emptyLine he rfl, .of_answered rfl rfl⟩
          · exact .inl ⟨.number shape text he hshape rfl hbad, .of_answered rfl rfl⟩
  | tooMany count ho hexceeds hread =>
      rw [hread] at hf ⊢
      obtain rfl : .lineCountOverflow count = fault := Option.some.inj hf
      cases line with
      | payload content => exact absurd ho (by simp [Line.opening])
      | control header =>
          obtain ⟨text, rfl, hi, -⟩ :=
            announced_eq_elements ((opening_control header).symm.trans ho)
          exact .inl
            ⟨.tooMany count text he rfl (Line.integer_eq_ok hi) hexceeds, .of_answered rfl rfl⟩
  | elements count ho hfits hread =>
      rw [hread] at hf
      exact absurd hf (by simp)
  | payload length ho hread =>
      rw [hread] at hf
      exact absurd hf (by simp)
  | inner ho hmore hread =>
      rw [hread] at hf
      exact absurd hf (by simp)
  | last ho henough hread =>
      obtain ⟨v, hv, hlines⟩ := h.whole he ho henough
      have hwhole : r.Completes line.written v := ⟨hv, line, rfl, hlines⟩
      rw [hread, ← hlines] at hf ⊢
      exact costs_of_finish hwhole hf

/-- **A byte that stops the reading** costs at most the oldest command. -/
theorem costs_of_byte (h : r.Kept) {b : UInt8} (hf : (feed r pending [b]).fault = some fault) :
    Costs { reader := r, pending } (feed r pending [b]) (r.partialLine ++ [b]) fault := by
  obtain ⟨u, hu⟩ := h.account
  cases feed_byte r b with
  | text line hp hread =>
      rw [hread] at hf
      exact absurd hf (by simp)
  | line header hp hends hread =>
      rw [hread] at hf ⊢
      rw [hends]
      exact costs_of_addLine hu hp hf
  | content length hp hmore hread =>
      rw [hread] at hf
      exact absurd hf (by simp)
  | string content hp hends hread =>
      rw [hread] at hf ⊢
      rw [hends]
      exact costs_of_addLine hu hp hf
  | refused length hp hfull hwrong hread =>
      rw [hread] at hf ⊢
      obtain rfl : .invalidBulkTerminator = fault := Option.some.inj hf
      exact .inl ⟨.terminator length hp (by simpa using hfull) hwrong, .of_answered rfl rfl⟩
  | again length hp hfull hread =>
      -- The string would have been refused before.
      exact absurd (h.room length hp) (Nat.not_lt.mpr hfull)

/-! ## §3  A whole chunk -/

/-- What came before is kept in front. -/
theorem Costs.after {p q : Progress} (hp : p.fault = none)
    (h : Costs { reader := p.reader, pending := p.pending } q written fault) :
    Costs p (p.andThen fun _ _ => q) written fault := by
  rw [Progress.andThen_of_ok hp]
  rcases h with ⟨hblocked, hnone⟩ | ⟨c, hspoilt, holdest⟩
  · refine .inl ⟨hblocked, .of_answered ?_ hnone.pending⟩
    rw [hnone.answered, List.append_nil]
  · refine .inr ⟨c, hspoilt, .of_answered ?_ holdest.pending⟩
    rw [holdest.answered, List.nil_append]

end Reader

/-- Closing tells every waiting command that has a slot, in order. -/
theorem Connection.close_eq (c : Connection) :
    c.close = (c.pending.filterMap (·.slot)).map (⟨·, .reply .socketClosed⟩) := by
  unfold Connection.close Connection.drain
  induction c.pending with
  | nil => rfl
  | cons command rest ih =>
      rw [List.flatMap_cons, ih]
      cases hs : command.slot <;>
        simp [Command.resolve, Settlement.deliver, hs]

namespace Reader

/-- **A fault costs at most one command**, in every state that chunks without a fault lead to,
whoever waits and whatever chunk comes. Reading stops at one byte of the chunk, and up to there all
is read as if the chunk ended before it. Then either no command is reached, or just the oldest one,
which is told the fault. All others go on waiting, in order, and are told of the end when the
connection closes. -/
theorem fault_costs_one_command {r : Reader} (h : r.Sound) {pending : List Command}
    {chunk : List UInt8} {fault : Fault} (hf : (feed r pending chunk).fault = some fault) :
    (∃ before b after, chunk = before ++ b :: after ∧ (feed r pending before).fault = none ∧
      feed r pending chunk = feed r pending (before ++ [b]) ∧
      Costs (feed r pending before) (feed r pending chunk)
        ((feed r pending before).reader.partialLine ++ [b]) fault) ∧
      (∀ kind found, fault = .mismatch kind found →
        fault.message = "mismatched reply for " ++ kind.wireName ++ ": expected '" ++
          Fault.markerText kind.shape.marker ++ "', found '" ++ Fault.markerText found ++ "'") ∧
      pending = (feed r pending chunk).answered.map (·.command) ++ (feed r pending chunk).pending ∧
      (feed r pending chunk).connection.close =
        ((feed r pending chunk).pending.filterMap (·.slot)).map
          (⟨·, .reply (.error "Socket closed unexpectedly" none)⟩) := by
  refine ⟨?_, ?_, (feed_keeps r pending chunk).symm, Connection.close_eq _⟩
  · obtain ⟨before, b, after, hchunk, hbefore, hb, hfeed⟩ := fault_at hf
    refine ⟨before, b, after, hchunk, hbefore, ?_, ?_⟩
    · rw [hfeed, feed_append]
    · rw [hfeed]
      exact (costs_of_byte (h.fed hbefore).kept hb).after hbefore
  · rintro kind found rfl
    rfl

/-- A string answers the first of three commands, and the array for the second one has an integer
that is none: the third goes on waiting. -/
theorem fault_costs_one_command_of_three :
    let first : Command := { kind := .get, slot := some ⟨0⟩ }
    let second : Command := { kind := .lrange, slot := some ⟨1⟩ }
    let third : Command := { kind := .ping, slot := some ⟨2⟩ }
    -- The bytes of `$1`, `a`, `*1` and `:x`, each with its line end, and of `+P`.
    let chunk : List UInt8 := [0x24, 0x31, 0x0D, 0x0A, 0x61, 0x0D, 0x0A, 0x2A, 0x31, 0x0D, 0x0A,
      0x3A, 0x78, 0x0D, 0x0A, 0x2B, 0x50]
    let commands := [first, second, third]
    (feed {} commands chunk).fault = some (.invalidInteger "x") ∧
      (∃ before b after, chunk = before ++ b :: after ∧ (feed {} commands before).fault = none ∧
        feed {} commands chunk = feed {} commands (before ++ [b]) ∧
        Costs (feed {} commands before) (feed {} commands chunk)
          ((feed {} commands before).reader.partialLine ++ [b]) (.invalidInteger "x")) ∧
      (feed {} commands chunk).answered = [⟨first, .success (.text "a")⟩,
        ⟨second, .error "Invalid integer in response: x" none⟩] ∧
      (feed {} commands chunk).pending = [third] ∧
      (feed {} commands chunk).connection.close =
        [⟨⟨2⟩, .reply (.error "Socket closed unexpectedly" none)⟩] := by
  intro first second third chunk commands
  have hfault : (feed {} commands chunk).fault = some (.invalidInteger "x") := by decide +kernel
  have hanswered : (feed {} commands chunk).answered = [⟨first, .success (.text "a")⟩,
      ⟨second, .error "Invalid integer in response: x" none⟩] := by decide +kernel
  obtain ⟨hstops, -, hqueue, hclose⟩ := fault_costs_one_command .fresh hfault
  have hpending : (feed {} commands chunk).pending = [third] := by
    rw [hanswered] at hqueue
    simpa [commands] using hqueue.symm
  refine ⟨hfault, hstops, hanswered, hpending, ?_⟩
  rw [hclose, hpending]
  rfl

end Reader

end RespClient
