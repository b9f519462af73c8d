import RespClient.Reader.Decode

/-!
# The reply reader

Bytes come in chunks that have nothing to do with the replies in them.  The reader
assembles lines, counts how many more lines the reply under way still needs, and when
the count is down to nothing hands the lines to the oldest waiting command.

A bulk string is counted in bytes and may contain anything; every other line ends at the
first `CR LF`.  After `MULTI` the server only acknowledges commands, until `EXEC`.
-/

namespace RespClient

/-! ## §1  State and progress -/

/-- What is known of the replies under way. -/
structure Reader where
  /-- Bytes of the line that is being assembled. -/
  partialLine : List UInt8 := []
  /-- Lines of the reply under way, oldest first. -/
  completed : List Line := []
  /-- Lines the reply under way still needs. -/
  expected : Nat := 0
  /-- The length of the bulk string that is being read, if one is. -/
  payload : Option Nat := none
  /-- Are replies mere acknowledgements, as between `MULTI` and `EXEC`? -/
  inMulti : Bool := false
  deriving DecidableEq, Repr

structure Answer where
  command : Command
  reply : Reply
  deriving DecidableEq, Repr

def Answer.settle (a : Answer) : List Settlement := a.command.resolve a.reply

/-- Where reading has got to. -/
structure Progress where
  reader : Reader
  /-- Commands that wait for their reply, oldest first. -/
  pending : List Command
  answered : List Answer := []
  fault : Option Fault := none
  deriving DecidableEq, Repr

namespace Progress

/-- Go on from here, unless reading has stopped. -/
def andThen (p : Progress) (next : Reader → List Command → Progress) : Progress :=
  match p.fault with
  | some _ => p
  | none =>
    let q := next p.reader p.pending
    { q with answered := p.answered ++ q.answered }

def settled (p : Progress) : List Settlement := p.answered.flatMap Answer.settle

end Progress

namespace Reader

/-! ## §2  A reply is complete -/

/-- Are replies acknowledgements once this command is reached? -/
def multiAfter (inMulti : Bool) (kind : Kind) : Bool :=
  match kind with
  | .multi => true
  | .exec => false
  | _ => inMulti

/-- The lines are those of one reply: the oldest command gets it.  A reply that cannot be
decoded still uses up its command, and the lines not yet taken stay. -/
def finish (r : Reader) (pending : List Command) : Progress :=
  match pending with
  | [] => { reader := r, pending := [], fault := some .unexpectedReply }
  | c :: pending =>
    let inMulti := multiAfter r.inMulti c.kind
    if inMulti then
      { reader := { r with completed := [], inMulti }
        pending
        answered := [⟨c, acknowledgement c.kind r.completed⟩] }
    else
      match decodeReply c.kind r.completed with
      | ⟨.ok reply, _⟩ =>
        { reader := { r with completed := [], inMulti }, pending, answered := [⟨c, reply⟩] }
      | ⟨.error fault, rest⟩ =>
        { reader := { r with completed := rest, inMulti }
          pending
          answered := [⟨c, .error fault.summary none⟩]
          fault := some fault }

/-! ## §3  A line is complete -/

def countLimit : Nat := Nat.pow 2 64

/-- A line more is there, and the reply is handed on if no further line is needed. -/
def store (r : Reader) (pending : List Command) (line : Line) : Progress :=
  let r := { r with completed := r.completed ++ [line] }
  if r.expected = 0 then finish r pending else { reader := r, pending }

/-- A line has arrived.  It is one line less to wait for even if it turns out to be
faulty; a faulty line is not kept. -/
def addLine (r : Reader) (pending : List Command) (line : Line) : Progress :=
  let r := { r with expected := r.expected - 1 }
  match line.opening with
  | .error fault => { reader := r, pending, fault := some fault }
  | .ok .nothing => store r pending line
  | .ok (.elements count) =>
    let expected := r.expected + count.toInt.toNat
    if expected < countLimit then store { r with expected } pending line
    else { reader := r, pending, fault := some (.lineCountOverflow count) }
  | .ok (.payload length) =>
    store { r with expected := r.expected + 1, payload := some length } pending line

/-! ## §4  A chunk arrives -/

/-- The bytes before the first `LF` and the bytes after it, if there is one. -/
def cutLine : List UInt8 → Option (List UInt8 × List UInt8)
  | [] => none
  | b :: rest =>
    if b = 0x0A then some ([], rest)
    else (cutLine rest).map fun (before, after) => (b :: before, after)

theorem cutLine_eq_some {chunk before after : List UInt8}
    (h : cutLine chunk = some (before, after)) : chunk = before ++ 0x0A :: after := by
  induction chunk generalizing before with
  | nil => simp [cutLine] at h
  | cons b rest ih =>
    by_cases hb : b = 0x0A
    · simp only [cutLine, hb, if_true, Option.some.injEq, Prod.mk.injEq] at h
      obtain ⟨rfl, rfl⟩ := h
      simp [hb]
    · simp only [cutLine, hb, if_false, Option.map_eq_some_iff, Prod.exists, Prod.mk.injEq] at h
      obtain ⟨_, _, h, rfl, rfl⟩ := h
      rw [ih h, List.cons_append]

theorem length_of_cutLine {chunk before after : List UInt8}
    (h : cutLine chunk = some (before, after)) : after.length < chunk.length := by
  rw [cutLine_eq_some h]
  simp only [List.length_append, List.length_cons]
  omega

/-- Read a chunk of the stream.  Inside a bulk string bytes are copied by number; elsewhere
the chunk is searched for the next `LF`, which ends a line only after a `CR`.  A bulk
string whose end was refused is refused again. -/
def feed (r : Reader) (pending : List Command) (chunk : List UInt8) : Progress :=
  if chunk.isEmpty then { reader := r, pending }
  else
    match r.payload with
    | some length =>
      let needed := length + 2 - r.partialLine.length
      let line := r.partialLine ++ chunk.take needed
      if line.length < length + 2 then { reader := { r with partialLine := line }, pending }
      else if _h : 0 < needed ∧ line.drop length = Frame.crlf then
        (addLine { r with partialLine := [], payload := none } pending
          (.payload (line.take length))).andThen fun r pending =>
            feed r pending (chunk.drop needed)
      else
        { reader := { r with partialLine := line }
          pending
          fault := some .invalidBulkTerminator }
    | none =>
      match _h : cutLine chunk with
      | none => { reader := { r with partialLine := r.partialLine ++ chunk }, pending }
      | some (before, after) =>
        let line := r.partialLine ++ before
        if line.getLast? = some 0x0D then
          (addLine { r with partialLine := [] } pending (.control line.dropLast)).andThen
            fun r pending => feed r pending after
        else feed { r with partialLine := line ++ [0x0A] } pending after
  termination_by chunk.length
  decreasing_by
    · cases chunk with
      | nil => contradiction
      | cons b rest =>
        simp only [List.length_drop, List.length_cons]
        omega
    · exact length_of_cutLine _h
    · exact length_of_cutLine _h

end Reader

end RespClient
