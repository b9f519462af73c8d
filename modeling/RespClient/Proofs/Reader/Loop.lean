import RespClient.Proofs.Reader.Refinement

/-!
# The loop with its operations checked

`Reader.feed` counts without a limit and takes parts of lists as if they were always there. A
program counts in words of 64 bits, and stops for good where a sum does not fit into one, where a
difference would be negative, or where a slice reaches beyond the end. Here the loop is written turn
by turn with each such operation checked (`turn?`, `loop?`): there is no result where one of them
fails. What hands a complete reply on is a parameter, so that it may have checks of its own.

From a state whose numbers are bounded (`Bounded`) a turn succeeds, takes at least one byte or ends
in a fault, and is a step of `feed` (`turn?_eq`). If such states are kept, the loop needs no more
turns than there are bytes and comes to what `feed` comes to (`loop?_eq`).
-/

namespace RespClient.Reader

/-! ## §1  Operations that may fail -/

/-- The sum, if it fits into a word. -/
def sum? (a b : Nat) : Option Nat := if a + b < countLimit then some (a + b) else none

/-- The difference, if it is not negative. -/
def difference? (a b : Nat) : Option Nat := if b ≤ a then some (a - b) else none

/-- The bytes before a place, if it is not beyond the end. -/
def before? (bytes : List UInt8) (place : Nat) : Option (List UInt8) :=
  if place ≤ bytes.length then some (bytes.take place) else none

/-- The bytes from a place on, if it is not beyond the end. -/
def after? (bytes : List UInt8) (place : Nat) : Option (List UInt8) :=
  if place ≤ bytes.length then some (bytes.drop place) else none

theorem sum?_eq {a b : Nat} (h : a + b < countLimit) : sum? a b = some (a + b) := if_pos h

theorem difference?_eq {a b : Nat} (h : b ≤ a) : difference? a b = some (a - b) := if_pos h

theorem before?_eq {bytes : List UInt8} {place : Nat} (h : place ≤ bytes.length) :
    before? bytes place = some (bytes.take place) := if_pos h

theorem after?_eq {bytes : List UInt8} {place : Nat} (h : place ≤ bytes.length) :
    after? bytes place = some (bytes.drop place) := if_pos h

/-! ## §2  Turns -/

section

variable (finish? : Reader → List Command → Option Progress)

/-- A line more, and the reply is handed on if no further line is needed. -/
def store? (r : Reader) (pending : List Command) (line : Line) : Option Progress :=
  let r := { r with completed := r.completed ++ [line] }
  if r.expected = 0 then finish? r pending else some { reader := r, pending }

/-- A line has arrived. The sum for the elements of an array is one that the program itself checks:
where it does not fit, that is a fault of the stream. -/
def addLine? (r : Reader) (pending : List Command) (line : Line) : Option Progress :=
  let r := { r with expected := r.expected - 1 }
  match line.opening with
  | .error fault => some { reader := r, pending, fault := some fault }
  | .ok .nothing => store? finish? r pending line
  | .ok (.elements count) =>
    match sum? r.expected count.toInt.toNat with
    | some expected => store? finish? { r with expected } pending line
    | none => some { reader := r, pending, fault := some (.lineCountOverflow count) }
  | .ok (.payload length) =>
    match sum? r.expected 1 with
    | some expected => store? finish? { r with expected, payload := some length } pending line
    | none => none

/-- One turn of the loop over a chunk: what it comes to, and the bytes it leaves. -/
def turn? (r : Reader) (pending : List Command) (chunk : List UInt8) :
    Option (Progress × List UInt8) :=
  match r.payload with
  | some length => do
    let size ← sum? length 2
    let needed ← difference? size r.partialLine.length
    let taken := min needed chunk.length
    let line := r.partialLine ++ (← before? chunk taken)
    let rest ← after? chunk taken
    if line.length = size then
      if line.drop length = Frame.crlf then
        let p ← addLine? finish? { r with partialLine := [], payload := none } pending
          (.payload (line.take length))
        return (p, rest)
      else
        return ({ reader := { r with partialLine := line }
                  pending
                  fault := some .invalidBulkTerminator }, rest)
    else return ({ reader := { r with partialLine := line }, pending }, rest)
  | none =>
    match chunk.findIdx? (· = 0x0A) with
    | none => return ({ reader := { r with partialLine := r.partialLine ++ chunk }, pending }, [])
    | some place => do
      let line := r.partialLine ++ (← before? chunk place)
      let rest ← after? chunk (place + 1)
      if line.getLast? = some 0x0D then
        let length ← difference? line.length 1
        let p ← addLine? finish? { r with partialLine := [] } pending (.control (line.take length))
        return (p, rest)
      else return ({ reader := { r with partialLine := line ++ [0x0A] }, pending }, rest)

/-- The loop over a chunk, for at most so many turns. -/
def loop? : Nat → Reader → List Command → List UInt8 → Option Progress
  | 0, r, pending, chunk => if chunk.isEmpty then some { reader := r, pending } else none
  | turns + 1, r, pending, chunk =>
    if chunk.isEmpty then some { reader := r, pending }
    else do
      let (p, rest) ← turn? finish? r pending chunk
      match p.fault with
      | some _ => return p
      | none =>
        let q ← loop? turns p.reader p.pending rest
        return { q with answered := p.answered ++ q.answered }

end

/-! ## §3  A turn is a step of `feed` -/

/-- The numbers of a reader are bounded: the count is a word, the length of a bulk string is one
with room for the line end, and no more bytes are kept than the string and its end have. A string
whose end was refused is kept too, and does not end in a line end. -/
structure Bounded (r : Reader) : Prop where
  count : r.expected < countLimit
  length : ∀ n, r.payload = some n → n + 2 < countLimit
  room : ∀ n, r.payload = some n → r.partialLine.length ≤ n + 2
  refused : ∀ n, r.payload = some n → r.partialLine.drop n ≠ Frame.crlf

/-- The lines that can arrive next, whole. -/
def Expects (r : Reader) : Line → Prop
  | .control _ => r.payload = none
  | .payload content => r.payload = some content.length

/-- The reader once the next line has completed a reply. -/
def completedBy (r : Reader) (line : Line) : Reader :=
  { r with partialLine := [], payload := none, expected := 0, completed := r.completed ++ [line] }

/-- Handing on succeeds, should the next line be the last one of a reply. -/
def HandsOn (finish? : Reader → List Command → Option Progress) (r : Reader) : Prop :=
  ∀ line pending, r.Expects line → line.opening = .ok .nothing → r.expected ≤ 1 →
    finish? (r.completedBy line) pending = some (finish (r.completedBy line) pending)

variable {finish? : Reader → List Command → Option Progress} {r : Reader} {pending : List Command}
  {chunk : List UInt8}

theorem one_lt_countLimit : 1 < countLimit := by decide

theorem addLine?_eq (hb : r.Bounded) (hh : HandsOn finish? r) {line : Line}
    (he : r.Expects line) (pending : List Command) :
    addLine? finish? { r with partialLine := [], payload := none } pending line =
      some (addLine { r with partialLine := [], payload := none } pending line) := by
  have hcount := hb.count
  have hone := one_lt_countLimit
  cases ho : line.opening with
  | error fault => simp only [addLine?, addLine, ho]
  | ok opening =>
      cases opening with
      | nothing =>
          simp only [addLine?, addLine, ho, store?, store]
          split
          · next hlast =>
              have hready := hh line pending he ho (Nat.le_of_sub_eq_zero hlast)
              simpa only [completedBy, hlast] using hready
          · rfl
      | elements count =>
          -- Some element is missing, so nothing is handed on.
          have hpos : r.expected - 1 + count.toInt.toNat ≠ 0 := fun h0 =>
            announced_count_ne_zero (pos_of_opening_elements ho)
              (Nat.eq_zero_of_add_eq_zero_left h0)
          simp only [addLine?, addLine, ho, sum?, store?, store, hpos, if_false]
          by_cases hfits : r.expected - 1 + count.toInt.toNat < countLimit
          · simp only [hfits, hpos, if_true, if_false]
          · simp only [hfits, if_false]
      | payload length =>
          have hfits : r.expected - 1 + 1 < countLimit := by omega
          simp only [addLine?, ho, addLine_payload ho, sum?_eq hfits, store?, Nat.succ_ne_zero,
            if_false]

theorem findIdx?_eq_cutLine (chunk : List UInt8) :
    chunk.findIdx? (· = 0x0A) = (cutLine chunk).map (·.1.length) := by
  induction chunk with
  | nil => rfl
  | cons b rest ih =>
      by_cases hb : b = 0x0A
      · simp [List.findIdx?_cons, cutLine, hb]
      · simp [List.findIdx?_cons, cutLine, hb, ih, Function.comp_def]

/-- What a turn comes to: a step of `feed` that takes some of the bytes, or a fault. -/
structure Turned (r : Reader) (pending : List Command) (chunk : List UInt8) (p : Progress)
    (rest : List UInt8) : Prop where
  step : feed r pending chunk = p.andThen fun r pending => feed r pending rest
  taken : p.fault = none → ∃ taken, taken ≠ [] ∧ chunk = taken ++ rest ∧ p = feed r pending taken

theorem Turned.of_feed (r : Reader) (pending : List Command) {taken : List UInt8} (hne : taken ≠ [])
    (rest : List UInt8) :
    Turned r pending (taken ++ rest) (feed r pending taken) rest :=
  ⟨feed_append r pending taken rest, fun _ => ⟨taken, hne, rfl, rfl⟩⟩

theorem Turned.of_all (hne : chunk ≠ []) : Turned r pending chunk (feed r pending chunk) [] := by
  have h := Turned.of_feed r pending hne []
  rwa [List.append_nil] at h

/-- A turn inside a bulk string that does not end in the chunk takes all of it. -/
theorem turn?_short {length : Nat} (hp : r.payload = some length) (hb : r.Bounded)
    (hs : r.partialLine.length + chunk.length < length + 2) (pending : List Command) :
    turn? finish? r pending chunk = some (feed r pending chunk, []) := by
  have htaken : min (length + 2 - r.partialLine.length) chunk.length = chunk.length := by omega
  have hshort : (r.partialLine ++ chunk).length ≠ length + 2 := by
    rw [List.length_append]
    omega
  simp only [turn?, hp, sum?_eq (hb.length length hp), difference?_eq (hb.room length hp),
    Option.bind_eq_bind, Option.bind_some, htaken, before?_eq (Nat.le_refl _),
    after?_eq (Nat.le_refl _), List.take_length, List.drop_length, hshort, if_false,
    feed_payload_short hp hs]
  rfl

/-- A turn inside a bulk string that ends in the chunk takes the bytes up to its end. -/
theorem turn?_full {length : Nat} (hp : r.payload = some length) (hb : r.Bounded)
    (hh : HandsOn finish? r) (hlt : r.partialLine.length < length + 2)
    (hs : length + 2 ≤ r.partialLine.length + chunk.length) (pending : List Command) :
    turn? finish? r pending chunk =
      some (feed r pending (chunk.take (length + 2 - r.partialLine.length)),
        chunk.drop (length + 2 - r.partialLine.length)) := by
  have htaken : min (length + 2 - r.partialLine.length) chunk.length =
      length + 2 - r.partialLine.length := by omega
  have hplace : length + 2 - r.partialLine.length ≤ chunk.length := by omega
  have hlen : (r.partialLine ++ chunk.take (length + 2 - r.partialLine.length)).length =
      length + 2 := by
    rw [List.length_append, List.length_take]
    omega
  have hpart : length + 2 ≤ r.partialLine.length +
      (chunk.take (length + 2 - r.partialLine.length)).length := by
    rw [← List.length_append, hlen]
  rw [feed_payload_full hp hlt hpart]
  simp only [turn?, hp, sum?_eq (hb.length length hp), difference?_eq (hb.room length hp),
    Option.bind_eq_bind, Option.bind_some, htaken, before?_eq hplace, after?_eq hplace, hlen,
    if_true, List.take_take, Nat.min_self]
  generalize hline : r.partialLine ++ chunk.take (length + 2 - r.partialLine.length) = line
    at hlen ⊢
  split
  · have hexpects : r.Expects (.payload (line.take length)) := by
      rw [Expects, hp, List.length_take, hlen]
      simp
    rw [addLine?_eq hb hh hexpects]
    simp [Progress.andThen_stay]
  · rfl

/-- A turn after a bulk string whose end was refused takes nothing and ends in the same fault. -/
theorem turn?_refused {length : Nat} (hp : r.payload = some length) (hb : r.Bounded)
    (hge : length + 2 ≤ r.partialLine.length) (hne : chunk ≠ []) (pending : List Command) :
    turn? finish? r pending chunk = some (feed r pending chunk, chunk) := by
  rw [feed_payload_refused hp hge hne]
  have hroom := hb.room length hp
  have hend := hb.refused length hp
  have hsize := sum?_eq (hb.length length hp)
  obtain ⟨line, completed, expected, payload, inMulti⟩ := r
  obtain rfl : payload = some length := hp
  have hneeded : difference? (length + 2) (length + 2) = some 0 := by
    rw [difference?_eq (Nat.le_refl _), Nat.sub_self]
  simp only [turn?, hsize, Nat.le_antisymm hroom hge, hneeded, Option.bind_eq_bind,
    Option.bind_some, Nat.zero_min, before?_eq (Nat.zero_le _), after?_eq (Nat.zero_le _),
    List.take_zero, List.drop_zero, List.append_nil, if_true, hend, if_false]
  rfl

/-- A turn outside bulk strings without a line end takes all of the chunk. -/
theorem turn?_text (hp : r.payload = none) (hcut : cutLine chunk = none) (pending : List Command) :
    turn? finish? r pending chunk = some (feed r pending chunk, []) := by
  rw [feed_control_none hp hcut]
  simp only [turn?, hp, findIdx?_eq_cutLine, hcut, Option.map_none]
  rfl

/-- The cut is at the first `LF`, whatever comes after it. -/
theorem cutLine_same {before rest : List UInt8} (h : cutLine chunk = some (before, rest))
    (tail : List UInt8) : cutLine (before ++ 0x0A :: tail) = some (before, tail) := by
  induction chunk generalizing before with
  | nil => simp [cutLine] at h
  | cons b chunk ih =>
      by_cases hb : b = 0x0A
      · simp only [cutLine, hb, if_true, Option.some.injEq, Prod.mk.injEq] at h
        obtain ⟨rfl, -⟩ := h
        rfl
      · simp only [cutLine, hb, if_false, Option.map_eq_some_iff, Prod.exists, Prod.mk.injEq] at h
        obtain ⟨before, rest, hcut, rfl, rfl⟩ := h
        simp [cutLine, hb, ih hcut]

/-- A turn outside bulk strings takes the bytes up to the first `LF`. -/
theorem turn?_line {before rest : List UInt8} (hp : r.payload = none) (hb : r.Bounded)
    (hh : HandsOn finish? r) (hcut : cutLine chunk = some (before, rest)) (pending : List Command) :
    turn? finish? r pending chunk = some (feed r pending (before ++ [0x0A]), rest) := by
  have hchunk := cutLine_eq_some hcut
  have hplace : before.length ≤ chunk.length := by
    rw [hchunk, List.length_append]
    omega
  have hafter : before.length + 1 ≤ chunk.length := by
    rw [hchunk, List.length_append, List.length_cons]
    omega
  have htake : chunk.take before.length = before := by rw [hchunk, List.take_left]
  have hdrop : chunk.drop (before.length + 1) = rest := by
    rw [hchunk, ← List.drop_drop, List.drop_left, List.drop_succ_cons, List.drop_zero]
  rw [feed_control_some hp (cutLine_same hcut [])]
  simp only [turn?, hp, findIdx?_eq_cutLine, hcut, Option.map_some, before?_eq hplace,
    after?_eq hafter, htake, hdrop, Option.bind_eq_bind, Option.bind_some, feed_nil,
    Progress.andThen_stay]
  split
  · next hcr =>
      obtain ⟨line, hline⟩ := List.getLast?_eq_some_iff.mp hcr
      have hlen : 1 ≤ (r.partialLine ++ before).length := by simp [hline]
      have hexpects : r.Expects (.control (r.partialLine ++ before).dropLast) := hp
      have hadd := addLine?_eq hb hh hexpects pending
      rw [difference?_eq hlen, Option.bind_some, ← List.dropLast_eq_take]
      rw [hadd]
      rfl
  · rfl

/-- **A turn succeeds** and is a step of `feed`: it takes at least one byte or ends in a fault. -/
theorem turn?_eq (hb : r.Bounded) (hh : HandsOn finish? r) (hne : chunk ≠ [])
    (pending : List Command) :
    ∃ p rest, turn? finish? r pending chunk = some (p, rest) ∧ Turned r pending chunk p rest := by
  cases hp : r.payload with
  | none =>
      cases hcut : cutLine chunk with
      | none => exact ⟨_, _, turn?_text hp hcut pending, .of_all hne⟩
      | some cut =>
          obtain ⟨before, rest⟩ := cut
          refine ⟨_, _, turn?_line hp hb hh hcut pending, ?_⟩
          have h : Turned r pending (before ++ [0x0A] ++ rest) _ rest :=
            .of_feed r pending (by simp) rest
          rwa [List.append_assoc, List.singleton_append, ← cutLine_eq_some hcut] at h
  | some length =>
      rcases Nat.lt_or_ge r.partialLine.length (length + 2) with hlt | hge
      · rcases Nat.lt_or_ge (r.partialLine.length + chunk.length) (length + 2) with hs | hs
        · exact ⟨_, _, turn?_short hp hb hs pending, .of_all hne⟩
        · refine ⟨_, _, turn?_full hp hb hh hlt hs pending, ?_⟩
          have hneeded : chunk.take (length + 2 - r.partialLine.length) ≠ [] := by
            simp only [ne_eq, List.take_eq_nil_iff, hne, or_false]
            omega
          have h := Turned.of_feed r pending hneeded
            (chunk.drop (length + 2 - r.partialLine.length))
          rwa [List.take_append_drop] at h
      · refine ⟨_, _, turn?_refused hp hb hge hne pending, ?_, ?_⟩
        all_goals rw [feed_payload_refused hp hge hne]
        · rfl
        · intro hok
          exact absurd hok (by simp)

/-! ## §4  The loop -/

theorem loop?_nil (turns : Nat) (r : Reader) (pending : List Command) :
    loop? finish? turns r pending [] = some { reader := r, pending } := by
  cases turns <;> rfl

/-- **The loop ends** after at most as many turns as there are bytes, and comes to what `feed` comes
to, from every state with a property that bounds its numbers, lets replies be handed on, and is kept
by what is read without a fault. -/
theorem loop?_eq {I : Reader → Prop} (bounded : ∀ r, I r → r.Bounded)
    (handsOn : ∀ r, I r → HandsOn finish? r)
    (keeps : ∀ r pending chunk, I r → (feed r pending chunk).fault = none →
      I (feed r pending chunk).reader)
    {turns : Nat} (h : I r) (hturns : chunk.length ≤ turns) (pending : List Command) :
    loop? finish? turns r pending chunk = some (feed r pending chunk) := by
  induction turns generalizing r pending chunk with
  | zero =>
      obtain rfl : chunk = [] := List.eq_nil_of_length_eq_zero (Nat.le_zero.mp hturns)
      rw [loop?_nil, feed_nil]
  | succ turns ih =>
      by_cases hne : chunk = []
      · rw [hne, loop?_nil, feed_nil]
      · obtain ⟨p, rest, hturn, hturned⟩ := turn?_eq (bounded r h) (handsOn r h) hne pending
        have hempty : chunk.isEmpty = false := by simpa using hne
        simp only [loop?, hempty, Bool.false_eq_true, if_false, hturn, Option.bind_eq_bind,
          Option.bind_some]
        rw [hturned.step]
        cases hf : p.fault with
        | some fault =>
            rw [Progress.andThen_of_fault hf]
            rfl
        | none =>
            obtain ⟨taken, htaken, rfl, rfl⟩ := hturned.taken hf
            have hrest : rest.length ≤ turns := by
              have := List.length_pos_of_ne_nil htaken
              rw [List.length_append] at hturns
              omega
            have ih := ih (keeps r pending taken h hf) hrest (feed r pending taken).pending
            simp only [ih, Option.bind_some, Progress.andThen_of_ok hf]
            rfl

end RespClient.Reader
