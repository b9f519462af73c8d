import RespClient.Proofs.Reader.Waiting
import RespClient.Proofs.Reply.Value

/-!
# Values in turn

Commands of any kind, each with the value the server sends for it. After `MULTI` the server only
acknowledges, and the reader then takes the first line of whatever comes; otherwise it takes the
whole value, which has to be one that answers the command. `Suits` says that the values are such,
`answers` what the commands get, and `feed_turns` that they get it, with nothing left over.

Whether replies are acknowledgements hangs on the kinds alone: on which of `MULTI` and `EXEC` came
last (`multiAfterAll_eq_isRecording`).
-/

namespace RespClient

namespace Value

theorem bytesAll_append (xs ys : List Value) :
    bytesAll (xs ++ ys) = bytesAll xs ++ bytesAll ys := by
  induction xs with
  | nil => rfl
  | cons v rest ih => rw [List.cons_append, bytesAll, bytesAll, ih, List.append_assoc]

theorem bytesAll_prefix {xs ys : List Value} (h : xs <+: ys) : bytesAll xs <+: bytesAll ys := by
  obtain ⟨rest, rfl⟩ := h
  exact ⟨bytesAll rest, (bytesAll_append xs rest).symm⟩

/-! ## §1  Acknowledgements -/

/-- The text of the first line, behind its marker. -/
def headline : Value → String
  | .status text | .error text => text
  | .integer value => Numeral.ofInt64 value
  | .bulk content => Numeral.ofInt64 (Int64.ofNat content.length)
  | .nilBulk | .nilArray => Numeral.ofInt64 (-1)
  | .array elements => Numeral.ofInt64 (Int64.ofNat elements.length)

/-- The value as an acknowledgement: the text of its first line. -/
def acknowledgement : Value → Reply
  | .error text => .fail (.text text)
  | v => .success (.text v.headline)

/-- What a command gets for the value: an acknowledgement inside a transaction, else its reply. -/
def answer (inMulti : Bool) (v : Value) : Reply := if inMulti then v.acknowledgement else v.reply

theorem header_spelling (v : Value) : v.spelling.header = firstLine v.shape v.headline := by
  cases v with
  | array elements => cases elements <;> rfl
  | _ => rfl

theorem acknowledgement_spelling (v : Value) : v.spelling.acknowledgement = v.acknowledgement := by
  unfold Spelling.acknowledgement
  rw [header_spelling, text_firstLine]
  by_cases h : v.shape = .error
  · obtain ⟨text, rfl⟩ := eq_error_of_shape h
    rfl
  · have hmarker : (firstLine v.shape v.headline).head? ≠ some Shape.error.marker :=
      fun hm => h (Shape.marker_inj.mp (Option.some.inj hm))
    rw [if_neg hmarker]
    cases v with
    | error text => exact absurd rfl h
    | _ => rfl

/-- The answer read is the value sent, for every value that a command can get. -/
theorem answer_spelling {inMulti : Bool} {v : Value} {c : Command}
    (h : inMulti = false → v.Answers c) :
    v.spelling.answer inMulti c.kind = .ok (v.answer inMulti) := by
  cases inMulti with
  | true =>
      show Except.ok v.spelling.acknowledgement = _
      rw [acknowledgement_spelling]
      rfl
  | false => exact reply_spelling (h rfl)

end Value

/-! ## §2  Commands in turn -/

namespace Reader

open Value (bytesAll)

/-- The values can be sent, and each one that is no acknowledgement answers its command. -/
def Suits (inMulti : Bool) : List (Command × Value) → Prop
  | [] => True
  | (c, v) :: rest =>
    v.Sendable 0 ∧ (multiAfter inMulti c.kind = false → v.Answers c) ∧
      Suits (multiAfter inMulti c.kind) rest

/-- What the commands get. -/
def answers (inMulti : Bool) : List (Command × Value) → List Answer
  | [] => []
  | (c, v) :: rest =>
    ⟨c, v.answer (multiAfter inMulti c.kind)⟩ :: answers (multiAfter inMulti c.kind) rest

theorem suits_append {inMulti : Bool} {xs ys : List (Command × Value)} :
    Suits inMulti (xs ++ ys) ↔
      Suits inMulti xs ∧ Suits (multiAfterAll inMulti (xs.map Prod.fst)) ys := by
  induction xs generalizing inMulti with
  | nil => exact ⟨fun h => ⟨trivial, h⟩, fun h => h.2⟩
  | cons x rest ih =>
      obtain ⟨c, v⟩ := x
      rw [List.cons_append, Suits, Suits, ih, and_assoc, and_assoc]
      rfl

theorem answers_append (inMulti : Bool) (xs ys : List (Command × Value)) :
    answers inMulti (xs ++ ys) =
      answers inMulti xs ++ answers (multiAfterAll inMulti (xs.map Prod.fst)) ys := by
  induction xs generalizing inMulti with
  | nil => rfl
  | cons x rest ih =>
      rw [List.cons_append, answers, answers, ih]
      rfl

theorem command_answers (inMulti : Bool) (turns : List (Command × Value)) :
    (answers inMulti turns).map (·.command) = turns.map Prod.fst := by
  induction turns generalizing inMulti with
  | nil => rfl
  | cons x rest ih => rw [answers, List.map_cons, ih, List.map_cons]

variable {inMulti : Bool} {c : Command} {v : Value}

/-- **A value in front of any other bytes** answers the oldest command, and nothing is kept of
it but whether replies are acknowledgements from here on. -/
theorem feed_turn (hsend : v.Sendable 0) (hans : multiAfter inMulti c.kind = false → v.Answers c)
    (commands : List Command) (rest : List UInt8) :
    feed { inMulti } (c :: commands) (v.bytes ++ rest) =
      Progress.andThen
        { reader := { inMulti := multiAfter inMulti c.kind }
          pending := commands
          answered := [⟨c, v.answer (multiAfter inMulti c.kind)⟩] }
        fun r pending => feed r pending rest := by
  obtain ⟨shorter, hread⟩ := Value.readValue_bytes v 0 hsend rest
  have hvalid := Descent.valid_of_readValue hread
  rw [feed_of_readValue hread, finish_lines hvalid (Value.answer_spelling hans)]

/-- **Values in turn** answer the commands they were sent for. -/
theorem feed_turns {turns : List (Command × Value)} (h : Suits inMulti turns) :
    feed { inMulti } (turns.map Prod.fst) (bytesAll (turns.map Prod.snd)) =
      { reader := { inMulti := multiAfterAll inMulti (turns.map Prod.fst) }
        pending := []
        answered := answers inMulti turns } := by
  induction turns generalizing inMulti with
  | nil => exact feed_nil ..
  | cons x rest ih =>
      obtain ⟨c, v⟩ := x
      obtain ⟨hsend, hans, hrest⟩ := h
      rw [List.map_cons, List.map_cons, bytesAll, feed_turn hsend hans,
        Progress.andThen_of_ok rfl]
      dsimp only
      rw [ih hrest]
      rfl

/-- Commands that are waiting in the order of the turns read their part of the values. -/
theorem sound_of_turns {turns : List (Command × Value)} (h : Suits inMulti turns)
    {commands : List Command} (hcommands : commands <+: turns.map Prod.fst) :
    (feed { inMulti } commands
      (bytesAll ((turns.map Prod.snd).take commands.length))).fault = none := by
  have hfront : commands = (turns.take commands.length).map Prod.fst := by
    rw [List.map_take]
    exact List.prefix_iff_eq_take.mp hcommands
  rw [← List.take_append_drop commands.length turns] at h
  have hfeed := feed_turns (suits_append.mp h).1
  rw [← hfront, List.map_take] at hfeed
  rw [hfeed]

/-! ## §3  Commands that are neither `MULTI` nor `EXEC` -/

theorem multiAfterAll_of_ne {commands : List Command}
    (h : ∀ c ∈ commands, c.kind ≠ .multi ∧ c.kind ≠ .exec) :
    multiAfterAll inMulti commands = inMulti := by
  induction commands with
  | nil => rfl
  | cons c rest ih =>
      obtain ⟨hc, hrest⟩ := List.forall_mem_cons.mp h
      have hstep : multiAfterAll inMulti (c :: rest) =
          multiAfterAll (multiAfter inMulti c.kind) rest := rfl
      rw [hstep, multiAfter_of_ne hc.1 hc.2, ih hrest]

theorem suits_of_ne {turns : List (Command × Value)}
    (h : ∀ x ∈ turns, (x.1.kind ≠ .multi ∧ x.1.kind ≠ .exec) ∧
      (inMulti = false → x.2.Answers x.1) ∧ x.2.Sendable 0) : Suits inMulti turns := by
  induction turns with
  | nil => trivial
  | cons x rest ih =>
      obtain ⟨⟨hkind, hans, hsend⟩, hrest⟩ := List.forall_mem_cons.mp h
      rw [Suits, multiAfter_of_ne hkind.1 hkind.2]
      exact ⟨hsend, hans, ih hrest⟩

/-! ## §4  Which of `MULTI` and `EXEC` came last -/

/-- Does the last of the kinds that begin or execute a transaction begin one? -/
def isRecording (kinds : List Kind) : Bool :=
  kinds.reverse.find? (fun k => k = .multi ∨ k = .exec) = some .multi

theorem multiAfterAll_eq_isRecording (commands : List Command) :
    multiAfterAll false commands = isRecording (commands.map (·.kind)) := by
  induction commands using List.reverseRecOn with
  | nil => rfl
  | append_singleton front c ih =>
      rw [multiAfterAll_append, ih, isRecording, isRecording, List.map_append, List.map_singleton,
        List.reverse_append, List.reverse_singleton, List.singleton_append, List.find?_cons]
      show multiAfter _ c.kind = _
      by_cases hm : c.kind = .multi
      · simp [hm, multiAfter]
      · by_cases he : c.kind = .exec
        · simp [he, multiAfter]
        · rw [multiAfter_of_ne hm he]
          simp [hm, he]

end Reader

end RespClient
