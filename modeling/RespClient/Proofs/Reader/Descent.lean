import RespClient.Reader.Basic
import Mathlib.Data.List.Infix

/-!
# A plain reader of replies

The replies of a stream read by recursive descent: a line up to the first `CR LF`, then
whatever the line announces, an array element by element. The result is a *spelling*, the
tree of the lines a value is made of. Nothing is counted, kept or resumed here: the
reader has the whole stream before it and either comes to the end of a value, or finds
the stream short, or finds a fault.

This is what `Reader.feed` is compared with. The one thing the plain reader has to know
about lines being counted is how many values are outstanding when an array begins, since
an array that takes the count beyond its 64 bits is refused.
-/

namespace RespClient

/-! ## §1  Lines -/

/-- The bytes before the first `CR LF` and the bytes after it, if there is one. -/
def cutCrlf : List UInt8 → Option (List UInt8 × List UInt8)
  | 0x0D :: 0x0A :: rest => some ([], rest)
  | b :: rest => (cutCrlf rest).map fun (line, after) => (b :: line, after)
  | [] => none

theorem cutCrlf_cons {b : UInt8} {rest : List UInt8} (h : ¬ Frame.crlf <+: b :: rest) :
    cutCrlf (b :: rest) = (cutCrlf rest).map fun (line, after) => (b :: line, after) := by
  rw [cutCrlf]
  rintro tail rfl rfl
  exact h ⟨tail, rfl⟩

/-- The cut is at the first `CR LF`. -/
theorem cutCrlf_eq_some {bytes line rest : List UInt8} (h : cutCrlf bytes = some (line, rest)) :
    bytes = line ++ Frame.crlf ++ rest ∧ ¬ Frame.crlf <:+: line := by
  induction bytes generalizing line with
  | nil => simp [cutCrlf] at h
  | cons b tail ih =>
      by_cases hb : Frame.crlf <+: b :: tail
      · obtain ⟨after, hafter⟩ := hb
        obtain ⟨rfl, rfl⟩ := List.cons.inj hafter
        obtain ⟨rfl, rfl⟩ := Prod.mk.inj (Option.some.inj h)
        exact ⟨rfl, by simp [Frame.crlf]⟩
      · rw [cutCrlf_cons hb, Option.map_eq_some_iff] at h
        obtain ⟨⟨line', rest'⟩, hcut, heq⟩ := h
        obtain ⟨rfl, rfl⟩ := Prod.mk.inj heq
        obtain ⟨rfl, hline⟩ := ih hcut
        refine ⟨rfl, fun hin => ?_⟩
        rcases List.infix_cons_iff.mp hin with hpre | hin
        · exact hb (hpre.trans (by simp))
        · exact hline hin

theorem cutCrlf_eq_none {bytes : List UInt8} (h : cutCrlf bytes = none) :
    ¬ Frame.crlf <:+: bytes := by
  induction bytes with
  | nil => simp [Frame.crlf]
  | cons b tail ih =>
      intro hin
      by_cases hb : Frame.crlf <+: b :: tail
      · obtain ⟨after, hafter⟩ := hb
        obtain ⟨rfl, rfl⟩ := List.cons.inj hafter
        simp [cutCrlf] at h
      · rw [cutCrlf_cons hb, Option.map_eq_none_iff] at h
        rcases List.infix_cons_iff.mp hin with hpre | hin
        · exact hb hpre
        · exact ih h hin

/-- A line without `CR LF` is found again before one. -/
theorem cutCrlf_append {line : List UInt8} (h : ¬ Frame.crlf <:+: line) (rest : List UInt8) :
    cutCrlf (line ++ Frame.crlf ++ rest) = some (line, rest) := by
  induction line with
  | nil => rfl
  | cons b tail ih =>
      have hb : ¬ Frame.crlf <+: b :: (tail ++ Frame.crlf ++ rest) := by
        rintro ⟨after, hafter⟩
        obtain ⟨rfl, htail⟩ := List.cons.inj hafter
        -- The `LF` would have to be the first byte after this `CR`: in the line, or the
        -- `CR` of the line end.
        cases tail with
        | nil => exact absurd htail (by simp [Frame.crlf])
        | cons c tail =>
            obtain ⟨rfl, -⟩ := List.cons.inj htail
            exact h (List.IsPrefix.isInfix ⟨tail, rfl⟩)
      have htail : ¬ Frame.crlf <:+: tail := fun hin =>
        h (hin.trans (List.suffix_cons b tail).isInfix)
      rw [List.cons_append, List.cons_append, cutCrlf_cons hb, ih htail]
      rfl

theorem length_of_cutCrlf {bytes line rest : List UInt8} (h : cutCrlf bytes = some (line, rest)) :
    rest.length < bytes.length := by
  rw [(cutCrlf_eq_some h).1]
  simp only [List.length_append, Frame.crlf, List.length_cons]
  omega

/-! ## §2  Spellings -/

/-- A value as the stream spells it. -/
inductive Spelling
  /-- A line that is a value by itself: text, an integer, a null, an empty array. -/
  | line (header : List UInt8)
  /-- A line that announces a bulk string, and the string. -/
  | bulk (header content : List UInt8)
  /-- A line that announces an array, and the elements. -/
  | array (header : List UInt8) (elements : List Spelling)

namespace Spelling

/-- The first line. -/
def header : Spelling → List UInt8
  | .line header | .bulk header _ | .array header _ => header

@[simp] theorem header_line (h : List UInt8) : (line h).header = h := rfl
@[simp] theorem header_bulk (h content : List UInt8) : (bulk h content).header = h := rfl
@[simp] theorem header_array (h : List UInt8) (elements : List Spelling) :
    (array h elements).header = h := rfl

/-- The value of a line that is one by itself. -/
def lineData (header : List UInt8) : Except Fault Data :=
  match header.head?.bind Shape.ofMarker? with
  | some .array => (Line.control header).integer.map fun n => if n < 0 then .nil else .array []
  | some .bulk => .ok .nil
  | some .integer => (Line.control header).integer.map .integer
  | _ => .ok (.text (Line.control header).text)

mutual
/-- The value, or the first of its integers that is none. -/
def data : Spelling → Except Fault Data
  | .line header => lineData header
  | .bulk _ content => .ok (.text (Utf8.lossy content))
  | .array _ elements => (dataAll elements).map .array

/-- The values of all elements, or the first fault among them. -/
def dataAll : List Spelling → Except Fault (List Data)
  | [] => .ok []
  | v :: rest =>
    match data v with
    | .error fault => .error fault
    | .ok d => (dataAll rest).map (d :: ·)
end

/-- Is the value the null of a bulk, a line that announces no string? -/
def isNullBulk : Spelling → Bool
  | .line header => header.head? = some Shape.bulk.marker
  | .bulk .. | .array .. => false

/-- The value as the reply of a command: an error line and the null of a bulk answer every
command, all else has to have the command's shape. -/
def reply (kind : Kind) (v : Spelling) : Except Fault Reply :=
  match v.header.head? with
  | none => .error .emptyLine
  | some marker =>
    if marker = Shape.error.marker then .ok (.fail (.text (Line.control v.header).text))
    else if v.isNullBulk then .ok (.success .nil)
    else if marker = kind.shape.marker then v.data.map .success
    else .error (.mismatch kind marker)

/-- The value as an acknowledgement: only its first line counts. -/
def acknowledgement (v : Spelling) : Reply :=
  if v.header.head? = some Shape.error.marker then .fail (.text (Line.control v.header).text)
  else .success (.text (Line.control v.header).text)

/-- The answer to a command: an acknowledgement while a transaction is recorded, else its
reply. -/
def answer (inMulti : Bool) (kind : Kind) (v : Spelling) : Except Fault Reply :=
  if inMulti then .ok v.acknowledgement else v.reply kind

end Spelling

/-! ## §3  Values -/

/-- What reading from a stream of fewer than `size` bytes more comes to. -/
inductive Scan (α : Type) (size : Nat)
  /-- It is there, and these bytes are left. -/
  | done (value : α) (rest : List UInt8) (shorter : rest.length < size)
  /-- The stream ends first. -/
  | short
  /-- The stream cannot be read on. -/
  | fault (fault : Fault)

namespace Scan

/-- Another reading of what was found, from a longer stream. -/
def map {α β : Type} {m n : Nat} (f : α → β) (h : m ≤ n) : Scan α m → Scan β n
  | .done value rest shorter => .done (f value) rest (shorter.trans_le h)
  | .short => .short
  | .fault f => .fault f

end Scan

namespace Descent

/-- What has to follow a first line: nothing after most, the elements after the header of an
array that has some, the string after the header of a bulk that is there. -/
def announced : List UInt8 → Except Fault Line.Opening
  | [] => .error .emptyLine
  | marker :: text =>
    if marker = Shape.array.marker then
      (Line.control (marker :: text)).integer.map fun count =>
        if count ≤ 0 then .nothing else .elements count
    else if marker = Shape.bulk.marker then
      (Line.control (marker :: text)).integer.map fun length =>
        if length < 0 then .nothing else .payload length.toInt.toNat
    else .ok .nothing

/-- A first line, and what has to follow it. -/
def readFirst (bytes : List UInt8) : Scan (List UInt8 × Line.Opening) bytes.length :=
  match h : cutCrlf bytes with
  | none => .short
  | some (header, rest) =>
    match announced header with
    | .error f => .fault f
    | .ok opening => .done (header, opening) rest (length_of_cutCrlf h)

theorem cutCrlf_of_readFirst_short {bytes : List UInt8} (h : readFirst bytes = .short) :
    cutCrlf bytes = none := by
  unfold readFirst at h
  split at h
  · assumption
  · split at h <;> exact absurd h (by simp)

theorem cutCrlf_of_readFirst_fault {bytes : List UInt8} {f : Fault}
    (h : readFirst bytes = .fault f) :
    ∃ header rest, cutCrlf bytes = some (header, rest) ∧ announced header = .error f := by
  unfold readFirst at h
  split at h
  · exact absurd h (by simp)
  · next header rest hcut =>
      split at h
      · next f' hann =>
          obtain rfl : f' = f := by simpa using h
          exact ⟨header, rest, hcut, hann⟩
      · exact absurd h (by simp)

theorem cutCrlf_of_readFirst_done {bytes header rest : List UInt8} {opening : Line.Opening}
    {shorter : rest.length < bytes.length}
    (h : readFirst bytes = .done (header, opening) rest shorter) :
    cutCrlf bytes = some (header, rest) ∧ announced header = .ok opening := by
  unfold readFirst at h
  split at h
  · exact absurd h (by simp)
  · next header' rest' hcut =>
      split at h
      · exact absurd h (by simp)
      · next opening' hann =>
          obtain ⟨⟨rfl, rfl⟩, rfl⟩ : (header' = header ∧ opening' = opening) ∧ rest' = rest := by
            simpa using h
          exact ⟨hcut, hann⟩

/-- A first line in front of any bytes. -/
theorem readFirst_append {header : List UInt8} {opening : Line.Opening}
    (hno : ¬ Frame.crlf <:+: header) (hann : announced header = .ok opening) (rest : List UInt8) :
    ∃ shorter, readFirst (header ++ Frame.crlf ++ rest) = .done (header, opening) rest shorter := by
  have hcut := cutCrlf_append hno rest
  refine ⟨length_of_cutCrlf hcut, ?_⟩
  unfold readFirst
  split
  · next h => exact absurd (hcut.symm.trans h) (by simp)
  · next h =>
      obtain ⟨rfl, rfl⟩ := Prod.mk.inj (Option.some.inj (hcut.symm.trans h))
      split
      · next h => exact absurd (hann.symm.trans h) (by simp)
      · next h =>
          obtain rfl := Except.ok.inj (hann.symm.trans h)
          rfl

/-- Exactly `length` bytes and a line end. -/
def readContent (length : Nat) (bytes : List UInt8) : Scan (List UInt8) (bytes.length + 1) :=
  if bytes.length < length + 2 then .short
  else if (bytes.drop length).take 2 = Frame.crlf then
    .done (bytes.take length) (bytes.drop (length + 2)) (by
      rw [List.length_drop]
      omega)
  else .fault .invalidBulkTerminator

/-- A string and its end in front of any bytes. -/
theorem readContent_append (content rest : List UInt8) :
    ∃ shorter, readContent content.length (content ++ Frame.crlf ++ rest) =
      .done content rest shorter := by
  have hlen : ¬ (content ++ Frame.crlf ++ rest).length < content.length + 2 := by
    simp only [List.length_append, Frame.crlf, List.length_cons, List.length_nil]
    omega
  have hend : ((content ++ Frame.crlf ++ rest).drop content.length).take 2 = Frame.crlf := by
    rw [List.append_assoc, List.drop_left]
    rfl
  have htake : (content ++ Frame.crlf ++ rest).take content.length = content := by
    rw [List.append_assoc, List.take_left]
  have hdrop : (content ++ Frame.crlf ++ rest).drop (content.length + 2) = rest :=
    List.drop_left' (by simp [Frame.crlf])
  refine ⟨?_, ?_⟩
  · simp only [List.length_append]
    omega
  · rw [readContent, if_neg hlen]
    simp only [hend, if_true, htake, hdrop]

/-- `n` values in a row, each read by `read`, after which `outstanding` values are still to
come. -/
def readMany {size : Nat}
    (read : Nat → (bytes : List UInt8) → bytes.length < size → Scan Spelling bytes.length)
    (outstanding : Nat) :
    Nat → (bytes : List UInt8) → bytes.length < size → Scan (List Spelling) (bytes.length + 1)
  | 0, bytes, _ => .done [] bytes (Nat.lt_succ_self _)
  | n + 1, bytes, h =>
    match read (outstanding + n) bytes h with
    | .done v rest shorter =>
      (readMany read outstanding n rest (shorter.trans h)).map (v :: ·)
        (Nat.succ_le_succ shorter.le)
    | .short => .short
    | .fault f => .fault f

/-- One value, after which `outstanding` values are still to come. The elements of an array are
read in the same way, from what is left of the stream. -/
def readValue (outstanding : Nat) (bytes : List UInt8) : Scan Spelling bytes.length :=
  match readFirst bytes with
  | .short => .short
  | .fault f => .fault f
  | .done (header, .nothing) rest shorter => .done (.line header) rest shorter
  | .done (header, .payload length) rest shorter =>
    (readContent length rest).map (.bulk header) shorter
  | .done (header, .elements count) rest shorter =>
    if outstanding + count.toInt.toNat < Reader.countLimit then
      (readMany (fun outstanding bytes _ => readValue outstanding bytes) outstanding
        count.toInt.toNat rest shorter).map (.array header) shorter
    else .fault (.lineCountOverflow count)
  termination_by bytes.length

theorem readValue_nothing {outstanding : Nat} {bytes header rest : List UInt8}
    {shorter : rest.length < bytes.length}
    (h : readFirst bytes = .done (header, .nothing) rest shorter) :
    readValue outstanding bytes = .done (.line header) rest shorter := by
  rw [readValue, h]

theorem readValue_payload {outstanding length : Nat} {bytes header rest : List UInt8}
    {shorter : rest.length < bytes.length}
    (h : readFirst bytes = .done (header, .payload length) rest shorter) :
    readValue outstanding bytes = (readContent length rest).map (.bulk header) shorter := by
  rw [readValue, h]

theorem readValue_elements {outstanding : Nat} {count : Int64} {bytes header rest : List UInt8}
    {shorter : rest.length < bytes.length}
    (h : readFirst bytes = .done (header, .elements count) rest shorter)
    (hfits : outstanding + count.toInt.toNat < Reader.countLimit) :
    readValue outstanding bytes =
      (readMany (fun outstanding bytes _ => readValue outstanding bytes) outstanding
        count.toInt.toNat rest shorter).map (.array header) shorter := by
  rw [readValue, h]
  exact if_pos hfits

/-! ## §4  Replies -/

/-- What came of a stream. -/
structure Outcome where
  /-- The commands answered, in order. -/
  answered : List Answer := []
  /-- The commands not reached. -/
  pending : List Command
  /-- What stopped the reading. -/
  fault : Option Fault := none
  /-- Does the stream end between two values? -/
  between : Bool := false

/-- The same after one answer more at the beginning. -/
def Outcome.after (o : Outcome) (a : Answer) : Outcome := { o with answered := a :: o.answered }

/-- The replies of a stream: every value goes to the oldest command, as a mere
acknowledgement while a transaction is recorded. -/
def readReplies (inMulti : Bool) (pending : List Command) (bytes : List UInt8) : Outcome :=
  match readValue 0 bytes with
  | .short => { pending, between := bytes.isEmpty }
  | .fault fault => { pending, fault := some fault }
  | .done v rest _ =>
    match pending with
    | [] => { pending := [], fault := some .unexpectedReply }
    | c :: pending =>
      let inMulti := Reader.multiAfter inMulti c.kind
      match v.answer inMulti c.kind with
      | .ok reply => (readReplies inMulti pending rest).after ⟨c, reply⟩
      | .error fault =>
        { answered := [⟨c, .error fault.summary none⟩], pending, fault := some fault }
  termination_by bytes.length

end Descent

end RespClient
