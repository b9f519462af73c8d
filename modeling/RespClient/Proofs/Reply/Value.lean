import RespClient.Proofs.Reader.Refinement
import RespClient.Proofs.Text.Numeral

/-!
# Values on the wire

What a server sends, as the values it means: status and error lines, integers, bulk strings, the
two nulls, and arrays of any of these. The plain reader finds an encoded value in front of any
other bytes (`readValue_bytes`) and the value of what it finds is the one that was sent
(`reply_spelling`).

- §1: values and their bytes.
- §2: first lines.
- §3: reading, by induction on the value with the outstanding values as a parameter.
- §4: the value read is the value sent.
-/

namespace RespClient

open Descent (announced readFirst readContent readMany readValue)

/-- A value a server can send. -/
inductive Value
  | status (text : String)
  | error (text : String)
  | integer (value : Int64)
  /-- A bulk string, of any bytes. -/
  | bulk (content : List UInt8)
  | nilBulk
  | nilArray
  | array (elements : List Value)

namespace Value

/-! ## §1  Values and their bytes -/

/-- A first line without its end. -/
def firstLine (shape : Shape) (text : String) : List UInt8 := shape.marker :: Utf8.encode text

mutual
/-- The bytes that encode the value. -/
def bytes : Value → List UInt8
  | .status text => firstLine .status text ++ Frame.crlf
  | .error text => firstLine .error text ++ Frame.crlf
  | .integer value => firstLine .integer (Numeral.ofInt64 value) ++ Frame.crlf
  | .bulk content => Frame.bulk content
  | .nilBulk => firstLine .bulk "-1" ++ Frame.crlf
  | .nilArray => firstLine .array "-1" ++ Frame.crlf
  | .array elements => Frame.header Shape.array.marker elements.length ++ bytesAll elements

/-- The bytes of values in a row. -/
def bytesAll : List Value → List UInt8
  | [] => []
  | v :: rest => bytes v ++ bytesAll rest
end

/-- The shape the first line shows. -/
def shape : Value → Shape
  | .status _ => .status
  | .error _ => .error
  | .integer _ => .integer
  | .bulk _ | .nilBulk => .bulk
  | .nilArray | .array _ => .array

mutual
/-- The value as a caller sees it: inside an array an error line is a text like any other. -/
def data : Value → Data
  | .status text | .error text => .text text
  | .integer value => .integer value
  | .bulk content => .text (Utf8.lossy content)
  | .nilBulk | .nilArray => .nil
  | .array elements => .array (dataAll elements)

/-- The values of a row. -/
def dataAll : List Value → List Data
  | [] => []
  | v :: rest => data v :: dataAll rest
end

/-- The reply the value is to a command. -/
def reply : Value → Reply
  | .error text => .fail (.text text)
  | v => .success v.data

/-- The command takes the value for its reply: it has the command's shape, or is an error or the
null of a bulk, which answer every command. -/
def Answers (v : Value) (c : Command) : Prop :=
  v.shape = c.kind.shape ∨ v.shape = .error ∨ v = .nilBulk

mutual
/-- Can the value be sent, when `outstanding` values are still to come after it? Texts hold no
line end, lengths are 64-bit integers, and the values outstanding within the largest array are
counted in 64 bits. -/
def Sendable (outstanding : Nat) : Value → Prop
  | .status text | .error text => ¬ Frame.crlf <:+: Utf8.encode text
  | .integer _ | .nilBulk | .nilArray => True
  | .bulk content => content.length < 2 ^ 63
  | .array elements =>
      elements.length < 2 ^ 63 ∧ outstanding + elements.length < Reader.countLimit ∧
        SendableAll outstanding elements

/-- The same of values in a row. -/
def SendableAll (outstanding : Nat) : List Value → Prop
  | [] => True
  | v :: rest => Sendable (outstanding + rest.length) v ∧ SendableAll outstanding rest
end

/-- A text without a line end is one line. -/
theorem sendable_status {text : String} (h : ¬ Frame.crlf <:+: Utf8.encode text)
    (outstanding : Nat) : (status text).Sendable outstanding := by
  unfold Sendable
  exact h

mutual
/-- What the plain reader makes of the bytes. -/
def spelling : Value → Spelling
  | .status text => .line (firstLine .status text)
  | .error text => .line (firstLine .error text)
  | .integer value => .line (firstLine .integer (Numeral.ofInt64 value))
  | .bulk content =>
      .bulk (firstLine .bulk (Numeral.ofInt64 (Int64.ofNat content.length))) content
  | .nilBulk => .line (firstLine .bulk (Numeral.ofInt64 (-1)))
  | .nilArray => .line (firstLine .array (Numeral.ofInt64 (-1)))
  | .array [] => .line (firstLine .array (Numeral.ofInt64 0))
  | .array (v :: rest) =>
      .array (firstLine .array (Numeral.ofInt64 (Int64.ofNat (rest.length + 1))))
        (spelling v :: spellingAll rest)

/-- The spellings of a row. -/
def spellingAll : List Value → List Spelling
  | [] => []
  | v :: rest => spelling v :: spellingAll rest
end

/-! ## §2  First lines -/

theorem toNat_toInt_ofNat {n : Nat} (h : n < 2 ^ 63) : (Int64.ofNat n).toInt.toNat = n := by
  rw [Int64.toInt_ofNat_of_lt h, Int.toNat_natCast]

theorem zero_le_ofNat {n : Nat} (h : n < 2 ^ 63) : 0 ≤ Int64.ofNat n := by
  rw [Int64.le_iff_toInt_le, Int64.toInt_ofNat_of_lt h]
  exact Int.natCast_nonneg n

theorem zero_lt_ofNat {n : Nat} (hpos : 0 < n) (h : n < 2 ^ 63) : 0 < Int64.ofNat n := by
  rw [Int64.lt_iff_toInt_lt, Int64.toInt_ofNat_of_lt h]
  exact Int.natCast_pos.mpr hpos

theorem text_firstLine (shape : Shape) (text : String) :
    (Line.control (firstLine shape text)).text = text := Utf8.lossy_encode text

theorem integer_firstLine (shape : Shape) (i : Int64) :
    (Line.control (firstLine shape (Numeral.ofInt64 i))).integer = .ok i := by
  rw [Line.integer, text_firstLine, Numeral.trim_ofInt64, Numeral.int64?_ofInt64]

/-- A marker is no part of a line end. -/
theorem no_crlf_firstLine {shape : Shape} {text : String}
    (h : ¬ Frame.crlf <:+: Utf8.encode text) : ¬ Frame.crlf <:+: firstLine shape text := by
  intro hin
  rcases List.infix_cons_iff.mp hin with ⟨rest, hpre⟩ | hin
  · have hmarker : shape.marker = 0x0D := (List.cons.inj hpre).1.symm
    cases shape <;> exact absurd hmarker (by decide)
  · exact h hin

theorem no_crlf_numeral (shape : Shape) (i : Int64) :
    ¬ Frame.crlf <:+: firstLine shape (Numeral.ofInt64 i) := by
  apply no_crlf_firstLine
  intro hin
  exact Numeral.cr_not_mem_encode_ofInt64 i (hin.subset List.mem_cons_self)

/-- The header of a length or a number of elements is a first line. -/
theorem header_eq_firstLine (shape : Shape) {n : Nat} (h : n < 2 ^ 63) :
    Frame.header shape.marker n =
      firstLine shape (Numeral.ofInt64 (Int64.ofNat n)) ++ Frame.crlf := by
  rw [Frame.header, Numeral.bytes_eq_encode h, firstLine, List.cons_append]

theorem announced_text {shape : Shape} (ha : shape ≠ .array) (hb : shape ≠ .bulk) (text : String) :
    announced (firstLine shape text) = .ok .nothing := by
  cases shape with
  | array => exact absurd rfl ha
  | bulk => exact absurd rfl hb
  | status => rfl
  | error => rfl
  | integer => rfl

theorem announced_array (i : Int64) :
    announced (firstLine .array (Numeral.ofInt64 i)) =
      .ok (if i ≤ 0 then .nothing else .elements i) := by
  have hi := integer_firstLine .array i
  unfold firstLine at hi ⊢
  rw [announced, if_pos rfl, hi]
  rfl

theorem announced_bulk (i : Int64) :
    announced (firstLine .bulk (Numeral.ofInt64 i)) =
      .ok (if i < 0 then .nothing else .payload i.toInt.toNat) := by
  have hi := integer_firstLine .bulk i
  unfold firstLine at hi ⊢
  rw [announced, if_neg (by decide), if_pos rfl, hi]
  rfl

/-! ## §3  Reading -/

/-- A line that is a value by itself. -/
theorem readValue_line {header : List UInt8} (hno : ¬ Frame.crlf <:+: header)
    (hann : announced header = .ok .nothing) (outstanding : Nat) (rest : List UInt8) :
    ∃ shorter, readValue outstanding (header ++ Frame.crlf ++ rest) =
      .done (.line header) rest shorter := by
  obtain ⟨shorter, hfirst⟩ := Descent.readFirst_append hno hann rest
  exact ⟨shorter, Descent.readValue_nothing hfirst⟩

mutual
/-- **An encoded value is found** in front of any other bytes. -/
theorem readValue_bytes : ∀ (v : Value) (outstanding : Nat), v.Sendable outstanding →
    ∀ rest : List UInt8, ∃ shorter,
      readValue outstanding (v.bytes ++ rest) = .done v.spelling rest shorter
  | .status text, outstanding, h, rest => by
      rw [Sendable] at h
      exact readValue_line (no_crlf_firstLine h) (announced_text (by decide) (by decide) text) _
        rest
  | .error text, outstanding, h, rest => by
      rw [Sendable] at h
      exact readValue_line (no_crlf_firstLine h) (announced_text (by decide) (by decide) text) _
        rest
  | .integer value, outstanding, _, rest =>
      readValue_line (no_crlf_numeral .integer value)
        (announced_text (by decide) (by decide) _) _ rest
  | .nilBulk, outstanding, _, rest =>
      readValue_line (no_crlf_numeral .bulk (-1)) (announced_bulk (-1)) _ rest
  | .nilArray, outstanding, _, rest =>
      readValue_line (no_crlf_numeral .array (-1)) (announced_array (-1)) _ rest
  | .array [], outstanding, _, rest => by
      have hheader := header_eq_firstLine .array (n := 0) (by decide)
      rw [bytes, bytesAll, List.append_nil, List.length_nil, hheader]
      exact readValue_line (no_crlf_numeral .array 0) (announced_array 0) _ rest
  | .bulk content, outstanding, h, rest => by
      rw [Sendable] at h
      have hann := announced_bulk (Int64.ofNat content.length)
      rw [if_neg (Int64.not_lt.mpr (zero_le_ofNat h)), toNat_toInt_ofNat h] at hann
      have hbytes : (Value.bulk content).bytes ++ rest =
          firstLine .bulk (Numeral.ofInt64 (Int64.ofNat content.length)) ++ Frame.crlf ++
            (content ++ Frame.crlf ++ rest) := by
        rw [bytes, Frame.bulk, header_eq_firstLine .bulk h]
        simp only [List.append_assoc]
      rw [hbytes]
      obtain ⟨hafter, hfirst⟩ := Descent.readFirst_append (no_crlf_numeral .bulk _) hann
        (content ++ Frame.crlf ++ rest)
      obtain ⟨hrest, hcontent⟩ := Descent.readContent_append content rest
      refine ⟨hrest.trans_le hafter, ?_⟩
      rw [Descent.readValue_payload hfirst, hcontent]
      rfl
  | .array (v :: vs), outstanding, h, rest => by
      rw [Sendable] at h
      obtain ⟨hlen, hcount, hall⟩ := h
      have hann := announced_array (Int64.ofNat (vs.length + 1))
      rw [if_neg (Int64.not_le.mpr (zero_lt_ofNat (Nat.succ_pos _) hlen))] at hann
      have hbytes : (Value.array (v :: vs)).bytes ++ rest =
          firstLine .array (Numeral.ofInt64 (Int64.ofNat (vs.length + 1))) ++ Frame.crlf ++
            (bytesAll (v :: vs) ++ rest) := by
        rw [bytes, header_eq_firstLine .array hlen]
        simp only [List.append_assoc, List.length_cons]
      rw [hbytes]
      obtain ⟨hafter, hfirst⟩ := Descent.readFirst_append (no_crlf_numeral .array _) hann
        (bytesAll (v :: vs) ++ rest)
      obtain ⟨hrest, hmany⟩ := readMany_bytesAll (v :: vs) outstanding hall _ rest hafter
      have htoNat : (Int64.ofNat (vs.length + 1)).toInt.toNat = (v :: vs).length :=
        toNat_toInt_ofNat hlen
      refine ⟨hrest.trans_le hafter, ?_⟩
      rw [Descent.readValue_elements hfirst (by rw [htoNat]; exact hcount), htoNat, hmany]
      rfl

/-- Encoded values in a row are found one after the other. -/
theorem readMany_bytesAll : ∀ (vs : List Value) (outstanding : Nat),
    SendableAll outstanding vs → ∀ (size : Nat) (rest : List UInt8)
      (h : (bytesAll vs ++ rest).length < size), ∃ shorter,
        readMany (fun outstanding bytes _ => readValue outstanding bytes) outstanding vs.length
          (bytesAll vs ++ rest) h = .done (spellingAll vs) rest shorter
  | [], outstanding, _, size, rest, h => ⟨_, rfl⟩
  | v :: vs, outstanding, hsend, size, rest, h => by
      rw [SendableAll] at hsend
      have hbytes : bytesAll (v :: vs) ++ rest = v.bytes ++ (bytesAll vs ++ rest) := by
        rw [bytesAll, List.append_assoc]
      revert h
      rw [hbytes]
      intro h
      obtain ⟨hafter, hv⟩ := readValue_bytes v (outstanding + vs.length) hsend.1
        (bytesAll vs ++ rest)
      obtain ⟨hrest, hvs⟩ := readMany_bytesAll vs outstanding hsend.2 size rest (hafter.trans h)
      refine ⟨hrest.trans (Nat.succ_lt_succ hafter), ?_⟩
      rw [List.length_cons, readMany, hv]
      dsimp only
      rw [hvs]
      rfl
end

/-! ## §4  The value read is the value sent -/

/-- A null array and an empty one are single lines. -/
theorem lineData_array (i : Int64) :
    Spelling.lineData (firstLine .array (Numeral.ofInt64 i)) =
      .ok (if i < 0 then .nil else .array []) := by
  have hi := integer_firstLine .array i
  unfold firstLine at hi ⊢
  rw [Spelling.lineData, List.head?_cons, Option.bind_some, Shape.ofMarker?_marker]
  dsimp only
  rw [hi]
  rfl

mutual
/-- **The value read is the value sent.** -/
theorem data_spelling : ∀ v : Value, v.spelling.data = .ok v.data
  | .status text => by
      show Except.ok (Data.text (Line.control (firstLine .status text)).text) = _
      rw [text_firstLine, data]
  | .error text => by
      show Except.ok (Data.text (Line.control (firstLine .error text)).text) = _
      rw [text_firstLine, data]
  | .integer value => by
      show (Line.control (firstLine .integer (Numeral.ofInt64 value))).integer.map Data.integer = _
      rw [integer_firstLine, data]
      rfl
  | .bulk content => rfl
  | .nilBulk => rfl
  | .nilArray => lineData_array (-1)
  | .array [] => lineData_array 0
  | .array (v :: vs) => by
      have hall := dataAll_spellingAll (v :: vs)
      rw [spellingAll] at hall
      rw [spelling, Spelling.data, hall, data]
      rfl

theorem dataAll_spellingAll : ∀ vs : List Value,
    Spelling.dataAll (spellingAll vs) = .ok (dataAll vs)
  | [] => rfl
  | v :: vs => by
      rw [spellingAll, Spelling.dataAll, data_spelling v]
      dsimp only
      rw [dataAll_spellingAll vs, dataAll]
      rfl
end

theorem head?_header (v : Value) : v.spelling.header.head? = some v.shape.marker := by
  cases v with
  | array elements => cases elements <;> rfl
  | _ => rfl

theorem isNullBulk_of_ne {v : Value} (h : v ≠ .nilBulk) : v.spelling.isNullBulk = false := by
  cases v with
  | nilBulk => exact absurd rfl h
  | array elements => cases elements <;> rfl
  | _ => rfl

theorem eq_error_of_shape {v : Value} (h : v.shape = .error) : ∃ text, v = .error text := by
  cases v with
  | error text => exact ⟨text, rfl⟩
  | _ => exact absurd h (by simp [shape])

theorem reply_of_shape_ne {v : Value} (h : v.shape ≠ .error) : v.reply = .success v.data := by
  cases v with
  | error text => exact absurd rfl h
  | _ => rfl

/-- **The reply read is the value sent**, for every command it answers. -/
theorem reply_spelling {v : Value} {c : Command} (h : v.Answers c) :
    v.spelling.reply c.kind = .ok v.reply := by
  unfold Spelling.reply
  rw [head?_header]
  dsimp only
  by_cases herror : v.shape = .error
  · obtain ⟨text, rfl⟩ := eq_error_of_shape herror
    rw [herror, if_pos rfl]
    show Except.ok (Reply.fail (.text (Line.control (firstLine .error text)).text)) = _
    rw [text_firstLine, reply]
  · have hmarker : v.shape.marker ≠ Shape.error.marker := fun hm => herror (Shape.marker_inj.mp hm)
    rw [if_neg hmarker]
    by_cases hnull : v = .nilBulk
    · rw [hnull]
      rfl
    · -- What is neither an error nor the null of a bulk has the command's shape.
      have hshape : v.shape = c.kind.shape := by
        rcases h with hshape | hshape | hshape
        · exact hshape
        · exact absurd hshape herror
        · exact absurd hshape hnull
      rw [isNullBulk_of_ne hnull, if_neg Bool.false_ne_true, if_pos (Shape.marker_inj.mpr hshape),
        data_spelling, reply_of_shape_ne herror]
      rfl

end Value

end RespClient
