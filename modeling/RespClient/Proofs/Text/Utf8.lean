import RespClient.Text.Utf8

/-!
# Text survives the wire

Whatever text is written as UTF-8 is read back: the machine of `Utf8.pieces` finds the characters
of an encoded text one after the other, with nothing broken between them. The induction is over
the characters; `piecesFrom_char` is its step, by the length of the character's encoding.
-/

namespace RespClient.Utf8

/-! ## §1  One byte -/

/-- A byte below `80` is a character. -/
theorem piecesFrom_single {b : UInt8} (h : b.toNat < 0x80) (rest : List UInt8) :
    piecesFrom none (b :: rest) = .char (Char.ofNat b.toNat) :: piecesFrom none rest := by
  have hfirst : first b = .inl (.char (Char.ofNat b.toNat)) := by
    simp only [first, UInt8.lt_iff_toNat_lt, UInt8.reduceToNat, h, if_true]
  simp only [piecesFrom, step, start, hfirst]
  rfl

theorem piecesFrom_of_first {b : UInt8} {lead : Lead} (h : first b = .inr lead)
    (rest : List UInt8) : piecesFrom none (b :: rest) = piecesFrom (some lead) rest := by
  simp only [piecesFrom, step, start, h]
  rfl

/-- The lead of a character of two bytes. -/
theorem first_two {b : UInt8} (hlo : 0xC2 ≤ b.toNat) (hhi : b.toNat < 0xE0) :
    first b = .inr ⟨1, 0x80, 0xBF, b.toNat - 0xC0, 1⟩ := by
  have h1 : ¬ b.toNat < 0x80 := by omega
  have h2 : ¬ b.toNat < 0xC2 := by omega
  simp only [first, UInt8.lt_iff_toNat_lt, UInt8.reduceToNat, h1, h2, hhi, if_true, if_false]

/-- The lead of a character of three bytes. -/
theorem first_three {b : UInt8} (hlo : 0xE0 ≤ b.toNat) (hhi : b.toNat < 0xF0) :
    first b = .inr ⟨2, if b.toNat = 0xE0 then 0xA0 else 0x80,
      if b.toNat = 0xED then 0x9F else 0xBF, b.toNat - 0xE0, 1⟩ := by
  have h1 : ¬ b.toNat < 0x80 := by omega
  have h2 : ¬ b.toNat < 0xC2 := by omega
  have h3 : ¬ b.toNat < 0xE0 := by omega
  simp only [first, UInt8.lt_iff_toNat_lt, ← UInt8.toNat_inj, UInt8.reduceToNat, h1, h2, h3, hhi,
    if_true, if_false]

/-- The lead of a character of four bytes. -/
theorem first_four {b : UInt8} (hlo : 0xF0 ≤ b.toNat) (hhi : b.toNat < 0xF5) :
    first b = .inr ⟨3, if b.toNat = 0xF0 then 0x90 else 0x80,
      if b.toNat = 0xF4 then 0x8F else 0xBF, b.toNat - 0xF0, 1⟩ := by
  have h1 : ¬ b.toNat < 0x80 := by omega
  have h2 : ¬ b.toNat < 0xC2 := by omega
  have h3 : ¬ b.toNat < 0xE0 := by omega
  have h4 : ¬ b.toNat < 0xF0 := by omega
  simp only [first, UInt8.lt_iff_toNat_lt, ← UInt8.toNat_inj, UInt8.reduceToNat, h1, h2, h3, h4,
    hhi, if_true, if_false]

/-- A byte in the range that is not the last. -/
theorem piecesFrom_more {lead : Lead} {b : UInt8} (hlo : lead.low.toNat ≤ b.toNat)
    (hhi : b.toNat ≤ lead.high.toNat) (howed : 1 < lead.owed) (rest : List UInt8) :
    piecesFrom (some lead) (b :: rest) =
      piecesFrom
        (some ⟨lead.owed - 1, 0x80, 0xBF, lead.bits * 64 + (b.toNat - 0x80), lead.seen + 1⟩)
        rest := by
  have hin : lead.low ≤ b ∧ b ≤ lead.high :=
    ⟨UInt8.le_iff_toNat_le.mpr hlo, UInt8.le_iff_toNat_le.mpr hhi⟩
  have hmore : ¬ lead.owed ≤ 1 := Nat.not_le.mpr howed
  simp only [piecesFrom, step, hin, hmore, and_self, if_true, if_false]
  rfl

/-- The last byte, in the range. -/
theorem piecesFrom_last {lead : Lead} {b : UInt8} (hlo : lead.low.toNat ≤ b.toNat)
    (hhi : b.toNat ≤ lead.high.toNat) (howed : lead.owed = 1) (rest : List UInt8) :
    piecesFrom (some lead) (b :: rest) =
      .char (Char.ofNat (lead.bits * 64 + (b.toNat - 0x80))) :: piecesFrom none rest := by
  have hin : lead.low ≤ b ∧ b ≤ lead.high :=
    ⟨UInt8.le_iff_toNat_le.mpr hlo, UInt8.le_iff_toNat_le.mpr hhi⟩
  simp only [piecesFrom, step, hin, howed, and_self, Nat.le_refl, if_true]
  rfl

/-! ## §2  One character -/

/-- A byte of the encoding, as a number. -/
theorem toNat_byte {n : Nat} (h : n < 256) : (UInt8.ofNat n).toNat = n := by
  rw [UInt8.toNat_ofNat']
  exact Nat.mod_eq_of_lt h

/-- **An encoded character is found.** -/
theorem piecesFrom_char (c : Char) (rest : List UInt8) :
    piecesFrom none (String.utf8EncodeChar c ++ rest) = .char c :: piecesFrom none rest := by
  have hchar : ∀ n, n = c.val.toNat → Char.ofNat n = c := by
    rintro n rfl
    exact Char.ofNat_toNat c
  have hvalid : c.val.toNat < 0xD800 ∨ 0xDFFF < c.val.toNat ∧ c.val.toNat < 0x110000 := c.valid
  unfold String.utf8EncodeChar
  dsimp only
  generalize c.val.toNat = v at hchar hvalid
  -- A continuation byte holds six bits.
  have htail : ∀ m : Nat, (UInt8.ofNat (m % 0x40 + 0x80)).toNat = m % 64 + 0x80 := fun m =>
    toNat_byte (by omega)
  have htail_low : ∀ m : Nat, (0x80 : UInt8).toNat ≤ (UInt8.ofNat (m % 0x40 + 0x80)).toNat := by
    intro m
    rw [htail]
    exact Nat.le_add_left 0x80 (m % 64)
  have htail_high : ∀ m : Nat, (UInt8.ofNat (m % 0x40 + 0x80)).toNat ≤ (0xBF : UInt8).toNat := by
    intro m
    rw [htail]
    show m % 64 + 0x80 ≤ 0xBF
    omega
  split
  · next h1 =>
      have hb : (UInt8.ofNat v).toNat = v := toNat_byte (by omega)
      rw [List.singleton_append, piecesFrom_single (by omega), hb, hchar v rfl]
  split
  · next h1 h2 =>
      have hb : (UInt8.ofNat (v / 64 % 0x20 + 0xc0)).toNat = v / 64 + 0xC0 := by
        rw [toNat_byte (by omega)]
        omega
      rw [List.cons_append, piecesFrom_of_first (first_two (by omega) (by omega)),
        List.singleton_append, piecesFrom_last (htail_low _) (htail_high _) rfl,
        hchar _ (by rw [hb, htail]; simp; omega)]
  split
  · next h1 h2 h3 =>
      have hb : (UInt8.ofNat (v / 4096 % 0x10 + 0xe0)).toNat = v / 4096 + 0xE0 := by
        rw [toNat_byte (by omega)]
        omega
      -- After `E0` and `ED` the second byte has a narrower range.
      have hlow : (if v / 4096 + 0xE0 = 0xE0 then (0xA0 : UInt8) else 0x80).toNat ≤
          v / 64 % 64 + 0x80 := by
        split <;> simp only [UInt8.reduceToNat] <;> omega
      have hhigh : v / 64 % 64 + 0x80 ≤
          (if v / 4096 + 0xE0 = 0xED then (0x9F : UInt8) else 0xBF).toNat := by
        split <;> simp only [UInt8.reduceToNat] <;> omega
      rw [List.cons_append, piecesFrom_of_first (first_three (by omega) (by omega)),
        List.cons_append, piecesFrom_more (by rw [hb, htail]; exact hlow)
          (by rw [hb, htail]; exact hhigh) (by simp),
        List.singleton_append, piecesFrom_last (htail_low _) (htail_high _) rfl,
        hchar _ (by rw [hb, htail, htail]; simp only; omega)]
  · next h1 h2 h3 =>
      have hb : (UInt8.ofNat (v / 262144 % 0x08 + 0xf0)).toNat = v / 262144 + 0xF0 := by
        rw [toNat_byte (by omega)]
        omega
      -- So it has after `F0` and `F4`.
      have hlow : (if v / 262144 + 0xF0 = 0xF0 then (0x90 : UInt8) else 0x80).toNat ≤
          v / 4096 % 64 + 0x80 := by
        split <;> simp only [UInt8.reduceToNat] <;> omega
      have hhigh : v / 4096 % 64 + 0x80 ≤
          (if v / 262144 + 0xF0 = 0xF4 then (0x8F : UInt8) else 0xBF).toNat := by
        split <;> simp only [UInt8.reduceToNat] <;> omega
      rw [List.cons_append, piecesFrom_of_first (first_four (by omega) (by omega)),
        List.cons_append, piecesFrom_more (by rw [hb, htail]; exact hlow)
          (by rw [hb, htail]; exact hhigh) (by simp),
        List.cons_append, piecesFrom_more (htail_low _) (htail_high _) (by simp),
        List.singleton_append, piecesFrom_last (htail_low _) (htail_high _) rfl,
        hchar _ (by rw [hb, htail, htail, htail]; simp only; omega)]

/-! ## §3  A text -/

theorem encode_eq_flatMap (text : String) :
    encode text = text.toList.flatMap String.utf8EncodeChar := by
  rw [encode, String.toUTF8_eq_toByteArray, ← String.utf8Encode_toList, List.utf8Encode,
    List.toList_data_toByteArray]

/-- The pieces of an encoded text are its characters. -/
theorem pieces_encode (text : String) : pieces (encode text) = text.toList.map .char := by
  rw [pieces, encode_eq_flatMap]
  induction text.toList with
  | nil => rfl
  | cons c rest ih => rw [List.flatMap_cons, piecesFrom_char, ih, List.map_cons]

/-- **A text is read back as it was written.** -/
theorem lossy_encode (text : String) : lossy (encode text) = text := by
  have hshown : Piece.shown ∘ Piece.char = id := rfl
  rw [lossy, pieces_encode, List.map_map, hshown, List.map_id, String.ofList_toList]

/-- ASCII text is encoded byte by byte. -/
theorem encode_of_ascii {text : String} (h : ∀ c ∈ text.toList, c.toNat < 0x80) :
    encode text = text.toList.map fun c => c.toNat.toUInt8 := by
  rw [encode_eq_flatMap]
  generalize text.toList = cs at h
  induction cs with
  | nil => rfl
  | cons c rest ih =>
      have hc : c.val.toNat ≤ 0x7f := Nat.le_of_lt_succ (h c List.mem_cons_self)
      have hone : String.utf8EncodeChar c = [c.toNat.toUInt8] := by
        unfold String.utf8EncodeChar
        dsimp only
        rw [if_pos hc]
        rfl
      rw [List.flatMap_cons, hone, ih fun d hd => h d (List.mem_cons_of_mem c hd), List.map_cons]
      rfl

end RespClient.Utf8
