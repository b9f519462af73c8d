import RespClient.Text.Blank
import RespClient.Text.Numeral
import RespClient.Proofs.Text.Utf8
import Mathlib.Algebra.Group.Nat.Defs

/-!
# Integers survive the wire

A 64-bit integer written in decimal is read back, with nothing to trim around it
(`int64?_trim_ofInt64`). Its bytes are digits and perhaps a sign, so no line end is among them.
-/

namespace RespClient.Numeral

/-! ## §1  Digits -/

theorem digit?_of_isDigit {c : Char} (h : c.isDigit) : digit? c = some (c.toNat - '0'.toNat) := by
  have hrange : '0' ≤ c ∧ c ≤ '9' := by
    simp only [Char.isDigit, Bool.and_eq_true, decide_eq_true_eq] at h
    exact h
  rw [digit?, if_pos hrange]

theorem digitsFrom_eq_ofDigitChars {cs : List Char} (h : ∀ c ∈ cs, c.isDigit) (value : Nat) :
    digitsFrom value cs = some (Nat.ofDigitChars 10 cs value) := by
  induction cs generalizing value with
  | nil => rw [digitsFrom, Nat.ofDigitChars_nil]
  | cons c rest ih =>
      have hdigit := digit?_of_isDigit (h c List.mem_cons_self)
      have hrest : ∀ d ∈ rest, d.isDigit := fun d hd => h d (List.mem_cons_of_mem c hd)
      rw [digitsFrom, hdigit, Nat.ofDigitChars_cons, Nat.mul_comm 10 value]
      exact ih hrest _

theorem isDigit_of_mem {n : Nat} {c : Char} (h : c ∈ Nat.toDigits 10 n) : c.isDigit :=
  Nat.isDigit_of_mem_toDigits (by decide) (by decide) h

theorem digits?_toDigits (n : Nat) : digits? (Nat.toDigits 10 n) = some n := by
  have hfrom : digitsFrom 0 (Nat.toDigits 10 n) = some n := by
    rw [digitsFrom_eq_ofDigitChars fun c hc => isDigit_of_mem hc, Nat.ofDigitChars_ten_toDigits]
  cases hcs : Nat.toDigits 10 n with
  | nil => exact absurd hcs Nat.toDigits_ne_nil
  | cons c rest =>
      rw [hcs] at hfrom
      rw [digits?]
      · exact hfrom
      · simp

/-! ## §2  Signed numerals -/

theorem signedChars?_of_digits {c : Char} {rest : List Char} (h : c.isDigit) :
    signedChars? (c :: rest) = (digits? (c :: rest)).map fun n => (n : Int) := by
  have hminus : c ≠ '-' := by
    rintro rfl
    exact absurd h (by decide)
  have hplus : c ≠ '+' := by
    rintro rfl
    exact absurd h (by decide)
  simp [signedChars?, unsignedChars?, hminus, hplus]

/-- The characters of an integer: digits, after a sign if it is negative. -/
theorem toList_ofInt64 (i : Int64) :
    (ofInt64 i).toList =
      if 0 ≤ i.toInt then Nat.toDigits 10 i.toInt.toNat
      else '-' :: Nat.toDigits 10 (-i.toInt).toNat := by
  rw [ofInt64, Int.toString_eq_repr, Int.repr_eq_if]
  split
  · rw [Nat.toList_repr]
  · rw [String.toList_append, Nat.toList_repr]
    rfl

theorem signedChars?_ofInt64 (i : Int64) : signedChars? (ofInt64 i).toList = some i.toInt := by
  rw [toList_ofInt64]
  split
  · next hpos =>
      obtain ⟨c, rest, hcs⟩ : ∃ c rest, Nat.toDigits 10 i.toInt.toNat = c :: rest :=
        List.exists_cons_of_ne_nil Nat.toDigits_ne_nil
      have hc : c.isDigit := isDigit_of_mem (by rw [hcs]; exact List.mem_cons_self)
      rw [hcs, signedChars?_of_digits hc, ← hcs, digits?_toDigits]
      show some ((i.toInt.toNat : Nat) : Int) = some i.toInt
      rw [Int.toNat_of_nonneg hpos]
  · next hneg =>
      rw [signedChars?, digits?_toDigits]
      show some (-((-i.toInt).toNat : Int)) = some i.toInt
      rw [Int.toNat_of_nonneg (by omega), Int.neg_neg]

/-- **An integer is read back as it was written.** -/
theorem int64?_ofInt64 (i : Int64) : int64? (ofInt64 i) = some i := by
  have hrange : -0x8000000000000000 ≤ i.toInt ∧ i.toInt < 0x8000000000000000 :=
    ⟨i.le_toInt, i.toInt_lt⟩
  rw [int64?, signedChars?_ofInt64]
  dsimp only
  rw [if_pos hrange, Int64.ofInt_toInt]

/-! ## §3  On the wire -/

theorem mem_ofInt64 {i : Int64} {c : Char} (h : c ∈ (ofInt64 i).toList) : c = '-' ∨ c.isDigit := by
  rw [toList_ofInt64] at h
  split at h
  · exact .inr (isDigit_of_mem h)
  · rcases List.mem_cons.mp h with rfl | h
    · exact .inl rfl
    · exact .inr (isDigit_of_mem h)

/-- A sign and digits lie between `-` and `9`. -/
theorem range_of_mem_ofInt64 {i : Int64} {c : Char} (h : c ∈ (ofInt64 i).toList) :
    0x2D ≤ c.toNat ∧ c.toNat ≤ 0x39 := by
  rcases mem_ofInt64 h with rfl | hdigit
  · decide
  · have hrange := Char.isDigit_iff_toNat.mp hdigit
    simp only [Char.reduceToNat] at hrange
    omega

theorem not_isBlank_of_range {c : Char} (h : 0x2D ≤ c.toNat ∧ c.toNat ≤ 0x39) :
    Blank.isBlank c = false := by
  simp only [Blank.isBlank, Blank.ranges, List.any_cons, List.any_nil, Bool.or_false,
    Bool.or_eq_false_iff, Bool.and_eq_false_iff, decide_eq_false_iff_not]
  omega

/-- There is nothing to trim. -/
theorem trim_ofInt64 (i : Int64) : Blank.trim (ofInt64 i) = ofInt64 i := by
  have hkeep : ∀ cs : List Char, (∀ c ∈ cs, c ∈ (ofInt64 i).toList) →
      cs.dropWhile Blank.isBlank = cs := by
    intro cs hcs
    cases cs with
    | nil => rfl
    | cons c rest =>
        have hc := not_isBlank_of_range (range_of_mem_ofInt64 (hcs c List.mem_cons_self))
        rw [List.dropWhile_cons_of_neg (by rw [hc]; exact Bool.false_ne_true)]
  rw [Blank.trim, Blank.trimChars, hkeep _ fun c hc => hc,
    hkeep _ fun c hc => List.mem_reverse.mp hc, List.reverse_reverse, String.ofList_toList]

theorem encode_ofInt64 (i : Int64) :
    Utf8.encode (ofInt64 i) = (ofInt64 i).toList.map fun c => c.toNat.toUInt8 := by
  apply Utf8.encode_of_ascii
  intro c hc
  have hrange := range_of_mem_ofInt64 hc
  omega

/-- The bytes of a number of at most 63 bits are those of the integer. -/
theorem bytes_eq_encode {n : Nat} (h : n < 2 ^ 63) :
    bytes n = Utf8.encode (ofInt64 (Int64.ofNat n)) := by
  rw [encode_ofInt64, toList_ofInt64, Int64.toInt_ofNat_of_lt h, if_pos (Int.natCast_nonneg n),
    Int.toNat_natCast, bytes]

/-- No line ends inside a numeral. -/
theorem cr_not_mem_encode_ofInt64 (i : Int64) : 0x0D ∉ Utf8.encode (ofInt64 i) := by
  rw [encode_ofInt64, List.mem_map]
  rintro ⟨c, hc, hcr⟩
  have hrange := range_of_mem_ofInt64 hc
  have hnat : c.toNat % 256 = 0x0D := congrArg UInt8.toNat hcr
  omega

end RespClient.Numeral
