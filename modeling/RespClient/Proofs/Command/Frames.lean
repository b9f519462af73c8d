import RespClient.Command.Frame
import RespClient.Proofs.Text.Numeral

/-!
# Requests are unambiguous

A request frame tells its reader how many tokens follow and how long each of them is, so nothing
a token contains is ever looked at: `Frame.readRequest` finds the tokens again in front of any
other bytes. Commands sent in a row are therefore read one by one, and the bytes of one row begin
the bytes of another only if the commands do (`requests_unambiguous`).

- §1: a length in decimal, up to its line end.
- §2: a token, then tokens in a row, then requests in a row: in each case what is read is what was
  written, and the bytes after it are left.
- §3: commands. Their tokens are the wire name and the arguments, and text is told by its bytes.
-/

namespace RespClient.Frame

/-! ## §1  Lengths -/

/-- A digit as a byte of a header line. -/
theorem digit_byte {c : Char} (h : c.isDigit) :
    0x30 ≤ c.toNat.toUInt8 ∧ c.toNat.toUInt8 ≤ 0x39 ∧
      c.toNat.toUInt8.toNat - 0x30 = c.toNat - '0'.toNat := by
  have hrange := Char.isDigit_iff_toNat.mp h
  simp only [Char.reduceToNat] at hrange
  have hbyte : c.toNat.toUInt8.toNat = c.toNat := by
    rw [UInt8.toNat_ofNat']
    exact Nat.mod_eq_of_lt (by omega)
  refine ⟨?_, ?_, ?_⟩
  · rw [UInt8.le_iff_toNat_le, hbyte]
    exact hrange.1
  · rw [UInt8.le_iff_toNat_le, hbyte]
    exact hrange.2
  · rw [hbyte]
    rfl

theorem readNumberFrom_digit {b : UInt8} (hlow : 0x30 ≤ b) (hhigh : b ≤ 0x39) (value : Nat)
    (rest : List UInt8) :
    readNumberFrom value (b :: rest) = readNumberFrom (value * 10 + (b.toNat - 0x30)) rest := by
  rw [readNumberFrom, if_pos ⟨hlow, hhigh⟩]
  -- A digit is no `CR`, so the line does not end here.
  rintro tail rfl -
  exact absurd hlow (by decide)

theorem readNumberFrom_digits {cs : List Char} (h : ∀ c ∈ cs, c.isDigit) (value : Nat)
    (rest : List UInt8) :
    readNumberFrom value (cs.map (fun c => c.toNat.toUInt8) ++ crlf ++ rest) =
      some (Nat.ofDigitChars 10 cs value, rest) := by
  induction cs generalizing value with
  | nil => rfl
  | cons c tail ih =>
      obtain ⟨hlow, hhigh, hvalue⟩ := digit_byte (h c List.mem_cons_self)
      have htail : ∀ d ∈ tail, d.isDigit := fun d hd => h d (List.mem_cons_of_mem c hd)
      rw [List.map_cons, List.cons_append, List.cons_append, readNumberFrom_digit hlow hhigh,
        hvalue, Nat.ofDigitChars_cons, Nat.mul_comm 10 value]
      exact ih htail _

/-- **A header is read back**, whatever comes after its line. -/
theorem readHeader_header (marker : UInt8) (n : Nat) (rest : List UInt8) :
    readHeader marker (header marker n ++ rest) = some (n, rest) := by
  have hdigits : ∀ c ∈ Nat.toDigits 10 n, c.isDigit := fun c hc => Numeral.isDigit_of_mem hc
  have hread := readNumberFrom_digits hdigits 0 rest
  rw [Nat.ofDigitChars_ten_toDigits] at hread
  obtain ⟨c, cs, hcs⟩ := List.exists_cons_of_ne_nil (Nat.toDigits_ne_nil (b := 10) (n := n))
  obtain ⟨hlow, hhigh, -⟩ := digit_byte (hdigits c (by rw [hcs]; exact List.mem_cons_self))
  rw [hcs] at hread
  rw [header, Numeral.bytes, hcs, List.map_cons, List.cons_append, List.cons_append,
    List.cons_append, readHeader, if_pos ⟨rfl, hlow, hhigh⟩]
  exact hread

/-! ## §2  Requests -/

theorem readBulk_bulk (token rest : List UInt8) :
    readBulk (bulk token ++ rest) = some (token, rest) := by
  rw [bulk, List.append_assoc, List.append_assoc, readBulk, readHeader_header]
  simp only [List.drop_left, List.take_left, crlf, List.cons_append, List.nil_append]

theorem readBulks_flatMap (tokens : List (List UInt8)) (rest : List UInt8) :
    readBulks tokens.length (tokens.flatMap bulk ++ rest) = some (tokens, rest) := by
  induction tokens with
  | nil => rfl
  | cons token tokens ih =>
      rw [List.flatMap_cons, List.append_assoc, List.length_cons, readBulks, readBulk_bulk]
      dsimp only
      rw [ih]
      rfl

/-- **A request is read back**, whatever comes after it. -/
theorem readRequest_request (tokens : List (List UInt8)) (rest : List UInt8) :
    readRequest (request tokens ++ rest) = some (tokens, rest) := by
  rw [request, List.append_assoc, readRequest, readHeader_header]
  exact readBulks_flatMap tokens rest

theorem request_ne_nil (tokens : List (List UInt8)) : request tokens ≠ [] := List.cons_ne_nil _ _

theorem readRequests_flatMap (frames : List (List (List UInt8))) (rest : List UInt8) :
    readRequests frames.length (frames.flatMap request ++ rest) = some (frames, rest) := by
  induction frames with
  | nil => rfl
  | cons tokens frames ih =>
      rw [List.flatMap_cons, List.append_assoc, List.length_cons, readRequests,
        readRequest_request]
      dsimp only
      rw [ih]
      rfl

/-- No more requests are read than were written. -/
theorem le_length_of_readRequests {frames : List (List (List UInt8))} {k : Nat}
    {found : List (List (List UInt8)) × List UInt8}
    (h : readRequests k (frames.flatMap request) = some found) : k ≤ frames.length := by
  induction frames generalizing k found with
  | nil =>
      cases k with
      | zero => exact Nat.le_refl _
      | succ k => exact absurd h (by simp [readRequests, readRequest, readHeader])
  | cons tokens frames ih =>
      cases k with
      | zero => exact Nat.zero_le _
      | succ k =>
          rw [List.flatMap_cons, readRequests, readRequest_request] at h
          obtain ⟨rest, hrest, -⟩ := Option.map_eq_some_iff.mp h
          exact Nat.succ_le_succ (ih hrest)

/-- One row of requests begins another as bytes only where it does as requests. -/
theorem flatMap_request_isPrefix_iff {xs ys : List (List (List UInt8))} :
    xs.flatMap request <+: ys.flatMap request ↔ xs <+: ys := by
  induction xs generalizing ys with
  | nil => exact ⟨fun _ => List.nil_prefix, fun _ => List.nil_prefix⟩
  | cons x xs ih =>
      cases ys with
      | nil =>
          rw [List.flatMap_nil, List.prefix_nil, List.prefix_nil, List.flatMap_cons]
          simp [request_ne_nil]
      | cons y ys =>
          rw [List.flatMap_cons, List.flatMap_cons, List.cons_prefix_cons, ← ih]
          constructor
          · rintro ⟨rest, h⟩
            -- Both sides read as one request and what is left.
            have hread := readRequest_request x (xs.flatMap request ++ rest)
            rw [← List.append_assoc, h, readRequest_request] at hread
            obtain ⟨rfl, hrest⟩ := Prod.mk.inj (Option.some.inj hread)
            exact ⟨rfl, rest, hrest.symm⟩
          · rintro ⟨rfl, h⟩
            exact (List.prefix_append_right_inj _).mpr h

end RespClient.Frame

namespace RespClient

theorem Utf8.encode_injective : Function.Injective Utf8.encode := fun s t h => by
  rw [← Utf8.lossy_encode s, h, Utf8.lossy_encode]

namespace Command

/-! ## §3  Commands -/

theorem frames_eq_flatMap (commands : List Command) :
    frames commands = (commands.map tokens).flatMap Frame.request := by
  rw [List.flatMap_map]
  rfl

theorem frames_isPrefix_iff {cs ds : List Command} :
    frames cs <+: frames ds ↔ cs.map tokens <+: ds.map tokens := by
  rw [frames_eq_flatMap, frames_eq_flatMap]
  exact Frame.flatMap_request_isPrefix_iff

theorem tokens_inj {c d : Command} :
    c.tokens = d.tokens ↔ c.kind.wireName = d.kind.wireName ∧ c.args = d.args := by
  rw [tokens, tokens, List.cons.injEq, Utf8.encode_injective.eq_iff,
    List.map_inj_right fun _ _ h => Utf8.encode_injective h]

/-- **Requests are unambiguous.** A reader that goes by lengths alone finds in a row of commands,
in front of any other bytes, the tokens of each and leaves those bytes; the bytes of a row begin
those of another only where the commands do, so no frame begins another one; and tokens tell the
wire name and every argument. -/
theorem requests_unambiguous :
    (∀ (commands : List Command) (rest : List UInt8),
      Frame.readRequests commands.length (frames commands ++ rest) =
        some (commands.map tokens, rest)) ∧
    (∀ cs ds : List Command, frames cs <+: frames ds ↔ cs.map tokens <+: ds.map tokens) ∧
    (∀ c d : Command, c.frame <+: d.frame ↔ c.tokens = d.tokens) ∧
    ∀ c d : Command,
      c.tokens = d.tokens ↔ c.kind.wireName = d.kind.wireName ∧ c.args = d.args := by
  refine ⟨?_, ?_, ?_, ?_⟩
  · intro commands rest
    have hread := Frame.readRequests_flatMap (commands.map tokens) rest
    rwa [List.length_map, ← frames_eq_flatMap] at hread
  · intro cs ds
    exact frames_isPrefix_iff
  · intro c d
    have hone : ∀ e : Command, frames [e] = e.frame := fun e => List.flatMap_singleton ..
    rw [← hone c, ← hone d, frames_isPrefix_iff, List.map_singleton, List.map_singleton,
      List.cons_prefix_cons]
    exact and_iff_left List.nil_prefix
  · intro c d
    exact tokens_inj

/-- A line end and the header of another token inside an argument change nothing. -/
example :
    Frame.readRequests 1 (frames [{ kind := .echo, args := ["\r\n$4\r\nPING"] }]) =
      some ([[[0x45, 0x43, 0x48, 0x4F],
        [0x0D, 0x0A, 0x24, 0x34, 0x0D, 0x0A, 0x50, 0x49, 0x4E, 0x47]]], []) := by
  cbv

end Command

end RespClient
