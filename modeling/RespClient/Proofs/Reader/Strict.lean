import RespClient.Proofs.Reader.Unfinished

/-!
# Nothing is made up

Decoding never gives up for want of a line: where an element or the content of a bulk string is
missing it puts a null, where a reply has no line it says so in the reply, and lines that a reply
does not need are dropped. The strict decoder has none of these ways out (`strictLines`,
`strictReply?`, `strictFinish?`): there is no result where it would take one.

On the lines of a value the two agree (`strictReply?_lines`), and while there is no fault only
the lines of a value are ever decoded (`Kept.handsOn`). So the reader could as well decode strictly,
and counts exactly the lines that the value under way still lacks (`reads_strictly`).

- §1: the strict decoder.
- §2: on the lines of a value it is the decoder.
- §3: the reader.
-/

namespace RespClient

open Descent (announced)
open Spelling (linesAll ValidAll)

/-! ## §1  The strict decoder -/

/-- The value of lines, if each line is what it has to be: a header with its marker, or after the
header of a bulk string its content. -/
def strictLines : List OpenArray → List Line → Option (Decoded Data)
  | _, [] => none
  | stack, line :: rest =>
    let complete (value : Data) : Option (Decoded Data) :=
      match OpenArray.plug value stack with
      | .inl whole => some ⟨.ok whole, rest⟩
      | .inr stack => strictLines stack rest
    match line.marker? with
    | none => none
    | some marker =>
      match Shape.ofMarker? marker with
      | some .array =>
        match line.integer with
        | .error fault => some ⟨.error fault, rest⟩
        | .ok count =>
          if count < 0 then complete .nil
          else match count.toInt.toNat with
            | 0 => complete (.array [])
            | missing + 1 => strictLines (⟨missing, []⟩ :: stack) rest
      | some .bulk =>
        match rest with
        | .payload content :: after =>
          match line.integer with
          | .error fault => some ⟨.error fault, .payload content :: after⟩
          | .ok length =>
            if length < 0 then complete .nil
            else
              match OpenArray.plug (.text (Utf8.lossy content)) stack with
              | .inl whole => some ⟨.ok whole, after⟩
              | .inr stack => strictLines stack after
        | _ =>
          match line.integer with
          | .error fault => some ⟨.error fault, rest⟩
          | .ok length => if length < 0 then complete .nil else none
      | some .integer =>
        match line.integer with
        | .error fault => some ⟨.error fault, rest⟩
        | .ok i => complete (.integer i)
      | _ => complete (.text line.text)

/-- The reply of a command, if its lines are there. -/
def strictReply? (kind : Kind) (lines : List Line) : Option (Decoded Reply) :=
  match lines with
  | [] => none
  | line :: rest =>
    match line.marker? with
    | none => none
    | some marker =>
      let byShape : Option (Decoded Reply) :=
        if marker = kind.shape.marker then (strictLines [] (line :: rest)).map (·.map .success)
        else some ⟨.error (.mismatch kind marker), rest⟩
      if marker = Shape.error.marker then some ⟨.ok (.fail (.text line.text)), rest⟩
      else if marker = Shape.bulk.marker then
        match line.integer with
        | .error fault => some ⟨.error fault, rest⟩
        | .ok length => if length < 0 then some ⟨.ok (.success .nil), rest⟩ else byShape
      else byShape

/-- A complete reply is handed on, if no line of it is missing and it leaves none. -/
def Reader.strictFinish? (r : Reader) (pending : List Command) : Option Progress :=
  match pending with
  | [] => some { reader := r, pending := [], fault := some .unexpectedReply }
  | c :: pending =>
    let inMulti := multiAfter r.inMulti c.kind
    if inMulti then
      if r.completed = [] then none
      else some
        { reader := { r with completed := [], inMulti }
          pending
          answered := [⟨c, acknowledgement c.kind r.completed⟩] }
    else
      match strictReply? c.kind r.completed with
      | some ⟨.ok reply, []⟩ => some
        { reader := { r with completed := [], inMulti }, pending, answered := [⟨c, reply⟩] }
      | some ⟨.error fault, rest⟩ => some
        { reader := { r with completed := rest, inMulti }
          pending
          answered := [⟨c, .error fault.summary none⟩]
          fault := some fault }
      | _ => none

/-! ## §2  On the lines of a value -/

/-- Strict decoding goes on after a complete value. -/
def strictResume (value : Data) (stack : List OpenArray) (rest : List Line) :
    Option (Decoded Data) :=
  match OpenArray.plug value stack with
  | .inl whole => some ⟨.ok whole, rest⟩
  | .inr stack => strictLines stack rest

/-- After any value both decoders come to the same. -/
def Alike (stack : List OpenArray) (rest : List Line) : Prop :=
  ∀ value, strictResume value stack rest = some (resume value stack rest)

/-- What strict decoding does with a line. -/
theorem strictLines_cons (stack : List OpenArray) (line : Line) (rest : List Line) :
    strictLines stack (line :: rest) =
      match line.marker? with
      | none => none
      | some marker =>
        match Shape.ofMarker? marker with
        | some .array =>
          match line.integer with
          | .error fault => some ⟨.error fault, rest⟩
          | .ok count =>
            if count < 0 then strictResume .nil stack rest
            else match count.toInt.toNat with
              | 0 => strictResume (.array []) stack rest
              | missing + 1 => strictLines (⟨missing, []⟩ :: stack) rest
        | some .bulk =>
          match rest with
          | .payload content :: after =>
            match line.integer with
            | .error fault => some ⟨.error fault, .payload content :: after⟩
            | .ok length =>
              if length < 0 then strictResume .nil stack rest
              else strictResume (.text (Utf8.lossy content)) stack after
          | _ =>
            match line.integer with
            | .error fault => some ⟨.error fault, rest⟩
            | .ok length => if length < 0 then strictResume .nil stack rest else none
        | some .integer =>
          match line.integer with
          | .error fault => some ⟨.error fault, rest⟩
          | .ok i => strictResume (.integer i) stack rest
        | _ => strictResume (.text line.text) stack rest := by
  conv => lhs; rw [strictLines.eq_def]
  dsimp only
  generalize line.integer = n
  rfl

/-- A line that is a value by itself. -/
theorem strictLines_line {header : List UInt8} (h : announced header = .ok .nothing)
    {stack : List OpenArray} {rest : List Line} (hrest : Alike stack rest) :
    strictLines stack (.control header :: rest) =
      some (decodeLines stack (.control header :: rest)) := by
  have hcases := announced_eq_nothing h
  rw [strictLines_cons, decodeLines_cons]
  -- What the line holds stays a variable: unfolding it would run the numeral reader.
  generalize (Line.control header).integer = n at hcases ⊢
  rcases hcases with
    ⟨text, count, rfl, hi, hle⟩ | ⟨text, length, rfl, hi, hneg⟩ | ⟨marker, text, rfl, ha, hb⟩
  · subst hi
    simp only [Line.marker?, Option.bind_some, Shape.ofMarker?_marker]
    by_cases hneg : count < 0
    · simp only [hneg, if_true]
      exact hrest .nil
    · obtain rfl : count = 0 := Int64.le_antisymm hle (Int64.not_lt.mp hneg)
      exact hrest (.array [])
  · subst hi
    simp only [Line.marker?, Option.bind_some, Shape.ofMarker?_marker, hneg, if_true]
    rcases rest with _ | ⟨_ | _, after⟩
    all_goals exact hrest .nil
  · simp only [Line.marker?, Option.bind_some]
    cases hs : Shape.ofMarker? marker with
    | none => exact hrest _
    | some shape =>
        have hm := Shape.marker_of_ofMarker? hs
        cases shape with
        | array => exact absurd hm.symm ha
        | bulk => exact absurd hm.symm hb
        | integer =>
            cases n with
            | error fault => rfl
            | ok i => exact hrest (.integer i)
        | status => exact hrest _
        | error => exact hrest _

/-- A line before a bulk string, and the string. -/
theorem strictLines_payload {header : List UInt8} {n : Nat}
    (h : announced header = .ok (.payload n)) (content : List UInt8) {stack : List OpenArray}
    {rest : List Line} (hrest : Alike stack rest) :
    strictLines stack (.control header :: .payload content :: rest) =
      some (decodeLines stack (.control header :: .payload content :: rest)) := by
  rw [decodeLines_payload h, strictLines_cons]
  obtain ⟨text, length, rfl, hi, hge, -⟩ := announced_eq_payload h
  have hneg : ¬ length < 0 := Int64.not_lt.mpr hge
  simp only [Line.marker?, Shape.ofMarker?_marker, hi, hneg, if_false]
  exact hrest _

/-- A line before the elements of an array. -/
theorem strictLines_elements {header : List UInt8} {count : Int64} {missing : Nat}
    (h : announced header = .ok (.elements count)) (hn : count.toInt.toNat = missing + 1)
    (stack : List OpenArray) (rest : List Line) :
    strictLines stack (.control header :: rest) = strictLines (⟨missing, []⟩ :: stack) rest := by
  obtain ⟨text, rfl, hi, hpos⟩ := announced_eq_elements h
  have hneg : ¬ count < 0 := Int64.not_lt.mpr (Int64.le_of_lt hpos)
  rw [strictLines_cons]
  simp only [Line.marker?, Shape.ofMarker?_marker, hi, hneg, if_false, hn]

mutual
/-- **On the lines of a value both decoders come to the same**, inside any arrays. -/
theorem strictLines_lines : ∀ v : Spelling, v.Valid → ∀ (stack : List OpenArray)
    (rest : List Line), Alike stack rest →
      strictLines stack (v.lines ++ rest) = some (decodeLines stack (v.lines ++ rest))
  | .line header, hv, stack, rest, hrest => by
      rw [Spelling.Valid] at hv
      rw [Spelling.lines]
      exact strictLines_line hv hrest
  | .bulk header content, hv, stack, rest, hrest => by
      rw [Spelling.Valid] at hv
      rw [Spelling.lines]
      exact strictLines_payload hv content hrest
  | .array header elements, hv, stack, rest, hrest => by
      rw [Spelling.Valid] at hv
      obtain ⟨hne, ⟨count, hcount, hlength⟩, hall⟩ := hv
      obtain ⟨missing, hmissing⟩ := Nat.exists_eq_succ_of_ne_zero
        (fun h => hne (List.eq_nil_of_length_eq_zero h))
      have hn := hlength.trans hmissing
      rw [Spelling.lines, List.cons_append, strictLines_elements hcount hn,
        decodeLines_elements hcount hn]
      exact strictLines_linesAll elements missing hmissing hall [] stack rest hrest

/-- The elements of an open array, of which some are already there. -/
theorem strictLines_linesAll : ∀ (vs : List Spelling) (missing : Nat), vs.length = missing + 1 →
    ValidAll vs → ∀ (elements : List Data) (stack : List OpenArray) (rest : List Line),
      Alike stack rest →
      strictLines (⟨missing, elements⟩ :: stack) (linesAll vs ++ rest) =
        some (decodeLines (⟨missing, elements⟩ :: stack) (linesAll vs ++ rest))
  | [], _, hn, _, _, _, _, _ => absurd hn (by simp)
  | [v], missing, hn, hv, elements, stack, rest, hrest => by
      obtain rfl : missing = 0 := by simpa using hn.symm
      rw [ValidAll] at hv
      rw [linesAll, linesAll, List.append_nil]
      -- The last element completes the array, which is a value like any other.
      exact strictLines_lines v hv.1 _ rest fun value => hrest (.array (value :: elements).reverse)
  | v :: w :: ws, missing, hn, hv, elements, stack, rest, hrest => by
      obtain rfl : missing = ws.length + 1 := by simpa using hn.symm
      rw [ValidAll] at hv
      rw [linesAll, List.append_assoc]
      exact strictLines_lines v hv.1 _ _ fun value =>
        strictLines_linesAll (w :: ws) ws.length rfl hv.2 (value :: elements) stack rest hrest
end

/-- A value alone on the lines. -/
theorem strictLines_self {v : Spelling} (hv : v.Valid) :
    strictLines [] v.lines = some (decodeLines [] v.lines) := by
  have h := strictLines_lines v hv [] [] fun _ => rfl
  rwa [List.append_nil] at h

/-- **The lines of a value decode strictly to the same reply.** -/
theorem strictReply?_lines {v : Spelling} (hv : v.Valid) (kind : Kind) :
    strictReply? kind v.lines = some (decodeReply kind v.lines) := by
  obtain ⟨marker, text, hheader⟩ := hv.header_eq_cons
  obtain ⟨rest, hlines⟩ := v.lines_eq_cons
  have hself := strictLines_self hv
  rw [hlines, hheader] at hself ⊢
  simp only [strictReply?, decodeReply, Line.marker?, hself, Option.map_some]
  generalize (Line.control (marker :: text)).integer = n
  split
  · rfl
  · split
    · cases n with
      | error fault => rfl
      | ok length =>
          dsimp only
          split
          · rfl
          · split <;> rfl
    · split <;> rfl

/-! ## §3  The reader -/

namespace Reader

variable {r : Reader} {pending : List Command}

/-- The lines of a value are handed on strictly as they are handed on anyway. -/
theorem strictFinish?_lines {v : Spelling} (hv : v.Valid) (h : r.completed = v.lines)
    (pending : List Command) : strictFinish? r pending = some (finish r pending) := by
  have hne : r.completed ≠ [] := by
    obtain ⟨rest, hlines⟩ := v.lines_eq_cons
    rw [h, hlines]
    exact List.cons_ne_nil _ _
  cases pending with
  | nil => rfl
  | cons c pending =>
      simp only [strictFinish?, finish, hne, if_false]
      split
      · rfl
      · rw [h, strictReply?_lines hv c.kind]
        -- A reply leaves no line, and a fault is treated alike.
        have hd := decodeReply_lines hv c.kind
        cases hr : v.reply c.kind with
        | error fault =>
            rw [hr] at hd
            rcases hdecode : decodeReply c.kind v.lines with ⟨_ | _, rest⟩
            · rfl
            · rw [hdecode] at hd
              exact absurd hd (by simp [Decoded.Follows])
        | ok reply =>
            rw [hr] at hd
            have hd : decodeReply c.kind v.lines = ⟨.ok reply, []⟩ := hd
            rw [hd]

/-- A reader without a fault hands only whole values on. -/
theorem Kept.handsOn (h : r.Kept) : HandsOn strictFinish? r := by
  intro line pending he ho hlast
  obtain ⟨u, hu⟩ := h.account
  obtain ⟨v, hv, hlines⟩ := hu.whole he ho hlast
  exact strictFinish?_lines hv hlines.symm pending

/-- Inside a bulk string its header is the last line, and the string is one of the holes. -/
theorem Account.last {u : Unfinished} (h : r.Account u) {length : Nat}
    (hp : r.payload = some length) :
    1 ≤ r.expected ∧ ∃ header, r.completed.getLast? = some (.control header) ∧
      announced header = .ok (.payload length) := by
  cases hb : u.bulk with
  | none => exact absurd ((h.outside hb).symm.trans hp) (by simp)
  | some header =>
      obtain ⟨n, hann, hn⟩ := h.inside header hb
      obtain rfl : length = n := Option.some.inj (hp.symm.trans hn)
      have hholes := h.holes
      have hlines := h.spelled.lines_eq
      simp only [Unfinished.holes, Unfinished.lines, hb, Option.toList_some, List.map_cons,
        List.map_nil, List.length_singleton] at hholes hlines
      refine ⟨by omega, header, ?_, hann⟩
      rw [← hlines, List.getLast?_concat]

/-- **The reader counts the holes of the value under way, and decodes strictly**, in every state
that chunks without a fault lead to. Its lines spell an unfinished value, each such value has as
many holes as lines are expected, and there is none just when no value has begun. Inside a bulk
string the last line is its header and less than the string and its end is there. Whatever chunk
comes next, also one with a fault, strict decoding comes to the same: no line is missing, none is
left over. -/
theorem reads_strictly (h : r.Sound) :
    (∃ u : Unfinished, u.Spells r.completed) ∧
      (∀ u : Unfinished, u.Spells r.completed → u.holes = r.expected) ∧
      (r.completed = [] ↔ r.expected = 0) ∧
      (∀ length, r.payload = some length →
        1 ≤ r.expected ∧ r.partialLine.length < length + 2 ∧
        ∃ text i, r.completed.getLast? = some (.control (Shape.bulk.marker :: text)) ∧
          (Line.control (Shape.bulk.marker :: text)).integer = .ok i ∧ i.toInt = length) ∧
      Line.control [] ∉ r.completed ∧
      ∀ pending chunk, loop? strictFinish? chunk.length r pending chunk =
        some (feed r pending chunk) := by
  have hkept := h.kept
  obtain ⟨u, hu⟩ := hkept.account
  refine ⟨⟨u, hu.spelled⟩, ?_, ?_, ?_, h.reachable.safe.marked, ?_⟩
  · intro w hw
    exact (hw.holes_eq hu.spelled).trans hu.holes
  · rw [← hu.spelled.lines_eq, ← hu.holes]
    exact hu.spelled.valid.lines_eq_nil_iff
  · intro length hp
    obtain ⟨hmissing, header, hlast, hann⟩ := hu.last hp
    obtain ⟨text, i, rfl, hi, hge, hn⟩ := announced_eq_payload hann
    have hsign := Int64.le_iff_toInt_le.mp hge
    rw [Int64.toInt_zero] at hsign
    exact ⟨hmissing, hkept.room length hp, text, i, hlast, hi, by omega⟩
  · intro pending chunk
    exact loop?_eq (I := Sound) (fun r h => h.reachable.safe.toBounded) (fun r h => h.kept.handsOn)
      (fun r pending chunk h hf => h.fed hf) h (Nat.le_refl _) pending

/-- In the middle of a string of three bytes, the first of two elements: the rest of the string and
the other element are missing. Once they are there, the reply is whole. -/
theorem reads_strictly_in_string :
    let r : Reader :=
      { partialLine := [0x61, 0x62]
        completed := [.control [0x2A, 0x32], .control [0x24, 0x33]]
        expected := 2
        payload := some 3 }
    let u : Unfinished := { arrays := [⟨[0x2A, 0x32], [], 1⟩], bulk := some [0x24, 0x33] }
    let chunk := [0x63, 0x0D, 0x0A, 0x3A, 0x37, 0x0D, 0x0A]
    r.Sound ∧ u.Spells r.completed ∧ u.holes = 2 ∧
      loop? strictFinish? chunk.length r [{ kind := .lrange }] chunk =
        some
          { reader := {}
            pending := []
            answered := [⟨{ kind := .lrange }, .success (.array [.text "abc", .integer 7])⟩] } := by
  intro r u chunk
  -- The bytes of `*2`, its line end, `$3`, its line end, and `ab`.
  have hfeed : feed {} [] [0x2A, 0x32, 0x0D, 0x0A, 0x24, 0x33, 0x0D, 0x0A, 0x61, 0x62] =
      { reader := r, pending := [] } := by decide +kernel
  have hr : r.Sound := by
    have h := Sound.fed .fresh (congrArg Progress.fault hfeed)
    rwa [hfeed] at h
  have hu : u.Spells r.completed := by
    refine ⟨⟨⟨⟨⟨2, by decide +kernel, by decide⟩, trivial⟩, trivial⟩, ?_, nofun⟩, rfl⟩
    rintro _ ⟨⟩
    exact ⟨3, by decide +kernel⟩
  obtain ⟨-, hholes, -, -, -, hloop⟩ := reads_strictly hr
  have hrest : feed r [{ kind := .lrange }] chunk =
      { reader := {}
        pending := []
        answered := [⟨{ kind := .lrange }, .success (.array [.text "abc", .integer 7])⟩] } := by
    decide +kernel
  exact ⟨hr, hu, hholes u hu, hrest ▸ hloop [{ kind := .lrange }] chunk⟩

end Reader

end RespClient
