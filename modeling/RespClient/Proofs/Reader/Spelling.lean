import RespClient.Proofs.Reader.Descent

/-!
# From lines back to the value

The reader keeps the lines of a reply in one flat queue and decodes them only when the
last one is there. Here the queue is the list of lines of a `Spelling`, and decoding it
gives the value of that tree, or its first fault (`decodeLines_lines`).

- §1: the lines of a spelling, and the spellings whose first lines announce what follows.
- §2: the plain reader finds no others.
- §3: one line at a time: what `decodeLines` does with a line that is a value by itself.
- §4: the tree, by induction with all open arrays as the context.
- §5: replies.
-/

namespace RespClient

open Descent (announced)

/-! ## §1  Lines of a spelling -/

namespace Spelling

mutual
/-- The lines, in the order in which they arrive. -/
def lines : Spelling → List Line
  | .line header => [.control header]
  | .bulk header content => [.control header, .payload content]
  | .array header elements => .control header :: linesAll elements

/-- The lines of values in a row. -/
def linesAll : List Spelling → List Line
  | [] => []
  | v :: rest => lines v ++ linesAll rest
end

mutual
/-- Every first line announces what follows it, and nothing else does. -/
def Valid : Spelling → Prop
  | .line header => announced header = .ok .nothing
  | .bulk header content => announced header = .ok (.payload content.length)
  | .array header elements =>
      elements ≠ [] ∧
      (∃ count, announced header = .ok (.elements count) ∧ count.toInt.toNat = elements.length) ∧
      ValidAll elements

/-- The same of values in a row. -/
def ValidAll : List Spelling → Prop
  | [] => True
  | v :: rest => Valid v ∧ ValidAll rest
end

end Spelling

theorem ok_of_map_eq_ok {ε α β : Type} {f : α → β} {x : Except ε α} {y : β}
    (h : x.map f = .ok y) : ∃ a, x = .ok a ∧ f a = y := by
  cases x with
  | error e => exact absurd h (by simp [Except.map])
  | ok a => exact ⟨a, rfl, Except.ok.inj h⟩

theorem error_of_map_eq_error {ε α β : Type} {f : α → β} {x : Except ε α} {e : ε}
    (h : x.map f = .error e) : x = .error e := by
  cases x with
  | error e' => exact congrArg Except.error (Except.error.inj h)
  | ok a => exact absurd h (by simp [Except.map])

/-- The reader's view of a control line is the plain reader's. -/
theorem opening_control (header : List UInt8) :
    (Line.control header).opening = announced header := by
  cases header with
  | nil => rfl
  | cons marker text =>
      simp only [Line.opening, announced]
      split
      · cases (Line.control (marker :: text)).integer with
        | error fault => rfl
        | ok count =>
            by_cases h : count ≤ 0
            · simp [Except.map, h, Int64.not_lt.mpr h]
            · simp [Except.map, h, Int64.not_le.mp h]
      · split
        · cases (Line.control (marker :: text)).integer with
          | error fault => rfl
          | ok length =>
              by_cases h : length < 0
              · simp [Except.map, h, Int64.not_le.mpr h]
              · simp [Except.map, h, Int64.not_lt.mp h]
        · rfl

/-- A first line holds the number of elements or the length that its marker promises, or it has
some other marker and announces nothing. -/
theorem announced_cases {header : List UInt8} {opening : Line.Opening}
    (h : announced header = .ok opening) :
    (∃ text count, header = Shape.array.marker :: text ∧
      (Line.control header).integer = .ok count ∧
      opening = if count ≤ 0 then .nothing else .elements count) ∨
    (∃ text length, header = Shape.bulk.marker :: text ∧
      (Line.control header).integer = .ok length ∧
      opening = if length < 0 then .nothing else .payload length.toInt.toNat) ∨
    (∃ marker text, header = marker :: text ∧ marker ≠ Shape.array.marker ∧
      marker ≠ Shape.bulk.marker ∧ opening = .nothing) := by
  cases header with
  | nil => exact absurd h (by simp [announced])
  | cons marker text =>
      rw [announced] at h
      split at h
      · next ha =>
          obtain ⟨count, hi, ho⟩ := ok_of_map_eq_ok h
          exact .inl ⟨text, count, by rw [ha], hi, ho.symm⟩
      · next ha =>
          split at h
          · next hb =>
              obtain ⟨length, hi, ho⟩ := ok_of_map_eq_ok h
              exact .inr (.inl ⟨text, length, by rw [hb], hi, ho.symm⟩)
          · next hb => exact .inr (.inr ⟨marker, text, rfl, ha, hb, (Except.ok.inj h).symm⟩)

theorem announced_eq_payload {header : List UInt8} {n : Nat}
    (h : announced header = .ok (.payload n)) :
    ∃ text length, header = Shape.bulk.marker :: text ∧
      (Line.control header).integer = .ok length ∧ 0 ≤ length ∧ length.toInt.toNat = n := by
  rcases announced_cases h with
    ⟨text, count, -, -, ho⟩ | ⟨text, length, hh, hi, ho⟩ | ⟨_, _, -, -, -, ho⟩
  · split at ho <;> exact absurd ho (by simp)
  · split at ho
    · exact absurd ho (by simp)
    · next hge =>
        obtain rfl := Line.Opening.payload.inj ho
        exact ⟨text, length, hh, hi, Int64.not_lt.mp hge, rfl⟩
  · exact absurd ho (by simp)

theorem announced_eq_elements {header : List UInt8} {count : Int64}
    (h : announced header = .ok (.elements count)) :
    ∃ text, header = Shape.array.marker :: text ∧
      (Line.control header).integer = .ok count ∧ 0 < count := by
  rcases announced_cases h with
    ⟨text, n, hh, hi, ho⟩ | ⟨text, length, -, -, ho⟩ | ⟨_, _, -, -, -, ho⟩
  · split at ho
    · exact absurd ho (by simp)
    · next hgt =>
        obtain rfl := Line.Opening.elements.inj ho
        exact ⟨text, hh, hi, Int64.not_le.mp hgt⟩
  · split at ho <;> exact absurd ho (by simp)
  · exact absurd ho (by simp)

/-- A first line that announces nothing: an array without elements, a null, or any other marker. -/
theorem announced_eq_nothing {header : List UInt8} (h : announced header = .ok .nothing) :
    (∃ text count, header = Shape.array.marker :: text ∧
      (Line.control header).integer = .ok count ∧ count ≤ 0) ∨
    (∃ text length, header = Shape.bulk.marker :: text ∧
      (Line.control header).integer = .ok length ∧ length < 0) ∨
    (∃ marker text, header = marker :: text ∧ marker ≠ Shape.array.marker ∧
      marker ≠ Shape.bulk.marker) := by
  rcases announced_cases h with
    ⟨text, count, hh, hi, ho⟩ | ⟨text, length, hh, hi, ho⟩ | ⟨marker, text, hh, ha, hb, -⟩
  · split at ho
    · next hle => exact .inl ⟨text, count, hh, hi, hle⟩
    · exact absurd ho (by simp)
  · split at ho
    · next hneg => exact .inr (.inl ⟨text, length, hh, hi, hneg⟩)
    · exact absurd ho (by simp)
  · exact .inr (.inr ⟨marker, text, hh, ha, hb⟩)

theorem announced_count_ne_zero {count : Int64} (h : 0 < count) : count.toInt.toNat ≠ 0 := by
  have hpos := Int64.lt_iff_toInt_lt.mp h
  rw [Int64.toInt_zero] at hpos
  omega

theorem Shape.marker_of_ofMarker? {b : UInt8} {s : Shape} (h : ofMarker? b = some s) :
    s.marker = b := by
  simpa using List.find?_some h

theorem Shape.marker_inj {s t : Shape} : s.marker = t.marker ↔ s = t := by
  constructor
  · intro h
    have hs := ofMarker?_marker s
    rw [h, ofMarker?_marker] at hs
    exact (Option.some.inj hs).symm
  · intro h
    rw [h]

/-! ## §2  What the plain reader finds is valid -/

namespace Descent

theorem done_of_map_eq_done {α β : Type} {m n : Nat} {f : α → β} {h : m ≤ n} {scan : Scan α m}
    {w : β} {rest : List UInt8} {shorter : rest.length < n}
    (hmap : scan.map f h = .done w rest shorter) :
    ∃ v shorter', scan = .done v rest shorter' ∧ w = f v := by
  cases scan with
  | short => exact absurd hmap (by simp [Scan.map])
  | fault f => exact absurd hmap (by simp [Scan.map])
  | done v rest' shorter' =>
      simp only [Scan.map, Scan.done.injEq] at hmap
      obtain ⟨rfl, rfl⟩ := hmap
      exact ⟨v, shorter', rfl, rfl⟩

theorem length_of_readContent {length : Nat} {bytes content rest : List UInt8}
    {shorter : rest.length < bytes.length + 1}
    (h : readContent length bytes = .done content rest shorter) : content.length = length := by
  unfold readContent at h
  split at h
  · exact absurd h (by simp)
  · split at h
    · simp only [Scan.done.injEq] at h
      obtain ⟨rfl, -⟩ := h
      rw [List.length_take]
      omega
    · exact absurd h (by simp)

theorem valid_of_readMany {size : Nat} {outstanding : Nat}
    (hread : ∀ (o : Nat) (bytes : List UInt8), bytes.length < size → ∀ v rest shorter,
      readValue o bytes = .done v rest shorter → v.Valid) (n : Nat) :
    ∀ (bytes : List UInt8) (h : bytes.length < size) vs rest shorter,
      readMany (fun outstanding bytes _ => readValue outstanding bytes) outstanding n bytes h =
        .done vs rest shorter → vs.length = n ∧ Spelling.ValidAll vs := by
  induction n with
  | zero =>
      intro bytes h vs rest shorter hmany
      simp only [readMany, Scan.done.injEq] at hmany
      obtain ⟨rfl, -⟩ := hmany
      exact ⟨rfl, trivial⟩
  | succ n ih =>
      intro bytes h vs rest shorter hmany
      rw [readMany] at hmany
      cases hv : readValue (outstanding + n) bytes with
      | short => exact absurd hmany (by simp [hv])
      | fault f => exact absurd hmany (by simp [hv])
      | done v rest' shorter' =>
          simp only [hv] at hmany
          obtain ⟨ws, _, hws, rfl⟩ := done_of_map_eq_done hmany
          obtain ⟨hlen, hall⟩ := ih rest' _ ws rest _ hws
          exact ⟨by rw [List.length_cons, hlen], hread _ bytes h v rest' shorter' hv, hall⟩

/-- What the plain reader finds is a valid spelling. -/
theorem valid_of_readValue {outstanding : Nat} {bytes rest : List UInt8} {v : Spelling}
    {shorter : rest.length < bytes.length}
    (h : readValue outstanding bytes = .done v rest shorter) : v.Valid := by
  induction hlen : bytes.length using Nat.strong_induction_on
    generalizing outstanding bytes v rest with
  | _ size ih =>
      subst hlen
      rw [readValue] at h
      cases hfirst : readFirst bytes with
      | short => exact absurd h (by simp [hfirst])
      | fault f => exact absurd h (by simp [hfirst])
      | done first tail shorter =>
          obtain ⟨header, opening⟩ := first
          obtain ⟨-, hann⟩ := cutCrlf_of_readFirst_done hfirst
          cases opening with
          | nothing =>
              simp only [hfirst, Scan.done.injEq] at h
              obtain ⟨rfl, -⟩ := h
              exact hann
          | payload length =>
              simp only [hfirst] at h
              obtain ⟨content, _, hcontent, rfl⟩ := done_of_map_eq_done h
              rw [Spelling.Valid, length_of_readContent hcontent]
              exact hann
          | elements count =>
              simp only [hfirst] at h
              split at h
              · obtain ⟨vs, _, hvs, rfl⟩ := done_of_map_eq_done h
                have hread : ∀ (o : Nat) (tail' : List UInt8), tail'.length < bytes.length →
                    ∀ v rest shorter, readValue o tail' = .done v rest shorter → v.Valid :=
                  fun o tail' hb v rest shorter hv => ih tail'.length hb hv rfl
                obtain ⟨hn, hall⟩ := valid_of_readMany hread _ tail _ vs _ _ hvs
                obtain ⟨-, -, -, hpos⟩ := announced_eq_elements hann
                rw [Spelling.Valid]
                refine ⟨?_, ⟨count, hann, hn.symm⟩, hall⟩
                rintro rfl
                exact announced_count_ne_zero hpos hn.symm
              · exact absurd h (by simp)

end Descent

/-! ## §3  One line -/

/-- Decoding goes on after a complete value. -/
def resume (value : Data) (stack : List OpenArray) (rest : List Line) : Decoded Data :=
  match OpenArray.plug value stack with
  | .inl whole => ⟨.ok whole, rest⟩
  | .inr stack => decodeLines stack rest

/-- Decoding follows an expected result: it goes on with the value, or stops at the fault. -/
def Decoded.Follows {α β : Type} (d : Decoded β) (expected : Except Fault α)
    (next : α → Decoded β) : Prop :=
  match expected with
  | .ok value => d = next value
  | .error fault => d.result = .error fault

/-- What decoding does with a line. -/
theorem decodeLines_cons (stack : List OpenArray) (line : Line) (rest : List Line) :
    decodeLines stack (line :: rest) =
      match line.marker?.bind Shape.ofMarker? with
      | some .array =>
        match line.integer with
        | .error fault => ⟨.error fault, rest⟩
        | .ok count =>
          if count < 0 then resume .nil stack rest
          else match count.toInt.toNat with
            | 0 => resume (.array []) stack rest
            | missing + 1 => decodeLines (⟨missing, []⟩ :: stack) rest
      | some .bulk =>
        match rest with
        | [] =>
          match line.integer with
          | .error fault => ⟨.error fault, []⟩
          | .ok length =>
            if length < 0 then resume .nil stack rest else ⟨.ok (OpenArray.pad .nil stack), []⟩
        | payload :: after =>
          match line.integer with
          | .error fault => ⟨.error fault, payload :: after⟩
          | .ok length =>
            if length < 0 then resume .nil stack rest else resume (.text payload.text) stack after
      | some .integer =>
        match line.integer with
        | .error fault => ⟨.error fault, rest⟩
        | .ok i => resume (.integer i) stack rest
      | _ => resume (.text line.text) stack rest := by
  conv => lhs; rw [decodeLines.eq_def]
  dsimp only
  generalize line.integer = n
  generalize line.marker?.bind Shape.ofMarker? = shape
  rfl

/-- A line that is a value by itself. -/
theorem decodeLines_line {header : List UInt8} (h : announced header = .ok .nothing)
    (stack : List OpenArray) (rest : List Line) :
    (decodeLines stack (.control header :: rest)).Follows (Spelling.lineData header)
      (resume · stack rest) := by
  have hcases := announced_eq_nothing h
  rw [decodeLines_cons]
  unfold Spelling.lineData
  -- What the line holds stays a variable: unfolding it would run the numeral reader.
  generalize (Line.control header).integer = n at hcases ⊢
  rcases hcases with
    ⟨text, count, rfl, hi, hle⟩ | ⟨text, length, rfl, hi, hneg⟩ | ⟨marker, text, rfl, ha, hb⟩
  · subst hi
    simp only [Line.marker?, List.head?_cons, Option.bind_some, Shape.ofMarker?_marker, Except.map]
    by_cases hneg : count < 0
    · simp only [hneg, if_true]
      rfl
    · obtain rfl : count = 0 := Int64.le_antisymm hle (Int64.not_lt.mp hneg)
      rfl
  · subst hi
    simp only [Line.marker?, List.head?_cons, Option.bind_some, Shape.ofMarker?_marker]
    cases rest <;> simp only [hneg, if_true] <;> rfl
  · simp only [Line.marker?, List.head?_cons, Option.bind_some]
    cases hs : Shape.ofMarker? marker with
    | none => rfl
    | some shape =>
        have hm := Shape.marker_of_ofMarker? hs
        cases shape with
        | array => exact absurd hm.symm ha
        | bulk => exact absurd hm.symm hb
        | integer => cases n <;> rfl
        | status => rfl
        | error => rfl

/-- A line before a bulk string, and the string. -/
theorem decodeLines_payload {header : List UInt8} {n : Nat}
    (h : announced header = .ok (.payload n)) (stack : List OpenArray) (payload : Line)
    (rest : List Line) :
    decodeLines stack (.control header :: payload :: rest) =
      resume (.text payload.text) stack rest := by
  obtain ⟨text, length, rfl, hi, hge, -⟩ := announced_eq_payload h
  have hneg : ¬ length < 0 := Int64.not_lt.mpr hge
  rw [decodeLines_cons]
  simp only [Line.marker?, Option.bind_some, Shape.ofMarker?_marker, hi, hneg, if_false]

/-- A line before the elements of an array. -/
theorem decodeLines_elements {header : List UInt8} {count : Int64} {missing : Nat}
    (h : announced header = .ok (.elements count)) (hn : count.toInt.toNat = missing + 1)
    (stack : List OpenArray) (rest : List Line) :
    decodeLines stack (.control header :: rest) = decodeLines (⟨missing, []⟩ :: stack) rest := by
  obtain ⟨text, rfl, hi, hpos⟩ := announced_eq_elements h
  have hneg : ¬ count < 0 := Int64.not_lt.mpr (Int64.le_of_lt hpos)
  rw [decodeLines_cons]
  simp only [Line.marker?, Option.bind_some, Shape.ofMarker?_marker, hi, hneg, if_false, hn]

/-! ## §4  The tree -/

/-- The last element completes its array, any other is set aside. -/
theorem resume_last (value : Data) (elements : List Data) (stack : List OpenArray)
    (rest : List Line) :
    resume value (⟨0, elements⟩ :: stack) rest =
      resume (.array (elements.reverse ++ [value])) stack rest := by
  rw [← List.reverse_cons]
  rfl

theorem resume_more (value : Data) (missing : Nat) (elements : List Data)
    (stack : List OpenArray) (rest : List Line) :
    resume value (⟨missing + 1, elements⟩ :: stack) rest =
      decodeLines (⟨missing, value :: elements⟩ :: stack) rest := rfl

open Spelling (lines linesAll data dataAll Valid ValidAll)

mutual
/-- **The lines of a spelling decode to its value**, inside any arrays and before any other lines;
where the value has a fault, decoding stops at the same one. -/
theorem decodeLines_lines : ∀ (v : Spelling), v.Valid → ∀ (stack : List OpenArray)
    (rest : List Line), (decodeLines stack (v.lines ++ rest)).Follows v.data (resume · stack rest)
  | .line header, hv, stack, rest => by
      rw [Valid] at hv
      rw [lines, data]
      exact decodeLines_line hv stack rest
  | .bulk header content, hv, stack, rest => by
      rw [Valid] at hv
      rw [lines, data]
      exact decodeLines_payload hv stack (.payload content) rest
  | .array header elements, hv, stack, rest => by
      rw [Valid] at hv
      obtain ⟨hne, ⟨count, hcount, hlength⟩, hall⟩ := hv
      obtain ⟨missing, hmissing⟩ := Nat.exists_eq_succ_of_ne_zero
        (fun h => hne (List.eq_nil_of_length_eq_zero h))
      have ih := decodeLines_linesAll elements missing hmissing hall [] stack rest
      rw [lines, data, List.cons_append, decodeLines_elements hcount (hlength.trans hmissing)]
      cases hd : dataAll elements with
      | error fault =>
          rw [hd] at ih
          exact ih
      | ok values =>
          rw [hd] at ih
          exact ih

/-- The elements of an open array, of which some are already there. -/
theorem decodeLines_linesAll : ∀ (vs : List Spelling) (missing : Nat), vs.length = missing + 1 →
    ValidAll vs → ∀ (elements : List Data) (stack : List OpenArray) (rest : List Line),
      (decodeLines (⟨missing, elements⟩ :: stack) (linesAll vs ++ rest)).Follows (dataAll vs)
        (fun values => resume (.array (elements.reverse ++ values)) stack rest)
  | [], _, hn, _, _, _, _ => absurd hn (by simp)
  | [v], missing, hn, hv, elements, stack, rest => by
      obtain rfl : missing = 0 := by simpa using hn.symm
      rw [ValidAll] at hv
      have ih := decodeLines_lines v hv.1 (⟨0, elements⟩ :: stack) rest
      rw [linesAll, linesAll, List.append_nil, dataAll]
      cases hd : v.data with
      | error fault =>
          rw [hd] at ih
          exact ih
      | ok value =>
          rw [hd] at ih
          exact ih.trans (resume_last value elements stack rest)
  | v :: w :: ws, missing, hn, hv, elements, stack, rest => by
      obtain rfl : missing = ws.length + 1 := by simpa using hn.symm
      rw [ValidAll] at hv
      have ih := decodeLines_lines v hv.1 (⟨ws.length + 1, elements⟩ :: stack)
        (linesAll (w :: ws) ++ rest)
      rw [linesAll, List.append_assoc, dataAll]
      cases hd : v.data with
      | error fault =>
          rw [hd] at ih
          exact ih
      | ok value =>
          rw [hd] at ih
          have htail := decodeLines_linesAll (w :: ws) ws.length rfl hv.2 (value :: elements) stack
            rest
          have hhead : decodeLines (⟨ws.length + 1, elements⟩ :: stack)
              (v.lines ++ (linesAll (w :: ws) ++ rest)) =
              decodeLines (⟨ws.length, value :: elements⟩ :: stack) (linesAll (w :: ws) ++ rest) :=
            ih.trans (resume_more value ws.length elements stack _)
          rw [hhead]
          cases hds : dataAll (w :: ws) with
          | error fault =>
              rw [hds] at htail
              exact htail
          | ok values =>
              rw [hds, List.reverse_cons] at htail
              exact htail.trans (by simp)
end

/-! ## §5  Replies -/

namespace Spelling

/-- Only lines that are values by themselves begin with other markers than these two. -/
theorem Valid.eq_line {v : Spelling} (hv : v.Valid)
    (ha : v.header.head? ≠ some Shape.array.marker) (hb : v.header.head? ≠ some Shape.bulk.marker) :
    v = .line v.header := by
  cases v with
  | line header => rfl
  | bulk header content =>
      rw [Valid] at hv
      obtain ⟨text, length, rfl, -, -, -⟩ := announced_eq_payload hv
      exact absurd rfl hb
  | array header elements =>
      rw [Valid] at hv
      obtain ⟨-, ⟨count, hcount, -⟩, -⟩ := hv
      obtain ⟨text, rfl, -, -⟩ := announced_eq_elements hcount
      exact absurd rfl ha

/-- A first line is never empty. -/
theorem Valid.header_eq_cons {v : Spelling} (hv : v.Valid) :
    ∃ marker text, v.header = marker :: text := by
  have hne : announced v.header ≠ .error .emptyLine := by
    cases v with
    | line header => rw [Valid] at hv; simp [hv]
    | bulk header content => rw [Valid] at hv; simp [hv]
    | array header elements =>
        rw [Valid] at hv
        obtain ⟨-, ⟨count, hcount, -⟩, -⟩ := hv
        simp [hcount]
  cases hh : v.header with
  | nil => exact absurd (by rw [hh]; rfl) hne
  | cons marker text => exact ⟨marker, text, rfl⟩

theorem lines_eq_cons (v : Spelling) : ∃ rest, v.lines = .control v.header :: rest := by
  cases v <;> exact ⟨_, rfl⟩

/-- A bulk header that is a value by itself holds a negative number, any other does not. -/
theorem Valid.integer_of_bulk {v : Spelling} (hv : v.Valid)
    (hb : v.header.head? = some Shape.bulk.marker) :
    ∃ length, (Line.control v.header).integer = .ok length ∧
      (length < 0 ↔ v.isNullBulk = true) := by
  cases v with
  | line header =>
      rw [Valid] at hv
      have hbulk : header.head? = some Shape.bulk.marker := hb
      rcases announced_eq_nothing hv with
        ⟨text, count, rfl, -, -⟩ | ⟨text, length, -, hi, hneg⟩ | ⟨marker, text, rfl, -, hne⟩
      · exact absurd (Option.some.inj hbulk) (by decide)
      · exact ⟨length, hi, by simp [hneg, isNullBulk, hbulk]⟩
      · exact absurd (Option.some.inj hbulk) hne
  | bulk header content =>
      rw [Valid] at hv
      obtain ⟨text, length, rfl, hi, hge, -⟩ := announced_eq_payload hv
      exact ⟨length, hi, by simp [isNullBulk, Int64.not_lt.mpr hge]⟩
  | array header elements =>
      rw [Valid] at hv
      obtain ⟨-, ⟨count, hcount, -⟩, -⟩ := hv
      obtain ⟨text, rfl, -, -⟩ := announced_eq_elements hcount
      exact absurd hb (by simp [Shape.marker])

end Spelling

/-- A value alone on the lines. -/
theorem decodeLines_self {v : Spelling} (hv : v.Valid) :
    (decodeLines [] v.lines).Follows v.data (⟨.ok ·, []⟩) := by
  have h := decodeLines_lines v hv [] []
  rw [List.append_nil] at h
  exact h

/-- A value of a given shape. -/
theorem decodeLines_byShape {v : Spelling} (hv : v.Valid) (kind : Kind) (marker : UInt8)
    (rest : List Line) :
    (if marker = kind.shape.marker then (decodeLines [] v.lines).map .success
      else ⟨.error (.mismatch kind marker), rest⟩ : Decoded Reply).Follows
        (if marker = kind.shape.marker then v.data.map .success
          else .error (.mismatch kind marker)) (⟨.ok ·, []⟩) := by
  split
  · have h := decodeLines_self hv
    cases hd : v.data with
    | error fault =>
        rw [hd] at h
        simp only [Decoded.Follows, Decoded.map, Except.map] at h ⊢
        rw [h]
    | ok value =>
        rw [hd] at h
        simp only [Decoded.Follows, Decoded.map, Except.map] at h ⊢
        rw [h]
  · rfl

/-- **The lines of a spelling decode to the reply it is**, with none left; where it is none,
decoding stops at the same fault. -/
theorem decodeReply_lines {v : Spelling} (hv : v.Valid) (kind : Kind) :
    (decodeReply kind v.lines).Follows (v.reply kind) (⟨.ok ·, []⟩) := by
  obtain ⟨marker, text, hh⟩ := hv.header_eq_cons
  obtain ⟨rest, hl⟩ := v.lines_eq_cons
  have hhead : v.header.head? = some marker := by rw [hh]; rfl
  have hshape := decodeLines_byShape hv kind marker rest
  rw [hl, hh] at hshape
  rw [hl]
  simp only [decodeReply, Spelling.reply, hh, Line.marker?, List.head?_cons]
  by_cases he : marker = Shape.error.marker
  · -- An error line announces nothing, so it is the only line.
    have hv' := hv.eq_line (by rw [hhead, he]; decide) (by rw [hhead, he]; decide)
    rw [hv', lines] at hl
    obtain rfl : [] = rest := (List.cons.inj hl).2
    simp only [he, if_true]
    rfl
  · simp only [he, if_false]
    by_cases hb : marker = Shape.bulk.marker
    · obtain ⟨length, hi, hneg⟩ := hv.integer_of_bulk (by rw [hhead, hb])
      rw [hh] at hi
      simp only [hb, if_true]
      rw [hb] at hi hshape
      simp only [hi]
      by_cases hnull : v.isNullBulk = true
      · -- The null of a bulk is a single line too.
        obtain ⟨h, rfl⟩ : ∃ h, v = .line h := by
          cases v with
          | line h => exact ⟨h, rfl⟩
          | bulk h content => exact absurd hnull (by simp [Spelling.isNullBulk])
          | array h elements => exact absurd hnull (by simp [Spelling.isNullBulk])
        rw [lines] at hl
        obtain rfl : [] = rest := (List.cons.inj hl).2
        simp only [hneg, hnull, if_true]
        rfl
      · simp only [hneg, hnull]
        exact hshape
    · have hnull : v.isNullBulk = false := by
        cases v with
        | line h =>
            have hm : h.head? = some marker := hhead
            simp [Spelling.isNullBulk, hm, hb]
        | bulk h content => rfl
        | array h elements => rfl
      simp only [hb, hnull, if_false]
      exact hshape

end RespClient
