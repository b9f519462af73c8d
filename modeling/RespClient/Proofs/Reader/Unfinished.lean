import RespClient.Proofs.Reader.Bounds

/-!
# Unfinished values

While a reply is under way the reader has only some of its lines. They spell an *unfinished* value:
arrays inside each other, each with its first elements, and perhaps the header of a bulk string
whose content is still to come. What was announced and has not begun are its *holes*.

The reader keeps no such value, only the lines and a count. It keeps the count right: the lines
always spell an unfinished value with as many holes as lines are expected (`Sound.kept`), and any
two values that the same lines spell have the same number of holes (`Spells.holes_eq`). So the line
with which a reply is handed on makes its lines those of a whole value (`Account.whole`).

- §1: unfinished values.
- §2: one element more, which has begun or is whole.
- §3: what the reader keeps, line by line.
- §4: how many holes there are can be counted from the lines.
-/

namespace RespClient

open Descent (announced)
open Spelling (linesAll ValidAll)

/-! ## §1  Values with holes -/

/-- An array of which some elements may be missing. -/
structure OpenSpelling where
  header : List UInt8
  /-- The elements that are there, in order. -/
  elements : List Spelling
  /-- Elements that have not begun. -/
  missing : Nat

namespace OpenSpelling

def lines (a : OpenSpelling) : List Line := .control a.header :: linesAll a.elements

/-- The header announces the elements that are there, those that are missing, and `begun` more. -/
def Announces (a : OpenSpelling) (begun : Nat) : Prop :=
  (∃ count, announced a.header = .ok (.elements count) ∧
    count.toInt.toNat = a.elements.length + begun + a.missing) ∧ ValidAll a.elements

/-- The lines of arrays inside each other, the innermost given first. -/
def nestLines : List OpenSpelling → List Line
  | [] => []
  | a :: outer => nestLines outer ++ a.lines

/-- The elements missing in all of them. -/
def nestMissing : List OpenSpelling → Nat
  | [] => 0
  | a :: outer => a.missing + nestMissing outer

/-- In the innermost array `begun` elements have begun and are not whole; in every other one it is
the array inside. -/
def NestValid : Nat → List OpenSpelling → Prop
  | _, [] => True
  | begun, a :: outer => a.Announces begun ∧ NestValid 1 outer

end OpenSpelling

open OpenSpelling

/-- A value of which the first lines are there; without any it has not begun. -/
structure Unfinished where
  /-- The arrays under way, innermost first. -/
  arrays : List OpenSpelling
  /-- The header of a bulk string whose content is still to come. -/
  bulk : Option (List UInt8) := none

namespace Unfinished

def lines (u : Unfinished) : List Line := nestLines u.arrays ++ u.bulk.toList.map Line.control

/-- What has been announced and has not begun: elements of arrays, the content of a bulk string. -/
def holes (u : Unfinished) : Nat := nestMissing u.arrays + u.bulk.toList.length

/-- Headers announce what they should, and where no bulk string is under way the innermost array
lacks an element, for else it would be whole. -/
structure Valid (u : Unfinished) : Prop where
  arrays : NestValid u.bulk.toList.length u.arrays
  bulk : ∀ header ∈ u.bulk, ∃ length, announced header = .ok (.payload length)
  lacks : u.bulk = none → ∀ a ∈ u.arrays.head?, a.missing ≠ 0

/-- The lines are those of the value. -/
structure Spells (u : Unfinished) (lines : List Line) : Prop where
  valid : u.Valid
  lines_eq : u.lines = lines

end Unfinished

/-! ## §2  One element more -/

namespace Spelling

theorem linesAll_append (vs ws : List Spelling) :
    linesAll (vs ++ ws) = linesAll vs ++ linesAll ws := by
  induction vs with
  | nil => rfl
  | cons v rest ih => rw [List.cons_append, linesAll, linesAll, ih, List.append_assoc]

theorem validAll_append {vs ws : List Spelling} (hvs : ValidAll vs) (hws : ValidAll ws) :
    ValidAll (vs ++ ws) := by
  induction vs with
  | nil => exact hws
  | cons v rest ih =>
      rw [ValidAll] at hvs
      rw [List.cons_append, ValidAll]
      exact ⟨hvs.1, ih hvs.2⟩

end Spelling

namespace OpenSpelling

/-- An array that lacks nothing is whole with the element that has begun. -/
theorem Announces.whole {a : OpenSpelling} (h : a.Announces 1) (h0 : a.missing = 0) {v : Spelling}
    (hv : v.Valid) : (Spelling.array a.header (a.elements ++ [v])).Valid := by
  obtain ⟨⟨count, hcount, hlength⟩, hall⟩ := h
  rw [Spelling.Valid]
  refine ⟨by simp, ⟨count, hcount, ?_⟩, Spelling.validAll_append hall ⟨hv, trivial⟩⟩
  rw [hlength, h0, List.length_append, List.length_singleton, Nat.add_zero]

theorem lines_whole (a : OpenSpelling) (v : Spelling) :
    (Spelling.array a.header (a.elements ++ [v])).lines = a.lines ++ v.lines := by
  rw [Spelling.lines, lines, Spelling.linesAll_append, linesAll, linesAll, List.append_nil,
    List.cons_append]

/-- The element that has begun is whole: where nothing else is missing, all arrays are. -/
theorem nest_whole {arrays : List OpenSpelling} (h : NestValid 1 arrays)
    (h0 : nestMissing arrays = 0) {v : Spelling} (hv : v.Valid) :
    ∃ w : Spelling, w.Valid ∧ w.lines = nestLines arrays ++ v.lines := by
  induction arrays generalizing v with
  | nil => exact ⟨v, hv, rfl⟩
  | cons a outer ih =>
      obtain ⟨ha, houter⟩ := h
      obtain ⟨hmissing, hrest⟩ := Nat.add_eq_zero_iff.mp h0
      obtain ⟨w, hw, hlines⟩ := ih houter hrest (ha.whole hmissing hv)
      refine ⟨w, hw, ?_⟩
      rw [hlines, lines_whole, nestLines, List.append_assoc]

/-- The element that has begun is whole: where something else is missing, some array goes on. -/
theorem nest_more {arrays : List OpenSpelling} (h : NestValid 1 arrays)
    (hne : nestMissing arrays ≠ 0) {v : Spelling} (hv : v.Valid) :
    ∃ arrays', NestValid 0 arrays' ∧ nestLines arrays' = nestLines arrays ++ v.lines ∧
      nestMissing arrays' = nestMissing arrays ∧ ∀ a ∈ arrays'.head?, a.missing ≠ 0 := by
  induction arrays generalizing v with
  | nil => exact absurd rfl hne
  | cons a outer ih =>
      obtain ⟨ha, houter⟩ := h
      by_cases hmissing : a.missing = 0
      · have hrest : nestMissing outer = nestMissing (a :: outer) := by
          rw [nestMissing, hmissing, Nat.zero_add]
        rw [← hrest] at hne ⊢
        obtain ⟨arrays', hvalid, hlines, hholes, hhead⟩ := ih houter hne (ha.whole hmissing hv)
        refine ⟨arrays', hvalid, ?_, hholes, hhead⟩
        rw [hlines, lines_whole, nestLines, List.append_assoc]
      · obtain ⟨⟨count, hcount, hlength⟩, hall⟩ := ha
        refine ⟨{ a with elements := a.elements ++ [v] } :: outer,
          ⟨⟨⟨count, hcount, ?_⟩, ?_⟩, houter⟩, ?_, rfl, ?_⟩
        · rw [hlength, List.length_append, List.length_singleton, Nat.add_zero]
        · exact Spelling.validAll_append hall ⟨hv, trivial⟩
        · simp only [nestLines, lines, Spelling.linesAll_append, linesAll, List.append_nil,
            List.append_assoc, List.cons_append]
        · simpa using hmissing

/-- One of the missing elements begins. -/
theorem nest_begin {arrays : List OpenSpelling} (h : NestValid 0 arrays)
    (hlacks : ∀ a ∈ arrays.head?, a.missing ≠ 0) :
    ∃ arrays', NestValid 1 arrays' ∧ nestLines arrays' = nestLines arrays ∧
      nestMissing arrays' = nestMissing arrays - 1 := by
  cases arrays with
  | nil => exact ⟨[], trivial, rfl, rfl⟩
  | cons a outer =>
      have hne : a.missing ≠ 0 := hlacks a rfl
      obtain ⟨⟨⟨count, hcount, hlength⟩, hall⟩, houter⟩ := h
      refine ⟨{ a with missing := a.missing - 1 } :: outer, ⟨⟨⟨count, hcount, ?_⟩, hall⟩, houter⟩,
        rfl, ?_⟩
      · dsimp only
        omega
      · simp only [nestMissing]
        omega

end OpenSpelling

/-! ## §3  What the reader keeps -/

namespace Reader

/-- The lines kept spell the value, and the reader knows how much of it is missing and whether its
next line is the content of a bulk string. -/
structure Account (r : Reader) (u : Unfinished) : Prop where
  spelled : u.Spells r.completed
  holes : u.holes = r.expected
  outside : u.bulk = none → r.payload = none
  inside : ∀ header ∈ u.bulk, ∃ length,
    announced header = .ok (.payload length) ∧ r.payload = some length

variable {r : Reader} {u : Unfinished} {line : Line} {pending : List Command}

/-- Nothing has begun. -/
theorem Account.idle (hcompleted : r.completed = []) (hexpected : r.expected = 0)
    (hpayload : r.payload = none) : r.Account { arrays := [] } :=
  ⟨⟨⟨trivial, nofun, fun _ => nofun⟩, hcompleted.symm⟩, hexpected.symm, fun _ => hpayload, nofun⟩

theorem Account.bulk_of_outside (h : r.Account u) (hp : r.payload = none) : u.bulk = none := by
  cases hb : u.bulk with
  | none => rfl
  | some header =>
      obtain ⟨length, -, hlength⟩ := h.inside header hb
      exact absurd (hp.symm.trans hlength) (by simp)

/-- A control line begins an element, or the value itself. -/
theorem Account.begins (h : r.Account u) (hp : r.payload = none) :
    ∃ arrays, NestValid 1 arrays ∧ nestLines arrays = r.completed ∧
      nestMissing arrays = r.expected - 1 := by
  have hbulk := h.bulk_of_outside hp
  have hvalid := h.spelled.valid.arrays
  have hlines := h.spelled.lines_eq
  have hholes := h.holes
  simp only [Unfinished.lines, Unfinished.holes, hbulk, Option.toList_none, List.map_nil,
    List.append_nil, List.length_nil, Nat.add_zero] at hvalid hlines hholes
  obtain ⟨arrays, hnest, hsame, hmissing⟩ := nest_begin hvalid (h.spelled.valid.lacks hbulk)
  exact ⟨arrays, hnest, hsame.trans hlines, by rw [hmissing, hholes]⟩

/-- A line that announces nothing ends a value, inside arrays of which one line less is missing. -/
theorem Account.value (h : r.Account u) (he : r.Expects line)
    (ho : line.opening = .ok .nothing) :
    ∃ (arrays : List OpenSpelling) (v : Spelling), NestValid 1 arrays ∧ v.Valid ∧
      nestLines arrays ++ v.lines = r.completed ++ [line] ∧
      nestMissing arrays = r.expected - 1 := by
  cases line with
  | control header =>
      obtain ⟨arrays, hnest, hlines, hmissing⟩ := h.begins he
      refine ⟨arrays, .line header, hnest, ?_, ?_, hmissing⟩
      · rw [Spelling.Valid]
        exact (opening_control header).symm.trans ho
      · rw [Spelling.lines, hlines]
  | payload content =>
      have hp : r.payload = some content.length := he
      cases hb : u.bulk with
      | none => exact absurd ((h.outside hb).symm.trans hp) (by simp)
      | some header =>
          obtain ⟨length, hann, hlength⟩ := h.inside header hb
          obtain rfl : content.length = length := Option.some.inj (hp.symm.trans hlength)
          have hvalid := h.spelled.valid.arrays
          have hlines := h.spelled.lines_eq
          have hholes := h.holes
          simp only [Unfinished.lines, Unfinished.holes, hb, Option.toList_some, List.map_cons,
            List.map_nil, List.length_singleton] at hvalid hlines hholes
          refine ⟨u.arrays, .bulk header content, hvalid, ?_, ?_, ?_⟩
          · rw [Spelling.Valid]
            exact hann
          · rw [Spelling.lines, ← hlines, List.append_assoc]
            rfl
          · omega

/-- **The last line makes the value whole.** -/
theorem Account.whole (h : r.Account u) (he : r.Expects line) (ho : line.opening = .ok .nothing)
    (hlast : r.expected ≤ 1) : ∃ v : Spelling, v.Valid ∧ v.lines = r.completed ++ [line] := by
  obtain ⟨arrays, v, hnest, hv, hlines, hmissing⟩ := h.value he ho
  obtain ⟨w, hw, hwhole⟩ := nest_whole hnest (by omega) hv
  exact ⟨w, hw, hwhole.trans hlines⟩

theorem Account.inner (h : r.Account u) (he : r.Expects line) (ho : line.opening = .ok .nothing)
    (hmore : r.expected - 1 ≠ 0) :
    ∃ u, Account { r with
      partialLine := []
      payload := none
      expected := r.expected - 1
      completed := r.completed ++ [line] } u := by
  obtain ⟨arrays, v, hnest, hv, hlines, hmissing⟩ := h.value he ho
  obtain ⟨arrays', hnest', hlines', hmissing', hlacks⟩ := nest_more hnest (by omega) hv
  refine ⟨{ arrays := arrays' }, ⟨⟨hnest', nofun, fun _ => hlacks⟩, ?_⟩, ?_, fun _ => rfl, nofun⟩
  · simp only [Unfinished.lines, Option.toList_none, List.map_nil, List.append_nil]
    exact hlines'.trans hlines
  · simp only [Unfinished.holes, Option.toList_none, List.length_nil, Nat.add_zero]
    exact hmissing'.trans hmissing

/-- A line that announces something is a control line. -/
theorem Account.header (h : r.Account u) (he : r.Expects line) {opening : Line.Opening}
    (ho : line.opening = .ok opening) (hne : opening ≠ .nothing) :
    ∃ header arrays, line = .control header ∧ announced header = .ok opening ∧
      NestValid 1 arrays ∧ nestLines arrays = r.completed ∧
      nestMissing arrays = r.expected - 1 := by
  cases line with
  | payload content => exact absurd (Except.ok.inj ho).symm hne
  | control header =>
      obtain ⟨arrays, hnest, hlines, hmissing⟩ := h.begins he
      exact ⟨header, arrays, rfl, (opening_control header).symm.trans ho, hnest, hlines, hmissing⟩

theorem Account.elements (h : r.Account u) (he : r.Expects line) {count : Int64}
    (ho : line.opening = .ok (.elements count)) :
    ∃ u, Account { r with
      partialLine := []
      payload := none
      expected := r.expected - 1 + count.toInt.toNat
      completed := r.completed ++ [line] } u := by
  obtain ⟨header, arrays, rfl, hann, hnest, hlines, hmissing⟩ := h.header he ho (by simp)
  refine ⟨{ arrays := ⟨header, [], count.toInt.toNat⟩ :: arrays },
    ⟨⟨⟨⟨⟨count, hann, ?_⟩, trivial⟩, hnest⟩, nofun, fun _ => ?_⟩, ?_⟩, ?_, fun _ => rfl, nofun⟩
  · simp
  · simpa using announced_count_ne_zero (pos_of_opening_elements ho)
  · simp only [Unfinished.lines, nestLines, lines, linesAll, hlines, Option.toList_none,
      List.map_nil, List.append_nil]
  · simp only [Unfinished.holes, nestMissing, hmissing, Option.toList_none, List.length_nil]
    omega

theorem Account.payload (h : r.Account u) (he : r.Expects line) {length : Nat}
    (ho : line.opening = .ok (.payload length)) :
    ∃ u, Account { r with
      partialLine := []
      payload := some length
      expected := r.expected - 1 + 1
      completed := r.completed ++ [line] } u := by
  obtain ⟨header, arrays, rfl, hann, hnest, hlines, hmissing⟩ := h.header he ho (by simp)
  refine ⟨{ arrays, bulk := some header }, ⟨⟨hnest, ?_, nofun⟩, ?_⟩, ?_, nofun, ?_⟩
  · rintro _ ⟨⟩
    exact ⟨length, hann⟩
  · simp only [Unfinished.lines, hlines, Option.toList_some, List.map_cons, List.map_nil]
  · simp only [Unfinished.holes, hmissing, Option.toList_some, List.length_singleton]
  · rintro _ ⟨⟩
    exact ⟨length, hann, rfl⟩

/-- A reply that was handed on without a fault leaves no line. -/
theorem completed_of_finish (r : Reader) (pending : List Command)
    (hf : (finish r pending).fault = none) :
    ∃ inMulti, (finish r pending).reader = { r with completed := [], inMulti } := by
  cases pending with
  | nil => exact absurd hf (by simp [finish])
  | cons c rest =>
      unfold finish at hf ⊢
      dsimp only at hf ⊢
      split at hf
      · next hm =>
          rw [if_pos hm]
          exact ⟨_, rfl⟩
      · next hm =>
          rw [if_neg hm]
          split at hf
          · exact ⟨_, rfl⟩
          · exact absurd hf (by simp)

/-- Every line without a fault keeps the account. -/
theorem Account.addLine (h : r.Account u) (he : r.Expects line)
    (hf : (addLine { r with partialLine := [], payload := none } pending line).fault = none) :
    ∃ u, (addLine { r with partialLine := [], payload := none } pending line).reader.Account u := by
  cases addLine_cases { r with partialLine := [], payload := none } line with
  | unreadable fault ho hread =>
      rw [hread] at hf
      exact absurd hf (by simp)
  | tooMany count ho hexceeds hread =>
      rw [hread] at hf
      exact absurd hf (by simp)
  | elements count ho hfits hread =>
      rw [hread]
      exact h.elements he ho
  | payload length ho hread =>
      rw [hread]
      exact h.payload he ho
  | inner ho hmore hread =>
      rw [hread]
      exact h.inner he ho hmore
  | last ho henough hread =>
      rw [hread] at hf ⊢
      obtain ⟨inMulti, hreader⟩ := completed_of_finish _ pending hf
      rw [hreader]
      exact ⟨_, .idle rfl rfl rfl⟩

/-- What a reader without a fault keeps: an account of its lines, and less of a bulk string and its
end than all of it. -/
structure Kept (r : Reader) : Prop where
  account : ∃ u, r.Account u
  room : ∀ length, r.payload = some length → r.partialLine.length < length + 2

theorem addLine_partialLine (r : Reader) (pending : List Command) (line : Line) :
    (Reader.addLine r pending line).reader.partialLine = r.partialLine := by
  cases addLine_cases r line with
  | unreadable fault ho hread => rw [hread]
  | tooMany count ho hexceeds hread => rw [hread]
  | elements count ho hfits hread => rw [hread]
  | payload length ho hread => rw [hread]
  | inner ho hmore hread => rw [hread]
  | last ho henough hread =>
      obtain ⟨lines, inMulti, -, hreader⟩ :=
        finish_reader { r with expected := 0, completed := r.completed ++ [line] } pending
      rw [hread, hreader]

/-- After a line nothing of the next one is there. -/
theorem kept_addLine (h : r.Account u) (he : r.Expects line)
    (hf : (Reader.addLine { r with partialLine := [], payload := none } pending line).fault =
      none) :
    (Reader.addLine { r with partialLine := [], payload := none } pending line).reader.Kept := by
  refine ⟨h.addLine he hf, fun length _ => ?_⟩
  rw [addLine_partialLine]
  exact Nat.succ_pos _

/-- Bytes of a line that has not ended do not count. -/
theorem Account.with_partialLine (h : r.Account u) (line : List UInt8) :
    Account { r with partialLine := line } u := ⟨h.spelled, h.holes, h.outside, h.inside⟩

theorem Kept.byte (h : r.Kept) (b : UInt8) (hf : (feed r pending [b]).fault = none) :
    (feed r pending [b]).reader.Kept := by
  obtain ⟨u, hu⟩ := h.account
  cases feed_byte r b with
  | text line hp hread =>
      rw [hread]
      refine ⟨⟨u, hu.with_partialLine line⟩, ?_⟩
      intro n hn
      exact absurd (hp.symm.trans hn) (by simp)
  | line header hp hends hread =>
      rw [hread] at hf ⊢
      exact kept_addLine hu hp hf
  | content length hp hmore hread =>
      rw [hread]
      refine ⟨⟨u, hu.with_partialLine _⟩, ?_⟩
      intro n hn
      obtain rfl : length = n := Option.some.inj (hp.symm.trans hn)
      simpa using hmore
  | string content hp hends hread =>
      rw [hread] at hf ⊢
      exact kept_addLine hu hp hf
  | refused length hp hfull hwrong hread =>
      rw [hread] at hf
      exact absurd hf (by simp)
  | again length hp hfull hread =>
      rw [hread] at hf
      exact absurd hf (by simp)

/-- **A reader without a fault keeps its account.** -/
theorem Kept.feed (h : r.Kept) {chunk : List UInt8} (hf : (feed r pending chunk).fault = none) :
    (feed r pending chunk).reader.Kept := feed_kept (fun _ _ b h hf => h.byte b hf) h hf

theorem Sound.kept (h : r.Sound) : r.Kept := by
  induction h with
  | fresh => exact ⟨⟨_, .idle rfl rfl rfl⟩, nofun⟩
  | fed _ hf ih => exact ih.feed hf

end Reader

/-! ## §4  The same lines have the same holes -/

/-- How many elements and strings are announced. -/
def Line.Opening.opens : Line.Opening → Nat
  | .nothing => 0
  | .elements count => count.toInt.toNat
  | .payload _ => 1

/-- How many elements and strings the line announces. -/
def Line.opens (line : Line) : Nat :=
  match line.opening with
  | .ok opening => opening.opens
  | .error _ => 0

/-- How many elements and strings the lines announce. -/
def opened : List Line → Nat
  | [] => 0
  | line :: lines => line.opens + opened lines

@[simp] theorem opened_nil : opened [] = 0 := rfl

@[simp] theorem opened_cons (line : Line) (lines : List Line) :
    opened (line :: lines) = line.opens + opened lines := rfl

@[simp] theorem opened_append (xs ys : List Line) : opened (xs ++ ys) = opened xs + opened ys := by
  induction xs with
  | nil => simp
  | cons line xs ih => simp [ih, Nat.add_assoc]

theorem opens_control {header : List UInt8} {opening : Line.Opening}
    (h : announced header = .ok opening) : (Line.control header).opens = opening.opens := by
  rw [Line.opens, opening_control, h]

mutual
/-- Every line of a whole value but the first one was announced by another. -/
theorem opened_lines : ∀ v : Spelling, v.Valid → opened v.lines + 1 = v.lines.length
  | .line header, hv => by
      rw [Spelling.Valid] at hv
      rw [Spelling.lines, opened_cons, opens_control hv]
      rfl
  | .bulk header content, hv => by
      rw [Spelling.Valid] at hv
      rw [Spelling.lines, opened_cons, opens_control hv]
      rfl
  | .array header elements, hv => by
      rw [Spelling.Valid] at hv
      obtain ⟨-, ⟨count, hcount, hlength⟩, hall⟩ := hv
      have ih := opened_linesAll elements hall
      rw [Spelling.lines, opened_cons, opens_control hcount, Line.Opening.opens, hlength,
        List.length_cons]
      omega

theorem opened_linesAll : ∀ vs : List Spelling, ValidAll vs →
    opened (linesAll vs) + vs.length = (linesAll vs).length
  | [], _ => rfl
  | v :: vs, h => by
      rw [ValidAll] at h
      have hv := opened_lines v h.1
      have hvs := opened_linesAll vs h.2
      rw [linesAll, opened_append, List.length_append, List.length_cons]
      omega
end

namespace OpenSpelling

/-- In an array under way more is announced: what is missing, and what has begun. -/
theorem Announces.opened_lines {a : OpenSpelling} {begun : Nat} (h : a.Announces begun) :
    opened a.lines + 1 = a.lines.length + a.missing + begun := by
  obtain ⟨⟨count, hcount, hlength⟩, hall⟩ := h
  have helements := opened_linesAll a.elements hall
  rw [lines, opened_cons, opens_control hcount, Line.Opening.opens, hlength, List.length_cons]
  omega

theorem opened_nestLines {arrays : List OpenSpelling} (h : NestValid 1 arrays) :
    opened (nestLines arrays) = (nestLines arrays).length + nestMissing arrays := by
  induction arrays with
  | nil => rfl
  | cons a outer ih =>
      have ha := h.1.opened_lines
      have houter := ih h.2
      rw [nestLines, nestMissing, opened_append, List.length_append]
      omega

end OpenSpelling

namespace Unfinished

variable {u w : Unfinished} {lines : List Line}

/-- What is announced beyond the lines that are there are the holes. -/
theorem Valid.opened_lines (h : u.Valid) (hne : u.lines ≠ []) :
    opened u.lines + 1 = u.lines.length + u.holes := by
  obtain ⟨arrays, bulk⟩ := u
  cases bulk with
  | some header =>
      obtain ⟨length, hann⟩ := h.bulk header rfl
      have hnest : NestValid 1 arrays := h.arrays
      have harrays := opened_nestLines hnest
      simp only [Unfinished.lines, holes, Option.toList_some, List.map_cons, List.map_nil,
        opened_append, opened_cons, opened_nil, opens_control hann, Line.Opening.opens,
        List.length_append, List.length_singleton]
      omega
  | none =>
      cases arrays with
      | nil => exact absurd rfl hne
      | cons a outer =>
          have hnest : NestValid 0 (a :: outer) := h.arrays
          have ha := hnest.1.opened_lines
          have houter := opened_nestLines hnest.2
          simp only [Unfinished.lines, holes, nestLines, nestMissing, Option.toList_none,
            List.map_nil, List.append_nil, opened_append, List.length_append, List.length_nil]
          omega

/-- A value that has not begun has no line and no hole; any other has both. -/
theorem Valid.lines_eq_nil_iff (h : u.Valid) : u.lines = [] ↔ u.holes = 0 := by
  obtain ⟨arrays, bulk⟩ := u
  cases bulk with
  | some header => simp [Unfinished.lines, holes]
  | none =>
      cases arrays with
      | nil => simp [Unfinished.lines, holes, nestLines, nestMissing]
      | cons a outer =>
          have hlacks : a.missing ≠ 0 := h.lacks rfl a rfl
          simp [Unfinished.lines, holes, nestLines, nestMissing, OpenSpelling.lines, hlacks]

/-- **The lines determine the number of holes.** -/
theorem Spells.holes_eq (hu : u.Spells lines) (hw : w.Spells lines) : u.holes = w.holes := by
  obtain ⟨hu, rfl⟩ := hu
  obtain ⟨hw, hlines⟩ := hw
  by_cases hnil : u.lines = []
  · rw [hu.lines_eq_nil_iff.mp hnil, hw.lines_eq_nil_iff.mp (hlines.trans hnil)]
  · have hcount := hu.opened_lines hnil
    have hcount' := hw.opened_lines (hlines ▸ hnil)
    rw [hlines] at hcount'
    omega

end Unfinished

end RespClient
