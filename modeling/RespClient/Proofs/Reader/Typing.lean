import Mathlib.Data.List.Forall2
import RespClient.Proofs.Connection.Faults

/-!
# Replies are well typed

Whatever bytes arrive, a command is told nothing but the value that is its turn on the stream. In a
transaction that is the first line of the value, as text. Elsewhere it is the value itself, and only
in the shape that the command expects; a null and an error line are for every command. A value in
another shape is never passed on: it stops the reading, and its command is told why (`Turns`).

- §1: what a spelling means: every array has the elements that its header announces, on each level.
- §2: what one command is told.
- §3: a stream, value after value, from between two values.
- §4: a reader in the middle of a value is one that has read the bytes of it.
-/

namespace RespClient

open Descent (announced readFirst readContent readMany readValue)
open Spelling (linesAll ValidAll dataAll)

/-! ## §1  What a spelling means -/

/-- The integer in the bytes, without the blanks around it. -/
def HasInteger (bytes : List UInt8) (i : Int64) : Prop :=
  Numeral.int64? (Blank.trim (Utf8.lossy bytes)) = some i

namespace Spelling

/-- The bytes of the value on the stream. -/
def written (v : Spelling) : List UInt8 := v.lines.flatMap Line.written

/-- The value that a spelling stands for. -/
inductive Means : Spelling → Data → Prop
  /-- A negative number of elements or bytes is a null. -/
  | null {shape : Shape} {text : List UInt8} {n : Int64} (header : shape = .array ∨ shape = .bulk)
      (number : HasInteger text n) (negative : n < 0) : Means (.line (shape.marker :: text)) .nil
  | integer {text : List UInt8} {i : Int64} (number : HasInteger text i) :
      Means (.line (Shape.integer.marker :: text)) (.integer i)
  /-- A line of any other kind is text. -/
  | text {marker : UInt8} {text : List UInt8} (noArray : marker ≠ Shape.array.marker)
      (noBulk : marker ≠ Shape.bulk.marker) (noInteger : marker ≠ Shape.integer.marker) :
      Means (.line (marker :: text)) (.text (Utf8.lossy text))
  | bulk {text content : List UInt8} {n : Int64} (number : HasInteger text n)
      (length : n.toInt = content.length) :
      Means (.bulk (Shape.bulk.marker :: text) content) (.text (Utf8.lossy content))
  | empty {text : List UInt8} (number : HasInteger text 0) :
      Means (.line (Shape.array.marker :: text)) (.array [])
  /-- An array has as many elements as its header says, each with the value that it stands for. -/
  | array {text : List UInt8} {vs : List Spelling} {values : List Data} {n : Int64}
      (number : HasInteger text n) (count : n.toInt = values.length)
      (elements : List.Forall₂ Means vs values) :
      Means (.array (Shape.array.marker :: text) vs) (.array values)

theorem means_of_lineData {header : List UInt8} {value : Data}
    (hv : announced header = .ok .nothing) (h : lineData header = .ok value) :
    (line header).Means value := by
  unfold lineData at h
  rcases announced_eq_nothing hv with
    ⟨text, count, rfl, hi, hle⟩ | ⟨text, length, rfl, hi, hneg⟩ | ⟨marker, text, rfl, ha, hb⟩
  · simp only [List.head?_cons, Option.bind_some, Shape.ofMarker?_marker, hi, Except.map] at h
    have hnumber : HasInteger text count := Line.integer_eq_ok hi
    obtain rfl := Except.ok.inj h
    by_cases hneg : count < 0
    · rw [if_pos hneg]
      exact .null (.inl rfl) hnumber hneg
    · rw [if_neg hneg]
      obtain rfl : count = 0 := Int64.le_antisymm hle (Int64.not_lt.mp hneg)
      exact .empty hnumber
  · simp only [List.head?_cons, Option.bind_some, Shape.ofMarker?_marker] at h
    obtain rfl := Except.ok.inj h
    exact .null (.inr rfl) (Line.integer_eq_ok hi) hneg
  · simp only [List.head?_cons, Option.bind_some] at h
    by_cases hinteger : marker = Shape.integer.marker
    · subst hinteger
      simp only [Shape.ofMarker?_marker] at h
      obtain ⟨i, hi, rfl⟩ := ok_of_map_eq_ok h
      exact .integer (Line.integer_eq_ok hi)
    · have htext : value = .text (Utf8.lossy text) := by
        cases hs : Shape.ofMarker? marker with
        | none =>
            rw [hs] at h
            exact (Except.ok.inj h).symm
        | some shape =>
            obtain rfl := Shape.marker_of_ofMarker? hs
            rw [hs] at h
            cases shape with
            | array => exact absurd rfl ha
            | bulk => exact absurd rfl hb
            | integer => exact absurd rfl hinteger
            | status | error => exact (Except.ok.inj h).symm
      rw [htext]
      exact .text ha hb hinteger

theorem toInt_of_toNat {n : Int64} {k : Nat} (hn : 0 ≤ n) (h : n.toInt.toNat = k) :
    n.toInt = k := by
  have hnonneg := Int64.le_iff_toInt_le.mp hn
  rw [Int64.toInt_zero] at hnonneg
  omega

mutual
/-- **A value that can be had is what the spelling stands for.** -/
theorem means_of_data : ∀ {v : Spelling} {value : Data}, v.Valid → v.data = .ok value →
    v.Means value
  | .line header, value, hv, h => by
      rw [Valid] at hv
      rw [data] at h
      exact means_of_lineData hv h
  | .bulk header content, value, hv, h => by
      rw [Valid] at hv
      rw [data] at h
      obtain ⟨text, length, rfl, hi, hge, hlength⟩ := announced_eq_payload hv
      obtain rfl := Except.ok.inj h
      exact .bulk (Line.integer_eq_ok hi) (toInt_of_toNat hge hlength)
  | .array header elements, value, hv, h => by
      rw [Valid] at hv
      rw [data] at h
      obtain ⟨-, ⟨count, hcount, hlength⟩, hall⟩ := hv
      obtain ⟨text, rfl, hi, hpos⟩ := announced_eq_elements hcount
      obtain ⟨values, hd, rfl⟩ := ok_of_map_eq_ok h
      have helements := means_of_dataAll hall hd
      refine .array (Line.integer_eq_ok hi) ?_ helements
      exact toInt_of_toNat (Int64.le_of_lt hpos) (hlength.trans helements.length_eq)

theorem means_of_dataAll : ∀ {vs : List Spelling} {values : List Data}, ValidAll vs →
    dataAll vs = .ok values → List.Forall₂ Means vs values
  | [], values, _, h => by
      rw [dataAll] at h
      obtain rfl := Except.ok.inj h
      exact .nil
  | v :: vs, values, hv, h => by
      rw [ValidAll] at hv
      rw [dataAll] at h
      cases hd : v.data with
      | error fault => exact absurd h (by simp [hd])
      | ok value =>
          rw [hd] at h
          obtain ⟨rest, hds, rfl⟩ := ok_of_map_eq_ok h
          exact .cons (means_of_data hv.1 hd) (means_of_dataAll hv.2 hds)
end

/-! ## §2  What one command is told -/

/-- What a command of this kind may be told when a value is its turn; `inMulti` tells whether
replies are acknowledgements for it. -/
inductive Tells (v : Spelling) (kind : Kind) : (inMulti : Bool) → Reply → Prop
  /-- In a transaction, the text of the first line. -/
  | acknowledged {marker : UInt8} {text : List UInt8} (first : v.header = marker :: text)
      (noError : marker ≠ Shape.error.marker) :
      Tells v kind true (.success (.text (Utf8.lossy text)))
  | refused {text : List UInt8} (first : v.header = Shape.error.marker :: text) :
      Tells v kind true (.fail (.text (Utf8.lossy text)))
  /-- A null, whatever the command expects. -/
  | nil (means : v.Means .nil) : Tells v kind false (.success .nil)
  | text {s : String} (expects : kind.shape = .status ∨ kind.shape = .bulk)
      (begins : v.header.head? = some kind.shape.marker) (means : v.Means (.text s)) :
      Tells v kind false (.success (.text s))
  | integer {i : Int64} (expects : kind.shape = .integer) (means : v.Means (.integer i)) :
      Tells v kind false (.success (.integer i))
  | array {values : List Data} (expects : kind.shape = .array) (means : v.Means (.array values)) :
      Tells v kind false (.success (.array values))
  /-- An error line, whatever the command expects. -/
  | fail {text : List UInt8} (line : v = .line (Shape.error.marker :: text)) :
      Tells v kind false (.fail (.text (Utf8.lossy text)))

/-- Why a value that is no null of a bulk cannot be told to a command: it begins with a marker that
the command does not expect, or one of its lines is to be an integer and is none. -/
def Misfits (v : Spelling) (kind : Kind) (fault : Fault) : Prop :=
  v.isNullBulk = false ∧
    ((∃ found, v.header.head? = some found ∧ found ≠ kind.shape.marker ∧
      found ≠ Shape.error.marker ∧ fault = .mismatch kind found) ∨ v.HasBadInteger fault)

variable {v : Spelling} {kind : Kind} {reply : Reply}

theorem tells_acknowledgement (hv : v.Valid) : v.Tells kind true v.acknowledgement := by
  obtain ⟨marker, text, hheader⟩ := hv.header_eq_cons
  unfold acknowledgement
  rw [hheader]
  by_cases herror : marker = Shape.error.marker
  · rw [List.head?_cons, herror, if_pos rfl]
    exact .refused (herror ▸ hheader)
  · rw [List.head?_cons, if_neg fun h => herror (Option.some.inj h)]
    exact .acknowledged hheader herror

/-- A value that begins with the marker of the command. -/
theorem tells_data {value : Data} (hv : v.Valid) (hd : v.data = .ok value)
    (hbegins : v.header.head? = some kind.shape.marker)
    (herror : kind.shape.marker ≠ Shape.error.marker) : v.Tells kind false (.success value) := by
  have hmeans := means_of_data hv hd
  have hshape {marker : UInt8} {text : List UInt8} {shape : Shape}
      (hhead : (marker :: text).head? = some kind.shape.marker) (h : marker = shape.marker) :
      kind.shape = shape :=
    Shape.marker_inj.mp ((Option.some.inj hhead).symm.trans h)
  cases hmeans with
  | null header number negative => exact .nil (.null header number negative)
  | integer number => exact .integer (hshape hbegins rfl) (.integer number)
  | text noArray noBulk noInteger =>
      refine .text (.inl ?_) hbegins (.text noArray noBulk noInteger)
      obtain rfl := Option.some.inj hbegins
      revert noArray noBulk noInteger herror
      generalize kind.shape = s
      cases s <;> simp
  | bulk number length => exact .text (.inr (hshape hbegins rfl)) hbegins (.bulk number length)
  | empty number => exact .array (hshape hbegins rfl) (.empty number)
  | array number count elements =>
      exact .array (hshape hbegins rfl) (.array number count elements)

/-- **A reply is the value, in the shape of the command.** -/
theorem tells_reply (hv : v.Valid) (h : v.reply kind = .ok reply) : v.Tells kind false reply := by
  obtain ⟨marker, text, hheader⟩ := hv.header_eq_cons
  have hhead : v.header.head? = some marker := by rw [hheader]; rfl
  simp only [Spelling.reply, hhead] at h
  split at h
  · next herror =>
      -- An error line announces nothing, so it is a value by itself.
      obtain rfl := Except.ok.inj h
      have hline := hv.eq_line (by rw [hhead, herror]; decide) (by rw [hhead, herror]; decide)
      rw [hheader, herror] at hline ⊢
      exact .fail hline
  · next herror =>
      split at h
      · next hnull =>
          obtain rfl := Except.ok.inj h
          cases v with
          | bulk header content => exact absurd hnull (by simp [isNullBulk])
          | array header elements => exact absurd hnull (by simp [isNullBulk])
          | line header =>
              refine .nil (means_of_data hv ?_)
              have hbulk : header.head? = some Shape.bulk.marker := by
                simpa [isNullBulk] using hnull
              rw [data, lineData, hbulk, Option.bind_some, Shape.ofMarker?_marker]
      · split at h
        · next hmarker =>
            obtain ⟨value, hd, rfl⟩ := ok_of_map_eq_ok h
            exact tells_data hv hd (hmarker ▸ hhead) (hmarker ▸ herror)
        · exact absurd h (by simp)

theorem tells_answer {inMulti : Bool} (hv : v.Valid) (h : v.answer inMulti kind = .ok reply) :
    v.Tells kind inMulti reply := by
  unfold answer at h
  cases inMulti with
  | true =>
      obtain rfl := Except.ok.inj h
      exact tells_acknowledgement hv
  | false => exact tells_reply hv h

/-- No fault is told as if it were a reply. -/
theorem Tells.status {inMulti : Bool} (h : v.Tells kind inMulti reply) :
    reply.status ≠ .error := by cases h <;> simp [Reply.status]

theorem Tells.fail_text {inMulti : Bool} {value : Data} (h : v.Tells kind inMulti reply)
    (hfail : reply = .fail value) : ∃ text, value = .text text := by
  subst hfail
  cases h with
  | refused => exact ⟨_, rfl⟩
  | fail => exact ⟨_, rfl⟩

theorem misfits_of_answer {inMulti : Bool} {fault : Fault} (hv : v.Valid)
    (h : v.answer inMulti kind = .error fault) : inMulti = false ∧ v.Misfits kind fault := by
  unfold answer at h
  cases inMulti with
  | true => exact absurd h (by simp)
  | false =>
      refine ⟨rfl, ?_, reply_eq_error hv h⟩
      have hnot : ¬ v.isNullBulk = true := by
        intro hnull
        obtain ⟨marker, text, hheader⟩ := hv.header_eq_cons
        by_cases herror : marker = Shape.error.marker <;>
          simp [Spelling.reply, hheader, hnull, herror] at h
      exact Bool.eq_false_iff.mpr hnot

/-- The bytes of values in a row are those of their lines. -/
theorem written_linesAll (vs : List Spelling) :
    (linesAll vs).flatMap Line.written = vs.flatMap written := by
  induction vs with
  | nil => rfl
  | cons v rest ih =>
      rw [linesAll, List.flatMap_append, ih]
      rfl

end Spelling

/-! ## §3  A stream, value after value -/

namespace Descent

theorem written_of_readContent {length : Nat} {bytes content rest : List UInt8}
    {shorter : rest.length < bytes.length + 1}
    (h : readContent length bytes = .done content rest shorter) :
    bytes = content ++ Frame.crlf ++ rest := by
  unfold readContent at h
  split at h
  · exact absurd h (by simp)
  · split at h
    · next hend =>
        simp only [Scan.done.injEq] at h
        obtain ⟨rfl, rfl⟩ := h
        rw [← hend, ← List.take_add, List.take_append_drop]
    · exact absurd h (by simp)

theorem written_of_readMany {size : Nat} {outstanding : Nat}
    (hread : ∀ (o : Nat) (bytes : List UInt8), bytes.length < size → ∀ v rest shorter,
      readValue o bytes = .done v rest shorter → bytes = v.written ++ rest) (n : Nat) :
    ∀ (bytes : List UInt8) (h : bytes.length < size) vs rest shorter,
      readMany (fun outstanding bytes _ => readValue outstanding bytes) outstanding n bytes h =
        .done vs rest shorter → bytes = vs.flatMap Spelling.written ++ rest := by
  induction n with
  | zero =>
      intro bytes h vs rest shorter hmany
      simp only [readMany, Scan.done.injEq] at hmany
      obtain ⟨rfl, rfl⟩ := hmany
      rfl
  | succ n ih =>
      intro bytes h vs rest shorter hmany
      rw [readMany] at hmany
      cases hv : readValue (outstanding + n) bytes with
      | short => exact absurd hmany (by simp [hv])
      | fault f => exact absurd hmany (by simp [hv])
      | done v rest' shorter' =>
          simp only [hv] at hmany
          obtain ⟨ws, _, hws, rfl⟩ := done_of_map_eq_done hmany
          rw [hread _ bytes h v rest' shorter' hv, ih rest' _ ws rest _ hws, List.flatMap_cons,
            List.append_assoc]

/-- What the plain reader finds, it has read. -/
theorem written_of_readValue {outstanding : Nat} {bytes rest : List UInt8} {v : Spelling}
    {shorter : rest.length < bytes.length}
    (h : readValue outstanding bytes = .done v rest shorter) : bytes = v.written ++ rest := by
  induction hlen : bytes.length using Nat.strong_induction_on
    generalizing outstanding bytes v rest with
  | _ size ih =>
      subst hlen
      rw [readValue] at h
      cases hfirst : readFirst bytes with
      | short => exact absurd h (by simp [hfirst])
      | fault f => exact absurd h (by simp [hfirst])
      | done first tail shorter =>
          obtain ⟨header, opening⟩ := first
          obtain ⟨hcut, -⟩ := cutCrlf_of_readFirst_done hfirst
          obtain ⟨hbytes, -⟩ := cutCrlf_eq_some hcut
          cases opening with
          | nothing =>
              simp only [hfirst, Scan.done.injEq] at h
              obtain ⟨rfl, rfl⟩ := h
              rw [hbytes]
              simp [Spelling.written, Spelling.lines, Line.written]
          | payload length =>
              simp only [hfirst] at h
              obtain ⟨content, _, hcontent, rfl⟩ := done_of_map_eq_done h
              rw [hbytes, written_of_readContent hcontent]
              simp [Spelling.written, Spelling.lines, Line.written]
          | elements count =>
              simp only [hfirst] at h
              split at h
              · obtain ⟨vs, _, hvs, rfl⟩ := done_of_map_eq_done h
                have hread : ∀ (o : Nat) (tail' : List UInt8), tail'.length < bytes.length →
                    ∀ v rest shorter, readValue o tail' = .done v rest shorter →
                      tail' = v.written ++ rest :=
                  fun o tail' hb v rest shorter hv => ih tail'.length hb hv rfl
                rw [hbytes, written_of_readMany hread _ tail _ vs _ _ hvs]
                simp [Spelling.written, Spelling.lines, Line.written, ← Spelling.written_linesAll]
              · exact absurd h (by simp)

end Descent

namespace Reader

/-- The commands answered take the values of a stream in turn. Each is told what its value is to
it; only the last may find a value that it cannot be told, and then it is told the fault. -/
inductive Turns :
    (inMulti : Bool) → List Spelling → List Answer → (spoilt : Option Fault) → Prop
  | none (inMulti : Bool) : Turns inMulti [] [] none
  | told {inMulti : Bool} {v : Spelling} {vs : List Spelling} {c : Command} {reply : Reply}
      {answers : List Answer} {spoilt : Option Fault} (valid : v.Valid)
      (tells : v.Tells c.kind (multiAfter inMulti c.kind) reply)
      (later : Turns (multiAfter inMulti c.kind) vs answers spoilt) :
      Turns inMulti (v :: vs) (⟨c, reply⟩ :: answers) spoilt
  | spoilt {inMulti : Bool} {v : Spelling} {c : Command} {fault : Fault} (valid : v.Valid)
      (outside : multiAfter inMulti c.kind = false) (misfits : v.Misfits c.kind fault) :
      Turns inMulti [v] [⟨c, .error fault.summary none⟩] (some fault)

/-- Reading a stream from between two values has come to `p`: the commands answered have taken the
values `vs`. If the last of them has met a fault, the reading has it. Otherwise it has come between
two values again, and the bytes that are left reach no command, so if there is a fault, it is in
the bytes and in the reply to nobody. -/
structure Divides (inMulti : Bool) (stream : List UInt8) (p : Progress) (vs : List Spelling)
    (rest : List UInt8) (spoilt : Option Fault) : Prop where
  stream : stream = vs.flatMap Spelling.written ++ rest
  turns : Turns inMulti vs p.answered spoilt
  fault : ∀ fault, spoilt = some fault → p.fault = some fault
  left : spoilt = none →
    feed { inMulti := p.reader.inMulti } p.pending rest = { p with answered := [] }

variable {r : Reader} {inMulti : Bool} {pending : List Command} {bytes : List UInt8}

theorem divides_of_silent (h : (feed { inMulti } pending bytes).answered = []) :
    Divides inMulti bytes (feed { inMulti } pending bytes) [] bytes none := by
  have hremembers : (feed { inMulti } pending bytes).reader.inMulti = inMulti := by
    have hr := feed_remembers { inMulti } pending bytes
    rw [Progress.Remembers, h] at hr
    exact hr
  have hpending : (feed { inMulti } pending bytes).pending = pending := by
    have hk := feed_keeps { inMulti } pending bytes
    rw [Progress.Keeps, h] at hk
    exact hk
  refine ⟨rfl, ?_, fun _ hnone => absurd hnone (by simp), fun _ => ?_⟩
  · rw [h]
    exact .none inMulti
  · rw [hremembers, hpending]
    generalize feed { inMulti } pending bytes = p at h hpending
    cases p
    rw [← h, ← hpending]

/-- **A stream, value after value**: one value is taken off the front with each command, whatever
the bytes are. -/
theorem exists_divides (inMulti : Bool) (pending : List Command) (bytes : List UInt8) :
    ∃ vs rest spoilt, Divides inMulti bytes (feed { inMulti } pending bytes) vs rest spoilt := by
  induction hlen : bytes.length using Nat.strong_induction_on
    generalizing inMulti pending bytes with
  | _ size ih =>
      subst hlen
      have hv := feed_value bytes [] 0 inMulti pending
      rw [Nat.zero_sub] at hv
      cases hread : readValue 0 bytes with
      | short =>
          rw [hread] at hv
          exact ⟨[], bytes, none, divides_of_silent hv.1⟩
      | fault f =>
          rw [hread] at hv
          exact ⟨[], bytes, none, divides_of_silent hv.1⟩
      | done v rest shorter =>
          have hvalid := Descent.valid_of_readValue hread
          have hwritten := Descent.written_of_readValue hread
          have hfeed := feed_of_readValue hread inMulti pending
          cases pending with
          | nil => exact ⟨[], bytes, none, divides_of_silent (by rw [hfeed]; rfl)⟩
          | cons c pending =>
              cases hanswer : v.answer (multiAfter inMulti c.kind) c.kind with
              | error f =>
                  obtain ⟨r, hfinish⟩ := finish_fault hvalid hanswer pending
                  obtain ⟨houtside, hmisfits⟩ := Spelling.misfits_of_answer hvalid hanswer
                  rw [hfinish, Progress.andThen_of_fault rfl] at hfeed
                  rw [hfeed]
                  refine ⟨[v], rest, some f, ?_, .spoilt hvalid houtside hmisfits, ?_, by simp⟩
                  · rw [hwritten, List.flatMap_singleton]
                  · intro fault hfault
                    exact hfault
              | ok reply =>
                  obtain ⟨vs, left, spoilt, hdivides⟩ :=
                    ih rest.length shorter (multiAfter inMulti c.kind) pending rest rfl
                  rw [finish_lines hvalid hanswer, Progress.andThen_of_ok rfl] at hfeed
                  rw [hfeed]
                  refine ⟨v :: vs, left, spoilt, ?_,
                    .told hvalid (Spelling.tells_answer hvalid hanswer) hdivides.turns,
                    hdivides.fault, hdivides.left⟩
                  rw [hwritten, hdivides.stream, List.flatMap_cons, List.append_assoc]

/-! ## §4  In the middle of a value -/

/-- Bytes that answer nothing do so whoever waits. -/
theorem feed_of_silent (h : feed { inMulti } pending bytes = { reader := r, pending })
    (queue : List Command) : feed { inMulti } queue bytes = { reader := r, pending := queue } := by
  cases hread : readValue 0 bytes with
  | short =>
      have hv := feed_value bytes [] 0 inMulti []
      rw [Nat.zero_sub, hread] at hv
      obtain ⟨hanswered, hpending, hfault⟩ := hv
      -- Nobody waits, and still nobody is missing; so all queues are like the empty one.
      have hmore (queue : List Command) : feed { inMulti } queue bytes =
          (feed { inMulti } [] bytes).more queue :=
        feed_more (by rw [hfault]; simp) queue
      have hreader := congrArg Progress.reader ((hmore pending).symm.trans h)
      rw [hmore queue]
      generalize feed { inMulti } [] bytes = p at hanswered hpending hfault hreader
      obtain ⟨reader, waiting, answered, fault⟩ := p
      dsimp only at hanswered hpending hfault
      subst hanswered hpending hfault
      exact congrArg (fun reader => ({ reader, pending := queue } : Progress)) hreader
  | fault f =>
      have hv := feed_value bytes [] 0 inMulti pending
      rw [Nat.zero_sub, hread, h] at hv
      exact absurd hv.2.2 (by simp)
  | done v rest shorter =>
      have hvalid := Descent.valid_of_readValue hread
      have hfeed := feed_of_readValue hread inMulti pending
      rw [h] at hfeed
      cases pending with
      | nil => exact absurd (congrArg Progress.fault hfeed) (by simp [finish, Progress.andThen])
      | cons c pending =>
          cases hanswer : v.answer (multiAfter inMulti c.kind) c.kind with
          | error f =>
              obtain ⟨r', hfinish⟩ := finish_fault hvalid hanswer pending
              rw [hfinish, Progress.andThen_of_fault rfl] at hfeed
              exact absurd (congrArg Progress.fault hfeed) (by simp)
          | ok reply =>
              rw [finish_lines hvalid hanswer, Progress.andThen_of_ok rfl] at hfeed
              exact absurd (congrArg Progress.answered hfeed) (by simp)

/-- The bytes were read from between two values, and the reader has come to where it is. -/
def Underway (r : Reader) (bytes : List UInt8) : Prop :=
  ∀ queue, feed { inMulti := r.inMulti } queue bytes = { reader := r, pending := queue }

theorem Underway.feed_append (h : r.Underway bytes) (pending : List Command)
    (chunk : List UInt8) :
    feed { inMulti := r.inMulti } pending (bytes ++ chunk) = feed r pending chunk := by
  rw [Reader.feed_append, h pending, Progress.start_andThen]

/-- A reader that has met no fault is between two values or in the middle of one. -/
theorem Sound.exists_underway (h : r.Sound) : ∃ bytes, r.Underway bytes := by
  induction h with
  | fresh => exact ⟨[], fun queue => feed_nil _ queue⟩
  | @fed r _ pending chunk ok ih =>
      obtain ⟨bytes, hbytes⟩ := ih
      obtain ⟨vs, rest, spoilt, hdivides⟩ := exists_divides r.inMulti pending (bytes ++ chunk)
      rw [hbytes.feed_append] at hdivides
      have hnone : spoilt = none := by
        cases spoilt with
        | none => rfl
        | some fault => exact absurd (ok.symm.trans (hdivides.fault fault rfl)) (by simp)
      have hleft : feed { inMulti := (feed r pending chunk).reader.inMulti }
          (feed r pending chunk).pending rest =
          { reader := (feed r pending chunk).reader,
            pending := (feed r pending chunk).pending } := by
        rw [hdivides.left hnone, ← ok]
      exact ⟨rest, feed_of_silent hleft⟩

theorem Turns.status {vs : List Spelling} {answers : List Answer} {spoilt : Option Fault}
    (h : Turns inMulti vs answers spoilt) :
    (∃ a ∈ answers, a.reply.status = .error) ↔ ∃ fault, spoilt = some fault := by
  induction h with
  | none => simp
  | told valid tells later ih =>
      rw [← ih]
      simp [tells.status]
  | @spoilt _ _ _ fault => simp [Reply.status]

theorem Turns.fail_text {vs : List Spelling} {answers : List Answer} {spoilt : Option Fault}
    (h : Turns inMulti vs answers spoilt) :
    ∀ a ∈ answers, ∀ data, a.reply = .fail data → ∃ text, data = .text text := by
  induction h with
  | none => simp
  | told valid tells later ih =>
      intro a ha data hdata
      rcases List.mem_cons.mp ha with rfl | ha
      · exact tells.fail_text hdata
      · exact ih a ha data hdata
  | spoilt => simp

/-- **Replies are well typed.** A reader that has met no fault is in the middle of some bytes. From
them on the commands answered take the values of the stream in turn, and each is told its value in
the form that its kind and the mode allow. A command is told a fault just when its value is what
spoils the reading; what the server failed is always text. -/
theorem replies_well_typed (h : r.Sound) (pending : List Command) (chunk : List UInt8) :
    ∃ underway vs rest spoilt, r.Underway underway ∧
      Divides r.inMulti (underway ++ chunk) (feed r pending chunk) vs rest spoilt ∧
      ((∃ a ∈ (feed r pending chunk).answered, a.reply.status = .error) ↔
        ∃ fault, spoilt = some fault) ∧
      ((feed r pending chunk).fault = none →
        ∀ a ∈ (feed r pending chunk).answered, a.reply.status ≠ .error) ∧
      ∀ a ∈ (feed r pending chunk).answered, ∀ data, a.reply = .fail data →
        ∃ text, data = .text text := by
  obtain ⟨underway, hunderway⟩ := h.exists_underway
  obtain ⟨vs, rest, spoilt, hdivides⟩ := exists_divides r.inMulti pending (underway ++ chunk)
  rw [hunderway.feed_append] at hdivides
  refine ⟨underway, vs, rest, spoilt, hunderway, hdivides, hdivides.turns.status, ?_,
    hdivides.turns.fail_text⟩
  intro hok a ha herror
  obtain ⟨fault, hspoilt⟩ := hdivides.turns.status.mp ⟨a, ha, herror⟩
  exact absurd (hok.symm.trans (hdivides.fault fault hspoilt)) (by simp)

/-- A reader in the middle of an array of two. -/
def inArray : Reader := (feed {} [] (Utf8.encode "*2\r\n$1\r\na")).reader

def waiting : List Command := [{ kind := .mget }, { kind := .set }, { kind := .incr }]

/-- The rest of the array, a status, and a line that is to be an integer. -/
def afterwards : List UInt8 := Utf8.encode "\r\n:7\r\n+OK\r\n:x\r\n"

/-- The third command spoils the reading, and the two before it are told their values. -/
theorem replies_well_typed_in_array :
    inArray.Sound ∧
    (∃ underway vs rest, inArray.Underway underway ∧
      Divides inArray.inMulti (underway ++ afterwards) (feed inArray waiting afterwards) vs rest
        (some (.invalidInteger "x"))) ∧
    (feed inArray waiting afterwards).answered.map (·.reply) =
      [.success (.array [.text "a", .integer 7]), .success (.text "OK"),
        .error "Invalid integer in response: x" none] := by
  have hsound : inArray.Sound := .fed .fresh (by decide +kernel)
  have hanswered : (feed inArray waiting afterwards).answered.map (·.reply) =
      [.success (.array [.text "a", .integer 7]), .success (.text "OK"),
        .error "Invalid integer in response: x" none] := by decide +kernel
  have hfault : (feed inArray waiting afterwards).fault = some (.invalidInteger "x") := by
    decide +kernel
  obtain ⟨underway, vs, rest, spoilt, hunderway, hdivides, hstatus, -, -⟩ :=
    replies_well_typed hsound waiting afterwards
  obtain ⟨a, ha, hreply⟩ : ∃ a ∈ (feed inArray waiting afterwards).answered,
      a.reply = .error "Invalid integer in response: x" none :=
    List.mem_map.mp (by rw [hanswered]; simp)
  obtain ⟨fault, rfl⟩ := hstatus.mp ⟨a, ha, by rw [hreply]; rfl⟩
  obtain rfl := Option.some.inj ((hdivides.fault fault rfl).symm.trans hfault)
  exact ⟨hsound, ⟨underway, vs, rest, hunderway, hdivides⟩, hanswered⟩

end Reader

end RespClient
