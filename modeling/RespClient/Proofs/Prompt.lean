import Mathlib.Data.List.DropRight
import Mathlib.Data.List.Nodup
import RespClient.Proofs.Command.Wrapping
import RespClient.Terminal

/-!
# What the prompt sends

What a line is depends on its first word alone, which is looked up in the table of commands
(`Entry.ofLine?`). What it comes to depends on the lines before it, of which only those count that
stand after the last `EXEC` or `DISCARD`: the first `MULTI` among them has opened a batch, and the
commands after it are the batch (`Entry.batch?`). So it can be said of all lines at once what has to
be asked for and what is printed (`requests`, `answers`).

The prompt goes from line to line and keeps nothing but the open batch. It asks for and prints just
that (`sends_what_was_committed`), because what it keeps is at every line the batch that the lines
so far have left open (`read_ofLine?`).

- §1: names and what they stand for.
- §2: requests and answers, from all lines.
- §3: the prompt, line by line.
- §4: what is written for a request.
-/

namespace RespClient

/-! ## §1  Names -/

namespace Kind

theorem nodup_tableNames : (all.map tableName).Nodup := by decide +kernel

theorem tableName_of_ofName? {name : String} {kind : Kind} (h : ofName? name = some kind) :
    kind.tableName = name.toUpper := by
  simpa using List.find?_some h

/-- **A name stands for the kind with that name in the table**, whatever the case of its letters. -/
theorem ofName?_eq_some_iff {name : String} {kind : Kind} :
    ofName? name = some kind ↔ kind.tableName = name.toUpper := by
  refine ⟨tableName_of_ofName?, fun h => ?_⟩
  obtain ⟨found, hfound⟩ : ∃ found, ofName? name = some found := by
    rw [← Option.isSome_iff_exists, ofName?, List.find?_isSome]
    exact ⟨kind, mem_all kind, decide_eq_true h⟩
  -- No two kinds have the same name in the table.
  have hsame : found.tableName = kind.tableName := (tableName_of_ofName? hfound).trans h.symm
  obtain rfl := List.inj_on_of_nodup_map nodup_tableNames (mem_all found) (mem_all kind) hsame
  exact hfound

end Kind

/-- What a line is to the prompt. -/
inductive Entry
  | multi
  | exec
  | discard
  | command (c : Command)
  | unknown (name : String)
  deriving DecidableEq, Repr

namespace Entry

def ofWords (name : String) (args : List String) : Entry :=
  match Kind.ofName? name with
  | some .multi => .multi
  | some .exec => .exec
  | some .discard => .discard
  | some kind => .command { kind, args }
  | none => .unknown name

/-- A line without a word is nothing. -/
def ofLine? (line : String) : Option Entry :=
  match Blank.words line with
  | [] => none
  | name :: args => some (ofWords name args)

/-- After this no batch is open. -/
def closes : Entry → Bool
  | .exec | .discard => true
  | _ => false

def command? : Entry → Option Command
  | .command c => some c
  | _ => none

/-! ## §2  Requests and answers -/

/-- The batch that these entries leave open, if they do: the commands after the first `MULTI` since
the last entry that closes. -/
def batch? (past : List Entry) : Option (List Command) :=
  match (past.rtakeWhile (! ·.closes)).dropWhile (· ≠ .multi) with
  | [] => none
  | _ :: batch => some (batch.filterMap command?)

/-- What an entry asks for after those before it: a command outside batches asks for itself, an
`EXEC` for the batch unless it is empty. -/
def request? (past : List Entry) (e : Entry) : Option Request :=
  match e, batch? past with
  | .command c, none => some (.single c)
  | .exec, some (c :: rest) => some (.transaction (c :: rest))
  | _, _ => none

/-- What is printed for an entry after those before it; `reply` answers what it asks for. -/
def answer (past : List Entry) (reply : Reply) (e : Entry) : String :=
  match e, batch? past with
  | .multi, some _ => "(error) ERR MULTI calls can not be nested"
  | .multi, none => "OK"
  | .exec, some [] => (Reply.success .nil).print
  | .exec, some (_ :: _) => reply.print
  | .exec, none => "(error) ERR EXEC without MULTI"
  | .discard, some _ => "OK"
  | .discard, none => "(error) ERR DISCARD without MULTI"
  | .command _, some _ => "QUEUED"
  | .command _, none => reply.print
  | .unknown name, _ =>
    (Reply.error ("Invalid or unsupported command provided: " ++ name) none).print

/-- Each entry, after those before it. -/
def withPast (es : List Entry) : List (List Entry × Entry) := es.mapIdx fun i e => (es.take i, e)

/-- All that has to be asked for, in order. -/
def requests (es : List Entry) : List Request := (withPast es).filterMap fun x => request? x.1 x.2

/-- All that has to be printed, in order. -/
def answers (replies : Nat → Reply) (es : List Entry) : List String :=
  (withPast es).map fun x => answer x.1 (replies (requests x.1).length) x.2

theorem withPast_concat (es : List Entry) (e : Entry) :
    withPast (es ++ [e]) = withPast es ++ [(es, e)] := by
  unfold withPast
  rw [List.mapIdx_concat, List.take_left]
  congr 1
  apply List.ext_getElem (by simp)
  intro i hi _
  have hi : i ≤ es.length := by
    rw [List.length_mapIdx] at hi
    exact hi.le
  simp [List.take_append_of_le_length hi]

theorem requests_concat (es : List Entry) (e : Entry) :
    requests (es ++ [e]) = requests es ++ (request? es e).toList := by
  unfold requests
  rw [withPast_concat, List.filterMap_append]
  cases h : request? es e <;> simp [h]

theorem answers_concat (replies : Nat → Reply) (es : List Entry) (e : Entry) :
    answers replies (es ++ [e]) =
      answers replies es ++ [answer es (replies (requests es).length) e] := by
  rw [answers, withPast_concat, List.map_append]
  rfl

/-- What an entry does to the open batch. -/
theorem batch?_concat (past : List Entry) (e : Entry) :
    batch? (past ++ [e]) =
      match e with
      | .exec | .discard => none
      | .multi => some ((batch? past).getD [])
      | .command c => (batch? past).map (· ++ [c])
      | .unknown _ => batch? past := by
  unfold batch?
  rw [List.rtakeWhile_concat]
  generalize past.rtakeWhile (! ·.closes) = since
  cases e with
  | exec => rfl
  | discard => rfl
  | multi =>
      simp only [closes, Bool.not_false, if_true, List.dropWhile_append]
      cases since.dropWhile (· ≠ .multi) <;> simp [command?]
  | command c =>
      simp only [closes, Bool.not_false, if_true, List.dropWhile_append]
      cases since.dropWhile (· ≠ .multi) <;> simp [command?]
  | unknown name =>
      simp only [closes, Bool.not_false, if_true, List.dropWhile_append]
      cases since.dropWhile (· ≠ .multi) <;> simp [command?]

end Entry

/-! ## §3  Line by line -/

namespace Prompt

open Entry

/-- What a first word can be. -/
inductive First (name : String) (args : List String) : Entry → Prop
  | multi (word : name.toUpper = "MULTI") : First name args .multi
  | exec (word : name.toUpper = "EXEC") : First name args .exec
  | discard (word : name.toUpper = "DISCARD") : First name args .discard
  | command (kind : Kind) (own : name.toUpper ∉ ["MULTI", "EXEC", "DISCARD"])
      (known : Kind.ofName? name = some kind)
      (kinds : kind ≠ .multi ∧ kind ≠ .exec ∧ kind ≠ .discard) :
      First name args (.command { kind, args })
  | unknown (own : name.toUpper ∉ ["MULTI", "EXEC", "DISCARD"])
      (unknown : Kind.ofName? name = none) : First name args (.unknown name)

/-- **The table and the prompt's own words agree.** -/
theorem first_ofWords (name : String) (args : List String) :
    First name args (ofWords name args) := by
  have hword : ∀ kind : Kind, Kind.ofName? name = some kind ↔ name.toUpper = kind.tableName :=
    fun kind => Kind.ofName?_eq_some_iff.trans eq_comm
  have hmulti := hword .multi
  have hexec := hword .exec
  have hdiscard := hword .discard
  have hown : Kind.ofName? name ≠ some .multi → Kind.ofName? name ≠ some .exec →
      Kind.ofName? name ≠ some .discard → name.toUpper ∉ ["MULTI", "EXEC", "DISCARD"] := by
    intro hm he hd hmem
    simp only [List.mem_cons, List.not_mem_nil, or_false] at hmem
    rcases hmem with h | h | h
    · exact hm (hmulti.mpr h)
    · exact he (hexec.mpr h)
    · exact hd (hdiscard.mpr h)
  unfold ofWords
  split
  · next h => exact .multi (hmulti.mp h)
  · next h => exact .exec (hexec.mp h)
  · next h => exact .discard (hdiscard.mp h)
  · next kind hm he hd h =>
      refine .command kind (hown ?_ ?_ ?_) h ⟨hm, he, hd⟩
      all_goals simpa [h]
  · next h => exact .unknown (hown (by simp [h]) (by simp [h]) (by simp [h])) h

/-- What the prompt does at an entry: it asks and prints the reply, or has the answer at once. -/
inductive Does (past : List Entry) (e : Entry) : Act → Prop
  | asks (request : Request) (asked : request? past e = some request)
      (prints : ∀ reply, answer past reply e = reply.print) : Does past e (.ask request)
  | tells (text : String) (asked : request? past e = none)
      (prints : ∀ reply, answer past reply e = text) : Does past e (.say text)

/-- A line that is none of the prompt's own. -/
theorem read_of_own {p : Prompt} {line name : String} {args : List String}
    (hwords : Blank.words line = name :: args)
    (hown : name.toUpper ∉ ["MULTI", "EXEC", "DISCARD"]) :
    p.read line = p.readCommand name args := by
  simp only [List.mem_cons, List.not_mem_nil, or_false, not_or] at hown
  obtain ⟨hm, he, hd⟩ := hown
  simp only [read, hwords]
  split
  case h_8 => rfl
  all_goals contradiction

/-- **The prompt keeps the open batch**, and does at each line what the lines so far make of it. -/
theorem read_ofLine? (past : List Entry) {line : String} {e : Entry} (h : ofLine? line = some e) :
    ∃ act, ({ batch := batch? past } : Prompt).read line =
      (act, { batch := batch? (past ++ [e]) }) ∧ Does past e act := by
  unfold ofLine? at h
  cases hwords : Blank.words line with
  | nil => exact absurd h (by simp [hwords])
  | cons name args =>
      rw [hwords] at h
      have hfirst := first_ofWords name args
      rw [Option.some.inj h] at hfirst
      rw [batch?_concat]
      cases hfirst with
      | multi word =>
          simp only [read, hwords, word]
          cases hb : batch? past with
          | none => exact ⟨_, rfl, .tells _ (by simp [request?]) (by simp [answer, hb])⟩
          | some batch => exact ⟨_, rfl, .tells _ (by simp [request?]) (by simp [answer, hb])⟩
      | exec word =>
          simp only [read, hwords, word]
          rcases hb : batch? past with _ | _ | ⟨c, rest⟩
          · exact ⟨_, rfl, .tells _ (by simp [request?, hb]) (by simp [answer, hb])⟩
          · exact ⟨_, rfl, .tells _ (by simp [request?, hb])
              (by simp [answer, hb, Transaction.emptyReply])⟩
          · exact ⟨_, rfl, .asks _ (by simp [request?, hb]) (by simp [answer, hb])⟩
      | discard word =>
          simp only [read, hwords, word]
          cases hb : batch? past with
          | none => exact ⟨_, rfl, .tells _ (by simp [request?]) (by simp [answer, hb])⟩
          | some batch => exact ⟨_, rfl, .tells _ (by simp [request?]) (by simp [answer, hb])⟩
      | command kind own known kinds =>
          rw [read_of_own hwords own]
          simp only [readCommand, Command.ofName, known]
          cases hb : batch? past with
          | none => exact ⟨_, rfl, .asks _ (by simp [request?, hb]) (by simp [answer, hb])⟩
          | some batch => exact ⟨_, rfl, .tells _ (by simp [request?, hb]) (by simp [answer, hb])⟩
      | unknown own unknown =>
          rw [read_of_own hwords own]
          simp only [readCommand, Command.ofName, unknown]
          exact ⟨_, rfl, .tells _ (by simp [request?]) (fun _ => rfl)⟩

/-- After some entries the prompt asks for and prints what comes to those and the ones before it. -/
theorem converse_after (replies : Nat → Reply) (past : List Entry) (lines : List String) :
    let t := ({ batch := batch? past } : Prompt).converse
      (fun n => replies ((requests past).length + n)) lines
    requests (past ++ lines.filterMap ofLine?) = requests past ++ t.asked ∧
      answers replies (past ++ lines.filterMap ofLine?) = answers replies past ++ t.printed := by
  induction lines generalizing past with
  | nil => simp [converse]
  | cons line rest ih =>
      cases he : ofLine? line with
      | none =>
          have hread : ({ batch := batch? past } : Prompt).read line =
              (.silent, { batch := batch? past }) := by
            unfold ofLine? at he
            split at he
            · next hwords => simp only [read, hwords]
            · exact absurd he (by simp)
          simp only [List.filterMap_cons_none he, converse, hread]
          exact ih past
      | some e =>
          obtain ⟨act, hread, hdoes⟩ := read_ofLine? past he
          have ih := ih (past ++ [e])
          rw [List.filterMap_cons_some he, List.append_cons]
          simp only [converse, hread]
          rw [requests_concat, answers_concat] at ih
          cases hdoes with
          | tells text asked prints =>
              simp only [asked, Option.toList_none, List.append_nil, prints] at ih
              exact ⟨ih.1, by rw [ih.2, List.append_assoc, List.singleton_append]⟩
          | asks request asked prints =>
              simp only [asked, Option.toList_some, List.length_append, List.length_singleton,
                prints, Nat.add_assoc, Nat.add_comm 1] at ih
              refine ⟨?_, ?_⟩
              · rw [ih.1, List.append_assoc, List.singleton_append]
              · rw [ih.2, List.append_assoc, List.singleton_append]
                rfl

end Prompt

/-! ## §4  What is written -/

namespace Request

/-- The commands the user has entered for it. -/
def commands : Request → List Command
  | .single c => [c]
  | .transaction batch => batch

/-- What is written for it: a command alone, or a batch between `MULTI` and `EXEC`. -/
def written (slot : Slot) : Request → List Command
  | .single c => [c.withSlot slot]
  | .transaction batch => { kind := .multi } :: (batch ++ [{ kind := .exec, slot := some slot }])

/-- It has commands, and none of them is one of the prompt's own words. -/
def Plain (request : Request) : Prop :=
  request.commands ≠ [] ∧
    ∀ c ∈ request.commands, c.kind ≠ .multi ∧ c.kind ≠ .exec ∧ c.kind ≠ .discard

/-- A plain request makes a submission that is written as it should be. -/
theorem Plain.submission {request : Request} (h : request.Plain) (slot : Slot) :
    ∃ s, request.submission slot = .ok s ∧ s.wrapped = request.written slot := by
  cases request with
  | single c => exact ⟨_, rfl, rfl⟩
  | transaction batch =>
      obtain ⟨hne, hkinds⟩ := h
      cases batch with
      | nil => exact absurd rfl hne
      | cons c rest =>
          refine ⟨_, rfl, Submission.wrapped_of_ne rfl fun d hd => ?_⟩
          obtain ⟨hmulti, hexec, -⟩ := hkinds d hd
          exact ⟨hmulti, hexec⟩

end Request

namespace Entry

/-- Words of the prompt's own never become commands. -/
theorem kinds_of_ofLine? {line : String} {c : Command} (h : ofLine? line = some (.command c)) :
    c.kind ≠ .multi ∧ c.kind ≠ .exec ∧ c.kind ≠ .discard := by
  unfold ofLine? at h
  split at h
  · exact absurd h (by simp)
  · next name args hwords =>
      have hfirst := Prompt.first_ofWords name args
      rw [Option.some.inj h] at hfirst
      cases hfirst with
      | command kind own known kinds => exact kinds

theorem mem_of_batch? {past : List Entry} {batch : List Command} (h : batch? past = some batch)
    {c : Command} (hc : c ∈ batch) : .command c ∈ past := by
  unfold batch? at h
  split at h
  · exact absurd h (by simp)
  · next first since hsince =>
      obtain rfl := Option.some.inj h
      obtain ⟨e, he, hcommand⟩ := List.mem_filterMap.mp hc
      have hmem : e ∈ past := by
        have hdrop : e ∈ (past.rtakeWhile (! ·.closes)).dropWhile (· ≠ .multi) := by
          rw [hsince]
          exact List.mem_cons_of_mem _ he
        exact (List.rtakeWhile_suffix _ past).subset ((List.dropWhile_suffix _).subset hdrop)
      cases e with
      | command d =>
          obtain rfl := Option.some.inj hcommand
          exact hmem
      | multi => exact absurd hcommand (by simp [command?])
      | exec => exact absurd hcommand (by simp [command?])
      | discard => exact absurd hcommand (by simp [command?])
      | unknown name => exact absurd hcommand (by simp [command?])

/-- A request has commands, and they were entered. -/
theorem commands_of_request? {past : List Entry} {e : Entry} {request : Request}
    (h : request? past e = some request) :
    request.commands ≠ [] ∧ ∀ c ∈ request.commands, .command c = e ∨ .command c ∈ past := by
  unfold request? at h
  split at h
  · obtain rfl := Option.some.inj h
    exact ⟨List.cons_ne_nil _ _, fun c hc => .inl (by rw [List.mem_singleton.mp hc])⟩
  · next c rest hbatch =>
      obtain rfl := Option.some.inj h
      exact ⟨List.cons_ne_nil _ _, fun c hc => .inr (mem_of_batch? hbatch hc)⟩
  · exact absurd h (by simp)

theorem commands_of_requests {es : List Entry} {request : Request} (h : request ∈ requests es) :
    request.commands ≠ [] ∧ ∀ c ∈ request.commands, .command c ∈ es := by
  obtain ⟨⟨past, e⟩, hmem, hrequest⟩ := List.mem_filterMap.mp h
  obtain ⟨i, hi, heq⟩ := List.mem_mapIdx.mp hmem
  obtain ⟨rfl, rfl⟩ := Prod.mk.inj heq
  obtain ⟨hne, hcommands⟩ := commands_of_request? hrequest
  refine ⟨hne, fun c hc => ?_⟩
  rcases hcommands c hc with h | h
  · rw [h]
    exact List.getElem_mem hi
  · exact List.mem_of_mem_take h

/-- What is asked for in a conversation is plain. -/
theorem plain_of_requests {lines : List String} {request : Request}
    (h : request ∈ requests (lines.filterMap ofLine?)) : request.Plain := by
  obtain ⟨hne, hcommands⟩ := commands_of_requests h
  refine ⟨hne, fun c hc => ?_⟩
  obtain ⟨line, -, hline⟩ := List.mem_filterMap.mp (hcommands c hc)
  exact kinds_of_ofLine? hline

theorem length_filterMap_ofLine? (lines : List String) :
    (lines.filterMap ofLine?).length = lines.countP fun line => Blank.words line ≠ [] := by
  rw [List.length_filterMap_eq_countP]
  congr 1
  funext line
  unfold ofLine?
  cases Blank.words line <;> rfl

end Entry

open Entry in
/-- **The prompt sends what its user committed**, for all lines and whatever the replies are: it
prints one answer for each line with a word and asks for just what the lines come to, in order. Each
request is a command that is none of the prompt's own words, or a batch of such, and what is written
for it is that command, or the batch between its `MULTI` and its `EXEC`; no `DISCARD` ever. What a
run prints are these answers. The case of letters never counts. -/
theorem sends_what_was_committed (replies : Nat → Reply) (lines : List String) :
    ({} : Prompt).converse replies lines =
        { printed := answers replies (lines.filterMap ofLine?)
          asked := requests (lines.filterMap ofLine?) } ∧
      (answers replies (lines.filterMap ofLine?)).length =
        lines.countP (fun line => Blank.words line ≠ []) ∧
      (∀ request ∈ requests (lines.filterMap ofLine?), request.Plain ∧
        ∀ slot, ∃ s, request.submission slot = .ok s ∧ s.wrapped = request.written slot) ∧
      (∀ settings input,
        (Terminal.run (.ok settings) input replies).stdout =
          String.join ((answers replies
            ((Terminal.readLines (Terminal.linesFrom [] input)).1.filterMap ofLine?)).map
              (· ++ "\n"))) ∧
      ∀ name kind, Kind.ofName? name = some kind ↔ kind.tableName = name.toUpper := by
  have hconverse : ∀ lines : List String, ({} : Prompt).converse replies lines =
      { printed := answers replies (lines.filterMap ofLine?)
        asked := requests (lines.filterMap ofLine?) } := by
    intro lines
    have hstart : (fun n => replies ((requests []).length + n)) = replies := by
      funext n
      exact congrArg replies (Nat.zero_add n)
    have h := Prompt.converse_after replies [] lines
    rw [hstart] at h
    exact congrArg₂ Prompt.Transcript.mk h.2.symm h.1.symm
  refine ⟨hconverse lines, ?_, ?_, ?_, fun name kind => Kind.ofName?_eq_some_iff⟩
  · rw [← length_filterMap_ofLine?, answers, withPast, List.length_map, List.length_mapIdx]
  · intro request h
    have hplain := plain_of_requests h
    exact ⟨hplain, hplain.submission⟩
  · intro settings input
    simp only [Terminal.run, hconverse]
    split <;> rfl

open Entry in
/-- A `MULTI` and a name that is none leave the open batch as it is. -/
example : requests (["multi", "get a", "Multi", "gat b", "set a 1", "", "exec", "discard", "ping",
      "multi", "del a"].filterMap ofLine?) =
    [.transaction [{ kind := .get, args := ["a"] }, { kind := .set, args := ["a", "1"] }],
      .single { kind := .ping }] := by decide +kernel

end RespClient
