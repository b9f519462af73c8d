import Mathlib.Data.List.Nodup
import Mathlib.Logic.Function.Basic
import RespClient.Command.Call
import RespClient.Proofs.Command.Frames

/-!
# A frame tells its call

The methods lay out their arguments in many ways: words at fixed places, lists before them or after
them, optional words, counts and decimals, and three wire names that serve several methods. All the
same no two calls have one frame. What shows it is a reader of frames (`Call.ofFrame?`): it goes by
the wire name to the layout of the arguments, takes the words one after the other as the layout
says, and never asks what a key is. So a key may spell `LIMIT`, `STORE` or a number.

A float is read as far as it is written. Its text is what the reader gives to a function of the
caller's choice, and two calls whose floats have the same texts are `Alike`; only those share a
frame (`frame_eq_iff_alike`).

- §1: words, each with what it reads of what was written.
- §2: calls, by kind.
- §3: what is read of the arguments of a call is the call.
- §4: kinds by wire name, and frames.
- §5: calls that have one frame.
-/

namespace RespClient

/-! ## §1  Words -/

/-- A reader of words: what it makes of the first ones, and the words after them. -/
abbrev Words (α : Type) : Type := StateT (List String) Option α

namespace Words

def text : Words String := fun
  | [] => none
  | s :: rest => some (s, rest)

@[simp] theorem run_text (s : String) (rest : List String) :
    text.run (s :: rest) = some (s, rest) := rfl

/-- A word that `read` makes something of. -/
def via {α : Type} (read : String → Option α) : Words α := do
  let s ← text
  match read s with
  | some x => return x
  | none => failure

theorem run_via {α : Type} {read : String → Option α} {s : String} {x : α} (h : read s = some x)
    (rest : List String) : (via read).run (s :: rest) = some (x, rest) := by
  simp [via, h]

def integer : Words Int64 := via Numeral.int64?

@[simp] theorem run_integer (i : Int64) (rest : List String) :
    integer.run (Call.int i :: rest) = some (i, rest) :=
  run_via (Numeral.int64?_ofInt64 i) rest

def number : Words Nat := via fun s => Numeral.digits? s.toList

@[simp] theorem run_number (n : Nat) (rest : List String) :
    number.run (n.repr :: rest) = some (n, rest) := by
  refine run_via ?_ rest
  rw [Nat.toList_repr]
  exact Numeral.digits?_toDigits n

@[simp] theorem run_number_nat (n : UInt64) (rest : List String) :
    number.run (Call.nat n :: rest) = some (n.toNat, rest) :=
  run_number n.toNat rest

/-- One of these, told by its word. -/
def oneOf {α : Type} (word : α → String) (choices : List α) : Words α :=
  via fun s => choices.find? (word · = s)

def operation : Words BitOperation := oneOf BitOperation.word [.and, .or, .xor, .not]

@[simp] theorem run_operation (o : BitOperation) (rest : List String) :
    operation.run (o.word :: rest) = some (o, rest) := by
  refine run_via ?_ rest
  cases o <;> decide

def place : Words InsertPlace := oneOf InsertPlace.word [.before, .after]

@[simp] theorem run_place (p : InsertPlace) (rest : List String) :
    place.run (p.word :: rest) = some (p, rest) := by
  refine run_via ?_ rest
  cases p <;> decide

def bit : Words Bool := oneOf (fun b => if b then "1" else "0") [true, false]

@[simp] theorem run_bit (b : Bool) (rest : List String) :
    bit.run ((if b then "1" else "0") :: rest) = some (b, rest) := by
  refine run_via ?_ rest
  cases b <;> decide

/-- Is no word left? -/
def done : Words Bool := fun words => some (words.isEmpty, words)

@[simp] theorem run_done (words : List String) : done.run words = some (words.isEmpty, words) := rfl

/-- All words that are left. -/
def texts : Words (List String) := fun words => some (words, [])

@[simp] theorem run_texts (words : List String) : texts.run words = some (words, []) := rfl

/-- All words that are left, but for the last. -/
def textsButLast : Words (List String) := fun words =>
  words.getLast?.map fun last => (words.dropLast, [last])

@[simp] theorem run_textsButLast (words : List String) (last : String) :
    textsButLast.run (words ++ [last]) = some (words, [last]) := by
  simp [textsButLast, StateT.run]

/-- A number, and as many words as it says, which are all that is left. -/
def counted : Words (List String) := do
  let n ← number
  let words ← texts
  if words.length = n then return words else failure

@[simp] theorem run_counted (words : List String) :
    counted.run (Call.counted words) = some (words, []) := by
  simp [counted, Call.counted]

/-- Words two by two. -/
def pairUp {α : Type} (read : String → α) : List String → Option (List (α × String))
  | [] => some []
  | [_] => none
  | first :: second :: rest => (pairUp read rest).map ((read first, second) :: ·)

theorem pairUp_flatten {α : Type} (read : String → α) (items : List (String × String)) :
    pairUp read (Call.flatten items) = some (items.map (Prod.map read id)) := by
  induction items with
  | nil => rfl
  | cons item items ih =>
      show (pairUp read (Call.flatten items)).map _ = _
      rw [ih]
      rfl

/-- All words that are left, two by two. -/
def pairs {α : Type} (read : String → α) : Words (List (α × String)) := fun words =>
  (pairUp read words).map (·, [])

@[simp] theorem run_pairs_flatten {α : Type} (read : String → α) (items : List (String × String)) :
    (pairs read).run (Call.flatten items) = some (items.map (Prod.map read id), []) := by
  show (pairUp read (Call.flatten items)).map _ = _
  rw [pairUp_flatten]
  rfl

/-- The order of a `SORT`, where one is given. -/
def order : Words (Option SortOrder) := fun
  | [] => some (none, [])
  | s :: rest =>
    match [SortOrder.desc, .alpha].find? (·.word = s) with
    | some o => some (some o, rest)
    | none => some (none, s :: rest)

/-- An order is told from what follows it, which does not begin with an order. -/
theorem run_order (asked : Option SortOrder) (rest : List String)
    (h : ∀ o : SortOrder, rest.head? ≠ some o.word) :
    order.run (Call.ordering asked ++ rest) = some (asked, rest) := by
  cases asked with
  | some o => cases o <;> rfl
  | none =>
      cases rest with
      | nil => rfl
      | cons s rest =>
          have hother : [SortOrder.desc, .alpha].find? (·.word = s) = none := by
            rw [List.find?_eq_none]
            intro o _ ho
            exact h o (congrArg some (of_decide_eq_true ho).symm)
          show (match [SortOrder.desc, .alpha].find? (·.word = s) with
            | some o => some (some o, rest)
            | none => some (none, s :: rest)) = _
          rw [hother]

/-- The word for scores, where it is given. -/
def scores : Words Bool := do
  if ← done then return false
  oneOf (fun _ => "WITHSCORES") [true]

@[simp] theorem run_scores (given : Bool) :
    scores.run (Call.withScores given) = some (given, []) := by
  cases given <;> rfl

/-! ## §2  Calls -/

def bitcount : Words Call := do
  let key ← text
  if ← done then return .bitcount key
  return .bitcountRange key (← integer) (← integer)

def object : Words Call := do
  match ← text with
  | "IDLETIME" => return .objectIdletime (← text)
  | "ENCODING" => return .objectEncoding (← text)
  | "REFCOUNT" => return .objectRefcount (← text)
  | _ => failure

def sort : Words Call := do
  let key ← text
  let asked ← order
  if ← done then return .sort key asked
  match ← text with
  | "LIMIT" => return .sortLimit key asked (.ofNat (← number)) (.ofNat (← number))
  | "STORE" => return .sortStore key asked (← text)
  | _ => failure

/-- The call of a kind, with `score` to read floats. -/
def call (score : String → Binary64) : Kind → Words Call
  | .append => return .append (← text) (← text)
  | .bitcount => bitcount
  | .bitop => return .bitop (← operation) (← text) (← texts)
  | .decr => return .decr (← text)
  | .decrby => return .decrBy (← text) (← integer)
  | .get => return .get (← text)
  | .getbit => return .getbit (← text) (.ofNat (← number))
  | .getrange => return .getrange (← text) (← integer) (← integer)
  | .getset => return .getset (← text) (← text)
  | .incr => return .incr (← text)
  | .incrby => return .incrBy (← text) (← integer)
  | .incrbyfloat => return .incrByFloat (← text) (score (← text))
  | .mget => return .mget (← texts)
  | .mset => return .mset (← pairs id)
  | .msetnx => return .msetnx (← pairs id)
  | .psetex => return .psetex (← text) (.ofNat (← number)) (← text)
  | .set => return .set (← text) (← text)
  | .setbit => return .setbit (← text) (.ofNat (← number)) (← bit)
  | .setex => return .setex (← text) (.ofNat (← number)) (← text)
  | .setnx => return .setnx (← text) (← text)
  | .setrange => return .setrange (← text) (.ofNat (← number)) (← text)
  | .strlen => return .strlen (← text)
  | .del => return .del (← texts)
  | .dump => return .dump (← text)
  | .exists => return .exists (← text)
  | .expire => return .expire (← text) (.ofNat (← number))
  | .expireat => return .expireat (← text) (.ofNat (← number))
  | .keys => return .keys (← text)
  | .objectIdletime | .objectEncoding | .objectRefcount => object
  | .persist => return .persist (← text)
  | .pexpire => return .pexpire (← text) (.ofNat (← number))
  | .pexpireat => return .pexpireat (← text) (.ofNat (← number))
  | .pttl => return .pttl (← text)
  | .randomkey => return .randomkey
  | .rename => return .rename (← text) (← text)
  | .renamenx => return .renamenx (← text) (← text)
  | .sort | .sortWithStore => sort
  | .ttl => return .ttl (← text)
  | .type => return .keyType (← text)
  | .hdel => return .hdel (← text) (← texts)
  | .hexists => return .hexists (← text) (← text)
  | .hget => return .hget (← text) (← text)
  | .hgetall => return .hgetall (← text)
  | .hincrby => return .hincrBy (← text) (← text) (← integer)
  | .hincrbyfloat => return .hincrByFloat (← text) (← text) (score (← text))
  | .hkeys => return .hkeys (← text)
  | .hlen => return .hlen (← text)
  | .hmget => return .hmget (← text) (← texts)
  | .hmset => return .hmset (← text) (← pairs id)
  | .hset => return .hset (← text) (← text) (← text)
  | .hsetnx => return .hsetnx (← text) (← text) (← text)
  | .hvals => return .hvals (← text)
  | .blpop => do
    let keys ← textsButLast
    return .blpop (.ofNat (← number)) keys
  | .brpop => do
    let keys ← textsButLast
    return .brpop (.ofNat (← number)) keys
  | .brpoplpush => return .brpoplpush (← text) (← text) (.ofNat (← number))
  | .lindex => return .lindex (← text) (← integer)
  | .linsert => return .linsert (← text) (← place) (← text) (← text)
  | .llen => return .llen (← text)
  | .lpop => return .lpop (← text)
  | .lpush => return .lpush (← text) (← texts)
  | .lpushx => return .lpushx (← text) (← text)
  | .lrange => return .lrange (← text) (← integer) (← integer)
  | .lrem => return .lrem (← text) (← integer) (← text)
  | .lset => return .lset (← text) (← integer) (← text)
  | .ltrim => return .ltrim (← text) (← integer) (← integer)
  | .rpop => return .rpop (← text)
  | .rpoplpush => return .rpoplpush (← text) (← text)
  | .rpush => return .rpush (← text) (← texts)
  | .rpushx => return .rpushx (← text) (← text)
  | .sadd => return .sadd (← text) (← texts)
  | .scard => return .scard (← text)
  | .sdiff => return .sdiff (← texts)
  | .sdiffstore => return .sdiffstore (← text) (← texts)
  | .sinter => return .sinter (← texts)
  | .sinterstore => return .sinterstore (← text) (← texts)
  | .sismember => return .sismember (← text) (← text)
  | .smembers => return .smembers (← text)
  | .smove => return .smove (← text) (← text) (← text)
  | .spop => return .spop (← text)
  | .srandmember => return .srandmember (← text)
  | .srem => return .srem (← text) (← texts)
  | .sunion => return .sunion (← texts)
  | .sunionstore => return .sunionstore (← text) (← texts)
  | .zadd => return .zadd (← text) (← pairs score)
  | .zcard => return .zcard (← text)
  | .zcount => return .zcount (← text) (← text) (← text)
  | .zincrby => return .zincrBy (← text) (score (← text)) (← text)
  | .zinterstore => return .zinterstore (← text) (← counted)
  | .zrange => return .zrange (← text) (← integer) (← integer) (← scores)
  | .zrangebyscore => return .zrangebyscore (← text) (← text) (← text)
  | .zrank => return .zrank (← text) (← text)
  | .zrem => return .zrem (← text) (← texts)
  | .zremrangebyrank => return .zremrangebyrank (← text) (← integer) (← integer)
  | .zremrangebyscore => return .zremrangebyscore (← text) (← text) (← text)
  | .zrevrange => return .zrevrange (← text) (← integer) (← integer) (← scores)
  | .zrevrangebyscore => return .zrevrangebyscore (← text) (← text) (← text)
  | .zrevrank => return .zrevrank (← text) (← text)
  | .zscore => return .zscore (← text) (← text)
  | .zunionstore => return .zunionstore (← text) (← counted)
  | .auth => return .auth (← text)
  | .echo => return .echo (← text)
  | .ping => return .ping
  | .flushall => return .flushall
  | .flushdb => return .flushdb
  | .select => return .select (.ofNat (← number))
  | .publish => return .publish (← text) (← text)
  -- Transactions are not called by method.
  | .multi | .exec | .discard => failure

end Words

/-! ## §3  What is read of a call -/

namespace Call

/-- The call with other floats. -/
def mapFloats (f : Binary64 → Binary64) : Call → Call
  | .incrByFloat key increment => .incrByFloat key (f increment)
  | .hincrByFloat key field increment => .hincrByFloat key field (f increment)
  | .zadd key members => .zadd key (members.map (Prod.map f id))
  | .zincrBy key increment member => .zincrBy key (f increment) member
  | c => c

/-- Scores and members are pairs of words, too. -/
theorem scored_eq_flatten (members : List (Binary64 × String)) :
    scored members = flatten (members.map (Prod.map float id)) := by
  rw [scored, flatten, List.flatMap_map]
  rfl

end Call

namespace Words

variable (score : String → Binary64)

theorem run_sort (key : String) (asked : Option SortOrder) :
    sort.run (key :: Call.ordering asked) = some (.sort key asked, []) := by
  have horder := run_order asked [] (by simp)
  rw [List.append_nil] at horder
  simp [sort, horder]

theorem run_sort_limit (key : String) (asked : Option SortOrder) (offset count : UInt64) :
    sort.run (key :: (Call.ordering asked ++ ["LIMIT", Call.nat offset, Call.nat count])) =
      some (.sortLimit key asked offset count, []) := by
  have hlimit : ∀ o : SortOrder, some "LIMIT" ≠ some o.word := by
    rintro (_ | _) <;> decide
  simp [sort, run_order asked ("LIMIT" :: _) hlimit]

theorem run_sort_store (key : String) (asked : Option SortOrder) (destination : String) :
    sort.run (key :: (Call.ordering asked ++ ["STORE", destination])) =
      some (.sortStore key asked destination, []) := by
  have hstore : ∀ o : SortOrder, some "STORE" ≠ some o.word := by
    rintro (_ | _) <;> decide
  simp [sort, run_order asked ("STORE" :: _) hstore]

/-- **The arguments of a call are read as the call**, up to its floats, and no word is left. -/
theorem run_call (c : Call) :
    (call score c.kind).run c.args = some (c.mapFloats (score ∘ Call.float), []) := by
  -- A `SORT` is the only call in which a word that may be missing stands before other words.
  cases c with
  | sort key asked => exact run_sort key asked
  | sortLimit key asked offset count => exact run_sort_limit key asked offset count
  | sortStore key asked destination => exact run_sort_store key asked destination
  | zadd key members =>
      simp [call, Call.kind, Call.args, Call.mapFloats, Call.scored_eq_flatten, Prod.map_comp_map]
  | _ => simp [call, Call.kind, Call.args, Call.mapFloats, bitcount, object]

end Words

/-! ## §4  Frames -/

namespace Kind

/-- Of the kinds with a wire name in common, whose arguments are read alike, one. -/
def principal : Kind → Kind
  | .objectEncoding | .objectRefcount => .objectIdletime
  | .sortWithStore => .sort
  | k => k

theorem principal_principal (k : Kind) : k.principal.principal = k.principal := by
  cases k <;> rfl

theorem wireName_principal (k : Kind) : k.principal.wireName = k.wireName := by
  cases k <;> rfl

theorem nodup_principals : ((all.filter fun k => k.principal = k).map wireName).Nodup := by
  decide +kernel

/-- Only `OBJECT` and `SORT` are the wire names of several kinds. -/
theorem principal_eq_of_wireName {k l : Kind} (h : k.wireName = l.wireName) :
    k.principal = l.principal := by
  have hmem : ∀ k : Kind, k.principal ∈ all.filter fun k => k.principal = k := fun k =>
    List.mem_filter.mpr ⟨mem_all _, decide_eq_true (principal_principal k)⟩
  refine List.inj_on_of_nodup_map nodup_principals (hmem k) (hmem l) ?_
  rw [wireName_principal, wireName_principal, h]

/-- A kind with this wire name. -/
def ofWireName? (name : String) : Option Kind := all.find? (·.wireName = name)

theorem ofWireName?_wireName (k : Kind) :
    ∃ l, ofWireName? k.wireName = some l ∧ l.principal = k.principal := by
  obtain ⟨l, hl⟩ : ∃ l, ofWireName? k.wireName = some l := by
    rw [← Option.isSome_iff_exists, ofWireName?, List.find?_isSome]
    exact ⟨k, mem_all k, decide_eq_true rfl⟩
  exact ⟨l, hl, principal_eq_of_wireName (by simpa using List.find?_some hl)⟩

end Kind

theorem Words.call_principal (score : String → Binary64) (k : Kind) :
    call score k.principal = call score k := by
  cases k <;> rfl

namespace Call

variable {score : String → Binary64} {c d : Call} {x y : Command}

/-- The call of these words: the wire name, and the arguments to the last. -/
def ofWords? (score : String → Binary64) : List String → Option Call
  | [] => none
  | name :: args => do
    let kind ← Kind.ofWireName? name
    match ← (Words.call score kind).run args with
    | (c, []) => some c
    | _ => none

theorem ofWords?_args (score : String → Binary64) (c : Call) :
    ofWords? score (c.kind.wireName :: c.args) = some (c.mapFloats (score ∘ float)) := by
  obtain ⟨l, hl, hprincipal⟩ := Kind.ofWireName?_wireName c.kind
  have hsame : Words.call score l = Words.call score c.kind := by
    rw [← Words.call_principal, hprincipal, Words.call_principal]
  simp [ofWords?, hl, hsame, Words.run_call]

/-- The call that a frame was made of, with `score` to read floats. -/
def ofFrame? (score : String → Binary64) (bytes : List UInt8) : Option Call :=
  match Frame.readRequest bytes with
  | some (tokens, []) => ofWords? score (tokens.map Utf8.lossy)
  | _ => none

theorem ofFrame?_frame (score : String → Binary64) (x : Command) :
    ofFrame? score x.frame = ofWords? score (x.kind.wireName :: x.args) := by
  have hread := Frame.readRequest_request x.tokens []
  rw [List.append_nil] at hread
  have hwords : x.tokens.map Utf8.lossy = x.kind.wireName :: x.args := by
    simp [Command.tokens, Utf8.lossy_encode, Function.comp_def]
  rw [ofFrame?, Command.frame, hread]
  exact congrArg (ofWords? score) hwords

theorem command_eq (h : c.command = .ok x) : x = { kind := c.kind, args := c.args } := by
  unfold command at h
  split at h
  · cases h
  · exact (Except.ok.inj h).symm

/-- **A call is read off its frame.** -/
theorem ofFrame?_command (score : String → Binary64) (h : c.command = .ok x) :
    ofFrame? score x.frame = some (c.mapFloats (score ∘ float)) := by
  rw [command_eq h, ofFrame?_frame]
  exact ofWords?_args score c

/-! ## §5  Calls with one frame -/

/-- The same call, floats being told by their texts. -/
inductive Alike : Call → Call → Prop
  | refl (c : Call) : Alike c c
  | incrByFloat (key : String) {a b : Binary64} (h : float a = float b) :
      Alike (.incrByFloat key a) (.incrByFloat key b)
  | hincrByFloat (key field : String) {a b : Binary64} (h : float a = float b) :
      Alike (.hincrByFloat key field a) (.hincrByFloat key field b)
  | zadd (key : String) {as bs : List (Binary64 × String)}
      (h : as.map (Prod.map float id) = bs.map (Prod.map float id)) :
      Alike (.zadd key as) (.zadd key bs)
  | zincrBy (key member : String) {a b : Binary64} (h : float a = float b) :
      Alike (.zincrBy key a member) (.zincrBy key b member)

namespace Alike

theorem symm (h : Alike c d) : Alike d c := by
  cases h with
  | refl => exact .refl _
  | incrByFloat key h => exact .incrByFloat key h.symm
  | hincrByFloat key field h => exact .hincrByFloat key field h.symm
  | zadd key h => exact .zadd key h.symm
  | zincrBy key member h => exact .zincrBy key member h.symm

theorem trans {e : Call} (h : Alike c d) (hde : Alike d e) : Alike c e := by
  cases h with
  | refl => exact hde
  | incrByFloat key h => cases hde with
    | refl => exact .incrByFloat key h
    | incrByFloat _ hde => exact .incrByFloat key (h.trans hde)
  | hincrByFloat key field h => cases hde with
    | refl => exact .hincrByFloat key field h
    | hincrByFloat _ _ hde => exact .hincrByFloat key field (h.trans hde)
  | zadd key h => cases hde with
    | refl => exact .zadd key h
    | zadd _ hde => exact .zadd key (h.trans hde)
  | zincrBy key member h => cases hde with
    | refl => exact .zincrBy key member h
    | zincrBy _ _ hde => exact .zincrBy key member (h.trans hde)

theorem kind_eq (h : Alike c d) : c.kind = d.kind := by
  cases h <;> rfl

theorem args_eq (h : Alike c d) : c.args = d.args := by
  cases h with
  | refl => rfl
  | incrByFloat key h => rw [args, args, h]
  | hincrByFloat key field h => rw [args, args, h]
  | zadd key h => rw [args, args, scored_eq_flatten, scored_eq_flatten, h]
  | zincrBy key member h => rw [args, args, h]

end Alike

/-- Other floats with the same texts. -/
theorem alike_mapFloats {f : Binary64 → Binary64} (hf : ∀ a, float (f a) = float a) (c : Call) :
    Alike c (c.mapFloats f) := by
  have htexts : ∀ members : List (Binary64 × String),
      members.map (Prod.map float id) = (members.map (Prod.map f id)).map (Prod.map float id) := by
    intro members
    rw [List.map_map]
    exact List.map_congr_left fun item _ => Prod.ext (hf item.1).symm rfl
  unfold mapFloats
  split
  · exact .incrByFloat _ (hf _).symm
  · exact .hincrByFloat _ _ (hf _).symm
  · exact .zadd _ (htexts _)
  · exact .zincrBy _ _ (hf _).symm
  · exact .refl _

/-- **Two calls have one frame only if they are the same call**, floats being told by their
texts. -/
theorem frame_eq_iff_alike (hc : c.command = .ok x) (hd : d.command = .ok y) :
    x.frame = y.frame ↔ Alike c d := by
  constructor
  · intro hframe
    -- A float of the same text as the one that was written stands for all of them.
    have hany : Nonempty Binary64 := ⟨⟨0⟩⟩
    let score : String → Binary64 := Function.invFun float
    have htext : ∀ a, float ((score ∘ float) a) = float a := fun a =>
      Function.invFun_eq ⟨a, rfl⟩
    have hsame : c.mapFloats (score ∘ float) = d.mapFloats (score ∘ float) := by
      rw [← Option.some.injEq, ← ofFrame?_command score hc, hframe, ofFrame?_command score hd]
    exact (alike_mapFloats htext c).trans (hsame ▸ (alike_mapFloats htext d).symm)
  · intro h
    rw [command_eq hc, command_eq hd, h.kind_eq, h.args_eq]

end Call

end RespClient
