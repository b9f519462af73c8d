/-!
# The command table

Every command the client can send: the name it is looked up by, the name it has on the
wire, and the shape of its reply.  Names of the table are unique; a wire name may serve
several entries, since `OBJECT` and `SORT` answer in different shapes by form.
-/

namespace RespClient

/-! ## §1  Reply shapes -/

/-- The shape of a reply, told by the marker its first line begins with. -/
inductive Shape
  | status
  | error
  | integer
  | bulk
  | array
  deriving DecidableEq, Repr

namespace Shape

def marker : Shape → UInt8
  | .status => 0x2B
  | .error => 0x2D
  | .integer => 0x3A
  | .bulk => 0x24
  | .array => 0x2A

def ofMarker? (b : UInt8) : Option Shape :=
  [status, error, integer, bulk, array].find? (·.marker = b)

theorem ofMarker?_marker (s : Shape) : ofMarker? s.marker = some s := by
  cases s <;> rfl

end Shape

/-! ## §2  The table -/

inductive Kind
  | append | auth | bitcount | bitop | blpop | brpop | brpoplpush | decr | decrby | del | discard
  | dump | echo | exec | exists | expire | expireat | flushall | flushdb | get | getbit
  | getrange | getset | hdel | hexists | hget | hgetall | hincrby | hincrbyfloat | hkeys | hlen
  | hmget | hmset | hset | hsetnx | hvals | incr | incrby | incrbyfloat | keys | lindex | linsert
  | llen | lpop | lpush | lpushx | lrange | lrem | lset | ltrim | mget | mset | msetnx | multi
  | objectIdletime | objectEncoding | objectRefcount | persist | pexpire | pexpireat | ping
  | psetex | pttl | publish | randomkey | rename | renamenx | rpop | rpoplpush | rpush | rpushx
  | sadd | scard | sdiff | sdiffstore | select | set | setbit | setex | setnx | setrange | sinter
  | sinterstore | sismember | smembers | smove | sort | sortWithStore | spop | srandmember | srem
  | strlen | sunion | sunionstore | ttl | type | zadd | zcard | zcount | zincrby | zinterstore
  | zrange | zrangebyscore | zrank | zrem | zremrangebyrank | zremrangebyscore | zrevrange
  | zrevrangebyscore | zrevrank | zscore | zunionstore
  deriving DecidableEq, Repr

namespace Kind

structure Entry where
  table : String
  wire : String
  shape : Shape

def entry : Kind → Entry
  | .append => ⟨"APPEND", "APPEND", .integer⟩
  | .auth => ⟨"AUTH", "AUTH", .status⟩
  | .bitcount => ⟨"BITCOUNT", "BITCOUNT", .integer⟩
  | .bitop => ⟨"BITOP", "BITOP", .integer⟩
  | .blpop => ⟨"BLPOP", "BLPOP", .array⟩
  | .brpop => ⟨"BRPOP", "BRPOP", .array⟩
  | .brpoplpush => ⟨"BRPOPLPUSH", "BRPOPLPUSH", .bulk⟩
  | .decr => ⟨"DECR", "DECR", .integer⟩
  | .decrby => ⟨"DECRBY", "DECRBY", .integer⟩
  | .del => ⟨"DEL", "DEL", .integer⟩
  | .discard => ⟨"DISCARD", "DISCARD", .status⟩
  | .dump => ⟨"DUMP", "DUMP", .bulk⟩
  | .echo => ⟨"ECHO", "ECHO", .bulk⟩
  | .exec => ⟨"EXEC", "EXEC", .array⟩
  | .exists => ⟨"EXISTS", "EXISTS", .integer⟩
  | .expire => ⟨"EXPIRE", "EXPIRE", .integer⟩
  | .expireat => ⟨"EXPIREAT", "EXPIREAT", .integer⟩
  | .flushall => ⟨"FLUSHALL", "FLUSHALL", .status⟩
  | .flushdb => ⟨"FLUSHDB", "FLUSHDB", .status⟩
  | .get => ⟨"GET", "GET", .bulk⟩
  | .getbit => ⟨"GETBIT", "GETBIT", .integer⟩
  | .getrange => ⟨"GETRANGE", "GETRANGE", .bulk⟩
  | .getset => ⟨"GETSET", "GETSET", .bulk⟩
  | .hdel => ⟨"HDEL", "HDEL", .integer⟩
  | .hexists => ⟨"HEXISTS", "HEXISTS", .integer⟩
  | .hget => ⟨"HGET", "HGET", .bulk⟩
  | .hgetall => ⟨"HGETALL", "HGETALL", .array⟩
  | .hincrby => ⟨"HINCRBY", "HINCRBY", .integer⟩
  | .hincrbyfloat => ⟨"HINCRBYFLOAT", "HINCRBYFLOAT", .bulk⟩
  | .hkeys => ⟨"HKEYS", "HKEYS", .array⟩
  | .hlen => ⟨"HLEN", "HLEN", .integer⟩
  | .hmget => ⟨"HMGET", "HMGET", .array⟩
  | .hmset => ⟨"HMSET", "HMSET", .status⟩
  | .hset => ⟨"HSET", "HSET", .integer⟩
  | .hsetnx => ⟨"HSETNX", "HSETNX", .integer⟩
  | .hvals => ⟨"HVALS", "HVALS", .array⟩
  | .incr => ⟨"INCR", "INCR", .integer⟩
  | .incrby => ⟨"INCRBY", "INCRBY", .integer⟩
  | .incrbyfloat => ⟨"INCRBYFLOAT", "INCRBYFLOAT", .bulk⟩
  | .keys => ⟨"KEYS", "KEYS", .array⟩
  | .lindex => ⟨"LINDEX", "LINDEX", .bulk⟩
  | .linsert => ⟨"LINSERT", "LINSERT", .integer⟩
  | .llen => ⟨"LLEN", "LLEN", .integer⟩
  | .lpop => ⟨"LPOP", "LPOP", .bulk⟩
  | .lpush => ⟨"LPUSH", "LPUSH", .integer⟩
  | .lpushx => ⟨"LPUSHX", "LPUSHX", .integer⟩
  | .lrange => ⟨"LRANGE", "LRANGE", .array⟩
  | .lrem => ⟨"LREM", "LREM", .integer⟩
  | .lset => ⟨"LSET", "LSET", .status⟩
  | .ltrim => ⟨"LTRIM", "LTRIM", .status⟩
  | .mget => ⟨"MGET", "MGET", .array⟩
  | .mset => ⟨"MSET", "MSET", .status⟩
  | .msetnx => ⟨"MSETNX", "MSETNX", .integer⟩
  | .multi => ⟨"MULTI", "MULTI", .status⟩
  | .objectIdletime => ⟨"OBJECT_IDLETIME", "OBJECT", .integer⟩
  | .objectEncoding => ⟨"OBJECT_ENCODING", "OBJECT", .bulk⟩
  | .objectRefcount => ⟨"OBJECT_REFCOUNT", "OBJECT", .integer⟩
  | .persist => ⟨"PERSIST", "PERSIST", .integer⟩
  | .pexpire => ⟨"PEXPIRE", "PEXPIRE", .integer⟩
  | .pexpireat => ⟨"PEXPIREAT", "PEXPIREAT", .integer⟩
  | .ping => ⟨"PING", "PING", .status⟩
  | .psetex => ⟨"PSETEX", "PSETEX", .status⟩
  | .pttl => ⟨"PTTL", "PTTL", .integer⟩
  | .publish => ⟨"PUBLISH", "PUBLISH", .integer⟩
  | .randomkey => ⟨"RANDOMKEY", "RANDOMKEY", .bulk⟩
  | .rename => ⟨"RENAME", "RENAME", .status⟩
  | .renamenx => ⟨"RENAMENX", "RENAMENX", .integer⟩
  | .rpop => ⟨"RPOP", "RPOP", .bulk⟩
  | .rpoplpush => ⟨"RPOPLPUSH", "RPOPLPUSH", .bulk⟩
  | .rpush => ⟨"RPUSH", "RPUSH", .integer⟩
  | .rpushx => ⟨"RPUSHX", "RPUSHX", .integer⟩
  | .sadd => ⟨"SADD", "SADD", .integer⟩
  | .scard => ⟨"SCARD", "SCARD", .integer⟩
  | .sdiff => ⟨"SDIFF", "SDIFF", .array⟩
  | .sdiffstore => ⟨"SDIFFSTORE", "SDIFFSTORE", .integer⟩
  | .select => ⟨"SELECT", "SELECT", .status⟩
  | .set => ⟨"SET", "SET", .status⟩
  | .setbit => ⟨"SETBIT", "SETBIT", .integer⟩
  | .setex => ⟨"SETEX", "SETEX", .status⟩
  | .setnx => ⟨"SETNX", "SETNX", .integer⟩
  | .setrange => ⟨"SETRANGE", "SETRANGE", .integer⟩
  | .sinter => ⟨"SINTER", "SINTER", .array⟩
  | .sinterstore => ⟨"SINTERSTORE", "SINTERSTORE", .integer⟩
  | .sismember => ⟨"SISMEMBER", "SISMEMBER", .integer⟩
  | .smembers => ⟨"SMEMBERS", "SMEMBERS", .array⟩
  | .smove => ⟨"SMOVE", "SMOVE", .integer⟩
  | .sort => ⟨"SORT", "SORT", .array⟩
  | .sortWithStore => ⟨"SORT_WITH_STORE", "SORT", .integer⟩
  | .spop => ⟨"SPOP", "SPOP", .bulk⟩
  | .srandmember => ⟨"SRANDMEMBER", "SRANDMEMBER", .bulk⟩
  | .srem => ⟨"SREM", "SREM", .integer⟩
  | .strlen => ⟨"STRLEN", "STRLEN", .integer⟩
  | .sunion => ⟨"SUNION", "SUNION", .array⟩
  | .sunionstore => ⟨"SUNIONSTORE", "SUNIONSTORE", .integer⟩
  | .ttl => ⟨"TTL", "TTL", .integer⟩
  | .type => ⟨"TYPE", "TYPE", .status⟩
  | .zadd => ⟨"ZADD", "ZADD", .integer⟩
  | .zcard => ⟨"ZCARD", "ZCARD", .integer⟩
  | .zcount => ⟨"ZCOUNT", "ZCOUNT", .integer⟩
  | .zincrby => ⟨"ZINCRBY", "ZINCRBY", .bulk⟩
  | .zinterstore => ⟨"ZINTERSTORE", "ZINTERSTORE", .integer⟩
  | .zrange => ⟨"ZRANGE", "ZRANGE", .array⟩
  | .zrangebyscore => ⟨"ZRANGEBYSCORE", "ZRANGEBYSCORE", .array⟩
  | .zrank => ⟨"ZRANK", "ZRANK", .integer⟩
  | .zrem => ⟨"ZREM", "ZREM", .integer⟩
  | .zremrangebyrank => ⟨"ZREMRANGEBYRANK", "ZREMRANGEBYRANK", .integer⟩
  | .zremrangebyscore => ⟨"ZREMRANGEBYSCORE", "ZREMRANGEBYSCORE", .integer⟩
  | .zrevrange => ⟨"ZREVRANGE", "ZREVRANGE", .array⟩
  | .zrevrangebyscore => ⟨"ZREVRANGEBYSCORE", "ZREVRANGEBYSCORE", .array⟩
  | .zrevrank => ⟨"ZREVRANK", "ZREVRANK", .integer⟩
  | .zscore => ⟨"ZSCORE", "ZSCORE", .bulk⟩
  | .zunionstore => ⟨"ZUNIONSTORE", "ZUNIONSTORE", .integer⟩

/-- Every kind, in the order of the table. -/
def all : List Kind :=
  [.append, .auth, .bitcount, .bitop, .blpop, .brpop, .brpoplpush, .decr, .decrby, .del,
   .discard, .dump, .echo, .exec, .exists, .expire, .expireat, .flushall, .flushdb, .get,
   .getbit, .getrange, .getset, .hdel, .hexists, .hget, .hgetall, .hincrby, .hincrbyfloat,
   .hkeys, .hlen, .hmget, .hmset, .hset, .hsetnx, .hvals, .incr, .incrby, .incrbyfloat, .keys,
   .lindex, .linsert, .llen, .lpop, .lpush, .lpushx, .lrange, .lrem, .lset, .ltrim, .mget, .mset,
   .msetnx, .multi, .objectIdletime, .objectEncoding, .objectRefcount, .persist, .pexpire,
   .pexpireat, .ping, .psetex, .pttl, .publish, .randomkey, .rename, .renamenx, .rpop,
   .rpoplpush, .rpush, .rpushx, .sadd, .scard, .sdiff, .sdiffstore, .select, .set, .setbit,
   .setex, .setnx, .setrange, .sinter, .sinterstore, .sismember, .smembers, .smove, .sort,
   .sortWithStore, .spop, .srandmember, .srem, .strlen, .sunion, .sunionstore, .ttl, .type,
   .zadd, .zcard, .zcount, .zincrby, .zinterstore, .zrange, .zrangebyscore, .zrank, .zrem,
   .zremrangebyrank, .zremrangebyscore, .zrevrange, .zrevrangebyscore, .zrevrank, .zscore,
   .zunionstore]

theorem mem_all (k : Kind) : k ∈ all := by
  cases k <;> decide

def tableName (k : Kind) : String := k.entry.table

def wireName (k : Kind) : String := k.entry.wire

def shape (k : Kind) : Shape := k.entry.shape

/-- The kind of a name, whatever the case of its ASCII letters. -/
def ofName? (name : String) : Option Kind :=
  let upper := name.toUpper
  all.find? (·.tableName = upper)

end Kind

end RespClient
