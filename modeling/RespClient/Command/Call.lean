import RespClient.Command.Basic
import RespClient.Decimal.Shortest

/-!
# Typed calls

The operations with the arguments they take, one constructor each.  A call is turned
into a command by three readings: its kind, the argument list in wire order, and whether
a list that must have an item has none.  Numbers and scores are written in decimal, so
nothing of a call is lost in its arguments.
-/

namespace RespClient

/-! ## §1  Words among the arguments -/

/-- How `BITOP` combines its sources. -/
inductive BitOperation
  | and
  | or
  | xor
  | not
  deriving DecidableEq, Repr

def BitOperation.word : BitOperation → String
  | .and => "AND"
  | .or => "OR"
  | .xor => "XOR"
  | .not => "NOT"

/-- How `SORT` orders. -/
inductive SortOrder
  | desc
  | alpha
  deriving DecidableEq, Repr

def SortOrder.word : SortOrder → String
  | .desc => "DESC"
  | .alpha => "ALPHA"

/-- On which side of the pivot `LINSERT` puts the value. -/
inductive InsertPlace
  | before
  | after
  deriving DecidableEq, Repr

def InsertPlace.word : InsertPlace → String
  | .before => "BEFORE"
  | .after => "AFTER"

/-! ## §2  The calls -/

/-- A call of one of the supported operations. -/
inductive Call
  -- Strings
  | append (key value : String)
  | bitcount (key : String)
  | bitcountRange (key : String) (start stop : Int64)
  | bitop (operation : BitOperation) (destination : String) (keys : List String)
  | decr (key : String)
  | decrBy (key : String) (decrement : Int64)
  | get (key : String)
  | getbit (key : String) (offset : UInt64)
  | getrange (key : String) (start stop : Int64)
  | getset (key value : String)
  | incr (key : String)
  | incrBy (key : String) (increment : Int64)
  | incrByFloat (key : String) (increment : Binary64)
  | mget (keys : List String)
  | mset (pairs : List (String × String))
  | msetnx (pairs : List (String × String))
  | psetex (key : String) (milliseconds : UInt64) (value : String)
  | set (key value : String)
  | setbit (key : String) (offset : UInt64) (bit : Bool)
  | setex (key : String) (seconds : UInt64) (value : String)
  | setnx (key value : String)
  | setrange (key : String) (offset : UInt64) (value : String)
  | strlen (key : String)
  -- Keys
  | del (keys : List String)
  | dump (key : String)
  | exists (key : String)
  | expire (key : String) (seconds : UInt64)
  | expireat (key : String) (timestamp : UInt64)
  | keys (pattern : String)
  | objectIdletime (key : String)
  | objectEncoding (key : String)
  | objectRefcount (key : String)
  | persist (key : String)
  | pexpire (key : String) (milliseconds : UInt64)
  | pexpireat (key : String) (timestamp : UInt64)
  | pttl (key : String)
  | randomkey
  | rename (key newKey : String)
  | renamenx (key newKey : String)
  | sort (key : String) (order : Option SortOrder)
  | sortLimit (key : String) (order : Option SortOrder) (offset count : UInt64)
  | sortStore (key : String) (order : Option SortOrder) (destination : String)
  | ttl (key : String)
  | keyType (key : String)
  -- Hashes
  | hdel (key : String) (fields : List String)
  | hexists (key field : String)
  | hget (key field : String)
  | hgetall (key : String)
  | hincrBy (key field : String) (increment : Int64)
  | hincrByFloat (key field : String) (increment : Binary64)
  | hkeys (key : String)
  | hlen (key : String)
  | hmget (key : String) (fields : List String)
  | hmset (key : String) (pairs : List (String × String))
  | hset (key field value : String)
  | hsetnx (key field value : String)
  | hvals (key : String)
  -- Lists
  | blpop (timeout : UInt64) (keys : List String)
  | brpop (timeout : UInt64) (keys : List String)
  | brpoplpush (source destination : String) (timeout : UInt64)
  | lindex (key : String) (index : Int64)
  | linsert (key : String) (place : InsertPlace) (pivot value : String)
  | llen (key : String)
  | lpop (key : String)
  | lpush (key : String) (values : List String)
  | lpushx (key value : String)
  | lrange (key : String) (start stop : Int64)
  | lrem (key : String) (count : Int64) (value : String)
  | lset (key : String) (index : Int64) (value : String)
  | ltrim (key : String) (start stop : Int64)
  | rpop (key : String)
  | rpoplpush (source destination : String)
  | rpush (key : String) (values : List String)
  | rpushx (key value : String)
  -- Sets
  | sadd (key : String) (members : List String)
  | scard (key : String)
  | sdiff (keys : List String)
  | sdiffstore (destination : String) (keys : List String)
  | sinter (keys : List String)
  | sinterstore (destination : String) (keys : List String)
  | sismember (key member : String)
  | smembers (key : String)
  | smove (source destination member : String)
  | spop (key : String)
  | srandmember (key : String)
  | srem (key : String) (members : List String)
  | sunion (keys : List String)
  | sunionstore (destination : String) (keys : List String)
  -- Sorted sets
  | zadd (key : String) (members : List (Binary64 × String))
  | zcard (key : String)
  | zcount (key min max : String)
  | zincrBy (key : String) (increment : Binary64) (member : String)
  | zinterstore (destination : String) (keys : List String)
  | zrange (key : String) (start stop : Int64) (scores : Bool)
  | zrangebyscore (key min max : String)
  | zrank (key member : String)
  | zrem (key : String) (members : List String)
  | zremrangebyrank (key : String) (start stop : Int64)
  | zremrangebyscore (key min max : String)
  | zrevrange (key : String) (start stop : Int64) (scores : Bool)
  | zrevrangebyscore (key max min : String)
  | zrevrank (key member : String)
  | zscore (key member : String)
  | zunionstore (destination : String) (keys : List String)
  -- Server
  | auth (password : String)
  | echo (message : String)
  | ping
  | flushall
  | flushdb
  | select (database : UInt32)
  | publish (channel message : String)
  deriving DecidableEq, Repr

namespace Call

def kind : Call → Kind
  | .append .. => .append
  | .bitcount .. => .bitcount
  | .bitcountRange .. => .bitcount
  | .bitop .. => .bitop
  | .decr .. => .decr
  | .decrBy .. => .decrby
  | .get .. => .get
  | .getbit .. => .getbit
  | .getrange .. => .getrange
  | .getset .. => .getset
  | .incr .. => .incr
  | .incrBy .. => .incrby
  | .incrByFloat .. => .incrbyfloat
  | .mget .. => .mget
  | .mset .. => .mset
  | .msetnx .. => .msetnx
  | .psetex .. => .psetex
  | .set .. => .set
  | .setbit .. => .setbit
  | .setex .. => .setex
  | .setnx .. => .setnx
  | .setrange .. => .setrange
  | .strlen .. => .strlen
  | .del .. => .del
  | .dump .. => .dump
  | .exists .. => .exists
  | .expire .. => .expire
  | .expireat .. => .expireat
  | .keys .. => .keys
  | .objectIdletime .. => .objectIdletime
  | .objectEncoding .. => .objectEncoding
  | .objectRefcount .. => .objectRefcount
  | .persist .. => .persist
  | .pexpire .. => .pexpire
  | .pexpireat .. => .pexpireat
  | .pttl .. => .pttl
  | .randomkey => .randomkey
  | .rename .. => .rename
  | .renamenx .. => .renamenx
  | .sort .. => .sort
  | .sortLimit .. => .sort
  | .sortStore .. => .sortWithStore
  | .ttl .. => .ttl
  | .keyType .. => .type
  | .hdel .. => .hdel
  | .hexists .. => .hexists
  | .hget .. => .hget
  | .hgetall .. => .hgetall
  | .hincrBy .. => .hincrby
  | .hincrByFloat .. => .hincrbyfloat
  | .hkeys .. => .hkeys
  | .hlen .. => .hlen
  | .hmget .. => .hmget
  | .hmset .. => .hmset
  | .hset .. => .hset
  | .hsetnx .. => .hsetnx
  | .hvals .. => .hvals
  | .blpop .. => .blpop
  | .brpop .. => .brpop
  | .brpoplpush .. => .brpoplpush
  | .lindex .. => .lindex
  | .linsert .. => .linsert
  | .llen .. => .llen
  | .lpop .. => .lpop
  | .lpush .. => .lpush
  | .lpushx .. => .lpushx
  | .lrange .. => .lrange
  | .lrem .. => .lrem
  | .lset .. => .lset
  | .ltrim .. => .ltrim
  | .rpop .. => .rpop
  | .rpoplpush .. => .rpoplpush
  | .rpush .. => .rpush
  | .rpushx .. => .rpushx
  | .sadd .. => .sadd
  | .scard .. => .scard
  | .sdiff .. => .sdiff
  | .sdiffstore .. => .sdiffstore
  | .sinter .. => .sinter
  | .sinterstore .. => .sinterstore
  | .sismember .. => .sismember
  | .smembers .. => .smembers
  | .smove .. => .smove
  | .spop .. => .spop
  | .srandmember .. => .srandmember
  | .srem .. => .srem
  | .sunion .. => .sunion
  | .sunionstore .. => .sunionstore
  | .zadd .. => .zadd
  | .zcard .. => .zcard
  | .zcount .. => .zcount
  | .zincrBy .. => .zincrby
  | .zinterstore .. => .zinterstore
  | .zrange .. => .zrange
  | .zrangebyscore .. => .zrangebyscore
  | .zrank .. => .zrank
  | .zrem .. => .zrem
  | .zremrangebyrank .. => .zremrangebyrank
  | .zremrangebyscore .. => .zremrangebyscore
  | .zrevrange .. => .zrevrange
  | .zrevrangebyscore .. => .zrevrangebyscore
  | .zrevrank .. => .zrevrank
  | .zscore .. => .zscore
  | .zunionstore .. => .zunionstore
  | .auth .. => .auth
  | .echo .. => .echo
  | .ping => .ping
  | .flushall => .flushall
  | .flushdb => .flushdb
  | .select .. => .select
  | .publish .. => .publish

/-! ## §3  Arguments -/

def int (i : Int64) : String := toString i.toInt

def nat (n : UInt64) : String := toString n.toNat

def float (x : Binary64) : String := Decimal.ofBinary64 x

def flatten (pairs : List (String × String)) : List String :=
  pairs.flatMap fun (key, value) => [key, value]

def scored (members : List (Binary64 × String)) : List String :=
  members.flatMap fun (score, member) => [float score, member]

/-- The number of keys before the keys. -/
def counted (keys : List String) : List String := toString keys.length :: keys

/-- The order of a `SORT`, where one is asked for. -/
def ordering (order : Option SortOrder) : List String := order.toList.map SortOrder.word

def withScores (scores : Bool) : List String := if scores then ["WITHSCORES"] else []

def args : Call → List String
  | .append key value => [key, value]
  | .bitcount key => [key]
  | .bitcountRange key start stop => [key, int start, int stop]
  | .bitop operation destination sources => operation.word :: destination :: sources
  | .decr key => [key]
  | .decrBy key decrement => [key, int decrement]
  | .get key => [key]
  | .getbit key offset => [key, nat offset]
  | .getrange key start stop => [key, int start, int stop]
  | .getset key value => [key, value]
  | .incr key => [key]
  | .incrBy key increment => [key, int increment]
  | .incrByFloat key increment => [key, float increment]
  | .mget sources => sources
  | .mset pairs => flatten pairs
  | .msetnx pairs => flatten pairs
  | .psetex key milliseconds value => [key, nat milliseconds, value]
  | .set key value => [key, value]
  | .setbit key offset bit => [key, nat offset, if bit then "1" else "0"]
  | .setex key seconds value => [key, nat seconds, value]
  | .setnx key value => [key, value]
  | .setrange key offset value => [key, nat offset, value]
  | .strlen key => [key]
  | .del sources => sources
  | .dump key => [key]
  | .exists key => [key]
  | .expire key seconds => [key, nat seconds]
  | .expireat key timestamp => [key, nat timestamp]
  | .keys pattern => [pattern]
  | .objectIdletime key => ["IDLETIME", key]
  | .objectEncoding key => ["ENCODING", key]
  | .objectRefcount key => ["REFCOUNT", key]
  | .persist key => [key]
  | .pexpire key milliseconds => [key, nat milliseconds]
  | .pexpireat key timestamp => [key, nat timestamp]
  | .pttl key => [key]
  | .randomkey => []
  | .rename key newKey => [key, newKey]
  | .renamenx key newKey => [key, newKey]
  | .sort key order => key :: ordering order
  | .sortLimit key order offset count => key :: (ordering order ++ ["LIMIT", nat offset, nat count])
  | .sortStore key order destination => key :: (ordering order ++ ["STORE", destination])
  | .ttl key => [key]
  | .keyType key => [key]
  | .hdel key fields => key :: fields
  | .hexists key field => [key, field]
  | .hget key field => [key, field]
  | .hgetall key => [key]
  | .hincrBy key field increment => [key, field, int increment]
  | .hincrByFloat key field increment => [key, field, float increment]
  | .hkeys key => [key]
  | .hlen key => [key]
  | .hmget key fields => key :: fields
  | .hmset key pairs => key :: flatten pairs
  | .hset key field value => [key, field, value]
  | .hsetnx key field value => [key, field, value]
  | .hvals key => [key]
  | .blpop timeout sources => sources ++ [nat timeout]
  | .brpop timeout sources => sources ++ [nat timeout]
  | .brpoplpush source destination timeout => [source, destination, nat timeout]
  | .lindex key index => [key, int index]
  | .linsert key place pivot value => [key, place.word, pivot, value]
  | .llen key => [key]
  | .lpop key => [key]
  | .lpush key values => key :: values
  | .lpushx key value => [key, value]
  | .lrange key start stop => [key, int start, int stop]
  | .lrem key count value => [key, int count, value]
  | .lset key index value => [key, int index, value]
  | .ltrim key start stop => [key, int start, int stop]
  | .rpop key => [key]
  | .rpoplpush source destination => [source, destination]
  | .rpush key values => key :: values
  | .rpushx key value => [key, value]
  | .sadd key members => key :: members
  | .scard key => [key]
  | .sdiff sources => sources
  | .sdiffstore destination sources => destination :: sources
  | .sinter sources => sources
  | .sinterstore destination sources => destination :: sources
  | .sismember key member => [key, member]
  | .smembers key => [key]
  | .smove source destination member => [source, destination, member]
  | .spop key => [key]
  | .srandmember key => [key]
  | .srem key members => key :: members
  | .sunion sources => sources
  | .sunionstore destination sources => destination :: sources
  | .zadd key members => key :: scored members
  | .zcard key => [key]
  | .zcount key min max => [key, min, max]
  | .zincrBy key increment member => [key, float increment, member]
  | .zinterstore destination sources => destination :: counted sources
  | .zrange key start stop scores => [key, int start, int stop] ++ withScores scores
  | .zrangebyscore key min max => [key, min, max]
  | .zrank key member => [key, member]
  | .zrem key members => key :: members
  | .zremrangebyrank key start stop => [key, int start, int stop]
  | .zremrangebyscore key min max => [key, min, max]
  | .zrevrange key start stop scores => [key, int start, int stop] ++ withScores scores
  | .zrevrangebyscore key max min => [key, max, min]
  | .zrevrank key member => [key, member]
  | .zscore key member => [key, member]
  | .zunionstore destination sources => destination :: counted sources
  | .auth password => [password]
  | .echo message => [message]
  | .ping => []
  | .flushall => []
  | .flushdb => []
  | .select database => [toString database.toNat]
  | .publish channel message => [channel, message]

/-- Is a list that must have an item empty? -/
def lacksItems : Call → Bool
  | .bitop _ _ sources => sources.isEmpty
  | .mget sources => sources.isEmpty
  | .mset pairs => pairs.isEmpty
  | .msetnx pairs => pairs.isEmpty
  | .del sources => sources.isEmpty
  | .hdel _ fields => fields.isEmpty
  | .hmget _ fields => fields.isEmpty
  | .hmset _ pairs => pairs.isEmpty
  | .blpop _ sources => sources.isEmpty
  | .brpop _ sources => sources.isEmpty
  | .lpush _ values => values.isEmpty
  | .rpush _ values => values.isEmpty
  | .sadd _ members => members.isEmpty
  | .sdiff sources => sources.isEmpty
  | .sdiffstore _ sources => sources.isEmpty
  | .sinter sources => sources.isEmpty
  | .sinterstore _ sources => sources.isEmpty
  | .srem _ members => members.isEmpty
  | .sunion sources => sources.isEmpty
  | .sunionstore _ sources => sources.isEmpty
  | .zadd _ members => members.isEmpty
  | .zinterstore _ sources => sources.isEmpty
  | .zrem _ members => members.isEmpty
  | .zunionstore _ sources => sources.isEmpty
  | _ => false

/-- The command of a call; a call without the items it needs makes none. -/
def command (c : Call) : Except CommandError Command :=
  if c.lacksItems then .error (.noKeys c.kind) else .ok { kind := c.kind, args := c.args }

end Call

end RespClient
