import SuperCache.Commands.Strings
import SuperCache.Commands.Collections

/-! # Generic commands, flushing, and the registry

The handlers of `generic.go`, the flushes of `server.go`, the table the registry
holds, and the queue `EXEC` runs.
-/

namespace SuperCache

open Lib

variable (now : Time) (s : Store) (args : List Bytes)

/-! ## Keys -/

def cmdExists : Outcome :=
  match args with
  | _ :: key :: keys =>
    let (s, n) := s.exists' now (key :: keys)
    .replies s (.int n)
  | _ => .replies s (.error (.wrongArgs "EXISTS"))

def cmdType : Outcome :=
  match args with
  | [_, key] =>
    .ofCall (s.run now key KeyOp.typeName) .failure (fun _ => []) fun kind =>
      .simple (typeText kind)
  | _ => .replies s (.error (.wrongArgs "TYPE"))

/-- `TTL` and `PTTL`. -/
def remaining (cmd : String) (op : Time → KeyOp Int) (now : Time) (s : Store) (args : List Bytes) :
    Outcome :=
  match args with
  | [_, key] => .ofCall (s.run now key (op now)) .failure (fun _ => []) .int
  | _ => .replies s (.error (.wrongArgs cmd))

def cmdTTL : CmdFunc := remaining "TTL" KeyOp.ttl

def cmdPTTL : CmdFunc := remaining "PTTL" KeyOp.ttlMs

def deadlinePayload (kind : ExpiryKind) (key : Key) (n : Int) : ReplicatePayload :=
  match kind with
  | .ex => replicateExpire key n
  | .px => replicatePExpire key n
  | .exat => replicateExpireAtUnix key n
  | .pxat => replicatePExpireAtUnixMs key n

def setDeadlineOf (kind : ExpiryKind) (now : Time) (s : Store) (key : Key) (n : Int) :
    Store × Except StoreErr Bool :=
  match kind with
  | .ex => s.expire now key n
  | kind => s.run now key (KeyOp.expireAt (kind.instant now n))

theorem expiryOperand_pos {kind : ExpiryKind} {operand : Bytes} {n : Int}
    (duration : kind = .ex ∨ kind = .px) (parsed : expiryOperand kind operand = some n) : ¬ n ≤ 0 := by
  unfold expiryOperand at parsed
  cases number : parseInt operand with
  | none => simp [number] at parsed
  | some m =>
    simp only [number, Option.bind_some] at parsed
    split at parsed
    · cases parsed
    · next positive =>
      cases parsed
      exact fun nonpositive => positive ⟨duration, nonpositive⟩

theorem setDeadlineOf_eq {kind : ExpiryKind} {operand : Bytes} {n : Int} {now : Time} {s : Store}
    {key : Key} (parsed : expiryOperand kind operand = some n) :
    setDeadlineOf kind now s key n = s.run now key (KeyOp.expireAt (kind.instant now n)) := by
  cases kind with
  | ex => exact if_neg (expiryOperand_pos (.inl rfl) parsed)
  | _ => rfl

def expireCommand (cmd : String) (kind : ExpiryKind) (now : Time) (s : Store) (args : List Bytes) :
    Outcome :=
  match args with
  | [_, key, operand] =>
    match expiryOperand kind operand with
    | none => .replies s (.error (.invalidExpire cmd))
    | some n =>
      .ofCall (setDeadlineOf kind now s key n) .failure
        (fun ok => sentIf ok (deadlinePayload kind key n)) Reply.ofBool
  | _ => .replies s (.error (.wrongArgs cmd))

def cmdExpire : CmdFunc := expireCommand "EXPIRE" .ex

def cmdExpireAt : CmdFunc := expireCommand "EXPIREAT" .exat

def cmdPExpire : CmdFunc := expireCommand "PEXPIRE" .px

def cmdPExpireAt : CmdFunc := expireCommand "PEXPIREAT" .pxat

def cmdPersist : Outcome :=
  match args with
  | [_, key] =>
    .ofCall (s.run now key KeyOp.persist) .failure
      (fun ok => sentIf ok (replicatePersist key)) Reply.ofBool
  | _ => .replies s (.error (.wrongArgs "PERSIST"))

def cmdRename : Outcome :=
  match args with
  | [_, src, dst] =>
    .ofCall (s.rename now src dst) renameReply (fun _ => [replicateRename src dst]) fun _ => .ok
  | _ => .replies s (.error (.wrongArgs "RENAME"))

def cmdRenameNX : Outcome :=
  match args with
  | [_, src, dst] =>
    let (s, n) := s.exists' now [src]
    if n = 0 then .replies s (.error .noSuchKey)
    else
      .ofCall (s.renameNX now src dst) .failure
        (fun ok => sentIf ok (replicateRename src dst)) Reply.ofBool
  | _ => .replies s (.error (.wrongArgs "RENAMENX"))

def cmdSelect (s : Store) (args : List Bytes) : Outcome :=
  match args with
  | [_, db] =>
    if parseInt db = some 0 then .replies s .ok else .replies s (.error .dbRange)
  | _ => .replies s (.error (.wrongArgs "SELECT"))

def cmdDBSize : Outcome :=
  match args with
  | [_] => .replies s (.int (s.dbSize now))
  | _ => .replies s (.error (.wrongArgs "DBSIZE"))

/-- `FLUSHDB` and `FLUSHALL`. -/
def flushClusterDB (op : ReplOp) (s : Store) : Outcome :=
  { store := s.flushDB, sent := [replicateFlush op], reply := .ok }

/-! ## The registry -/

/-- The commands that neither change the store nor replicate anything: what they
reply depends on the session, the configuration or a listing of the keys. -/
inductive SessionCommand where
  | keys
  | scan
  | randomKey
  | ping
  | echo
  | auth
  | info
  | time
  | client
  | command
  | subscribe
  | psubscribe
  | unsubscribe
  | punsubscribe
  | publish
  | multi
  | discard
  | watch
  | unwatch
deriving DecidableEq

/-- The registered commands but `EXEC`, which runs a queue of these. -/
inductive Command where
  | get
  | set
  | setnx
  | setex
  | psetex
  | getset
  | getdel
  | getex
  | mget
  | mset
  | msetnx
  | del
  | incr
  | decr
  | incrby
  | decrby
  | incrbyfloat
  | append
  | strlen
  | getrange
  | setrange
  | hset
  | hmset
  | hget
  | hmget
  | hgetall
  | hdel
  | hexists
  | hlen
  | hkeys
  | hvals
  | hincrby
  | hincrbyfloat
  | hsetnx
  | lpush
  | rpush
  | lpushx
  | rpushx
  | lpop
  | rpop
  | llen
  | lindex
  | lset
  | lrem
  | lrange
  | ltrim
  | linsert
  | sadd
  | srem
  | smembers
  | sismember
  | scard
  | sunion
  | sunionstore
  | sinter
  | sinterstore
  | sdiff
  | sdiffstore
  | exists'
  | type
  | ttl
  | pttl
  | expire
  | expireat
  | pexpire
  | pexpireat
  | persist
  | rename
  | renamenx
  | select
  | dbsize
  | flushdb
  | flushall
  | session (cmd : SessionCommand)
deriving DecidableEq

def Command.handler (fl : FloatOps) (now : Time) (s : Store) (args : List Bytes) : Command → Outcome
  | .get => cmdGet now s args
  | .set => cmdSet now s args
  | .setnx => cmdSetNX now s args
  | .setex => cmdSetEX now s args
  | .psetex => cmdPSetEX now s args
  | .getset => cmdGetSet now s args
  | .getdel => cmdGetDel now s args
  | .getex => cmdGetEx now s args
  | .mget => cmdMGet now s args
  | .mset => cmdMSet now s args
  | .msetnx => cmdMSetNX now s args
  | .del => cmdDel now s args
  | .incr => cmdIncr now s args
  | .decr => cmdDecr now s args
  | .incrby => cmdIncrBy now s args
  | .decrby => cmdDecrBy now s args
  | .incrbyfloat => cmdIncrByFloat fl now s args
  | .append => cmdAppend now s args
  | .strlen => cmdStrLen now s args
  | .getrange => cmdGetRange now s args
  | .setrange => cmdSetRange now s args
  | .hset => cmdHSet now s args
  | .hmset => cmdHMSet now s args
  | .hget => cmdHGet now s args
  | .hmget => cmdHMGet now s args
  | .hgetall => cmdHGetAll now s args
  | .hdel => cmdHDel now s args
  | .hexists => cmdHExists now s args
  | .hlen => cmdHLen now s args
  | .hkeys => cmdHKeys now s args
  | .hvals => cmdHVals now s args
  | .hincrby => cmdHIncrBy now s args
  | .hincrbyfloat => cmdHIncrByFloat fl now s args
  | .hsetnx => cmdHSetNX now s args
  | .lpush => cmdLPush now s args
  | .rpush => cmdRPush now s args
  | .lpushx => cmdLPushX now s args
  | .rpushx => cmdRPushX now s args
  | .lpop => cmdLPop now s args
  | .rpop => cmdRPop now s args
  | .llen => cmdLLen now s args
  | .lindex => cmdLIndex now s args
  | .lset => cmdLSet now s args
  | .lrem => cmdLRem now s args
  | .lrange => cmdLRange now s args
  | .ltrim => cmdLTrim now s args
  | .linsert => cmdLInsert now s args
  | .sadd => cmdSAdd now s args
  | .srem => cmdSRem now s args
  | .smembers => cmdSMembers now s args
  | .sismember => cmdSIsMember now s args
  | .scard => cmdSCard now s args
  | .sunion => cmdSUnion now s args
  | .sunionstore => cmdSUnionStore now s args
  | .sinter => cmdSInter now s args
  | .sinterstore => cmdSInterStore now s args
  | .sdiff => cmdSDiff now s args
  | .sdiffstore => cmdSDiffStore now s args
  | .exists' => cmdExists now s args
  | .type => cmdType now s args
  | .ttl => cmdTTL now s args
  | .pttl => cmdPTTL now s args
  | .expire => cmdExpire now s args
  | .expireat => cmdExpireAt now s args
  | .pexpire => cmdPExpire now s args
  | .pexpireat => cmdPExpireAt now s args
  | .persist => cmdPersist now s args
  | .rename => cmdRename now s args
  | .renamenx => cmdRenameNX now s args
  | .select => cmdSelect s args
  | .dbsize => cmdDBSize now s args
  | .flushdb => flushClusterDB .flushdb s
  | .flushall => flushClusterDB .flushall s
  | .session _ => .replies s .session

/-- What the registry holds of a command besides its handler: the name, the
arity, and whether it is registered with `FlagWrite`. -/
structure CommandMeta where
  name : String
  arity : Int
  isWrite : Bool

def Command.info : Command → CommandMeta
  | .get => ⟨"GET", 2, false⟩
  | .set => ⟨"SET", 0, true⟩
  | .setnx => ⟨"SETNX", 3, true⟩
  | .setex => ⟨"SETEX", 4, true⟩
  | .psetex => ⟨"PSETEX", 4, true⟩
  | .getset => ⟨"GETSET", 3, true⟩
  | .getdel => ⟨"GETDEL", 2, true⟩
  | .getex => ⟨"GETEX", 0, true⟩
  | .mget => ⟨"MGET", (-2), false⟩
  | .mset => ⟨"MSET", 0, true⟩
  | .msetnx => ⟨"MSETNX", 0, true⟩
  | .del => ⟨"DEL", (-2), true⟩
  | .incr => ⟨"INCR", 2, true⟩
  | .decr => ⟨"DECR", 2, true⟩
  | .incrby => ⟨"INCRBY", 3, true⟩
  | .decrby => ⟨"DECRBY", 3, true⟩
  | .incrbyfloat => ⟨"INCRBYFLOAT", 3, true⟩
  | .append => ⟨"APPEND", 3, true⟩
  | .strlen => ⟨"STRLEN", 2, false⟩
  | .getrange => ⟨"GETRANGE", 4, false⟩
  | .setrange => ⟨"SETRANGE", 4, true⟩
  | .hset => ⟨"HSET", 0, true⟩
  | .hmset => ⟨"HMSET", 0, true⟩
  | .hget => ⟨"HGET", 3, false⟩
  | .hmget => ⟨"HMGET", (-3), false⟩
  | .hgetall => ⟨"HGETALL", 2, false⟩
  | .hdel => ⟨"HDEL", (-3), true⟩
  | .hexists => ⟨"HEXISTS", 3, false⟩
  | .hlen => ⟨"HLEN", 2, false⟩
  | .hkeys => ⟨"HKEYS", 2, false⟩
  | .hvals => ⟨"HVALS", 2, false⟩
  | .hincrby => ⟨"HINCRBY", 4, true⟩
  | .hincrbyfloat => ⟨"HINCRBYFLOAT", 4, true⟩
  | .hsetnx => ⟨"HSETNX", 4, true⟩
  | .lpush => ⟨"LPUSH", (-3), true⟩
  | .rpush => ⟨"RPUSH", (-3), true⟩
  | .lpushx => ⟨"LPUSHX", (-3), true⟩
  | .rpushx => ⟨"RPUSHX", (-3), true⟩
  | .lpop => ⟨"LPOP", 0, true⟩
  | .rpop => ⟨"RPOP", 0, true⟩
  | .llen => ⟨"LLEN", 2, false⟩
  | .lindex => ⟨"LINDEX", 3, false⟩
  | .lset => ⟨"LSET", 4, true⟩
  | .lrem => ⟨"LREM", 4, true⟩
  | .lrange => ⟨"LRANGE", 4, false⟩
  | .ltrim => ⟨"LTRIM", 4, true⟩
  | .linsert => ⟨"LINSERT", 5, true⟩
  | .sadd => ⟨"SADD", (-3), true⟩
  | .srem => ⟨"SREM", (-3), true⟩
  | .smembers => ⟨"SMEMBERS", 2, false⟩
  | .sismember => ⟨"SISMEMBER", 3, false⟩
  | .scard => ⟨"SCARD", 2, false⟩
  | .sunion => ⟨"SUNION", (-2), false⟩
  | .sunionstore => ⟨"SUNIONSTORE", (-3), true⟩
  | .sinter => ⟨"SINTER", (-2), false⟩
  | .sinterstore => ⟨"SINTERSTORE", (-3), true⟩
  | .sdiff => ⟨"SDIFF", (-2), false⟩
  | .sdiffstore => ⟨"SDIFFSTORE", (-3), true⟩
  | .exists' => ⟨"EXISTS", (-2), false⟩
  | .type => ⟨"TYPE", 2, false⟩
  | .ttl => ⟨"TTL", 2, false⟩
  | .pttl => ⟨"PTTL", 2, false⟩
  | .expire => ⟨"EXPIRE", 3, true⟩
  | .expireat => ⟨"EXPIREAT", 3, true⟩
  | .pexpire => ⟨"PEXPIRE", 3, true⟩
  | .pexpireat => ⟨"PEXPIREAT", 3, true⟩
  | .persist => ⟨"PERSIST", 2, true⟩
  | .rename => ⟨"RENAME", 3, true⟩
  | .renamenx => ⟨"RENAMENX", 3, true⟩
  | .select => ⟨"SELECT", 2, true⟩
  | .dbsize => ⟨"DBSIZE", 1, false⟩
  | .flushdb => ⟨"FLUSHDB", 1, true⟩
  | .flushall => ⟨"FLUSHALL", 1, true⟩
  | .session .keys => ⟨"KEYS", 2, false⟩
  | .session .scan => ⟨"SCAN", 0, false⟩
  | .session .randomKey => ⟨"RANDOMKEY", 1, false⟩
  | .session .ping => ⟨"PING", 0, false⟩
  | .session .echo => ⟨"ECHO", 2, false⟩
  | .session .auth => ⟨"AUTH", 0, true⟩
  | .session .info => ⟨"INFO", 0, false⟩
  | .session .time => ⟨"TIME", 1, false⟩
  | .session .client => ⟨"CLIENT", 0, true⟩
  | .session .command => ⟨"COMMAND", (-1), false⟩
  | .session .subscribe => ⟨"SUBSCRIBE", (-2), false⟩
  | .session .psubscribe => ⟨"PSUBSCRIBE", (-2), false⟩
  | .session .unsubscribe => ⟨"UNSUBSCRIBE", 0, false⟩
  | .session .punsubscribe => ⟨"PUNSUBSCRIBE", 0, false⟩
  | .session .publish => ⟨"PUBLISH", 3, true⟩
  | .session .multi => ⟨"MULTI", 1, true⟩
  | .session .discard => ⟨"DISCARD", 1, true⟩
  | .session .watch => ⟨"WATCH", (-2), true⟩
  | .session .unwatch => ⟨"UNWATCH", 1, true⟩

/-- `CheckArity`: the number of arguments, the name included, or at least so
many when it is negative. -/
def checkArity (arity : Int) (args : List Bytes) : Bool :=
  if 0 ≤ arity then args.length = arity else -arity ≤ args.length

/-- `Dispatch` of a command found in the registry. -/
def Command.dispatch (fl : FloatOps) (now : Time) (s : Store) (cmd : Command)
    (args : List Bytes) : Outcome :=
  if cmd.info.arity ≠ 0 ∧ checkArity cmd.info.arity args = false then
    .replies s (.error (.wrongArgs cmd.info.name))
  else cmd.handler fl now s args

end SuperCache
