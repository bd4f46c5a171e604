import SuperCache.Commands.PubSub
import SuperCache.Store.Iterate

/-! # Listings and server commands

`KEYS`, `SCAN` and `RANDOMKEY` of `generic.go`, the subcommands of `CLIENT` and the table of
`COMMAND`.  What handlers read of the process and the connection is left open in `CommandEnv`.
-/

namespace SuperCache

open Lib

/-! ## What a handler reads besides the store and the session -/

/-- The sections of `INFO`. -/
inductive InfoSection where
  | server
  | clients
  | stats
  | replication
  | memory
  | keyspace

/-- The floats, the order in which Go ranges over the keys of a map, each of them once, the
lines of each section of `INFO`, the address of a session's connection, and the draws of
`rand.Intn`, which are below the number they are given. -/
structure CommandEnv where
  fl : FloatOps
  range : Finset Bytes → List Bytes
  coe_range : ∀ names, (range names : Multiset Bytes) = names.val
  info : InfoSection → ServerState → Bytes
  remoteAddr : Nat → Bytes
  randIntn : Store → (n : Nat) → Fin (n + 1)

def CommandEnv.plain : CommandEnv where
  fl := integerFloats
  range := sortedElems
  coe_range := coe_sortedElems
  info _ _ := []
  remoteAddr _ := []
  randIntn _ _ := 0

def ReplyErr.value (err : ReplyErr) : RespValue :=
  errorReply err.text

section Handlers

variable (env : CommandEnv) (server : ServerState) (session : SessionState)

def Handled.replies (reply : RespValue) : Handled :=
  { server, session, written := [reply], failed := false }

def Handled.onStore (s : Store) (written : List RespValue) (failed : Bool) : Handled :=
  { server := { server with store := s }, session, written, failed }

/-! ## Listings of the keys -/

def keysReply (keys : List Key) : RespValue :=
  .array (keys.map .bulk)

def cmdKeys (args : List Bytes) : Handled :=
  match args with
  | [_, pattern] =>
    let (s, keys) := server.store.keys server.now pattern
    .onStore server session s [keysReply (keys.insertionSort (· ≤ ·))] false
  | _ => .replies server session (argErr "KEYS")

structure ScanOptions where
  pattern : Bytes := [42]
  count : Int := 10
  wantType : Bytes := []

inductive ScanOption where
  | pattern
  | count
  | type
deriving DecidableEq

def scanOption (opt : Bytes) : Option ScanOption :=
  let name := toUpper opt
  if name = ascii "MATCH" then some .pattern
  else if name = ascii "COUNT" then some .count
  else if name = ascii "TYPE" then some .type
  else none

/-- The operand of `COUNT`, and the count of a pop: a positive number. -/
def positiveOperand (operand : Bytes) : Option Int :=
  (parseInt operand).bind fun n => if n < 1 then none else some n

def ScanOptions.with (o : ScanOptions) (operand : Bytes) : ScanOption → Option ScanOptions
  | .pattern => some { o with pattern := operand }
  | .count => (positiveOperand operand).map fun count => { o with count }
  | .type => some { o with wantType := operand }

/-- The option loop of `SCAN`: every option has an operand. -/
def parseScanOptions (o : ScanOptions) : List Bytes → Except ReplyErr ScanOptions
  | [] => .ok o
  | opt :: rest =>
    match scanOption opt, rest with
    | some kind, operand :: rest =>
      match o.with operand kind with
      | some o => parseScanOptions o rest
      | none => .error .notInt
    | _, _ => .error (.wrongArgs "SCAN")

/-- The reply of `SCAN`: the next cursor and the page.  A page out of bounds is a panic, which nothing recovers from. -/
def scanHandled : Store × Option (Nat × List Key) → Handled
  | (s, some (next, keys)) =>
    .onStore server session s [.array [.bulk (formatInt next), keysReply keys]] false
  | (s, none) => .onStore server session s [] true

def cmdScan (args : List Bytes) : Handled :=
  match args with
  | _ :: cursor :: opts =>
    match parseUint cursor with
    | none => .replies server session ReplyErr.notInt.value
    | some cursor =>
      match parseScanOptions {} opts with
      | .error err => .replies server session err.value
      | .ok o =>
        scanHandled server session
          (server.store.scan server.now cursor o.pattern o.count o.wantType)
  | _ => .replies server session (argErr "SCAN")

def cmdRandomKey (args : List Bytes) : Handled :=
  match args with
  | [_] =>
    let (s, keys) := server.store.keys server.now [42]
    match keys with
    | [] => .onStore server session s [.nullBulk] false
    | first :: rest =>
      .onStore server session s [.bulk ((first :: rest).get (env.randIntn s rest.length))] false
  | _ => .replies server session (argErr "RANDOMKEY")

inductive ClientSub where
  | id
  | list
  | setName
  | getName

def clientSub (word : Bytes) : Option ClientSub :=
  let name := toUpper word
  if name = ascii "ID" then some .id
  else if name = ascii "LIST" then some .list
  else if name = ascii "SETNAME" then some .setName
  else if name = ascii "GETNAME" then some .getName
  else none

end Handlers

/-! ## The table of `COMMAND` -/

/-- The registered commands but `EXEC`. -/
def allCommands : List Command :=
  [.get, .set, .setnx, .setex, .psetex, .getset, .getdel, .getex, .mget, .mset, .msetnx, .del, .incr,
    .decr, .incrby, .decrby, .incrbyfloat, .append, .strlen, .getrange, .setrange, .hset, .hmset,
    .hget, .hmget, .hgetall, .hdel, .hexists, .hlen, .hkeys, .hvals, .hincrby, .hincrbyfloat,
    .hsetnx, .lpush, .rpush, .lpushx, .rpushx, .lpop, .rpop, .llen, .lindex, .lset, .lrem, .lrange,
    .ltrim, .linsert, .sadd, .srem, .smembers, .sismember, .scard, .sunion, .sunionstore, .sinter,
    .sinterstore, .sdiff, .sdiffstore, .exists', .type, .ttl, .pttl, .expire, .expireat, .pexpire,
    .pexpireat, .persist, .rename, .renamenx, .select, .dbsize, .flushdb, .flushall,
    .session .keys, .session .scan, .session .randomKey, .session .ping, .session .echo,
    .session .auth, .session .info, .session .time, .session .client, .session .command,
    .session .subscribe, .session .psubscribe, .session .unsubscribe, .session .punsubscribe,
    .session .publish, .session .multi, .session .discard, .session .watch, .session .unwatch]

def execMeta : CommandMeta where
  name := "EXEC"
  arity := 1
  isWrite := true

def CommandMeta.lowerName (m : CommandMeta) : Bytes :=
  ascii m.name.toLower

/-- `Commands`: what is registered, by its lower case name. -/
def registered : List CommandMeta :=
  (execMeta :: allCommands.map Command.info).insertionSort fun a b => a.lowerName ≤ b.lowerName

end SuperCache
