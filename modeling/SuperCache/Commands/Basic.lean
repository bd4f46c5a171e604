import SuperCache.Peer.Apply

/-! # Replies and replication helpers

What `helpers.go` gives the command handlers: the error texts, the payloads the
`Replicate` functions send, and the shape of a handler's outcome.  A handler
sees the arguments of its command, the name first.
-/

namespace SuperCache

open Lib

/-! ## Replies -/

inductive ReplyErr where
  | wrongType
  | notInt
  | incrOverflow
  | noSuchKey
  | oom
  | syntaxErr
  | indexRange
  | dbRange
  | execNoMulti
  | wrongArgs (cmd : String)
  | invalidExpire (cmd : String)
deriving DecidableEq

/-- The text after the leading `-`. -/
def ReplyErr.text : ReplyErr → String
  | .wrongType => "WRONGTYPE Operation against a key holding the wrong kind of value"
  | .notInt => "ERR value is not an integer or out of range"
  | .incrOverflow => "ERR increment or decrement would overflow"
  | .noSuchKey => "ERR no such key"
  | .oom => "OOM command not allowed when used memory > 'maxmemory'"
  | .syntaxErr => "ERR syntax error"
  | .indexRange => "ERR index out of range"
  | .dbRange => "ERR DB index is out of range"
  | .execNoMulti => "ERR EXEC without MULTI"
  | .wrongArgs cmd => "ERR wrong number of arguments for '" ++ cmd.toLower ++ "' command"
  | .invalidExpire cmd => "ERR invalid expire time in '" ++ cmd.toLower ++ "' command"

/-- What a handler leaves the client with.  `failure` is an error the handler
returns instead of a reply; the connection is closed.  `session` is the reply of
a command that depends on the session only. -/
inductive Reply where
  | simple (text : String)
  | error (err : ReplyErr)
  | int (n : Int)
  | nil
  | bulk (bytes : Bytes)
  | array (elems : List (Option Bytes))
  | session
  | failure (err : StoreErr)
deriving DecidableEq

def Reply.ok : Reply := .simple "OK"

/-- `writeBulk`: a nil slice is the null bulk string. -/
def Reply.ofBytes : Option Bytes → Reply
  | none => .nil
  | some bytes => .bulk bytes

def Reply.ofBool (b : Bool) : Reply := .int (if b then 1 else 0)

def Reply.accepts : Reply → Bool
  | .error _ => false
  | .failure _ => false
  | _ => true

/-! ## Errors of the store, as the handlers report them -/

def typeReply : StoreErr → Reply
  | .wrongType => .error .wrongType
  | failure => .failure failure

def oomReply : StoreErr → Reply
  | .oom => .error .oom
  | failure => .failure failure

def typeOrOomReply : StoreErr → Reply
  | .wrongType => .error .wrongType
  | .oom => .error .oom
  | failure => .failure failure

/-- `doIncr` and its relatives look for `overflow` in the message first, and the
message of a bad number quotes the number. -/
def incrReply : StoreErr → Reply
  | .wrongType => .error .wrongType
  | .overflow => .error .incrOverflow
  | .notInteger numeral =>
    if contains numeral (ascii "overflow") then .error .incrOverflow else .error .notInt
  | failure => .failure failure

/-- `HINCRBY` looks for `not an integer` first. -/
def hIncrReply : StoreErr → Reply
  | .wrongType => .error .wrongType
  | .notInteger _ => .error .notInt
  | .overflow => .error .incrOverflow
  | failure => .failure failure

/-- `HINCRBYFLOAT` looks for `not`, which the message of `ErrOOM` has too. -/
def hIncrFloatReply : StoreErr → Reply
  | .wrongType => .error .wrongType
  | .notFloat => .error .notInt
  | .oom => .error .notInt
  | failure => .failure failure

def lSetReply : StoreErr → Reply
  | .keyNotFound => .error .noSuchKey
  | .listIndex => .error .indexRange
  | .wrongType => .error .wrongType
  | failure => .failure failure

def renameReply : StoreErr → Reply
  | .noSuchKey => .error .noSuchKey
  | failure => .failure failure

/-! ## The error replies reject -/

@[simp] theorem typeReply_rejects (failure : StoreErr) : (typeReply failure).accepts = false := by
  cases failure <;> rfl

@[simp] theorem oomReply_rejects (failure : StoreErr) : (oomReply failure).accepts = false := by
  cases failure <;> rfl

@[simp] theorem typeOrOomReply_rejects (failure : StoreErr) :
    (typeOrOomReply failure).accepts = false := by
  cases failure <;> rfl

@[simp] theorem incrReply_rejects (failure : StoreErr) : (incrReply failure).accepts = false := by
  cases failure with
  | notInteger numeral =>
    simp only [incrReply]
    split <;> rfl
  | _ => rfl

@[simp] theorem hIncrReply_rejects (failure : StoreErr) : (hIncrReply failure).accepts = false := by
  cases failure <;> rfl

@[simp] theorem hIncrFloatReply_rejects (failure : StoreErr) :
    (hIncrFloatReply failure).accepts = false := by
  cases failure <;> rfl

@[simp] theorem lSetReply_rejects (failure : StoreErr) : (lSetReply failure).accepts = false := by
  cases failure <;> rfl

@[simp] theorem renameReply_rejects (failure : StoreErr) : (renameReply failure).accepts = false := by
  cases failure <;> rfl

@[simp] theorem failure_rejects (failure : StoreErr) : (Reply.failure failure).accepts = false :=
  rfl

/-! ## Payloads -/

/-- `ReplicateSet`: a deadline travels as the milliseconds that are left. -/
def replicateSet (now : Time) (key : Key) (val : Bytes) (expiresAt : Time) : ReplicatePayload where
  op := .set
  key := key
  value := val
  ttlms := if expiresAt = 0 then 0 else max 0 (inMilliseconds (untilTime now expiresAt))

def replicateDel (key : Key) : ReplicatePayload where
  op := .del
  key := key

def replicateHash (key : Key) (fields : GoMap Bytes) : ReplicatePayload where
  op := .hset
  key := key
  fields := fields

def replicateHDel (key : Key) (fields : List Bytes) : ReplicatePayload where
  op := .hdel
  key := key
  members := fields

def replicateSAdd (key : Key) (members : List Bytes) : ReplicatePayload where
  op := .sadd
  key := key
  members := members

def replicateSRem (key : Key) (members : List Bytes) : ReplicatePayload where
  op := .srem
  key := key
  members := members

def replicateReplaceSet (key : Key) (members : List Bytes) : ReplicatePayload where
  op := .replaceset
  key := key
  members := members

def replicateListPush (key : Key) (left : Bool) (vals : List Bytes) : ReplicatePayload where
  op := if left then .lpush else .rpush
  key := key
  members := vals

def replicateExpire (key : Key) (sec : Int) : ReplicatePayload where
  op := .expire
  key := key
  cnt := sec

def replicateExpireAtUnix (key : Key) (unixSec : Int) : ReplicatePayload where
  op := .expireat
  key := key
  cnt := unixSec

def replicatePExpire (key : Key) (ms : Int) : ReplicatePayload where
  op := .pexpire
  key := key
  cnt := ms

def replicatePExpireAtUnixMs (key : Key) (unixMs : Int) : ReplicatePayload where
  op := .pexpireat
  key := key
  ttlms := unixMs

def replicatePersist (key : Key) : ReplicatePayload where
  op := .persist
  key := key

def replicateRename (src dst : Key) : ReplicatePayload where
  op := .rename
  key := src
  dest := dst

/-- `ReplicateLPop` and `ReplicateRPop`, which the handlers call with a positive
number of elements only. -/
def replicatePop (op : ReplOp) (key : Key) (n : Int) : ReplicatePayload where
  op := op
  key := key
  cnt := n

def replicateLRem (key : Key) (count : Int) (elem : Bytes) : ReplicatePayload where
  op := .lrem
  key := key
  cnt := count
  value := elem

def replicateLSet (key : Key) (index : Int) (val : Bytes) : ReplicatePayload where
  op := .lset
  key := key
  cnt := index
  value := val

def replicateLTrim (key : Key) (start stop : Int) : ReplicatePayload where
  op := .ltrim
  key := key
  members := [formatInt start, formatInt stop]

def replicateLInsert (key : Key) (before : Bool) (pivot insert : Bytes) : ReplicatePayload where
  op := if before then .linsertBefore else .linsertAfter
  key := key
  members := [pivot, insert]

def replicateFlush (op : ReplOp) : ReplicatePayload where
  op := op

/-! ## Outcomes -/

/-- The store a handler leaves, the payloads it passed to `Replicate`, in order,
and its reply. -/
structure Outcome where
  store : Store
  sent : List ReplicatePayload
  reply : Reply

/-- A handler reads the clock and the store, and is given the arguments. -/
abbrev CmdFunc := Time → Store → List Bytes → Outcome

def Outcome.replies (s : Store) (reply : Reply) : Outcome :=
  { store := s, sent := [], reply := reply }

def Outcome.onOk {ρ : Type} (outcome : Store × Except StoreErr ρ) (onError : StoreErr → Reply)
    (next : Store → ρ → Outcome) : Outcome :=
  match outcome with
  | (s, .error failure) => .replies s (onError failure)
  | (s, .ok result) => next s result

def Outcome.ofCall {ρ : Type} (outcome : Store × Except StoreErr ρ) (onError : StoreErr → Reply)
    (sent : ρ → List ReplicatePayload) (reply : ρ → Reply) : Outcome :=
  .onOk outcome onError fun s result =>
    { store := s, sent := sent result, reply := reply result }

def sentIf (cond : Bool) (p : ReplicatePayload) : List ReplicatePayload :=
  if cond then [p] else []

/-- Alternating arguments as a map; the last of two equal keys wins.  `none` is
an odd number of them. -/
def pairsOf : List Bytes → Option (GoMap Bytes)
  | [] => some ∅
  | [_] => none
  | key :: val :: rest => (pairsOf rest).map fun later => later ∪ (∅ : GoMap Bytes).insert key val

end SuperCache
