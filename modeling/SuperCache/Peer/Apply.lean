import SuperCache.Store.Keyspace

/-! # Replicated mutations

`ReplicatePayload` is what a node sends for a local write, and
`applyReplicatePayload` what a peer does with it.  On the wire (`wireRepl`) it has the
sender's name and the number the sender gave it.
-/

namespace SuperCache

open Lib

/-- The operations `applyReplicatePayload` knows, and any other name. -/
inductive ReplOp where
  | set
  | del
  | hset
  | hdel
  | sadd
  | srem
  | replaceset
  | lpush
  | rpush
  | flushdb
  | flushall
  | expire
  | pexpire
  | expireat
  | pexpireat
  | persist
  | rename
  | lpop
  | rpop
  | lrem
  | lset
  | ltrim
  | linsertBefore
  | linsertAfter
  | other (name : Bytes)
deriving DecidableEq

structure ReplicatePayload where
  op : ReplOp
  key : Key := []
  value : Bytes := []
  ttlms : Int := 0
  cnt : Int := 0
  dest : Key := []
  fields : GoMap Bytes := ∅
  members : List Bytes := []

inductive ApplyErr where
  | store (failure : StoreErr)
  | ltrimStart
  | ltrimStop
  | unknownOp (name : Bytes)
deriving DecidableEq

def onlyError {ρ : Type} (outcome : Store × Except StoreErr ρ) : Store × Except ApplyErr Unit :=
  match outcome with
  | (s, .error failure) => (s, .error (.store failure))
  | (s, .ok _) => (s, .ok ())

/-- The deadline of a replicated `SET`: a TTL of zero or less is none. -/
def setDeadline (now : Time) (ttlms : Int) : Time :=
  if 0 < ttlms then now + milliseconds ttlms else 0

def popCnt (cnt : Int) : Int :=
  if cnt < 1 then 1 else cnt

def applyLTrim (s : Store) (now : Time) (p : ReplicatePayload) : Store × Except ApplyErr Unit :=
  match p.members with
  | start :: stop :: _ =>
    match parseInt start, parseInt stop with
    | none, _ => (s, .error .ltrimStart)
    | _, none => (s, .error .ltrimStop)
    | some start, some stop => onlyError (s.run now p.key (KeyOp.lTrim start stop))
  | _ => (s, .ok ())

def applyLInsert (s : Store) (now : Time) (before : Bool) (p : ReplicatePayload) :
    Store × Except ApplyErr Unit :=
  match p.members with
  | pivot :: insert :: _ => onlyError (s.run now p.key (KeyOp.lInsert p.key before pivot insert))
  | _ => (s, .ok ())

def applyReplicatePayload (s : Store) (now : Time) (p : ReplicatePayload) :
    Store × Except ApplyErr Unit :=
  match p.op with
  | .set => onlyError (s.run now p.key (KeyOp.set p.key p.value (setDeadline now p.ttlms)))
  | .del => ((s.del now [p.key]).1, .ok ())
  | .hset => onlyError (s.hSet now p.key p.fields)
  | .hdel => onlyError (s.run now p.key (KeyOp.hDel p.members))
  | .sadd => onlyError (s.sAdd now p.key p.members)
  | .srem =>
    if p.members = [] then (s, .ok ()) else onlyError (s.run now p.key (KeyOp.sRem p.members))
  | .replaceset => onlyError (s.run now p.key (KeyOp.replaceSet p.key p.members))
  | .lpush =>
    if p.members = [] then (s, .ok ())
    else onlyError (s.run now p.key (KeyOp.lPush p.key p.members))
  | .rpush =>
    if p.members = [] then (s, .ok ())
    else onlyError (s.run now p.key (KeyOp.rPush p.key p.members))
  | .flushdb => (s.flushDB, .ok ())
  | .flushall => (s.flushDB, .ok ())
  | .expire => if p.cnt ≤ 0 then (s, .ok ()) else onlyError (s.expire now p.key p.cnt)
  | .pexpire =>
    if p.cnt ≤ 0 then (s, .ok ())
    else onlyError (s.run now p.key (KeyOp.expireAt (now + milliseconds p.cnt)))
  | .expireat => onlyError (s.run now p.key (KeyOp.expireAt (timeUnix p.cnt)))
  | .pexpireat => onlyError (s.run now p.key (KeyOp.expireAt (timeUnixMilli p.ttlms)))
  | .persist => onlyError (s.run now p.key KeyOp.persist)
  | .rename => onlyError (s.rename now p.key p.dest)
  | .lpop => onlyError (s.run now p.key (KeyOp.lPop (popCnt p.cnt)))
  | .rpop => onlyError (s.run now p.key (KeyOp.rPop (popCnt p.cnt)))
  | .lrem => onlyError (s.run now p.key (KeyOp.lRem p.cnt p.value))
  | .lset => onlyError (s.run now p.key (KeyOp.lSet p.cnt p.value))
  | .ltrim => applyLTrim s now p
  | .linsertBefore => applyLInsert s now true p
  | .linsertAfter => applyLInsert s now false p
  | .other name => (s, .error (.unknownOp name))

def applyAll (now : Time) (payloads : List ReplicatePayload) (s : Store) : Store :=
  payloads.foldl (fun s p => (applyReplicatePayload s now p).1) s

/-! ## On the wire -/

def replEnvelopeVersion : Int := 1

structure WireRepl where
  payload : ReplicatePayload
  v : Int := replEnvelopeVersion
  seq : Nat
  origin : Bytes

/-- The event and the new value of the counter `replSeq`, a `uint64`. -/
def buildWireRepl (nodeId : Bytes) (replSeq : Nat) (p : ReplicatePayload) : WireRepl × Nat :=
  let seq := (replSeq + 1) % 2 ^ 64
  ({ payload := p, seq := seq, origin := nodeId }, seq)

def applyWireRepl (s : Store) (now : Time) (wr : WireRepl) : Store × Except ApplyErr Unit :=
  applyReplicatePayload s now wr.payload

end SuperCache
