import SuperCache.Commands.Basic

/-! # String commands

The handlers of `strings.go`.
-/

namespace SuperCache

open Lib

variable (now : Time) (s : Store) (args : List Bytes)

/-! ## Expiry options -/

inductive ExpiryKind where
  | ex
  | px
  | exat
  | pxat
deriving DecidableEq

/-- `EX`, `PX`, `EXAT` and `PXAT`, for a name in upper case. -/
def expiryKind (name : Bytes) : Option ExpiryKind :=
  if name = ascii "EX" then some .ex
  else if name = ascii "PX" then some .px
  else if name = ascii "EXAT" then some .exat
  else if name = ascii "PXAT" then some .pxat
  else none

def expiryOperand (kind : ExpiryKind) (operand : Bytes) : Option Int :=
  (parseInt operand).bind fun n =>
    if (kind = .ex ∨ kind = .px) ∧ n ≤ 0 then none else some n

/-! ## `GET` and `SET` -/

def cmdGet : Outcome :=
  match args with
  | [_, key] => .ofCall (s.run now key KeyOp.get) typeReply (fun _ => []) Reply.ofBytes
  | _ => .replies s (.error (.wrongArgs "GET"))

/-- The variables the option loop of `SET` fills; `atTime` is `at` with its
`haveAt`. -/
structure SetOptions where
  nx : Bool := false
  xx : Bool := false
  get : Bool := false
  keepttl : Bool := false
  exMs : Int := -1
  atTime : Option Time := none

inductive SetOption where
  | nx
  | xx
  | get
  | keepttl
  | expiry (kind : ExpiryKind)

def setOption (opt : Bytes) : Option SetOption :=
  let name := toUpper opt
  if name = ascii "NX" then some .nx
  else if name = ascii "XX" then some .xx
  else if name = ascii "GET" then some .get
  else if name = ascii "KEEPTTL" then some .keepttl
  else (expiryKind name).map .expiry

def SetOptions.withExpiry (o : SetOptions) (kind : ExpiryKind) (n : Int) : SetOptions :=
  match kind with
  | .ex => { o with exMs := wrap64 (n * 1000) }
  | .px => { o with exMs := n }
  | .exat => { o with atTime := some (timeUnix n) }
  | .pxat => { o with atTime := some (timeUnixMilli n) }

def parseSetOptions (o : SetOptions) : List Bytes → Except ReplyErr SetOptions
  | [] => .ok o
  | opt :: rest =>
    match setOption opt with
    | some .nx => parseSetOptions { o with nx := true } rest
    | some .xx => parseSetOptions { o with xx := true } rest
    | some .get => parseSetOptions { o with get := true } rest
    | some .keepttl => parseSetOptions { o with keepttl := true } rest
    | some (.expiry kind) =>
      match rest with
      | [] => .error (.wrongArgs "SET")
      | operand :: rest =>
        match expiryOperand kind operand with
        | none => .error (.invalidExpire "SET")
        | some n => parseSetOptions (o.withExpiry kind n) rest
    | none => .error (.wrongArgs "SET")

def SetOptions.deadline (o : SetOptions) (now : Time) : Time :=
  match o.atTime with
  | some instant => instant
  | none => if 0 ≤ o.exMs then now + milliseconds o.exMs else 0

/-- The deadline after `KEEPTTL`, which asks the store and may purge the key. -/
def SetOptions.keptDeadline (o : SetOptions) (now : Time) (s : Store) (key : Key) : Store × Time :=
  if o.keepttl then
    match s.run now key (KeyOp.ttlMs now) with
    | (s, .ok ms) => (s, if 0 < ms then now + milliseconds ms else o.deadline now)
    | (s, .error _) => (s, o.deadline now)
  else (s, o.deadline now)

/-- The store method `applySet` chooses. -/
def setCall (key : Key) (val : Bytes) (exp : Time) (nx xx : Bool) : Store × Except StoreErr Bool :=
  if nx && !xx then s.run now key (KeyOp.setNX key val exp)
  else if xx && !nx then s.run now key (KeyOp.setXX key val exp)
  else
    match s.run now key (KeyOp.set key val exp) with
    | (s, .error failure) => (s, .error failure)
    | (s, .ok ()) => (s, .ok true)

def applySet (key : Key) (val : Bytes) (exp : Time) (nx xx : Bool)
    (onError : StoreErr → Reply) (reply : Bool → Reply) : Outcome :=
  .ofCall (setCall now s key val exp nx xx) onError
    (fun ok => sentIf ok (replicateSet now key val exp)) reply

/-- `SET` once its options are parsed. -/
def setParsed (key : Key) (val : Bytes) (o : SetOptions) : Outcome :=
  let kept := o.keptDeadline now s key
  if o.nx && o.xx then .replies kept.1 (.error .syntaxErr)
  else if o.get then
    .onOk (kept.1.run now key KeyOp.get) typeReply fun s prev =>
      applySet now s key val kept.2 o.nx o.xx .failure fun ok =>
        if ok then .ofBytes prev else .nil
  else
    applySet now kept.1 key val kept.2 o.nx o.xx oomReply fun ok => if ok then .ok else .nil

def cmdSet : Outcome :=
  match args with
  | _ :: key :: val :: opts =>
    match parseSetOptions {} opts with
    | .error err => .replies s (.error err)
    | .ok o => setParsed now s key val o
  | _ => .replies s (.error (.wrongArgs "SET"))

def cmdSetNX : Outcome :=
  match args with
  | [_, key, val] =>
    .ofCall (s.run now key (KeyOp.setNX key val 0)) oomReply
      (fun ok => sentIf ok (replicateSet now key val 0)) Reply.ofBool
  | _ => .replies s (.error (.wrongArgs "SETNX"))

/-- A plain `Store.Set`, replicated: what most string writers end with. -/
def setAndReplicate (key : Key) (val : Bytes) (exp : Time) (reply : Reply) : Outcome :=
  .ofCall (s.run now key (KeyOp.set key val exp)) oomReply
    (fun _ => [replicateSet now key val exp]) fun _ => reply

/-- `SETEX` and `PSETEX`, with the unit of their second argument. -/
def setWithTTL (cmd : String) (unit : Int → Int) (now : Time) (s : Store) (args : List Bytes) :
    Outcome :=
  match args with
  | [_, key, ttl, val] =>
    match expiryOperand .ex ttl with
    | none => .replies s (.error (.invalidExpire cmd))
    | some n => setAndReplicate now s key val (now + unit n) .ok
  | _ => .replies s (.error (.wrongArgs cmd))

def cmdSetEX : CmdFunc := setWithTTL "SETEX" seconds

def cmdPSetEX : CmdFunc := setWithTTL "PSETEX" milliseconds

def cmdGetSet : Outcome :=
  match args with
  | [_, key, val] =>
    .ofCall (s.run now key (KeyOp.getSet key val 0)) typeReply
      (fun _ => [replicateSet now key val 0]) Reply.ofBytes
  | _ => .replies s (.error (.wrongArgs "GETSET"))

def cmdGetDel : Outcome :=
  match args with
  | [_, key] =>
    .onOk (s.run now key KeyOp.get) typeReply fun s prev =>
      match prev with
      | none => .replies s .nil
      | some bytes =>
        { store := (s.del now [key]).1, sent := [replicateDel key], reply := .bulk bytes }
  | _ => .replies s (.error (.wrongArgs "GETDEL"))

/-! ## `GETEX` -/

inductive GetExOption where
  | expiry (kind : ExpiryKind)
  | persist

def getExOption (opt : Bytes) : Option GetExOption :=
  let name := toUpper opt
  if name = ascii "PERSIST" then some .persist else (expiryKind name).map .expiry

def ExpiryKind.instant (kind : ExpiryKind) (now : Time) (n : Int) : Time :=
  match kind with
  | .ex => now + seconds n
  | .px => now + milliseconds n
  | .exat => timeUnix n
  | .pxat => timeUnixMilli n

/-- The option loop.  `PERSIST` acts on the store and is replicated as soon as
it is read, whatever follows it. -/
def getExLoop (now : Time) (key : Key) (s : Store) (sent : List ReplicatePayload)
    (exp : Option Time) :
    List Bytes → Store × List ReplicatePayload × Except ReplyErr (Option Time)
  | [] => (s, sent, .ok exp)
  | opt :: rest =>
    match getExOption opt with
    | some .persist =>
      getExLoop now key (s.run now key KeyOp.persist).1 (sent ++ [replicatePersist key]) exp rest
    | some (.expiry kind) =>
      match rest with
      | [] => (s, sent, .error (.wrongArgs "GETEX"))
      | operand :: rest =>
        match expiryOperand kind operand with
        | none => (s, sent, .error (.invalidExpire "GETEX"))
        | some n => getExLoop now key s sent (some (kind.instant now n)) rest
    | none => (s, sent, .error (.wrongArgs "GETEX"))

/-- `GETEX` after its options: only a value that is not nil gets the deadline. -/
def getExFinish (now : Time) (key : Key) (s : Store) (sent : List ReplicatePayload)
    (exp : Option Time) : Outcome :=
  match s.run now key KeyOp.get with
  | (s, .error failure) => { store := s, sent := sent, reply := typeReply failure }
  | (s, .ok none) => { store := s, sent := sent, reply := .nil }
  | (s, .ok (some bytes)) =>
    match exp with
    | none => { store := s, sent := sent, reply := .bulk bytes }
    | some instant =>
      { store := (s.run now key (KeyOp.expireAt instant)).1
        sent := sent ++ [replicatePExpireAtUnixMs key (unixMilli instant)]
        reply := .bulk bytes }

def cmdGetEx : Outcome :=
  match args with
  | [_, key] => .ofCall (s.run now key KeyOp.get) typeReply (fun _ => []) Reply.ofBytes
  | _ :: key :: opts =>
    match getExLoop now key s [] none opts with
    | (s, sent, .error err) => { store := s, sent := sent, reply := .error err }
    | (s, sent, .ok exp) => getExFinish now key s sent exp
  | _ => .replies s (.error (.wrongArgs "GETEX"))

/-! ## Several keys -/

def cmdMGet : Outcome :=
  match args with
  | _ :: key :: keys => .ofCall (s.mGet now (key :: keys)) .failure (fun _ => []) .array
  | _ => .replies s (.error (.wrongArgs "MGET"))

/-- One `SET` payload for each pair, in the order of a range over the map. -/
def replicatePairs (pairs : GoMap Bytes) (reply : Reply) : Outcome :=
  let (s, order) := s.drawRange pairs.keys
  { store := s
    sent := (Store.pairsIn pairs order).map fun pair => replicateSet now pair.1 pair.2 0
    reply := reply }

def cmdMSet : Outcome :=
  match args with
  | _ :: key :: rest =>
    match pairsOf (key :: rest) with
    | none => .replies s (.error (.wrongArgs "MSET"))
    | some pairs =>
      .onOk (s.mSet now pairs) oomReply fun s _ => replicatePairs now s pairs .ok
  | _ => .replies s (.error (.wrongArgs "MSET"))

def cmdMSetNX : Outcome :=
  match args with
  | _ :: key :: rest =>
    match pairsOf (key :: rest) with
    | none => .replies s (.error (.wrongArgs "MSETNX"))
    | some pairs =>
      .onOk (s.mSetNX now pairs) oomReply fun s ok =>
        if ok then replicatePairs now s pairs (.int 1) else .replies s (.int 0)
  | _ => .replies s (.error (.wrongArgs "MSETNX"))

/-- The keys of the arguments that exist, as the map `existing`. -/
def existingKeys (now : Time) (s : Store) : List Key → Store × Finset Key
  | [] => (s, ∅)
  | key :: rest =>
    let (s, n) := s.exists' now [key]
    let (s, existing) := existingKeys now s rest
    (s, if 0 < n then insert key existing else existing)

def cmdDel : Outcome :=
  match args with
  | _ :: key :: rest =>
    let (s, existing) := existingKeys now s (key :: rest)
    let (s, n) := s.del now (key :: rest)
    let (s, order) := s.drawRange existing
    { store := s, sent := order.map replicateDel, reply := .int n }
  | _ => .replies s (.error (.wrongArgs "DEL"))

/-! ## Counters -/

def countAndReplicate (key : Key) (op : KeyOp Int) : Outcome :=
  .ofCall (s.run now key op) incrReply (fun n => [replicateSet now key (formatInt n) 0]) .int

def doIncr (cmd : String) (delta : Int) (now : Time) (s : Store) (args : List Bytes) : Outcome :=
  match args with
  | [_, key] => countAndReplicate now s key (KeyOp.incrBy key delta)
  | _ => .replies s (.error (.wrongArgs cmd))

def cmdIncr : CmdFunc := doIncr "INCR" 1

def cmdDecr : CmdFunc := doIncr "DECR" (-1)

/-- `INCRBY` and `DECRBY`. -/
def countBy (cmd : String) (op : Key → Int → KeyOp Int) (now : Time) (s : Store)
    (args : List Bytes) : Outcome :=
  match args with
  | [_, key, delta] =>
    match parseInt delta with
    | none => .replies s (.error .notInt)
    | some delta => countAndReplicate now s key (op key delta)
  | _ => .replies s (.error (.wrongArgs cmd))

def cmdIncrBy : CmdFunc := countBy "INCRBY" KeyOp.incrBy

def cmdDecrBy : CmdFunc := countBy "DECRBY" KeyOp.decrBy

/-- The number `INCRBYFLOAT` starts from: unlike the other counters it takes a
blank text for an error. -/
def floatStart (fl : FloatOps) : Option Bytes → Option fl.F
  | none => some fl.zero
  | some text => fl.parse (trimSpace text)

def cmdIncrByFloat (fl : FloatOps) (now : Time) (s : Store) (args : List Bytes) : Outcome :=
  match args with
  | [_, key, delta] =>
    match fl.parse delta with
    | none => .replies s (.error .notInt)
    | some delta =>
      .onOk (s.run now key KeyOp.get) typeReply fun s text =>
        match floatStart fl text with
        | none => .replies s (.error .notInt)
        | some f =>
          let out := fl.format (fl.add f delta)
          setAndReplicate now s key out 0 (.bulk out)
  | _ => .replies s (.error (.wrongArgs "INCRBYFLOAT"))

/-! ## Parts of strings -/

/-- `APPEND` reads the value back to replicate it whole. -/
def cmdAppend : Outcome :=
  match args with
  | [_, key, tail] =>
    .onOk (s.run now key (KeyOp.append key tail)) typeOrOomReply fun s n =>
      match s.run now key KeyOp.get with
      | (s, .ok (some bytes)) =>
        { store := s, sent := [replicateSet now key bytes 0], reply := .int n }
      | (s, _) => .replies s (.int n)
  | _ => .replies s (.error (.wrongArgs "APPEND"))

def cmdStrLen : Outcome :=
  match args with
  | [_, key] =>
    .ofCall (s.run now key KeyOp.get) typeReply (fun _ => []) fun bytes =>
      .int (bytes.getD []).length
  | _ => .replies s (.error (.wrongArgs "STRLEN"))

def normRange (idx : Int) (n : Nat) : Int :=
  let i := if idx < 0 then n + idx else idx
  if i < 0 then 0 else if n ≤ i then n - 1 else i

def getRangeOf (bytes : Bytes) (start stop : Int) : Bytes :=
  let st := normRange start bytes.length
  let en := normRange stop bytes.length
  if en < st then [] else (bytes.drop st.toNat).take (en + 1 - st).toNat

def cmdGetRange : Outcome :=
  match args with
  | [_, key, start, stop] =>
    match parseInt start, parseInt stop with
    | some start, some stop =>
      .ofCall (s.run now key KeyOp.get) typeReply (fun _ => []) fun bytes =>
        .bulk (match bytes with
          | none => []
          | some bytes => getRangeOf bytes start stop)
    | _, _ => .replies s (.error .notInt)
  | _ => .replies s (.error (.wrongArgs "GETRANGE"))

/-- `base` with `val` written at `offset`, padded with NUL bytes up to there. -/
def setRangeOf (base : Bytes) (offset : Nat) (val : Bytes) : Bytes :=
  let padded := base ++ nuls (offset - base.length)
  padded.take offset ++ val ++ padded.drop (offset + val.length)

def cmdSetRange : Outcome :=
  match args with
  | [_, key, offset, val] =>
    match parseInt offset with
    | none => .replies s (.error .notInt)
    | some offset =>
      if offset < 0 then .replies s (.error .notInt)
      else
        .onOk (s.run now key KeyOp.get) typeReply fun s bytes =>
          let base := setRangeOf (bytes.getD []) offset.toNat val
          setAndReplicate now s key base 0 (.int base.length)
  | _ => .replies s (.error (.wrongArgs "SETRANGE"))

end SuperCache
