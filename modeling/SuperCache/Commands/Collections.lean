import SuperCache.Commands.Basic

/-! # Hash, list and set commands

The handlers of `hashes.go`, `lists.go` and `sets.go`.
-/

namespace SuperCache

open Lib

variable (now : Time) (s : Store) (args : List Bytes)

/-! ## Hashes -/

/-- `HSET` and `HMSET`. -/
def hashSet (cmd : String) (reply : Int → Reply) (now : Time) (s : Store) (args : List Bytes) :
    Outcome :=
  match args with
  | _ :: key :: field :: rest =>
    match pairsOf (field :: rest) with
    | none => .replies s (.error (.wrongArgs cmd))
    | some pairs =>
      .ofCall (s.hSet now key pairs) typeOrOomReply (fun _ => [replicateHash key pairs]) reply
  | _ => .replies s (.error (.wrongArgs cmd))

def cmdHSet : CmdFunc := hashSet "HSET" .int

def cmdHMSet : CmdFunc := hashSet "HMSET" fun _ => .ok

/-- The readers of one field ask for the type of the key when the field is not
there, to count a hit or a miss. -/
def cmdHGet : Outcome :=
  match args with
  | [_, key, field] =>
    .onOk (s.run now key (KeyOp.hGet field)) typeReply fun s value =>
      match value with
      | none => .replies (s.run now key KeyOp.typeName).1 .nil
      | some bytes => .replies s (.bulk bytes)
  | _ => .replies s (.error (.wrongArgs "HGET"))

/-- The loop of `HMGET` over the fields of a hash. -/
def hGetEach (now : Time) (s : Store) (key : Key) :
    List Bytes → Store × Except StoreErr (List (Option Bytes))
  | [] => (s, .ok [])
  | field :: rest =>
    match s.run now key (KeyOp.hGet field) with
    | (s, .error failure) => (s, .error failure)
    | (s, .ok value) =>
      match hGetEach now s key rest with
      | (s, .error failure) => (s, .error failure)
      | (s, .ok values) => (s, .ok (value :: values))

def cmdHMGet : Outcome :=
  match args with
  | _ :: key :: field :: rest =>
    .onOk (s.run now key KeyOp.typeName) .failure fun s kind =>
      match kind with
      | .none => .replies s (.array ((field :: rest).map fun _ => none))
      | .hash => .ofCall (hGetEach now s key (field :: rest)) typeReply (fun _ => []) .array
      | _ => .replies s (.error .wrongType)
  | _ => .replies s (.error (.wrongArgs "HMGET"))

/-- `HGETALL`, `HKEYS` and `HVALS`: what each says about a field, in the order of
the sorted fields. -/
def hashListing (cmd : String) (row : Bytes → Bytes → List Bytes) (now : Time) (s : Store)
    (args : List Bytes) : Outcome :=
  match args with
  | [_, key] =>
    .ofCall (s.run now key KeyOp.hGetAll) typeReply (fun _ => []) fun fields =>
      .array (((Store.pairsIn fields (sortedElems fields.keys)).flatMap
        fun pair => row pair.1 pair.2).map some)
  | _ => .replies s (.error (.wrongArgs cmd))

def cmdHGetAll : CmdFunc := hashListing "HGETALL" fun field val => [field, val]

def cmdHKeys : CmdFunc := hashListing "HKEYS" fun field _ => [field]

def cmdHVals : CmdFunc := hashListing "HVALS" fun _ val => [val]

def cmdHDel : Outcome :=
  match args with
  | _ :: key :: field :: rest =>
    .ofCall (s.run now key (KeyOp.hDel (field :: rest))) typeReply
      (fun n => sentIf (0 < n) (replicateHDel key (field :: rest))) .int
  | _ => .replies s (.error (.wrongArgs "HDEL"))

def cmdHExists : Outcome :=
  match args with
  | [_, key, field] =>
    .onOk (s.run now key (KeyOp.hExists field)) typeReply fun s there =>
      if there then .replies s (.int 1)
      else .replies (s.run now key KeyOp.typeName).1 (.int 0)
  | _ => .replies s (.error (.wrongArgs "HEXISTS"))

def cmdHLen : Outcome :=
  match args with
  | [_, key] =>
    .onOk (s.run now key KeyOp.hLen) typeReply fun s n =>
      .replies (s.run now key KeyOp.typeName).1 (.int n)
  | _ => .replies s (.error (.wrongArgs "HLEN"))

def oneField (field val : Bytes) : GoMap Bytes :=
  (∅ : GoMap Bytes).insert field val

def cmdHIncrBy : Outcome :=
  match args with
  | [_, key, field, delta] =>
    match parseInt delta with
    | none => .replies s (.error .notInt)
    | some delta =>
      .ofCall (s.run now key (KeyOp.hIncrBy key field delta)) hIncrReply
        (fun n => [replicateHash key (oneField field (formatInt n))]) .int
  | _ => .replies s (.error (.wrongArgs "HINCRBY"))

def cmdHIncrByFloat (fl : FloatOps) (now : Time) (s : Store) (args : List Bytes) : Outcome :=
  match args with
  | [_, key, field, delta] =>
    match fl.parse delta with
    | none => .replies s (.error .notInt)
    | some delta =>
      .ofCall (s.run now key (KeyOp.hIncrByFloat fl key field delta)) hIncrFloatReply
        (fun f => [replicateHash key (oneField field (fl.format f))])
        fun f => .bulk (fl.format f)
  | _ => .replies s (.error (.wrongArgs "HINCRBYFLOAT"))

def cmdHSetNX : Outcome :=
  match args with
  | [_, key, field, val] =>
    .ofCall (s.run now key (KeyOp.hSetNX key field val)) typeOrOomReply
      (fun n => sentIf (n = 1) (replicateHash key (oneField field val))) .int
  | _ => .replies s (.error (.wrongArgs "HSETNX"))

/-! ## Lists -/

/-- `LPUSH` and `RPUSH`. -/
def pushList (cmd : String) (left : Bool) (now : Time) (s : Store) (args : List Bytes) : Outcome :=
  match args with
  | _ :: key :: val :: rest =>
    .ofCall (s.run now key (KeyOp.listPush key (val :: rest) left)) typeOrOomReply
      (fun _ => [replicateListPush key left (val :: rest)]) .int
  | _ => .replies s (.error (.wrongArgs cmd))

def cmdLPush : CmdFunc := pushList "LPUSH" true

def cmdRPush : CmdFunc := pushList "RPUSH" false

/-- `LPUSHX` and `RPUSHX` replicate as a plain push, and only if there was a list. -/
def pushListX (cmd : String) (left : Bool) (now : Time) (s : Store) (args : List Bytes) : Outcome :=
  match args with
  | _ :: key :: val :: rest =>
    .ofCall (s.run now key (KeyOp.listPushX key (val :: rest) left)) typeOrOomReply
      (fun n => sentIf (0 < n) (replicateListPush key left (val :: rest))) .int
  | _ => .replies s (.error (.wrongArgs cmd))

def cmdLPushX : CmdFunc := pushListX "LPUSHX" true

def cmdRPushX : CmdFunc := pushListX "RPUSHX" false

/-- `LPOP` and `RPOP` replicate how many elements were popped.  Without a count
the reply is the element itself, nil if it is empty. -/
def popList (cmd : String) (op : Int → KeyOp (List Bytes)) (replOp : ReplOp) (now : Time)
    (s : Store) (args : List Bytes) : Outcome :=
  let pop (key : Key) (count : Int) (reply : List Bytes → Reply) : Outcome :=
    .ofCall (s.run now key (op count)) typeReply
      (fun out => sentIf (out ≠ []) (replicatePop replOp key out.length)) reply
  match args with
  | [_, key] => pop key 1 fun out => .ofBytes (out.head?.bind nilIfEmpty)
  | [_, key, count] =>
    match parseInt count with
    | none => .replies s (.error .notInt)
    | some count =>
      if count ≤ 0 then .replies s (.error .notInt)
      else pop key count fun out => .array (out.map some)
  | _ => .replies s (.error (.wrongArgs cmd))

def cmdLPop : CmdFunc := popList "LPOP" KeyOp.lPop .lpop

def cmdRPop : CmdFunc := popList "RPOP" KeyOp.rPop .rpop

def cmdLLen : Outcome :=
  match args with
  | [_, key] => .ofCall (s.run now key KeyOp.lLen) typeReply (fun _ => []) .int
  | _ => .replies s (.error (.wrongArgs "LLEN"))

def cmdLIndex : Outcome :=
  match args with
  | [_, key, index] =>
    match parseInt index with
    | none => .replies s (.error .notInt)
    | some index =>
      .ofCall (s.run now key (KeyOp.lIndex index)) typeReply (fun _ => []) Reply.ofBytes
  | _ => .replies s (.error (.wrongArgs "LINDEX"))

def cmdLSet : Outcome :=
  match args with
  | [_, key, index, val] =>
    match parseInt index with
    | none => .replies s (.error .notInt)
    | some index =>
      .ofCall (s.run now key (KeyOp.lSet index val)) lSetReply
        (fun _ => [replicateLSet key index val]) fun _ => .ok
  | _ => .replies s (.error (.wrongArgs "LSET"))

def cmdLRem : Outcome :=
  match args with
  | [_, key, count, elem] =>
    match parseInt count with
    | none => .replies s (.error .notInt)
    | some count =>
      .ofCall (s.run now key (KeyOp.lRem count elem)) typeReply
        (fun n => sentIf (0 < n) (replicateLRem key count elem)) .int
  | _ => .replies s (.error (.wrongArgs "LREM"))

def cmdLRange : Outcome :=
  match args with
  | [_, key, start, stop] =>
    match parseInt start, parseInt stop with
    | some start, some stop =>
      .ofCall (s.run now key (KeyOp.lRange start stop)) typeReply (fun _ => []) fun out =>
        .array (out.map some)
    | _, _ => .replies s (.error .notInt)
  | _ => .replies s (.error (.wrongArgs "LRANGE"))

def cmdLTrim : Outcome :=
  match args with
  | [_, key, start, stop] =>
    match parseInt start, parseInt stop with
    | some start, some stop =>
      .ofCall (s.run now key (KeyOp.lTrim start stop)) typeReply
        (fun _ => [replicateLTrim key start stop]) fun _ => .ok
    | _, _ => .replies s (.error .notInt)
  | _ => .replies s (.error (.wrongArgs "LTRIM"))

/-- The second word of `LINSERT`: whether it says before. -/
def insertsBefore (place : Bytes) : Option Bool :=
  let name := toUpper place
  if name = ascii "BEFORE" then some true else if name = ascii "AFTER" then some false else none

def cmdLInsert : Outcome :=
  match args with
  | [_, key, place, pivot, elem] =>
    match insertsBefore place with
    | none => .replies s (.error .syntaxErr)
    | some before =>
      .ofCall (s.run now key (KeyOp.lInsert key before pivot elem)) typeReply
        (fun n => sentIf (0 ≤ n) (replicateLInsert key before pivot elem))
        fun n => .int (if n < 0 then -1 else n)
  | _ => .replies s (.error (.wrongArgs "LINSERT"))

/-! ## Sets -/

def cmdSAdd : Outcome :=
  match args with
  | _ :: key :: member :: rest =>
    .ofCall (s.sAdd now key (member :: rest)) typeOrOomReply
      (fun n => sentIf (0 < n) (replicateSAdd key (member :: rest))) .int
  | _ => .replies s (.error (.wrongArgs "SADD"))

def cmdSRem : Outcome :=
  match args with
  | _ :: key :: member :: rest =>
    .ofCall (s.run now key (KeyOp.sRem (member :: rest))) typeReply
      (fun n => sentIf (0 < n) (replicateSRem key (member :: rest))) .int
  | _ => .replies s (.error (.wrongArgs "SREM"))

def cmdSMembers : Outcome :=
  match args with
  | [_, key] =>
    .ofCall (s.run now key KeyOp.sMembers) typeReply (fun _ => []) fun members =>
      .array ((sortedElems members).map some)
  | _ => .replies s (.error (.wrongArgs "SMEMBERS"))

def cmdSIsMember : Outcome :=
  match args with
  | [_, key, member] =>
    .ofCall (s.run now key (KeyOp.sIsMember member)) typeReply (fun _ => []) Reply.ofBool
  | _ => .replies s (.error (.wrongArgs "SISMEMBER"))

def cmdSCard : Outcome :=
  match args with
  | [_, key] => .ofCall (s.run now key KeyOp.sCard) typeReply (fun _ => []) .int
  | _ => .replies s (.error (.wrongArgs "SCARD"))

def unionMembers (now : Time) (s : Store) : List Key → Store × Except StoreErr (Finset Bytes)
  | [] => (s, .ok ∅)
  | key :: rest =>
    match s.run now key KeyOp.sMembers with
    | (s, .error failure) => (s, .error failure)
    | (s, .ok members) =>
      match unionMembers now s rest with
      | (s, .error failure) => (s, .error failure)
      | (s, .ok others) => (s, .ok (members ∪ others))

/-- The loop of `interMembers`; it stops when no candidate is left. -/
def interLoop (now : Time) (s : Store) (cand : Finset Bytes) :
    List Key → Store × Except StoreErr (Finset Bytes)
  | [] => (s, .ok cand)
  | key :: rest =>
    match s.run now key KeyOp.sMembers with
    | (s, .error failure) => (s, .error failure)
    | (s, .ok members) =>
      if cand ∩ members = ∅ then (s, .ok ∅) else interLoop now s (cand ∩ members) rest

def diffLoop (now : Time) (s : Store) (left : Finset Bytes) :
    List Key → Store × Except StoreErr (Finset Bytes)
  | [] => (s, .ok left)
  | key :: rest =>
    match s.run now key KeyOp.sMembers with
    | (s, .error failure) => (s, .error failure)
    | (s, .ok members) => diffLoop now s (left \ members) rest

/-- The start of `interMembers` and `diffMembers`: they read no further when the
first key is missing. -/
def firstMembers (key : Key)
    (next : Store → Finset Bytes → Store × Except StoreErr (Finset Bytes)) :
    Store × Except StoreErr (Finset Bytes) :=
  match s.run now key KeyOp.sMembers with
  | (t, .error failure) => (t, .error failure)
  | (t, .ok members) => if (s.lookup now key).isLive then next t members else (t, .ok ∅)

def interMembers (now : Time) (s : Store) : List Key → Store × Except StoreErr (Finset Bytes)
  | [] => (s, .ok ∅)
  | key :: rest => firstMembers now s key fun s members => interLoop now s members rest

def diffMembers (now : Time) (s : Store) : List Key → Store × Except StoreErr (Finset Bytes)
  | [] => (s, .ok ∅)
  | key :: rest => firstMembers now s key fun s members => diffLoop now s members rest

/-- `SUNION`, `SINTER` and `SDIFF`. -/
def combineSets (cmd : String)
    (members : Time → Store → List Key → Store × Except StoreErr (Finset Bytes)) (now : Time)
    (s : Store) (args : List Bytes) : Outcome :=
  match args with
  | _ :: key :: keys =>
    .ofCall (members now s (key :: keys)) typeReply (fun _ => []) fun members =>
      .array ((sortedElems members).map some)
  | _ => .replies s (.error (.wrongArgs cmd))

/-- `SUNIONSTORE`, `SINTERSTORE` and `SDIFFSTORE`. -/
def storeSets (cmd : String)
    (members : Time → Store → List Key → Store × Except StoreErr (Finset Bytes)) (now : Time)
    (s : Store) (args : List Bytes) : Outcome :=
  match args with
  | _ :: dest :: key :: keys =>
    .onOk (members now s (key :: keys)) typeReply fun s members =>
      .ofCall (s.run now dest (KeyOp.replaceSet dest (sortedElems members))) oomReply
        (fun _ => [replicateReplaceSet dest (sortedElems members)]) fun _ => .int members.card
  | _ => .replies s (.error (.wrongArgs cmd))

def cmdSUnion : CmdFunc := combineSets "SUNION" unionMembers

def cmdSInter : CmdFunc := combineSets "SINTER" interMembers

def cmdSDiff : CmdFunc := combineSets "SDIFF" diffMembers

def cmdSUnionStore : CmdFunc := storeSets "SUNIONSTORE" unionMembers

def cmdSInterStore : CmdFunc := storeSets "SINTERSTORE" interMembers

def cmdSDiffStore : CmdFunc := storeSets "SDIFFSTORE" diffMembers

end SuperCache
