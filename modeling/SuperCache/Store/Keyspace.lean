import SuperCache.Store.Collections

/-! # Operations on keys and on the whole keyspace

Deletion, deadlines, renaming, the multi-key writes, flushing, expiry sampling,
and the snapshot entries of a bootstrap.
-/

namespace SuperCache

open Lib

namespace KeyOp

/-- `Del` on one key; the result is how many keys it counts. -/
def del : KeyOp Int
  | .live e => .done .none (.purge e 1)
  | _ => .done .none (.keep (.ok 0))

/-- `Exists` on one key. -/
def exists1 : KeyOp Int
  | .live _ => .done .none (.keep (.ok 1))
  | _ => .done .none (.keep (.ok 0))

/-- `ExpireAt`: the entry is cloned with a new deadline, past ones included. -/
def expireAt (instant : Time) : KeyOp Bool
  | .live e => .done .none (.replace (some e) { e with expiresAt := instant } true)
  | _ => .done .none (.keep (.ok false))

def persist : KeyOp Bool
  | .live e =>
    if e.expiresAt = 0 then .done .none (.keep (.ok false))
    else .done .none (.replace (some e) { e with expiresAt := 0 } true)
  | _ => .done .none (.keep (.ok false))

/-- `TTL` and `TTLMs`; `unit` turns the remaining duration into the reply.  An
entry at its very deadline is not expired yet, but is purged here. -/
def ttlIn (unit : Int → Int) (now : Time) : KeyOp Int
  | .live e =>
    if e.expiresAt = 0 then .done .none (.keep (.ok (-1)))
    else if untilTime now e.expiresAt ≤ 0 then .done .none (.purge e (-2))
    else .done .none (.keep (.ok (unit (untilTime now e.expiresAt))))
  | _ => .done .none (.keep (.ok (-2)))

def ttl (now : Time) : KeyOp Int :=
  ttlIn inSeconds now

def ttlMs (now : Time) : KeyOp Int :=
  ttlIn inMilliseconds now

/-- `Type`. -/
inductive TypeName where
  | none
  | string
  | hash
  | list
  | set
deriving DecidableEq, Repr

def typeName : KeyOp TypeName
  | .live e =>
    .done .none (.keep (.ok (match e.value with
      | .string _ => .string
      | .hash _ => .hash
      | .list _ => .list
      | .set _ => .set)))
  | _ => .done .none (.keep (.ok .none))

end KeyOp

def typeText : KeyOp.TypeName → String
  | .none => "none"
  | .string => "string"
  | .hash => "hash"
  | .list => "list"
  | .set => "set"

namespace Store

/-! ## One key after another -/

/-- The loops of `Del` and `Exists`, which add up what each key counts. -/
def countKeys (op : KeyOp Int) (s : Store) (now : Time) : List Key → Store × Int
  | [] => (s, 0)
  | key :: rest =>
    let (s, result) := s.run now key op
    let (s, n) := countKeys op s now rest
    (s, (match result with | .ok m => m | .error _ => 0) + n)

def del (s : Store) (now : Time) (keys : List Key) : Store × Int :=
  countKeys KeyOp.del s now keys

def exists' (s : Store) (now : Time) (keys : List Key) : Store × Int :=
  countKeys KeyOp.exists1 s now keys

/-- `MGet` stops at the first key of another type. -/
def mGet (s : Store) (now : Time) : List Key → Store × Except StoreErr (List (Option Bytes))
  | [] => (s, .ok [])
  | key :: rest =>
    match s.run now key KeyOp.get with
    | (s, .error failure) => (s, .error failure)
    | (s, .ok value) =>
      match mGet s now rest with
      | (s, .error failure) => (s, .error failure)
      | (s, .ok values) => (s, .ok (value :: values))

/-- `MSet` over the pairs in sorted order; it stops at the first failure. -/
def mSetList (s : Store) (now : Time) : List (Key × Bytes) → Store × Except StoreErr Unit
  | [] => (s, .ok ())
  | (key, val) :: rest =>
    match s.run now key (KeyOp.set key val 0) with
    | (s, .error failure) => (s, .error failure)
    | (s, .ok ()) => mSetList s now rest

def pairsIn (pairs : GoMap Bytes) (order : List Key) : List (Key × Bytes) :=
  order.filterMap fun key => (pairs.lookup key).map fun val => (key, val)

def mSet (s : Store) (now : Time) (pairs : GoMap Bytes) : Store × Except StoreErr Unit :=
  mSetList s now (pairsIn pairs (sortedElems pairs.keys))

/-- `Expire`. -/
def expire (s : Store) (now : Time) (key : Key) (sec : Int) : Store × Except StoreErr Bool :=
  if sec ≤ 0 then (s, .error .nonPositive)
  else s.run now key (KeyOp.expireAt (now + seconds sec))

/-! ## `MSetNX` -/

def anyLive (s : Store) (now : Time) (keys : List Key) : Bool :=
  keys.any fun key => (s.lookup now key).isLive

def priceNew (now : Time) (state : Store × Int) (pair : Key × Bytes) : Store × Int :=
  (state.1.purgeExpired pair.1 (state.1.lookup now pair.1),
    state.2 + estimateMem pair.1 { value := .string pair.2 })

def installNew (now : Time) (s : Store) (pair : Key × Bytes) : Store :=
  let found := s.lookup now pair.1
  (s.purgeExpired pair.1 found).replaceEntry pair.1 found.current { value := .string pair.2 }

def mSetNX (s : Store) (now : Time) (pairs : GoMap Bytes) : Store × Except StoreErr Bool :=
  if pairs = ∅ then (s, .ok true)
  else if s.anyLive now (sortedElems pairs.keys) then (s, .ok false)
  else
    let (s, order) := s.drawRange pairs.keys
    let (s, delta) := (pairsIn pairs order).foldl (priceNew now) (s, 0)
    match s.evictUntilFits delta with
    | (s, .error failure) => (s, .error failure)
    | (s, .ok _) =>
      if s.anyLive now (sortedElems pairs.keys) then (s, .ok false)
      else
        let (s, order) := s.drawRange pairs.keys
        ((pairsIn pairs order).foldl (installNew now) s, .ok true)

/-! ## Renaming -/

/-- `cloneEntryForRename`: a copy without LRU pointers. -/
def cloneEntryForRename (e : Entry) : Entry :=
  { value := e.value, expiresAt := e.expiresAt }

def clearDestination (s : Store) (dst : Key) : Store :=
  match s.stored dst with
  | some old => s.purgeEntryLocked (s.route dst) dst old
  | none => s

def dropSource (s : Store) (src : Key) (e : Entry) : Store :=
  (s.modifyShard (s.route src) fun sh =>
    let sh := sh.removeFromLRU src
    { sh with m := sh.m.erase src }).addMem (-estimateMem src e)

def moveEntry (s : Store) (src dst : Key) (e : Entry) : Store :=
  ((s.clearDestination dst).dropSource src e).replaceEntry dst none (cloneEntryForRename e)

def rename (s : Store) (now : Time) (src dst : Key) : Store × Except StoreErr Unit :=
  if src = dst then (s, .ok ())
  else
    match s.lookup now src with
    | .live e => (s.moveEntry src dst e, .ok ())
    | found => (s.purgeExpired src found, .error .noSuchKey)

def renameNX (s : Store) (now : Time) (src dst : Key) : Store × Except StoreErr Bool :=
  if src = dst then (s, .ok true)
  else
    match s.lookup now src with
    | .live e =>
      if (s.lookup now dst).isLive then (s, .ok false) else (s.moveEntry src dst e, .ok true)
    | found => (s.purgeExpired src found, .ok false)

/-! ## Whole shards -/

/-- Purge the listed keys of a shard that satisfy `doomed`. -/
def purgeKeys (doomed : Entry → Bool) (si : Fin 256) (s : Store) (keys : List Key) : Store :=
  keys.foldl (fun s key =>
    match (s.shards si).m.lookup key with
    | some e => if doomed e then s.purgeEntryLocked si key e else s
    | none => s) s

def flushShard (s : Store) (si : Fin 256) : Store :=
  let (s, order) := s.drawRange (s.shards si).m.keys
  purgeKeys (fun _ => true) si s order

def clearWatch (s : Store) : Store :=
  { s with watch := ∅ }

def flushDB (s : Store) : Store :=
  ((List.finRange 256).foldl flushShard s).clearWatch

/-- `sampleOnceShard`: at most twenty keys in map order, with the counts the
caller compares. -/
def sampleOnceShard (s : Store) (now : Time) (si : Fin 256) : Store × Nat × Nat :=
  let (s, order) := s.drawRange (s.shards si).m.keys
  let keys := order.take 20
  let expired := keys.filter fun key => ((s.shards si).m.lookup key).any (isExpired now)
  (purgeKeys (isExpired now) si s keys, expired.length, keys.length)

/-- The rounds of `sampleAllShards` on one shard: again while more than a quarter
of the sample had expired. -/
def sampleShard (now : Time) (si : Fin 256) : Nat → Store → Store
  | 0, s => s
  | rounds + 1, s =>
    let (s, expired, checked) := s.sampleOnceShard now si
    if checked = 0 ∨ 4 * expired ≤ checked then s else sampleShard now si rounds s

def sampleAllShards (s : Store) (now : Time) : Store :=
  (List.finRange 256).foldl (fun s si => sampleShard now si 16 s) s

def dbSize (s : Store) (now : Time) : Nat :=
  ((List.finRange 256).map fun si =>
    ((s.shards si).m.keys.filter fun key =>
      ((s.shards si).m.lookup key).any fun e => !isExpired now e).card).sum

end Store

/-! ## Snapshots -/

/-- The `Type` and content of a snapshot row. -/
inductive SnapshotValue where
  | string (value : Bytes)
  | hash (fields : GoMap Bytes)
  | list (elements : List Bytes)
  | set (members : List Bytes)
  | unknown (type : Bytes)

structure SnapshotEntry where
  key : Key
  value : SnapshotValue
  ttlMs : Int

def buildSnapshotEntry (now : Time) (key : Key) (e : Entry) : SnapshotEntry where
  key := key
  value :=
    match e.value with
    | .string bytes => .string bytes
    | .hash fields => .hash fields
    | .list elements => .list elements
    | .set members => .set (sortedElems members)
  ttlMs := if e.expiresAt = 0 then 0 else max 0 (inMilliseconds (untilTime now e.expiresAt))

namespace Store

/-- The rows `SnapshotCtx` takes from one shard under its lock. -/
def snapshotShard (s : Store) (now : Time) (si : Fin 256) : List SnapshotEntry :=
  (rangeOrder s.oracle s.tick (s.shards si).m.keys).filterMap fun key =>
    ((s.shards si).m.lookup key).bind fun e =>
      if isExpired now e then none else some (buildSnapshotEntry now key e)

def snapshotExpiry (now : Time) (ent : SnapshotEntry) : Time :=
  if 0 < ent.ttlMs then now + milliseconds ent.ttlMs else 0

def snapshotValue : SnapshotValue → Option Value
  | .string bytes => some (.string bytes)
  | .hash fields => some (.hash fields)
  | .list elements => some (.list elements)
  | .set members => some (.set members.toFinset)
  | .unknown _ => none

/-- `applySnapshotEntry`: room is made for the whole new entry, and an expired
one under the key is replaced like any other. -/
def applySnapshotEntry (s : Store) (now : Time) (ent : SnapshotEntry) :
    Store × Except StoreErr Unit :=
  match snapshotValue ent.value with
  | none => (s, .error .unknownSnapshotType)
  | some value =>
    let ne : Entry := { value := value, expiresAt := snapshotExpiry now ent }
    match s.ensureMemoryWithRetry ent.key (estimateMem ent.key ne) with
    | (s, .error failure) => (s, .error failure)
    | (s, .ok _) => (s.replaceEntry ent.key (s.stored ent.key) ne, .ok ())

def applySnapshotEntries (s : Store) (now : Time) : List SnapshotEntry →
    Store × Except StoreErr Unit
  | [] => (s, .ok ())
  | ent :: rest =>
    match s.applySnapshotEntry now ent with
    | (s, .error failure) => (s, .error failure)
    | (s, .ok ()) => applySnapshotEntries s now rest

/-- `ApplySnapshot` replaces the database by the rows. -/
def applySnapshot (s : Store) (now : Time) (entries : List SnapshotEntry) :
    Store × Except StoreErr Unit :=
  s.flushDB.applySnapshotEntries now entries

end Store

end SuperCache
