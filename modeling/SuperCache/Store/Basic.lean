import SuperCache.Lib.FiniteMap
import SuperCache.Lib.GoTime
import Mathlib.Algebra.Order.BigOperators.Group.Finset
import Mathlib.Data.Fintype.Basic

/-! # The sharded store

The data of `internal/store`: entries, shards with their two LRU lists, the
store, and the primitives every operation is built from: `estimateMem`,
`addMem`, `purgeEntryLocked` and `replaceEntry`.

Two choices of the Go runtime are inputs of the model.  `Oracle.intN` supplies
`rand.IntN`, `Oracle.range` the order in which a `range` over a map visits its
keys; `tick` counts the draws made so far.
-/

namespace SuperCache

open Lib

abbrev Key := Bytes

/-- The payload of an entry; the constructor is the `DataType` of the source.
Stored byte slices are copies made by appending to nil, so an empty one is nil. -/
inductive Value where
  | string (bytes : Bytes)
  | hash (fields : GoMap Bytes)
  | list (elements : List Bytes)
  | set (members : Finset Bytes)
deriving DecidableEq

/-- A record stored in a shard map.  `expiresAt = 0` is the zero time, no TTL.
The pointers `allElem` and `volElem` are kept in `LruList.owner`. -/
structure Entry where
  value : Value
  expiresAt : Time := 0
deriving DecidableEq

/-- The eviction policies of `NormalizeMaxMemoryPolicy`. -/
inductive Policy where
  | noeviction
  | allkeysLru
  | volatileLru
  | allkeysRandom
  | volatileRandom
  | volatileTtl
deriving DecidableEq, Repr

/-- A `container/list` of keys with the map from keys to its elements.  Elements
are numbered; `owner` is the element the stored entry of a key points to. -/
structure LruList where
  list : List (Nat × Key) := []
  elems : GoMap Nat := ∅
  owner : GoMap Nat := ∅
  next : Nat := 0

structure Shard where
  m : GoMap Entry := ∅
  all : LruList := {}
  vol : LruList := {}

structure Oracle where
  intN : Nat → Nat
  range : Nat → Finset Key → List Key

def numShards : Nat := 256

/-! ## Routing -/

/-- FNV-1a on 32 bits, `hash/fnv`'s `New32a`. -/
def fnv1a (key : Key) : Nat :=
  key.foldl (fun hash byte => (hash ^^^ byte.val) * 16777619 % 2 ^ 32) 2166136261

def shardOf (n : Nat) : Fin 256 :=
  ⟨n % 256, Nat.mod_lt n (by decide)⟩

def shardIndex (key : Key) : Fin 256 :=
  shardOf (fnv1a key)

/-! ## The store -/

/-- `route` is the shard of a key, `shardIndex` in every store the program makes. -/
structure Store where
  shards : Fin 256 → Shard
  route : Key → Fin 256
  mem : Int
  policy : Policy
  maxMem : Nat
  readLRUTick : Nat
  evictCursor : Nat
  watch : GoMap Nat
  oracle : Oracle
  tick : Nat

/-- `NewStore`, with the configuration already reduced to its cached limit and
policy. -/
def newStore (policy : Policy) (maxMem : Nat) (oracle : Oracle) : Store where
  shards := fun _ => {}
  route := shardIndex
  mem := 0
  policy := policy
  maxMem := maxMem
  readLRUTick := 0
  evictCursor := 0
  watch := ∅
  oracle := oracle
  tick := 0

/-! ## Sizes and deadlines -/

/-- `unsafe.Sizeof(entry{}) + 64` on a 64-bit platform. -/
def entryOverhead : Int := 64 + 64

def Value.size : Value → Int
  | .string bytes => bytes.length
  | .hash fields => weight (fun field value => (field.length : Int) + value.length) fields
  | .list elements => elements.length * 32
  | .set members => members.sum fun member => (member.length : Int)

def estimateMem (key : Key) (e : Entry) : Int :=
  entryOverhead + key.length + e.value.size

theorem Value.size_nonneg (value : Value) : 0 ≤ value.size := by
  cases value with
  | string bytes => exact Int.natCast_nonneg _
  | hash fields =>
    exact weight_nonneg (fun field value => (field.length : Int) + value.length)
      (fun _ _ => by omega) fields
  | list elements =>
    simp only [Value.size]
    omega
  | set members => exact Finset.sum_nonneg fun _ _ => Int.natCast_nonneg _

theorem estimateMem_pos (key : Key) (e : Entry) : 0 < estimateMem key e := by
  have size := e.value.size_nonneg
  unfold estimateMem entryOverhead
  omega

theorem estimateMem_congr (key : Key) {e f : Entry} (same : e.value = f.value) :
    estimateMem key e = estimateMem key f := by
  unfold estimateMem
  rw [same]

def Entry.hasTTL (e : Entry) : Bool :=
  e.expiresAt ≠ 0

def isExpired (now : Time) (e : Entry) : Bool :=
  e.expiresAt ≠ 0 ∧ e.expiresAt < now

/-! ## LRU lists -/

namespace LruList

/-- The `removeFromLRU` step on one list. -/
def removeOwned (l : LruList) (key : Key) : LruList :=
  match l.owner.lookup key with
  | none => l
  | some element =>
    { l with
      list := l.list.filter fun node => node.1 ≠ element
      elems := l.elems.erase key
      owner := l.owner.erase key }

/-- Move the element of `key` to the front, or push a new one the stored entry
then owns. -/
def touch (l : LruList) (key : Key) : LruList :=
  match l.elems.lookup key with
  | some element =>
    match l.list.find? fun node => node.1 = element with
    | some node => { l with list := node :: l.list.filter fun other => other.1 ≠ element }
    | none => l
  | none =>
    { list := (l.next, key) :: l.list
      elems := l.elems.insert key l.next
      owner := l.owner.insert key l.next
      next := l.next + 1 }

def disown (l : LruList) (key : Key) : LruList :=
  { l with owner := l.owner.erase key }

end LruList

def Shard.removeFromLRU (sh : Shard) (key : Key) : Shard :=
  { sh with all := sh.all.removeOwned key, vol := sh.vol.removeOwned key }

def Shard.touchAllKeysLRU (sh : Shard) (policy : Policy) (key : Key) : Shard :=
  if policy = .allkeysLru then { sh with all := sh.all.touch key } else sh

def Shard.touchVolatileLRU (sh : Shard) (policy : Policy) (key : Key) (e : Entry) : Shard :=
  if policy = .volatileLru then
    if e.hasTTL then { sh with vol := sh.vol.touch key }
    else { sh with vol := sh.vol.removeOwned key }
  else sh

def Shard.touchLRU (sh : Shard) (policy : Policy) (key : Key) (e : Entry) : Shard :=
  (sh.touchAllKeysLRU policy key).touchVolatileLRU policy key e

/-- `lruAfterSet`; its two branches are those of `touchLRU`. -/
def Shard.lruAfterSet (sh : Shard) (policy : Policy) (key : Key) (e : Entry) : Shard :=
  sh.touchLRU policy key e

@[simp] theorem Shard.touchLRU_m (sh : Shard) (policy : Policy) (key : Key) (e : Entry) :
    (sh.touchLRU policy key e).m = sh.m := by
  unfold Shard.touchLRU Shard.touchVolatileLRU Shard.touchAllKeysLRU
  split
  · split <;> split <;> rfl
  · split <;> rfl

@[simp] theorem Shard.lruAfterSet_m (sh : Shard) (policy : Policy) (key : Key) (e : Entry) :
    (sh.lruAfterSet policy key e).m = sh.m :=
  sh.touchLRU_m policy key e

/-! ## Store primitives -/

namespace Store

def modifyShard (s : Store) (si : Fin 256) (f : Shard → Shard) : Store :=
  { s with shards := Function.update s.shards si (f (s.shards si)) }

/-- `addMem`: the counter never stays below zero. -/
def addMem (s : Store) (delta : Int) : Store :=
  if delta = 0 then s else { s with mem := max 0 (s.mem + delta) }

def bumpWatchKey (s : Store) (key : Key) : Store :=
  { s with watch := s.watch.insert key (((s.watch.lookup key).getD 0 + 1) % 2 ^ 64) }

def watchVersion (s : Store) (key : Key) : Nat :=
  (s.watch.lookup key).getD 0

def stored (s : Store) (key : Key) : Option Entry :=
  (s.shards (s.route key)).m.lookup key

/-- `purgeEntryLocked` on the shard `si`.  `e` is the entry the caller read; its
estimate is what the counter loses. -/
def purgeEntryLocked (s : Store) (si : Fin 256) (key : Key) (e : Entry) : Store :=
  ((s.modifyShard si fun sh =>
      let sh := sh.removeFromLRU key
      { sh with m := sh.m.erase key }).addMem (-estimateMem key e)).bumpWatchKey key

/-- The map insertion of `replaceEntry` with the LRU work around it. -/
def install (s : Store) (key : Key) (old : Option Entry) (ne : Entry) : Store :=
  s.modifyShard (s.route key) fun sh =>
    let sh := if old.isSome then sh.removeFromLRU key else sh
    let sh : Shard :=
      { m := sh.m.insert key ne, all := sh.all.disown key, vol := sh.vol.disown key }
    sh.lruAfterSet s.policy key ne

def releaseOld (s : Store) (key : Key) : Option Entry → Store
  | some e => s.addMem (-estimateMem key e)
  | none => s

def replaceEntry (s : Store) (key : Key) (old : Option Entry) (ne : Entry) : Store :=
  (((s.releaseOld key old).install key old ne).addMem (estimateMem key ne)).bumpWatchKey key

/-! What each primitive leaves alone. -/

@[simp] theorem addMem_shards (s : Store) (delta : Int) : (s.addMem delta).shards = s.shards := by
  unfold addMem
  split <;> rfl

@[simp] theorem addMem_maxMem (s : Store) (delta : Int) : (s.addMem delta).maxMem = s.maxMem := by
  unfold addMem
  split <;> rfl

@[simp] theorem addMem_policy (s : Store) (delta : Int) : (s.addMem delta).policy = s.policy := by
  unfold addMem
  split <;> rfl

@[simp] theorem addMem_route (s : Store) (delta : Int) : (s.addMem delta).route = s.route := by
  unfold addMem
  split <;> rfl

@[simp] theorem bumpWatchKey_shards (s : Store) (key : Key) :
    (s.bumpWatchKey key).shards = s.shards :=
  rfl

@[simp] theorem bumpWatchKey_mem (s : Store) (key : Key) : (s.bumpWatchKey key).mem = s.mem :=
  rfl

@[simp] theorem bumpWatchKey_maxMem (s : Store) (key : Key) :
    (s.bumpWatchKey key).maxMem = s.maxMem :=
  rfl

@[simp] theorem bumpWatchKey_policy (s : Store) (key : Key) :
    (s.bumpWatchKey key).policy = s.policy :=
  rfl

@[simp] theorem bumpWatchKey_route (s : Store) (key : Key) :
    (s.bumpWatchKey key).route = s.route :=
  rfl

@[simp] theorem releaseOld_shards (s : Store) (key : Key) (old : Option Entry) :
    (s.releaseOld key old).shards = s.shards := by
  cases old with
  | none => rfl
  | some e => exact addMem_shards s _

@[simp] theorem releaseOld_maxMem (s : Store) (key : Key) (old : Option Entry) :
    (s.releaseOld key old).maxMem = s.maxMem := by
  cases old with
  | none => rfl
  | some e => exact addMem_maxMem s _

@[simp] theorem releaseOld_policy (s : Store) (key : Key) (old : Option Entry) :
    (s.releaseOld key old).policy = s.policy := by
  cases old with
  | none => rfl
  | some e => exact addMem_policy s _

@[simp] theorem releaseOld_route (s : Store) (key : Key) (old : Option Entry) :
    (s.releaseOld key old).route = s.route := by
  cases old with
  | none => rfl
  | some e => exact addMem_route s _

@[simp] theorem purgeEntryLocked_route (s : Store) (si : Fin 256) (key : Key) (e : Entry) :
    (s.purgeEntryLocked si key e).route = s.route := by
  simp only [purgeEntryLocked, bumpWatchKey_route, addMem_route, modifyShard]

@[simp] theorem replaceEntry_route (s : Store) (key : Key) (old : Option Entry) (ne : Entry) :
    (s.replaceEntry key old ne).route = s.route := by
  simp only [replaceEntry, bumpWatchKey_route, addMem_route, install, modifyShard,
    releaseOld_route]

@[simp] theorem purgeEntryLocked_maxMem (s : Store) (si : Fin 256) (key : Key) (e : Entry) :
    (s.purgeEntryLocked si key e).maxMem = s.maxMem := by
  simp only [purgeEntryLocked, bumpWatchKey_maxMem, addMem_maxMem, modifyShard]

@[simp] theorem purgeEntryLocked_policy (s : Store) (si : Fin 256) (key : Key) (e : Entry) :
    (s.purgeEntryLocked si key e).policy = s.policy := by
  simp only [purgeEntryLocked, bumpWatchKey_policy, addMem_policy, modifyShard]

@[simp] theorem replaceEntry_maxMem (s : Store) (key : Key) (old : Option Entry) (ne : Entry) :
    (s.replaceEntry key old ne).maxMem = s.maxMem := by
  simp only [replaceEntry, bumpWatchKey_maxMem, addMem_maxMem, install, modifyShard,
    releaseOld_maxMem]

@[simp] theorem replaceEntry_policy (s : Store) (key : Key) (old : Option Entry) (ne : Entry) :
    (s.replaceEntry key old ne).policy = s.policy := by
  simp only [replaceEntry, bumpWatchKey_policy, addMem_policy, install, modifyShard,
    releaseOld_policy]

/-! What each primitive does to the shard maps. -/

theorem purgeEntryLocked_m (s : Store) (si sj : Fin 256) (key : Key) (e : Entry) :
    ((s.purgeEntryLocked si key e).shards sj).m
      = if sj = si then (s.shards si).m.erase key else (s.shards sj).m := by
  simp only [purgeEntryLocked, bumpWatchKey_shards, addMem_shards, modifyShard,
    Function.update_apply]
  split <;> rfl

theorem install_m (s : Store) (sj : Fin 256) (key : Key) (old : Option Entry) (ne : Entry) :
    ((s.install key old ne).shards sj).m
      = if sj = s.route key then (s.shards sj).m.insert key ne else (s.shards sj).m := by
  simp only [install, modifyShard, Function.update_apply]
  split
  · next same =>
    subst same
    rw [Shard.lruAfterSet_m]
    cases old <;> rfl
  · rfl

theorem replaceEntry_m (s : Store) (sj : Fin 256) (key : Key) (old : Option Entry) (ne : Entry) :
    ((s.replaceEntry key old ne).shards sj).m
      = if sj = s.route key then (s.shards sj).m.insert key ne else (s.shards sj).m := by
  simp only [replaceEntry, bumpWatchKey_shards, addMem_shards, install_m, releaseOld_shards,
    releaseOld_route]

theorem stored_purgeEntryLocked (s : Store) (si : Fin 256) (key other : Key) (e : Entry) :
    (s.purgeEntryLocked si key e).stored other
      = if other = key ∧ s.route key = si then none else s.stored other := by
  simp only [stored, purgeEntryLocked_m, purgeEntryLocked_route]
  by_cases sameShard : s.route other = si
  · rw [if_pos sameShard, lookup_erase_eq_ite]
    by_cases sameKey : other = key
    · subst sameKey
      rw [if_pos rfl, if_pos ⟨rfl, sameShard⟩]
    · rw [if_neg sameKey, if_neg fun both => sameKey both.1, sameShard]
  · rw [if_neg sameShard, if_neg]
    rintro ⟨rfl, routed⟩
    exact sameShard routed

theorem stored_purgeOwn (s : Store) (key other : Key) (e : Entry) :
    (s.purgeEntryLocked (s.route key) key e).stored other
      = if other = key then none else s.stored other := by
  simp only [stored_purgeEntryLocked, and_true]

theorem stored_replaceEntry (s : Store) (key other : Key) (old : Option Entry) (ne : Entry) :
    (s.replaceEntry key old ne).stored other
      = if other = key then some ne else s.stored other := by
  simp only [stored, replaceEntry_m, replaceEntry_route]
  by_cases sameShard : s.route other = s.route key
  · rw [if_pos sameShard, lookup_insert_eq_ite]
  · rw [if_neg sameShard, if_neg]
    rintro rfl
    exact sameShard rfl

end Store

end SuperCache
