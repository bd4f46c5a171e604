import SuperCache.Store.Live

/-! # Sequential runs

The operations of the store as data, one run of them from an empty store, and
the two memory results over whole runs: where the counter equals the true total,
and where a successful operation keeps the total within the limit.
-/

namespace SuperCache

open Lib

inductive SingleOp (fl : FloatOps) where
  | get
  | set (val : Bytes) (expiresAt : Time)
  | setNX (val : Bytes) (expiresAt : Time)
  | setXX (val : Bytes) (expiresAt : Time)
  | getSet (val : Bytes) (expiresAt : Time)
  | append (tail : Bytes)
  | incrBy (delta : Int)
  | decrBy (delta : Int)
  | hSet (pairs : GoMap Bytes)
  | hGet (field : Bytes)
  | hGetAll
  | hDel (fields : List Bytes)
  | hExists (field : Bytes)
  | hLen
  | hSetNX (field val : Bytes)
  | hIncrBy (field : Bytes) (delta : Int)
  | hIncrByFloat (field : Bytes) (delta : fl.F)
  | lPush (vals : List Bytes)
  | rPush (vals : List Bytes)
  | lPushX (vals : List Bytes)
  | rPushX (vals : List Bytes)
  | lPop (count : Int)
  | rPop (count : Int)
  | lLen
  | lRange (start stop : Int)
  | lIndex (index : Int)
  | lSet (index : Int) (val : Bytes)
  | lRem (count : Int) (value : Bytes)
  | lTrim (start stop : Int)
  | lInsert (before : Bool) (pivot insert : Bytes)
  | sAdd (members : List Bytes)
  | sRem (members : List Bytes)
  | sMembers
  | sIsMember (member : Bytes)
  | sCard
  | replaceSet (members : List Bytes)
  | typeName
  | expireAt (instant : Time)
  | persist
  | ttl
  | ttlMs

namespace SingleOp

variable {fl : FloatOps}

def Result : SingleOp fl → Type
  | .get | .getSet .. | .hGet _ | .lIndex _ => Option Bytes
  | .set .. | .lSet .. | .lTrim .. | .replaceSet _ => Unit
  | .setNX .. | .setXX .. | .hExists _ | .sIsMember _ | .expireAt _ | .persist => Bool
  | .hGetAll => GoMap Bytes
  | .hIncrByFloat .. => fl.F
  | .lPop _ | .rPop _ | .lRange .. => List Bytes
  | .sMembers => Finset Bytes
  | .typeName => KeyOp.TypeName
  | _ => Int

/-- The decision of an operation on `key` at the instant `now`. -/
def keyOp (now : Time) (key : Key) : (op : SingleOp fl) → KeyOp op.Result
  | .get => KeyOp.get
  | .set val expiresAt => KeyOp.set key val expiresAt
  | .setNX val expiresAt => KeyOp.setNX key val expiresAt
  | .setXX val expiresAt => KeyOp.setXX key val expiresAt
  | .getSet val expiresAt => KeyOp.getSet key val expiresAt
  | .append tail => KeyOp.append key tail
  | .incrBy delta => KeyOp.incrBy key delta
  | .decrBy delta => KeyOp.decrBy key delta
  | .hSet pairs => KeyOp.hSet key pairs
  | .hGet field => KeyOp.hGet field
  | .hGetAll => KeyOp.hGetAll
  | .hDel fields => KeyOp.hDel fields
  | .hExists field => KeyOp.hExists field
  | .hLen => KeyOp.hLen
  | .hSetNX field val => KeyOp.hSetNX key field val
  | .hIncrBy field delta => KeyOp.hIncrBy key field delta
  | .hIncrByFloat field delta => KeyOp.hIncrByFloat fl key field delta
  | .lPush vals => KeyOp.lPush key vals
  | .rPush vals => KeyOp.rPush key vals
  | .lPushX vals => KeyOp.lPushX key vals
  | .rPushX vals => KeyOp.rPushX key vals
  | .lPop count => KeyOp.lPop count
  | .rPop count => KeyOp.rPop count
  | .lLen => KeyOp.lLen
  | .lRange start stop => KeyOp.lRange start stop
  | .lIndex index => KeyOp.lIndex index
  | .lSet index val => KeyOp.lSet index val
  | .lRem count value => KeyOp.lRem count value
  | .lTrim start stop => KeyOp.lTrim start stop
  | .lInsert before pivot insert => KeyOp.lInsert key before pivot insert
  | .sAdd members => KeyOp.sAdd key members
  | .sRem members => KeyOp.sRem members
  | .sMembers => KeyOp.sMembers
  | .sIsMember member => KeyOp.sIsMember member
  | .sCard => KeyOp.sCard
  | .replaceSet members => KeyOp.replaceSet key members
  | .typeName => KeyOp.typeName
  | .expireAt instant => KeyOp.expireAt instant
  | .persist => KeyOp.persist
  | .ttl => KeyOp.ttl now
  | .ttlMs => KeyOp.ttlMs now

/-- The operations that return before they take the lock: `HSet` without pairs
and `SAdd` without members. -/
def early : (op : SingleOp fl) → Option op.Result
  | .hSet pairs => if pairs = ∅ then some (0 : Int) else none
  | .sAdd members => if members = [] then some (0 : Int) else none
  | _ => none

def exec (s : Store) (now : Time) (key : Key) (op : SingleOp fl) :
    Store × Except StoreErr op.Result :=
  match op.early with
  | some result => (s, .ok result)
  | none => s.run now key (op.keyOp now key)

/-- The payments of an operation are right, to the byte if `exact`.  The two
increments must not find an expired entry; a popping or removing operation must
have nothing to take, where the payment has to be exact. -/
def Pays (exact : Bool) (found : Look) : SingleOp fl → Prop
  | .incrBy _ | .decrBy _ => ∀ e, found ≠ .expired e
  | .lPop _ | .rPop _ => exact = true →
      ∀ e first rest, found = .live e → e.value ≠ .list (first :: rest)
  | .lRem count value => exact = true →
      ∀ e elements, found = .live e → e.value = .list elements →
        KeyOp.lRemOf count value elements = elements
  | _ => True

theorem keyOp_accounts {exact : Bool} {now : Time} {key : Key} {found : Look}
    (op : SingleOp fl) (pays : op.Pays exact found) :
    (op.keyOp now key found).Accounts exact key found := by
  cases op with
  | get => exact (KeyOp.get_decides _).accounts
  | set val expiresAt => exact KeyOp.setLocked_accounts val expiresAt false false
  | setNX val expiresAt => exact KeyOp.setNX_accounts val expiresAt
  | setXX val expiresAt => exact KeyOp.setXX_accounts val expiresAt
  | getSet val expiresAt => exact (KeyOp.getSet_decides val expiresAt).accounts
  | append tail => exact KeyOp.append_accounts tail
  | incrBy delta => exact KeyOp.incrBy_accounts delta pays
  | decrBy delta => exact KeyOp.incrBy_accounts _ pays
  | hSet pairs => exact (KeyOp.hSet_decides pairs).accounts
  | hGet _ | hGetAll | hExists _ | hLen | lRange _ _ | lIndex _ | sMembers | sIsMember _ | sCard =>
    simp only [keyOp, KeyOp.hGet, KeyOp.hGetAll, KeyOp.hExists, KeyOp.hLen, KeyOp.lRange,
      KeyOp.lIndex, KeyOp.sMembers, KeyOp.sIsMember, KeyOp.sCard]
    exact (KeyOp.readLive_decides _ _ _).accounts
  | hDel fields => exact (KeyOp.hDel_decides _ fields).accounts
  | hSetNX field val => exact (KeyOp.hSetNX_decides field val).accounts
  | hIncrBy field delta => exact (KeyOp.hIncrBy_decides field delta).accounts
  | hIncrByFloat field delta => exact (KeyOp.hIncrByFloat_decides fl field delta).accounts
  | lPush vals => exact (KeyOp.listPush_decides vals true).accounts
  | rPush vals => exact (KeyOp.listPush_decides vals false).accounts
  | lPushX vals => exact (KeyOp.listPushX_decides vals true).accounts
  | rPushX vals => exact (KeyOp.listPushX_decides vals false).accounts
  | lPop count => exact (KeyOp.lPop_decides _ count pays).accounts
  | rPop count => exact (KeyOp.rPop_decides _ count pays).accounts
  | lLen => exact (KeyOp.lLen_decides _ : KeyOp.Decides exact key False found _).accounts
  | lSet index val => exact (KeyOp.lSet_decides _ index val).accounts
  | lRem count value => exact (KeyOp.lRem_decides _ count value pays).accounts
  | lTrim start stop => exact (KeyOp.lTrim_decides _ start stop).accounts
  | lInsert before pivot insert => exact (KeyOp.lInsert_decides before pivot insert).accounts
  | sAdd members => exact (KeyOp.sAdd_decides members).accounts
  | sRem members => exact (KeyOp.sRem_decides _ members).accounts
  | replaceSet members => exact (KeyOp.replaceSet_decides members).accounts
  | typeName => exact (KeyOp.typeName_decides _).accounts
  | expireAt instant => exact (KeyOp.expireAt_decides _ instant).accounts
  | persist => exact (KeyOp.persist_decides _).accounts
  | ttl => exact (KeyOp.ttlIn_decides _ _ _).accounts
  | ttlMs => exact (KeyOp.ttlIn_decides _ _ _).accounts

theorem keyOp_sized {now : Time} {key : Key} {found : Look} (op : SingleOp fl) :
    (op.keyOp now key found).Sized key found := by
  by_cases pays : op.Pays false found
  · exact (op.keyOp_accounts pays).sized
  · cases op with
    | incrBy delta => exact KeyOp.incrBy_sized delta
    | decrBy delta => exact KeyOp.incrBy_sized _
    | _ => simp [Pays] at pays

end SingleOp

inductive StoreOp (fl : FloatOps) where
  | single (key : Key) (op : SingleOp fl)
  | del (keys : List Key)
  | exists' (keys : List Key)
  | mGet (keys : List Key)
  | mSet (pairs : GoMap Bytes)
  | mSetNX (pairs : GoMap Bytes)
  | expire (key : Key) (sec : Int)
  | rename (src dst : Key)
  | renameNX (src dst : Key)
  | flushDB
  | sampleAllShards
  | applySnapshotEntry (ent : SnapshotEntry)
  | applySnapshot (entries : List SnapshotEntry)

namespace StoreOp

variable {fl : FloatOps}

def succeeded {ρ : Type} : Except StoreErr ρ → Bool
  | .ok _ => true
  | .error _ => false

def exec (s : Store) (now : Time) : StoreOp fl → Store × Bool
  | .single key op => ((op.exec s now key).1, succeeded (op.exec s now key).2)
  | .del keys => ((s.del now keys).1, true)
  | .exists' keys => ((s.exists' now keys).1, true)
  | .mGet keys => ((s.mGet now keys).1, succeeded (s.mGet now keys).2)
  | .mSet pairs => ((s.mSet now pairs).1, succeeded (s.mSet now pairs).2)
  | .mSetNX pairs => ((s.mSetNX now pairs).1, succeeded (s.mSetNX now pairs).2)
  | .expire key sec => ((s.expire now key sec).1, succeeded (s.expire now key sec).2)
  | .rename src dst => ((s.rename now src dst).1, succeeded (s.rename now src dst).2)
  | .renameNX src dst => ((s.renameNX now src dst).1, succeeded (s.renameNX now src dst).2)
  | .flushDB => (s.flushDB, true)
  | .sampleAllShards => (s.sampleAllShards now, true)
  | .applySnapshotEntry ent =>
    ((s.applySnapshotEntry now ent).1, succeeded (s.applySnapshotEntry now ent).2)
  | .applySnapshot entries =>
    ((s.applySnapshot now entries).1, succeeded (s.applySnapshot now entries).2)

def run (s : Store) : List (Time × StoreOp fl) → Store
  | [] => s
  | (now, op) :: rest => run (op.exec s now).1 rest

/-- The operation pays for what it takes away; see `SingleOp.Pays`. -/
def Pays (exact : Bool) (s : Store) (now : Time) : StoreOp fl → Prop
  | .single key op => op.Pays exact (s.lookup now key)
  | _ => True

def RunPays (exact : Bool) (s : Store) : List (Time × StoreOp fl) → Prop
  | [] => True
  | (now, op) :: rest => op.Pays exact s now ∧ RunPays exact (op.exec s now).1 rest

end StoreOp

/-! ## The counter over a run -/

namespace StoreOp

variable {fl : FloatOps} {exact : Bool} {limit : Nat} {s : Store}

theorem exec_sound {now : Time} (op : StoreOp fl) (sound : s.Sound exact limit)
    (pays : op.Pays exact s now) : (op.exec s now).1.Sound exact limit := by
  have closed : Store.Closed (Store.Sound exact limit) := Store.sound_closed
  cases op with
  | single key op =>
    simp only [exec, SingleOp.exec]
    split
    · exact sound
    · exact Store.run_sound sound (op.keyOp_accounts pays)
  | del keys =>
    exact Store.Closed.countKeys (fun _ _ kept => Store.run_sound kept (KeyOp.del_decides _).accounts) sound keys
  | exists' keys =>
    exact Store.Closed.countKeys (fun _ _ kept => Store.run_sound kept (KeyOp.exists1_decides _).accounts) sound keys
  | mGet keys =>
    exact Store.Closed.mGet (fun _ _ kept => Store.run_sound kept (KeyOp.get_decides _).accounts) sound keys
  | mSet pairs =>
    exact Store.Closed.mSetList
      (fun _ _ val kept => Store.run_sound kept (KeyOp.setLocked_accounts val 0 false false)) sound _
  | mSetNX pairs => exact closed.mSetNX sound now pairs
  | expire key sec =>
    simp only [exec, Store.expire]
    split
    · exact sound
    · exact Store.run_sound sound (KeyOp.expireAt_decides _ _).accounts
  | rename src dst => exact closed.rename sound now src dst
  | renameNX src dst => exact closed.renameNX sound now src dst
  | flushDB => exact closed.flushDB (fun _ => closed.forget) sound
  | sampleAllShards =>
    simp only [exec]
    exact closed.sampleAllShards sound now
  | applySnapshotEntry ent => exact closed.applySnapshotEntry sound now ent
  | applySnapshot entries =>
    exact closed.applySnapshotEntries (closed.flushDB (fun _ => closed.forget) sound) now entries

theorem run_sound (ops : List (Time × StoreOp fl)) (sound : s.Sound exact limit)
    (pays : RunPays exact s ops) : (run s ops).Sound exact limit := by
  induction ops generalizing s with
  | nil => exact sound
  | cons step rest ih =>
    obtain ⟨now, op⟩ := step
    obtain ⟨first, others⟩ := pays
    exact ih (op.exec_sound sound first) others

theorem newStore_sound (exact : Bool) (policy : Policy) (limit : Nat) (oracle : Oracle) :
    (newStore policy limit oracle).Sound exact limit := by
  have empty : (newStore policy limit oracle).total = 0 :=
    Finset.sum_eq_zero fun si _ => weight_empty estimateMem
  refine ⟨?_, rfl⟩
  rw [empty]
  exact .refl _ _

/-- After a run in which every operation pays to the byte, the counter is the sum
of the estimates of all stored entries. -/
theorem run_mem_eq_total (policy : Policy) (limit : Nat) (oracle : Oracle)
    (ops : List (Time × StoreOp fl)) (pays : RunPays true (newStore policy limit oracle) ops) :
    (run (newStore policy limit oracle) ops).mem
      = (run (newStore policy limit oracle) ops).total :=
  (run_sound ops (newStore_sound true policy limit oracle) pays).covers.2 rfl

def countAndPush : List (Time × StoreOp integerFloats) :=
  [(1, .single (ascii "hits") (.set (ascii "5") 9)),
   (2, .single (ascii "hits") (.incrBy 3)),
   (2, .single (ascii "queue") (.rPush [ascii "a", ascii "b"]))]

theorem countAndPush_mem_eq_total :
    (run (newStore .allkeysLru 4096 sortedOracle) countAndPush).mem
      = (run (newStore .allkeysLru 4096 sortedOracle) countAndPush).total := by
  apply run_mem_eq_total
  refine ⟨trivial, fun e found => ?_, trivial, trivial⟩
  have live : (((StoreOp.single (ascii "hits") (.set (ascii "5") 9) : StoreOp integerFloats).exec
      (newStore .allkeysLru 4096 sortedOracle) 1).1.lookup 2 (ascii "hits")).isLive = true := by
    decide +kernel
  rw [found] at live
  cases live

/-- One element popped from a list of two stays on the books. -/
theorem lPop_mem_ne_total :
    (run (newStore .noeviction 0 sortedOracle)
        ([(1, .single (ascii "queue") (.rPush [ascii "a", ascii "b"])),
          (1, .single (ascii "queue") (.lPop 1))] : List (Time × StoreOp integerFloats))).mem
      ≠ (run (newStore .noeviction 0 sortedOracle)
        ([(1, .single (ascii "queue") (.rPush [ascii "a", ascii "b"])),
          (1, .single (ascii "queue") (.lPop 1))] : List (Time × StoreOp integerFloats))).total := by
  decide +kernel

end StoreOp

end SuperCache
