import SuperCache.Store.Keyspace

/-! # Properties every primitive keeps

The operations on several keys, on whole shards and on snapshots are loops over the
same few primitives, each called with the entry that is stored.  `Closed` collects
what a property of stores has to survive for all of them to keep it.
-/

namespace SuperCache

open Lib

namespace Store

structure Purgeable (P : Store → Prop) : Prop where
  quiet : ∀ {s t : Store}, P s → t.shards = s.shards → t.route = s.route → t.policy = s.policy →
    t.mem = s.mem → t.maxMem = s.maxMem → t.watch = s.watch → P t
  purge : ∀ {s : Store} {si : Fin 256} {key : Key} {e : Entry}, P s →
    (s.shards si).m.lookup key = some e → P (s.purgeEntryLocked si key e)

structure Closed (P : Store → Prop) : Prop extends Purgeable P where
  write : ∀ {s : Store} {key : Key} {old : Option Entry} (ne : Entry), P s →
    s.stored key = old → P (s.replaceEntry key old ne)
  drop : ∀ {s : Store} {key : Key} {e : Entry}, P s → s.stored key = some e →
    P (s.dropSource key e)
  forget : ∀ {s : Store}, P s → P s.clearWatch

theorem dropSource_shards (s : Store) (key : Key) (e : Entry) :
    (s.dropSource key e).shards = (s.purgeEntryLocked (s.route key) key e).shards := by
  simp only [purgeEntryLocked, dropSource, bumpWatchKey_shards]

theorem stored_dropSource (s : Store) (key other : Key) (e : Entry) :
    (s.dropSource key e).stored other = if other = key then none else s.stored other := by
  have same : (s.dropSource key e).stored other
      = (s.purgeEntryLocked (s.route key) key e).stored other := by
    unfold stored
    rw [dropSource_shards, purgeEntryLocked_route]
    simp only [dropSource, addMem_route, modifyShard]
  rw [same, stored_purgeOwn]

theorem stored_clearDestination (s : Store) (dst key : Key) :
    (s.clearDestination dst).stored key = if key = dst then none else s.stored key := by
  unfold clearDestination
  split
  · exact stored_purgeOwn s dst key _
  · next absent =>
    split
    · next same => rw [same, absent]
    · rfl

namespace Purgeable

variable {P : Store → Prop} {s t : Store} {now : Time}

theorem drawn (purges : Purgeable P) (holds : P s) (tick cursor : Nat) : P (s.drawn tick cursor) :=
  purges.quiet holds rfl rfl rfl rfl rfl rfl

theorem foldl {α : Type} (step : Store → α → Store) (each : ∀ s a, P s → P (step s a))
    (list : List α) (holds : P s) : P (list.foldl step s) :=
  List.foldlRecOn list step holds fun t kept a _ => each t a kept

theorem purgeExpired (purges : Purgeable P) (holds : P s) (now : Time) (key : Key) :
    P (s.purgeExpired key (s.lookup now key)) := by
  obtain ⟨found, -⟩ | ⟨e, found, stored, -⟩ | ⟨e, found, -⟩ := s.lookup_cases now key <;> rw [found]
  · exact holds
  · exact purges.purge holds stored
  · exact holds

theorem evictions (purges : Purgeable P) (holds : P s) {avoidKey : Key}
    (evictions : Evictions avoidKey s t) : P t := by
  induction evictions with
  | refl s => exact holds
  | draw tick cursor rest ih => exact ih (purges.drawn holds tick cursor)
  | purge si victim e found spared rest ih => exact ih (purges.purge holds found)

theorem ensureMemoryWithRetry (purges : Purgeable P) (holds : P s) (key : Key) (delta : Int) :
    P (s.ensureMemoryWithRetry key delta).1 := by
  unfold Store.ensureMemoryWithRetry
  split
  · exact holds
  · exact purges.evictions holds (evictLoop_evictions ..)

theorem evictUntilFits (purges : Purgeable P) (holds : P s) (delta : Int) :
    P (s.evictUntilFits delta).1 := by
  unfold Store.evictUntilFits
  split
  · exact holds
  · exact purges.evictions holds (evictLoop_evictions ..)

theorem priceAll (purges : Purgeable P) (holds : P s) (now : Time) (pairs : List (Key × Bytes))
    (delta : Int) : P (pairs.foldl (priceNew now) (s, delta)).1 := by
  induction pairs generalizing s delta with
  | nil => exact holds
  | cons pair rest ih => exact ih (purges.purgeExpired holds now pair.1) _

theorem purgeKeys (purges : Purgeable P) (holds : P s) (doomed : Entry → Bool) (si : Fin 256)
    (keys : List Key) : P (Store.purgeKeys doomed si s keys) := by
  refine foldl _ (fun t key kept => ?_) keys holds
  split
  · next e found =>
    split
    · exact purges.purge kept found
    · exact kept
  · exact kept

theorem flushShard (purges : Purgeable P) (holds : P s) (si : Fin 256) : P (s.flushShard si) :=
  purges.purgeKeys (purges.drawn holds _ _) _ si _

theorem flushDB (purges : Purgeable P) (forgets : ∀ t, P t → P t.clearWatch) (holds : P s) :
    P s.flushDB := by
  have flushed := foldl (P := P) Store.flushShard (fun _ si kept => purges.flushShard kept si)
    (List.finRange 256) holds
  unfold Store.flushDB
  generalize (List.finRange 256).foldl Store.flushShard s = t at flushed
  exact forgets t flushed

theorem sampleOnceShard (purges : Purgeable P) (holds : P s) (now : Time) (si : Fin 256) :
    P (s.sampleOnceShard now si).1 :=
  purges.purgeKeys (purges.drawn holds _ _) _ si _

theorem sampleAllShards (purges : Purgeable P) (holds : P s) (now : Time) :
    P (s.sampleAllShards now) := by
  have rounds (si : Fin 256) (n : Nat) (t : Store) (kept : P t) : P (sampleShard now si n t) := by
    induction n generalizing t with
    | zero => exact kept
    | succ n ih =>
      have once := purges.sampleOnceShard kept now si
      simp only [sampleShard]
      split
      · exact once
      · exact ih _ once
  exact foldl _ (fun t si => rounds si 16 t) (List.finRange 256) holds

end Purgeable

namespace Closed

variable {P : Store → Prop} {s t : Store} {now : Time}

/-! ## One key after another -/

theorem countKeys {op : KeyOp Int} (runs : ∀ s key, P s → P (s.run now key op).1) (holds : P s)
    (keys : List Key) : P (Store.countKeys op s now keys).1 := by
  induction keys generalizing s with
  | nil => exact holds
  | cons key rest ih => exact ih (runs s key holds)

theorem mGet (runs : ∀ s key, P s → P (s.run now key KeyOp.get).1) (holds : P s)
    (keys : List Key) : P (s.mGet now keys).1 := by
  induction keys generalizing s with
  | nil => exact holds
  | cons key rest ih =>
    have first := runs s key holds
    simp only [Store.mGet]
    rcases equation : s.run now key KeyOp.get with ⟨t, failure | value⟩ <;> rw [equation] at first
    · exact first
    · have later := ih first
      simp only
      rcases equation' : t.mGet now rest with ⟨u, failure | values⟩ <;> rw [equation'] at later <;>
        exact later

theorem mSetList (runs : ∀ s key val, P s → P (s.run now key (KeyOp.set key val 0)).1)
    (holds : P s) (pairs : List (Key × Bytes)) : P (s.mSetList now pairs).1 := by
  induction pairs generalizing s with
  | nil => exact holds
  | cons pair rest ih =>
    have first := runs s pair.1 pair.2 holds
    simp only [Store.mSetList]
    rcases equation : s.run now pair.1 (KeyOp.set pair.1 pair.2 0) with ⟨t, failure | done⟩ <;>
      rw [equation] at first
    · exact first
    · exact ih first

/-! ## `MSetNX` and the renames -/

theorem installAll (closed : Closed P) (holds : P s) (now : Time) (pairs : List (Key × Bytes)) :
    P (pairs.foldl (installNew now) s) := by
  refine Purgeable.foldl _ (fun t pair kept => ?_) pairs holds
  exact closed.write _ (closed.purgeExpired kept now pair.1) (t.stored_purgeExpired_self now pair.1)

theorem mSetNX (closed : Closed P) (holds : P s) (now : Time) (pairs : GoMap Bytes) :
    P (s.mSetNX now pairs).1 := by
  unfold Store.mSetNX
  split
  · exact holds
  · split
    · exact holds
    · simp only [drawRange]
      have priced := closed.priceAll (closed.drawn holds (s.tick + 1) s.evictCursor) now
        (pairsIn pairs (rangeOrder s.oracle s.tick pairs.keys)) 0
      generalize (pairsIn pairs (rangeOrder s.oracle s.tick pairs.keys)).foldl (priceNew now)
        (s.drawn (s.tick + 1) s.evictCursor, 0) = state at priced
      have roomy := closed.evictUntilFits priced state.2
      rcases equation : state.1.evictUntilFits state.2 with ⟨t, failure | evicted⟩ <;>
        rw [equation] at roomy
      · exact roomy
      · simp only
        split
        · exact roomy
        · exact closed.installAll (closed.drawn roomy _ _) now _

theorem moveEntry (closed : Closed P) (holds : P s) {src dst : Key} {e : Entry}
    (different : src ≠ dst) (found : s.stored src = some e) : P (s.moveEntry src dst e) := by
  have cleared : P (s.clearDestination dst) := by
    unfold clearDestination
    split
    · next overwritten => exact closed.purge holds overwritten
    · exact holds
  refine closed.write _ (closed.drop cleared ?_) ?_
  · rw [stored_clearDestination, if_neg different, found]
  · rw [stored_dropSource, if_neg different.symm, stored_clearDestination, if_pos rfl]

theorem rename (closed : Closed P) (holds : P s) (now : Time) (src dst : Key) :
    P (s.rename now src dst).1 := by
  unfold Store.rename
  split
  · exact holds
  · next different =>
    split
    · next found => exact closed.moveEntry holds different (lookup_live found).1
    · exact closed.purgeExpired holds now src

theorem renameNX (closed : Closed P) (holds : P s) (now : Time) (src dst : Key) :
    P (s.renameNX now src dst).1 := by
  unfold Store.renameNX
  split
  · exact holds
  · next different =>
    split
    · next found =>
      split
      · exact holds
      · exact closed.moveEntry holds different (lookup_live found).1
    · exact closed.purgeExpired holds now src

/-! ## Snapshots -/

theorem applySnapshotEntry (closed : Closed P) (holds : P s) (now : Time) (ent : SnapshotEntry) :
    P (s.applySnapshotEntry now ent).1 := by
  unfold Store.applySnapshotEntry
  split
  · exact holds
  · next value _ =>
    have room := closed.ensureMemoryWithRetry holds ent.key
      (estimateMem ent.key { value := value, expiresAt := snapshotExpiry now ent })
    simp only
    split
    · next equation =>
      rw [equation] at room
      exact room
    · next equation =>
      rw [equation] at room
      exact closed.write _ room rfl

theorem applySnapshotEntries (closed : Closed P) (holds : P s) (now : Time)
    (entries : List SnapshotEntry) : P (s.applySnapshotEntries now entries).1 := by
  induction entries generalizing s with
  | nil => exact holds
  | cons ent rest ih =>
    have first := closed.applySnapshotEntry holds now ent
    simp only [Store.applySnapshotEntries]
    split
    · next equation =>
      rw [equation] at first
      exact first
    · next equation =>
      rw [equation] at first
      exact ih first

end Closed

theorem maxMem_closed (limit : Nat) : Closed (·.maxMem = limit) where
  quiet same _ _ _ _ maxMem _ := maxMem.trans same
  purge same _ := (purgeEntryLocked_maxMem ..).trans same
  write _ same _ := (replaceEntry_maxMem ..).trans same
  drop same _ := (addMem_maxMem ..).trans same
  forget := id

end Store

end SuperCache
