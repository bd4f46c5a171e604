import SuperCache.Lib.Recency
import SuperCache.Store.Evolution
import SuperCache.Store.LruLists

/-! # The victims of eviction

Under an LRU policy the keys of a shard's list stand in the order of their last uses,
so the key at its back is the one whose last `replaceEntry` or `touchLRU` is oldest.
`Traced` follows these calls through a run, and `Recorded` ties the lists to them.
`evictFromStore` looks only at the backs of the lists: it gives up exactly when each of
them is empty or ends in the key to avoid.
-/

namespace SuperCache

open Lib

def Policy.isLru : Policy → Bool
  | .allkeysLru | .volatileLru => true
  | _ => false

namespace Shard

def lru (policy : Policy) (sh : Shard) : LruList :=
  match policy with
  | .volatileLru => sh.vol
  | _ => sh.all

variable {sh : Shard} {policy : Policy} {key : Key} {e : Entry} {log : List Key}

theorem Listed.lru (listed : sh.Listed) (isLru : policy.isLru = true) :
    (sh.lru policy).Kept (sh.Holds policy) := by
  cases policy with
  | allkeysLru => exact listed.all
  | volatileLru => exact listed.vol
  | _ => cases isLru

theorem keys_without (listed : sh.Listed) (policy : Policy) (key : Key) (m : GoMap Entry) :
    ((sh.without key m).lru policy).keys = (sh.lru policy).keys.filter (· ≠ key) := by
  cases policy with
  | volatileLru => exact listed.vol.keys_removeOwned key
  | _ => exact listed.all.keys_removeOwned key

theorem keys_touchLRU (listed : sh.Listed) (isLru : policy.isLru = true) (key : Key) (e : Entry) :
    ((sh.touchLRU policy key e).lru policy).keys
      = (if policy.mayEvict e then [key] else []) ++ (sh.lru policy).keys.filter (· ≠ key) := by
  unfold touchLRU touchVolatileLRU touchAllKeysLRU
  cases policy with
  | allkeysLru => exact listed.all.keys_touch key
  | volatileLru =>
    simp only [reduceCtorEq, if_false, if_true, Policy.mayEvict]
    split
    · exact (listed.vol.keys_touch key).trans (by simp [lru, *])
    · exact (listed.vol.keys_removeOwned key).trans (by simp [lru, *])
  | _ => cases isLru

structure Recorded (sh : Shard) (policy : Policy) (log : List Key) : Prop where
  logged : ∀ key ∈ sh.m, key ∈ log
  complete : ∀ key, sh.Holds policy key → key ∈ (sh.lru policy).keys
  recent : Recent log (sh.lru policy).keys

theorem Recorded.purge (recorded : sh.Recorded policy log) (listed : sh.Listed) (key : Key) :
    (sh.without key (sh.m.erase key)).Recorded policy log where
  logged other member := recorded.logged other (Finmap.mem_erase.mp member).2
  complete other holds := by
    obtain ⟨e, found, eligible⟩ := holds
    simp only [Shard.without, lookup_erase_eq_ite] at found
    split at found
    · cases found
    · next differs =>
      rw [keys_without listed, List.mem_filter]
      exact ⟨recorded.complete other ⟨e, found, eligible⟩, by simpa using differs⟩
  recent := by
    rw [keys_without listed]
    exact recorded.recent.remove List.filter_sublist

theorem Recorded.use {sh' : Shard} (recorded : sh.Recorded policy log)
    (own : sh'.m.lookup key = some e)
    (others : ∀ other ≠ key, sh'.m.lookup other = sh.m.lookup other)
    (keys : (sh'.lru policy).keys
      = (if policy.mayEvict e then [key] else []) ++ (sh.lru policy).keys.filter (· ≠ key)) :
    sh'.Recorded policy (key :: log) := by
  refine ⟨fun other member => ?_, fun other holds => ?_, ?_⟩
  · by_cases same : other = key
    · exact same ▸ List.mem_cons_self
    · obtain ⟨e, found⟩ := Finmap.mem_iff.mp member
      rw [others other same] at found
      exact List.mem_cons_of_mem _ (recorded.logged other (Finmap.mem_of_lookup_eq_some found))
  · obtain ⟨e', found, eligible⟩ := holds
    rw [keys, List.mem_append, List.mem_filter]
    by_cases same : other = key
    · rw [same, own, Option.some.injEq] at found
      rw [← found] at eligible
      simp [eligible, same]
    · rw [others other same] at found
      exact .inr ⟨recorded.complete other ⟨e', found, eligible⟩, by simpa using same⟩
  · rw [keys]
    split
    · exact recorded.recent.front
    · exact (recorded.recent.remove List.filter_sublist).elsewhere (by simp)

theorem Recorded.elsewhere (recorded : sh.Recorded policy log) (listed : sh.Listed)
    (isLru : policy.isLru = true) (absent : key ∉ sh.m) : sh.Recorded policy (key :: log) where
  logged other member := List.mem_cons_of_mem _ (recorded.logged other member)
  complete := recorded.complete
  recent := recorded.recent.elsewhere fun member => by
    obtain ⟨e, found, -⟩ := (listed.lru isLru).only key member
    exact absent (Finmap.mem_of_lookup_eq_some found)

end Shard

/-! ## The uses of keys in a run -/

namespace Store

/-- The store is reached from `start` by primitives, and the log has the key of every
`replaceEntry` and `touchLRU` among them, the last one first. -/
inductive Traced (start : Store) : List Key → Store → Prop
  | start : Traced start [] start
  | quiet {log : List Key} {s t : Store} (before : Traced start log s) (shards : t.shards = s.shards)
      (route : t.route = s.route) (policy : t.policy = s.policy) : Traced start log t
  | purge {log : List Key} {s : Store} {si : Fin 256} {key : Key} (e : Entry)
      (before : Traced start log s) (found : key ∈ (s.shards si).m) :
      Traced start log (s.purgeEntryLocked si key e)
  | touch {log : List Key} {s : Store} {key : Key} {e : Entry} (before : Traced start log s)
      (found : s.stored key = some e) : Traced start (key :: log) (s.touchLRU key e)
  | write {log : List Key} {s : Store} {key : Key} {old : Option Entry} (ne : Entry)
      (before : Traced start log s) (named : (s.stored key).isSome = true → old.isSome = true) :
      Traced start (key :: log) (s.replaceEntry key old ne)
  | drop {log : List Key} {s : Store} {key : Key} (e : Entry) (before : Traced start log s)
      (found : (s.stored key).isSome = true) : Traced start log (s.dropSource key e)

theorem traced_stable (start : Store) : Stable fun s => ∃ log, Traced start log s where
  quiet traced shards route policy := traced.imp fun _ before => .quiet before shards route policy
  purge e traced found := traced.imp fun _ before => .purge e before found
  touch traced found := traced.elim fun _ before => ⟨_, .touch before found⟩
  write ne traced named := traced.elim fun _ before => ⟨_, .write ne before named⟩
  drop e traced found := traced.imp fun _ before => .drop e before found

theorem Stable.runs {P : Store → Prop} (stable : Stable P) {fl : FloatOps} {s : Store} (holds : P s)
    (ops : List (Time × StoreOp fl)) : P (StoreOp.run s ops) := by
  induction ops generalizing s with
  | nil => exact holds
  | cons step rest ih => exact ih (stable.exec holds step.1 step.2)

structure Recorded (s : Store) (policy : Policy) (log : List Key) : Prop where
  active : s.policy = policy
  listed : s.Listed
  placed : s.Placed
  shard : ∀ si, (s.shards si).Recorded policy log

section Recorded

variable {s t : Store} {policy : Policy} {log : List Key} {key : Key}

theorem Recorded.same (recorded : s.Recorded policy log) (shards : t.shards = s.shards)
    (route : t.route = s.route) (samePolicy : t.policy = s.policy) : t.Recorded policy log where
  active := samePolicy.trans recorded.active
  listed si := by rw [shards]; exact recorded.listed si
  placed si key member := by
    rw [shards] at member
    rw [route]
    exact recorded.placed si key member
  shard si := by rw [shards]; exact recorded.shard si

theorem Recorded.purge (recorded : s.Recorded policy log) (si : Fin 256) (key : Key) (e : Entry) :
    (s.purgeEntryLocked si key e).Recorded policy log where
  active := (purgeEntryLocked_policy ..).trans recorded.active
  listed := recorded.listed.purge si key e
  placed := (Evolves.purge si key e (.refl _)).placed recorded.placed
  shard sj := by
    rw [purgeEntryLocked_shards, Function.update_apply]
    split
    · next same => exact same ▸ (recorded.shard si).purge (recorded.listed si) key
    · exact recorded.shard sj

theorem Recorded.use {sh : Shard} (e : Entry) (recorded : s.Recorded policy log)
    (isLru : policy.isLru = true) (active : t.policy = s.policy) (listed : t.Listed)
    (placed : t.Placed) (shards : t.shards = Function.update s.shards (s.route key) sh)
    (own : sh.m.lookup key = some e)
    (others : ∀ other ≠ key, sh.m.lookup other = (s.shards (s.route key)).m.lookup other)
    (keys : (sh.lru policy).keys = (if policy.mayEvict e then [key] else [])
      ++ ((s.shards (s.route key)).lru policy).keys.filter (· ≠ key)) :
    t.Recorded policy (key :: log) := by
  refine ⟨active.trans recorded.active, listed, placed, fun si => ?_⟩
  rw [shards, Function.update_apply]
  split
  · exact (recorded.shard _).use own others keys
  · next elsewhere =>
    refine (recorded.shard si).elsewhere (recorded.listed si) isLru fun member => ?_
    exact elsewhere (recorded.placed si key member).symm

theorem Recorded.touch {e : Entry} (recorded : s.Recorded policy log)
    (isLru : policy.isLru = true) (found : s.stored key = some e) :
    (s.touchLRU key e).Recorded policy (key :: log) := by
  have active := recorded.active
  have listed := stable_listed.touch recorded.listed found
  have placed : (s.touchLRU key e).Placed :=
    (Evolves.of_same (s.touchLRU_m key e) rfl rfl).placed recorded.placed
  refine recorded.use e isLru rfl listed placed rfl ?_ (fun other _ => ?_) ?_
  · rw [Shard.touchLRU_m]
    exact found
  · rw [Shard.touchLRU_m]
  · rw [active]
    exact Shard.keys_touchLRU (recorded.listed _) isLru key e

theorem Recorded.write {old : Option Entry} (recorded : s.Recorded policy log)
    (isLru : policy.isLru = true) (ne : Entry)
    (named : (s.stored key).isSome = true → old.isSome = true) :
    (s.replaceEntry key old ne).Recorded policy (key :: log) := by
  have shards := replaceEntry_shards recorded.listed ne (recorded.listed.honest named)
  have placed := (Evolves.replace key old ne (.refl _)).placed recorded.placed
  have without := (recorded.listed (s.route key)).without
    (m := (s.shards (s.route key)).m.insert key ne) fun other differs => by
      rw [lookup_insert_eq_ite, if_neg differs]
  refine recorded.use ne isLru (replaceEntry_policy ..) (stable_listed.write ne recorded.listed named)
    placed shards ?_ (fun other differs => ?_) ?_
  · rw [renewed, Shard.touchLRU_m]
    exact Finmap.lookup_insert _
  · rw [renewed, Shard.touchLRU_m, Shard.without, lookup_insert_eq_ite, if_neg differs]
  · rw [renewed, recorded.active, Shard.keys_touchLRU without isLru,
      Shard.keys_without (recorded.listed _), List.filter_filter]
    simp only [Bool.and_self]

theorem Traced.recorded {maxMem : Nat} {oracle : Oracle} (isLru : policy.isLru = true)
    (traced : Traced (newStore policy maxMem oracle) log s) : s.Recorded policy log := by
  induction traced with
  | start =>
    have absent (si : Fin 256) (key : Key) : key ∉ ((newStore policy maxMem oracle).shards si).m :=
      Finmap.notMem_empty
    refine ⟨rfl, newStore_listed policy maxMem oracle, fun si key member => ?_, fun si => ?_⟩
    · exact absurd member (absent si key)
    · refine ⟨fun key member => absurd member (absent si key), fun key holds => ?_, ?_⟩
      · obtain ⟨e, found, -⟩ := holds
        exact absurd (Finmap.mem_of_lookup_eq_some found) (absent si key)
      · cases policy <;> exact List.Pairwise.nil
  | quiet before shards route policy ih => exact ih.same shards route policy
  | purge e before found ih => exact ih.purge _ _ e
  | touch before found ih => exact ih.touch isLru found
  | write ne before named ih => exact ih.write isLru ne named
  | @drop _ s key e before found ih =>
    refine (ih.purge (s.route key) key e).same (s.dropSource_shards key e) ?_ ?_
    · simp only [dropSource, addMem_route, modifyShard, purgeEntryLocked_route]
    · simp only [dropSource, addMem_policy, modifyShard, purgeEntryLocked_policy]

end Recorded

/-! ## Which key goes -/

def Chosen (start s : Store) (avoidKey : Key) (si : Fin 256) (victim : Key) (e : Entry) : Prop :=
  match start.policy with
  | .allkeysLru => ∀ log, Traced start log s →
      victim ∈ log ∧ ∀ key ∈ (s.shards si).m, log.idxOf key ≤ log.idxOf victim
  | .volatileLru => e.hasTTL = true ∧ ∀ log, Traced start log s →
      victim ∈ log ∧ ∀ key other, (s.shards si).m.lookup key = some other → other.hasTTL = true →
        log.idxOf key ≤ log.idxOf victim
  | .volatileTtl => e.hasTTL = true ∧ ∀ sj key other, (s.shards sj).m.lookup key = some other →
      other.hasTTL = true → avoided avoidKey key = false → e.expiresAt ≤ other.expiresAt
  | .volatileRandom => e.hasTTL = true
  | .noeviction | .allkeysRandom => True

theorem evictFromStore_lru {s : Store} (isLru : s.policy.isLru = true) (avoidKey : Key) :
    s.evictFromStore avoidKey
      = evictBack (Shard.lru s.policy) s.policy.mayEvict avoidKey (numShards * 2) s := by
  unfold evictFromStore
  cases active : s.policy with
  | allkeysLru => rfl
  | volatileLru => rfl
  | _ => simp [active, Policy.isLru] at isLru

theorem getLast?_keys (l : LruList) : l.keys.getLast? = l.list.getLast?.map Prod.snd :=
  List.getLast?_map

theorem Recorded.oldest {s : Store} {policy : Policy} {log : List Key} {avoidKey victim : Key}
    {si : Fin 256} {e : Entry} (recorded : s.Recorded policy log)
    (back : AtBack (Shard.lru policy) policy.mayEvict avoidKey s.shards si victim e)
    (found : (s.shards si).m.lookup victim = some e) :
    victim ∈ log ∧ ∀ key, (s.shards si).Holds policy key → log.idxOf key ≤ log.idxOf victim := by
  obtain ⟨⟨element, last⟩, -⟩ := back
  refine ⟨(recorded.shard si).logged victim (Finmap.mem_of_lookup_eq_some found), fun key holds => ?_⟩
  refine (recorded.shard si).recent.oldest ?_ ((recorded.shard si).complete key holds)
  rw [getLast?_keys, last]
  rfl

theorem EvictedBy.purges {chosen : Fin 256 → Key → Entry → Prop} {s t : Store}
    (evicted : EvictedBy chosen s (t, true)) :
    ∃ si victim e, (s.shards si).m.lookup victim = some e ∧ chosen si victim e
      ∧ ∀ sj, (t.shards sj).m = if sj = si then (s.shards si).m.erase victim else (s.shards sj).m := by
  cases evicted with
  | purged tick cursor si victim e found pick =>
    exact ⟨si, victim, e, found, pick, fun sj => purgeEntryLocked_m ..⟩

theorem policy_stable (policy : Policy) : Stable (·.policy = policy) where
  quiet same _ _ samePolicy := samePolicy.trans same
  purge _ same _ := (purgeEntryLocked_policy ..).trans same
  touch same _ := same
  write _ same _ := (replaceEntry_policy ..).trans same
  drop _ same _ := (addMem_policy ..).trans same

/-- In a sequential run under one policy, a successful eviction removes one key, not the one
to avoid, and chooses it as the policy says. -/
theorem victims_follow_policy {fl : FloatOps} (policy : Policy) (maxMem : Nat) (oracle : Oracle)
    (ops : List (Time × StoreOp fl)) (avoidKey : Key) :
    (∃ log, Traced (newStore policy maxMem oracle) log
      (StoreOp.run (newStore policy maxMem oracle) ops)) ∧
    ∀ t, (StoreOp.run (newStore policy maxMem oracle) ops).evictFromStore avoidKey = (t, true) →
      ∃ si victim e,
        ((StoreOp.run (newStore policy maxMem oracle) ops).shards si).m.lookup victim = some e
        ∧ (∀ sj, (t.shards sj).m
          = if sj = si then
              ((StoreOp.run (newStore policy maxMem oracle) ops).shards si).m.erase victim
            else ((StoreOp.run (newStore policy maxMem oracle) ops).shards sj).m)
        ∧ (avoidKey ≠ [] → victim ≠ avoidKey)
        ∧ Chosen (newStore policy maxMem oracle) (StoreOp.run (newStore policy maxMem oracle) ops)
          avoidKey si victim e := by
  refine ⟨(traced_stable _).runs ⟨[], .start⟩ ops, fun t evicts => ?_⟩
  have active : (StoreOp.run (newStore policy maxMem oracle) ops).policy = policy :=
    (policy_stable policy).runs rfl ops
  generalize StoreOp.run (newStore policy maxMem oracle) ops = s at evicts active ⊢
  have spared {victim : Key} (kept : avoided avoidKey victim = false) :
      avoidKey ≠ [] → victim ≠ avoidKey := by
    simpa [avoided] using kept
  have started : (newStore policy maxMem oracle).policy = policy := rfl
  have lru (isLru : policy.isLru = true) := by
    have probed := evictBack_evicted (Shard.lru s.policy) s.policy.mayEvict avoidKey
      (numShards * 2) s
    rw [← evictFromStore_lru (by rw [active]; exact isLru), evicts, active] at probed
    exact probed.purges
  unfold Chosen
  rw [started]
  unfold evictFromStore at evicts
  cases policy with simp only [active] at evicts
  | noeviction => cases evicts
  | allkeysLru =>
    obtain ⟨si, victim, e, found, back, maps⟩ := lru rfl
    refine ⟨si, victim, e, found, maps, spared back.2.1, fun log traced => ?_⟩
    obtain ⟨logged, oldest⟩ := (traced.recorded rfl).oldest back found
    refine ⟨logged, fun key member => ?_⟩
    obtain ⟨other, stored⟩ := Finmap.mem_iff.mp member
    exact oldest key ⟨other, stored, rfl⟩
  | volatileLru =>
    obtain ⟨si, victim, e, found, back, maps⟩ := lru rfl
    refine ⟨si, victim, e, found, maps, spared back.2.1, back.2.2, fun log traced => ?_⟩
    obtain ⟨logged, oldest⟩ := (traced.recorded rfl).oldest back found
    exact ⟨logged, fun key other stored deadline => oldest key ⟨other, stored, deadline⟩⟩
  | allkeysRandom =>
    have drawn := evictRandomTries_evicted (fun _ => true) avoidKey (numShards * 8) s
    rw [← evictRandom, evicts] at drawn
    obtain ⟨si, victim, e, found, pick, maps⟩ := drawn.purges
    exact ⟨si, victim, e, found, maps, spared pick.1, trivial⟩
  | volatileRandom =>
    have drawn := evictRandomTries_evicted Entry.hasTTL avoidKey (numShards * 8) s
    rw [← evictRandom, evicts] at drawn
    obtain ⟨si, victim, e, found, pick, maps⟩ := drawn.purges
    exact ⟨si, victim, e, found, maps, spared pick.1, pick.2⟩
  | volatileTtl =>
    have scanned := (evictVolatileTTL_evicted s avoidKey).1
    rw [evicts] at scanned
    obtain ⟨si, victim, e, found, ⟨mortal, earliest⟩, maps⟩ := scanned.purges
    exact ⟨si, victim, e, found, maps, spared mortal.2.2, mortal.2.1,
      fun sj key other stored deadline kept => earliest sj key other ⟨stored, deadline, kept⟩⟩

/-! ## When eviction gives up -/

def back (s : Store) (si : Fin 256) : Option Key :=
  ((s.shards si).lru s.policy).keys.getLast?

theorem evictBack_gives_up {s : Store} {policy : Policy} (listed : s.Listed)
    (isLru : policy.isLru = true) (avoidKey : Key) (attempts : Nat) :
    (evictBack (Shard.lru policy) policy.mayEvict avoidKey attempts s).2 = false
      ↔ ∀ j < attempts, ∀ victim ∈ ((s.shards (shardOf (s.evictCursor + j))).lru policy).keys.getLast?,
        avoided avoidKey victim = true := by
  induction attempts generalizing s with
  | zero => simp [evictBack]
  | succ attempts ih =>
    have here := (listed (shardOf s.evictCursor)).lru isLru
    -- the other probes start at the next shard
    have shifted (j : Nat) :
        shardOf (s.nextShard.1.evictCursor + j) = shardOf (s.evictCursor + (j + 1)) := by
      simp only [nextShard, drawn, shardOf, Fin.mk.injEq]
      omega
    have others : (evictBack (Shard.lru policy) policy.mayEvict avoidKey attempts s.nextShard.1).2
        = false ↔ ∀ j < attempts, ∀ victim ∈
          ((s.shards (shardOf (s.evictCursor + (j + 1)))).lru policy).keys.getLast?,
        avoided avoidKey victim = true := by
      simp only [← shifted]
      exact ih listed
    rw [Nat.forall_lt_succ_left, ← others, Nat.add_zero, getLast?_keys]
    cases last : ((s.shards (shardOf s.evictCursor)).lru policy).list.getLast? with
    | none =>
      have last : (Shard.lru policy (s.nextShard.1.shards s.nextShard.2)).list.getLast? = none := last
      simp [evictBack, last]
    | some node =>
      obtain ⟨e, found, eligible⟩ := here.only node.2 (LruList.mem_keys.mpr
        ⟨node.1, List.mem_of_getLast? last⟩)
      have last : (Shard.lru policy (s.nextShard.1.shards s.nextShard.2)).list.getLast? = some node :=
        last
      have found : (s.nextShard.1.shards s.nextShard.2).m.lookup node.2 = some e := found
      cases spared : avoided avoidKey node.2 with
      | true => simp [evictBack, last, spared]
      | false => simp [evictBack, last, spared, found, eligible]

theorem evictFromStore_gives_up {s : Store} (listed : s.Listed) (isLru : s.policy.isLru = true)
    (avoidKey : Key) : (s.evictFromStore avoidKey).2 = false
      ↔ ∀ si, ∀ victim ∈ s.back si, avoided avoidKey victim = true := by
  rw [evictFromStore_lru isLru, evictBack_gives_up listed isLru]
  refine ⟨fun probed si => ?_, fun every j _ => every _⟩
  have reached : shardOf (s.evictCursor + (si.val + 256 - s.evictCursor % 256) % 256) = si := by
    simp only [shardOf, Fin.ext_iff]
    omega
  have probe := probed ((si.val + 256 - s.evictCursor % 256) % 256) (by unfold numShards; omega)
  rw [reached] at probe
  exact probe

end Store

/-! ## Runs in which the configuration changes -/

/-- An operation, or `ReplaceConfig` with the two settings the store reads. -/
inductive ConfigOp (fl : FloatOps) where
  | call (now : Time) (op : StoreOp fl)
  | replaceConfig (policy : Policy) (maxMem : Nat)

namespace ConfigOp

variable {fl : FloatOps}

def exec (s : Store) : ConfigOp fl → Store
  | .call now op => (op.exec s now).1
  | .replaceConfig policy maxMem => { s with policy, maxMem }

def run (s : Store) (ops : List (ConfigOp fl)) : Store :=
  ops.foldl exec s

theorem run_listed {s : Store} (listed : s.Listed) (ops : List (ConfigOp fl)) :
    (run s ops).Listed := by
  induction ops generalizing s with
  | nil => exact listed
  | cons op rest ih =>
    cases op with
    | call now op => exact ih (Store.stable_listed.exec listed now op)
    -- the lists stay as the former policies left them
    | replaceConfig policy maxMem => exact ih (s := { s with policy, maxMem }) listed

end ConfigOp

namespace Store

theorem avoided_eq_false_of_ne {avoidKey key : Key} (differs : key ≠ avoidKey) :
    avoided avoidKey key = false := by
  simp [avoided, differs]

/-- Wherever the cursor stands, the eviction of the least recently used key gives up only
if it must exactly when some list ends in a key that may go, should one be stored; the
eviction of the next key to expire always does. -/
theorem eviction_gives_up_iff {fl : FloatOps} (policy : Policy) (maxMem : Nat) (oracle : Oracle)
    (ops : List (ConfigOp fl)) (cursor : Nat) (avoidKey : Key) {s : Store}
    (reached : s = (ConfigOp.run (newStore policy maxMem oracle) ops).drawn
      (ConfigOp.run (newStore policy maxMem oracle) ops).tick cursor)
    (searches : s.policy = .allkeysLru ∨ s.policy = .volatileLru ∨ s.policy = .volatileTtl) :
    ((s.evictFromStore avoidKey).2 = false →
      ∀ si key, (s.shards si).Holds s.policy key → key = avoidKey)
    ↔ s.policy = .volatileTtl ∨
      ((∃ si key, (s.shards si).Holds s.policy key ∧ key ≠ avoidKey) →
        ∃ si victim, s.back si = some victim ∧ avoided avoidKey victim = false) := by
  have listed : s.Listed := by
    rw [reached]
    exact ConfigOp.run_listed (newStore_listed policy maxMem oracle) ops
  clear reached
  by_cases ttl : s.policy = .volatileTtl
  · refine iff_of_true (fun gaveUp si key holds => ?_) (.inl ttl)
    obtain ⟨e, found, deadline⟩ := holds
    rw [ttl] at deadline
    have never := (evictVolatileTTL_evicted s avoidKey).2
      (by rw [← gaveUp]; unfold evictFromStore; rw [ttl]) si key e
    by_contra differs
    exact never ⟨found, deadline, avoided_eq_false_of_ne differs⟩
  · have isLru : s.policy.isLru = true := by
      rcases searches with active | active | active
      · rw [active]; rfl
      · rw [active]; rfl
      · exact absurd active ttl
    rw [evictFromStore_gives_up listed isLru, or_iff_right ttl]
    refine ⟨fun must ⟨si, key, holds, differs⟩ => ?_, fun ends none si key holds => ?_⟩
    · by_contra every
      push Not at every
      refine differs (must (fun si victim back => ?_) si key holds)
      exact Bool.of_not_eq_false (every si victim back)
    · by_contra differs
      obtain ⟨si, victim, back, kept⟩ := ends ⟨si, key, holds, differs⟩
      rw [none si victim back] at kept
      cases kept

def twoOfAShard : List (ConfigOp integerFloats) :=
  [.call 1 (.single (ascii "k") (.set [] 0)), .call 2 (.single (ascii "ij") (.set [] 0))]

def twoStored : Store :=
  (ConfigOp.run (newStore .allkeysLru 0 sortedOracle) twoOfAShard).drawn
    (ConfigOp.run (newStore .allkeysLru 0 sortedOracle) twoOfAShard).tick 7

/-- The older of the two is at the back of the list, and may go. -/
theorem older_goes :
    twoStored.back (shardIndex (ascii "k")) = some (ascii "k")
    ∧ ((twoStored.evictFromStore (ascii "ij")).2 = false →
      ∀ si key, (twoStored.shards si).Holds twoStored.policy key → key = ascii "ij") := by
  have ends : twoStored.back (shardIndex (ascii "k")) = some (ascii "k") := by decide +kernel
  refine ⟨ends, (eviction_gives_up_iff .allkeysLru 0 sortedOracle twoOfAShard 7 (ascii "ij") rfl
    (.inl (by decide +kernel))).mpr (.inr fun _ => ?_)⟩
  exact ⟨_, _, ends, by decide +kernel⟩

/-- The key to avoid hides the other one behind it in the list; and a key that was set before
the policy was chosen is in no list. -/
theorem hidden_keys_stay :
    (((ConfigOp.run (newStore .allkeysLru 0 sortedOracle) twoOfAShard).evictFromStore
        (ascii "k")).2 = false
      ∧ (((ConfigOp.run (newStore .allkeysLru 0 sortedOracle) twoOfAShard).shards
        (shardIndex (ascii "ij"))).m.lookup (ascii "ij")).isSome = true)
    ∧ ((ConfigOp.run (newStore .noeviction 0 sortedOracle)
        (twoOfAShard ++ [.replaceConfig .allkeysLru 300])).evictFromStore []).2 = false
      ∧ (((ConfigOp.run (newStore .noeviction 0 sortedOracle)
        (twoOfAShard ++ [.replaceConfig .allkeysLru 300])).shards
        (shardIndex (ascii "ij"))).m.lookup (ascii "ij")).isSome = true := by
  decide +kernel

end Store

end SuperCache
