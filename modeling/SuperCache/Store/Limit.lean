import SuperCache.Store.Runs

/-! # The memory limit

With a limit below `2 ^ 63` and a counter that is never below the true total, a
successful operation leaves the total within the limit.  The renames are left
out: they move an entry to a key that may be longer without asking for memory.
Two things break it.  An increment that finds an expired entry lowers the counter
below the total, and an operation on the empty key can evict its own entry.
-/

namespace SuperCache

open Lib

namespace Store

variable {ρ : Type} {limit : Nat} {s : Store} {now : Time} {key : Key}

/-! ## Operations that only shrink -/

theorem countKeys_total_le {op : KeyOp Int} (settles : ∀ found, ¬ (op found).MakesRoom)
    (sized : ∀ key found, (op found).Sized key found) (s : Store) (now : Time)
    (keys : List Key) : (countKeys op s now keys).1.total ≤ s.total := by
  refine Closed.countKeys (P := (·.total ≤ s.total)) (fun t key within => ?_) (le_refl _) keys
  exact (run_total_le (settles _) (sized key _)).trans within

theorem get_settles (found : Look) : ¬ (KeyOp.get found).MakesRoom := by
  cases found with
  | missing => exact id
  | expired e => exact id
  | live e =>
    simp only [KeyOp.get]
    split <;> exact id

theorem mGet_total_le (s : Store) (now : Time) (keys : List Key) :
    (s.mGet now keys).1.total ≤ s.total := by
  refine Closed.mGet (P := (·.total ≤ s.total)) (fun t key within => ?_) (le_refl _) keys
  exact (run_total_le (get_settles _) (KeyOp.get_decides _).accounts.sized).trans within

theorem total_le_purgeable (bound : Int) : Purgeable (·.total ≤ bound) where
  quiet within shards _ _ _ _ _ := (total_congr fun si => by rw [shards]).le.trans within
  purge {s si key e} within found := by
    have positive := estimateMem_pos key e
    rw [total_purgeEntryLocked found]
    omega

theorem flushDB_total_le (s : Store) : s.flushDB.total ≤ s.total :=
  (total_le_purgeable _).flushDB (fun _ => id) (le_refl _)

theorem sampleAllShards_total_le (s : Store) (now : Time) :
    (s.sampleAllShards now).total ≤ s.total :=
  (total_le_purgeable _).sampleAllShards (le_refl _) now

/-! ## Operations that make room -/

structure Bounded (limit : Nat) (s : Store) : Prop where
  sound : s.Sound false limit
  total : s.total ≤ limit

theorem Bounded.run {op : KeyOp ρ} {result : ρ} (bounded : s.Bounded limit)
    (limited : limit ≠ 0) (small : limit < 2 ^ 63)
    (itself : ¬ s.MayEvictItself now key)
    (accounts : (op (s.lookup now key)).Accounts false key (s.lookup now key))
    (succeeded : (s.run now key op).2 = .ok result) : (s.run now key op).1.Bounded limit := by
  exact ⟨run_sound bounded.sound accounts,
    run_within bounded.sound limited small bounded.total (fun _ => itself) accounts.sized succeeded⟩

theorem mSetList_within (limited : limit ≠ 0) (small : limit < 2 ^ 63)
    {pairs : List (Key × Bytes)} (distinct : (pairs.map Prod.fst).Nodup)
    (bounded : s.Bounded limit)
    (itself : [] ∈ pairs.map Prod.fst → ¬ s.MayEvictItself now [])
    (succeeded : (s.mSetList now pairs).2 = .ok ()) :
    (s.mSetList now pairs).1.total ≤ limit := by
  induction pairs generalizing s with
  | nil => exact bounded.total
  | cons pair rest ih =>
    obtain ⟨key, val⟩ := pair
    simp only [List.map_cons, List.nodup_cons] at distinct
    obtain ⟨fresh, distinctRest⟩ := distinct
    have notItself : ¬ s.MayEvictItself now key := by
      intro mayEvict
      have emptyKey := mayEvict.1
      subst emptyKey
      exact itself List.mem_cons_self mayEvict
    obtain ⟨-, samePolicy, others⟩ := run_frame s now key (KeyOp.set key val 0)
    have first : ∀ result, (s.run now key (KeyOp.set key val 0)).2 = .ok result →
        (s.run now key (KeyOp.set key val 0)).1.Bounded limit := fun result ok =>
      bounded.run limited small notItself (KeyOp.setLocked_accounts val 0 false false) ok
    simp only [Store.mSetList] at succeeded ⊢
    split at succeeded
    · cases succeeded
    · next t equation =>
      rw [equation] at first samePolicy others
      apply ih distinctRest (first _ rfl) _ succeeded
      -- The empty key comes later, so this write was to another key.
      rintro later ⟨-, live, policy⟩
      have different : ([] : Key) ≠ key := fun same => fresh (same ▸ later)
      refine itself (List.mem_cons_of_mem _ later) ⟨rfl, ?_, by rwa [← samePolicy]⟩
      unfold lookup at live ⊢
      obtain kept | gone := others [] different
      · rwa [kept] at live
      · rw [gone] at live
        cases live

theorem priceNew_frame (now : Time) (pairs : List (Key × Bytes)) (s : Store) (delta : Int) :
    (pairs.foldl (priceNew now) (s, delta)).1.total ≤ s.total ∧
      (pairs.foldl (priceNew now) (s, delta)).2
        = delta + (pairs.map fun pair => estimateMem pair.1 { value := .string pair.2 }).sum := by
  induction pairs generalizing s delta with
  | nil => exact ⟨le_refl _, by simp⟩
  | cons pair rest ih =>
    obtain ⟨total, price⟩ := ih
      (s.purgeExpired pair.1 (s.lookup now pair.1))
      (delta + estimateMem pair.1 { value := .string pair.2 })
    refine ⟨total.trans (total_purgeExpired_le s now pair.1), ?_⟩
    rw [List.foldl_cons, List.map_cons, List.sum_cons, ← add_assoc]
    exact price

theorem installNew_total_le (now : Time) (pairs : List (Key × Bytes)) (s : Store) :
    (pairs.foldl (installNew now) s).total
      ≤ s.total + (pairs.map fun pair => estimateMem pair.1 { value := .string pair.2 }).sum := by
  induction pairs generalizing s with
  | nil => simp
  | cons pair rest ih =>
    rw [List.foldl_cons, List.map_cons, List.sum_cons]
    refine (ih _).trans ?_
    have one : (installNew now s pair).total
        ≤ s.total + estimateMem pair.1 { value := .string pair.2 } := by
      have smaller := s.total_purgeExpired_le now pair.1
      simp only [installNew]
      rw [total_replaceEntry]
      have given : 0 ≤ oldBytes pair.1
          ((s.purgeExpired pair.1 (s.lookup now pair.1)).stored pair.1) := by
        cases (s.purgeExpired pair.1 (s.lookup now pair.1)).stored pair.1 with
        | none => exact le_refl _
        | some e => exact (estimateMem_pos pair.1 e).le
      omega
    omega

theorem price_order (pairs : GoMap Bytes) (left right : List Key) (perm : left.Perm right) :
    ((pairsIn pairs left).map fun pair => estimateMem pair.1 { value := .string pair.2 }).sum
      = ((pairsIn pairs right).map fun pair =>
          estimateMem pair.1 { value := .string pair.2 }).sum :=
  ((perm.filterMap _).map _).sum_eq

theorem rangeOrder_perm (oracle oracle' : Oracle) (tick tick' : Nat) (keys : Finset Key) :
    (rangeOrder oracle tick keys).Perm (rangeOrder oracle' tick' keys) :=
  (List.perm_ext_iff_of_nodup (nodup_rangeOrder _ _ _) (nodup_rangeOrder _ _ _)).mpr
    fun _ => mem_rangeOrder.trans mem_rangeOrder.symm

theorem mSetNX_within (limited : limit ≠ 0) (small : limit < 2 ^ 63) (bounded : s.Bounded limit)
    {pairs : GoMap Bytes} {result : Bool} (succeeded : (s.mSetNX now pairs).2 = .ok result) :
    (s.mSetNX now pairs).1.total ≤ limit := by
  unfold Store.mSetNX at succeeded ⊢
  split
  · exact bounded.total
  · next nonempty =>
    split
    · exact bounded.total
    · next vacant =>
      simp only [nonempty, vacant, Bool.false_eq_true, if_false, drawRange] at succeeded ⊢
      obtain ⟨smaller, price⟩ := priceNew_frame now
        (pairsIn pairs (rangeOrder s.oracle s.tick pairs.keys)) (s.drawn (s.tick + 1) s.evictCursor) 0
      have priced := sound_closed.priceAll (sound_closed.drawn bounded.sound (s.tick + 1) s.evictCursor) now
        (pairsIn pairs (rangeOrder s.oracle s.tick pairs.keys)) 0
      generalize (pairsIn pairs (rangeOrder s.oracle s.tick pairs.keys)).foldl (priceNew now)
        (s.drawn (s.tick + 1) s.evictCursor, 0) = state at succeeded smaller price priced ⊢
      have withinBefore : state.1.total ≤ limit := smaller.trans bounded.total
      simp only [evictUntilFits, priced.maxMem, limited, if_false] at succeeded ⊢
      split at succeeded
      · cases succeeded
      · next t evicted made =>
        have evictions : Evictions [] state.1 t := by
          have loop := evictLoop_evictions [] state.2 (state.1.size + 1) false state.1
          rwa [made] at loop
        obtain ⟨covered, sameLimit⟩ := sound_closed.evictions priced evictions
        have enough := covered.1
        have fits := overLimit_eq_false (by rw [sameLimit]; exact small) (evictLoop_ok made).1
        rw [sameLimit] at fits
        split
        · exact evictions.total_le.trans withinBefore
        · -- Both passes price the same pairs, whatever the two orders are.
          have installed := installNew_total_le now
            (pairsIn pairs (rangeOrder t.oracle t.tick pairs.keys))
            (t.drawn (t.tick + 1) t.evictCursor)
          have samePrice := price_order pairs _ _
            (rangeOrder_perm t.oracle s.oracle t.tick s.tick pairs.keys)
          have sameTotal : (t.drawn (t.tick + 1) t.evictCursor).total = t.total := rfl
          simp only at installed ⊢
          omega

theorem applySnapshotEntry_within (limited : limit ≠ 0) (small : limit < 2 ^ 63)
    (bounded : s.Bounded limit) {ent : SnapshotEntry}
    (succeeded : (s.applySnapshotEntry now ent).2 = .ok ()) :
    (s.applySnapshotEntry now ent).1.total ≤ limit := by
  unfold Store.applySnapshotEntry at succeeded ⊢
  split
  · exact bounded.total
  · next value known =>
    simp only [known] at succeeded ⊢
    split at succeeded
    · cases succeeded
    · next t evicted made =>
      have room := ensureMemoryWithRetry_ok made
      have positive := estimateMem_pos ent.key
        { value := value, expiresAt := snapshotExpiry now ent }
      obtain ⟨covered, sameLimit⟩ := sound_closed.evictions bounded.sound room.evictions
      have enough := covered.1
      have fits := overLimit_eq_false (by rw [sameLimit]; exact small)
        (room.fits (by rw [bounded.sound.maxMem]; exact limited) positive)
      rw [sameLimit] at fits
      have given : 0 ≤ oldBytes ent.key (t.stored ent.key) := by
        cases t.stored ent.key with
        | none => exact le_refl _
        | some e => exact (estimateMem_pos ent.key e).le
      simp only
      rw [total_replaceEntry]
      omega

theorem applySnapshotEntries_within (limited : limit ≠ 0) (small : limit < 2 ^ 63)
    (bounded : s.Bounded limit) {entries : List SnapshotEntry}
    (succeeded : (s.applySnapshotEntries now entries).2 = .ok ()) :
    (s.applySnapshotEntries now entries).1.total ≤ limit := by
  induction entries generalizing s with
  | nil => exact bounded.total
  | cons ent rest ih =>
    have sound := sound_closed.applySnapshotEntry bounded.sound now ent
    have total : (s.applySnapshotEntry now ent).2 = .ok () → _ :=
      applySnapshotEntry_within limited small bounded
    simp only [Store.applySnapshotEntries] at succeeded ⊢
    split at succeeded
    · cases succeeded
    · next equation =>
      rw [equation] at sound total
      exact ih ⟨sound, total rfl⟩ succeeded

end Store

namespace StoreOp

variable {fl : FloatOps} {limit : Nat} {s : Store} {now : Time}

def MayEvictItself (s : Store) (now : Time) : StoreOp fl → Prop
  | .single key op =>
    (op.keyOp now key (s.lookup now key)).MakesRoom ∧ s.MayEvictItself now key
  | .mSet pairs => [] ∈ pairs.keys ∧ s.MayEvictItself now []
  | _ => False

def isRename : StoreOp fl → Bool
  | .rename .. | .renameNX .. => true
  | _ => false

theorem pairsIn_keys (pairs : GoMap Bytes) (order : List Key) (known : ∀ key ∈ order, key ∈ pairs) :
    (Store.pairsIn pairs order).map Prod.fst = order := by
  induction order with
  | nil => rfl
  | cons key rest ih =>
    obtain ⟨val, found⟩ := Finmap.mem_iff.mp (known key List.mem_cons_self)
    have others := ih fun other member => known other (List.mem_cons_of_mem _ member)
    unfold Store.pairsIn at others ⊢
    simp only [List.filterMap_cons, found, Option.map_some, List.map_cons, others]

theorem exec_within (limited : limit ≠ 0) (small : limit < 2 ^ 63) (op : StoreOp fl)
    (bounded : s.Bounded limit) (notRename : op.isRename = false)
    (itself : ¬ op.MayEvictItself s now) (ok : (op.exec s now).2 = true) :
    (op.exec s now).1.total ≤ limit := by
  have ofOk {ρ : Type} {result : Except StoreErr ρ} (isOk : succeeded result = true) :
      ∃ value, result = .ok value := by
    cases result with
    | ok value => exact ⟨value, rfl⟩
    | error failure => cases isOk
  cases op with
  | single key op =>
    simp only [exec, SingleOp.exec] at ok ⊢
    split at ok
    · exact bounded.total
    · obtain ⟨value, answered⟩ := ofOk ok
      exact Store.run_within bounded.sound limited small bounded.total
        (fun makesRoom mayEvict => itself ⟨makesRoom, mayEvict⟩) op.keyOp_sized answered
  | del keys =>
    refine (Store.countKeys_total_le (fun found => ?_)
      (fun key found => (KeyOp.del_decides key).accounts.sized) s now keys).trans bounded.total
    cases found <;> exact id
  | exists' keys =>
    refine (Store.countKeys_total_le (fun found => ?_)
      (fun key found => (KeyOp.exists1_decides key).accounts.sized) s now keys).trans bounded.total
    cases found <;> exact id
  | mGet keys => exact (Store.mGet_total_le s now keys).trans bounded.total
  | mSet pairs =>
    obtain ⟨value, answered⟩ := ofOk ok
    have keys := pairsIn_keys pairs (sortedElems pairs.keys)
      fun key member => Finmap.mem_keys.mp (mem_sortedElems.mp member)
    apply Store.mSetList_within limited small _ bounded _ answered
    · rw [keys]
      exact nodup_sortedElems pairs.keys
    · rw [keys]
      exact fun member mayEvict => itself ⟨mem_sortedElems.mp member, mayEvict⟩
  | mSetNX pairs =>
    obtain ⟨value, answered⟩ := ofOk ok
    exact Store.mSetNX_within limited small bounded answered
  | expire key sec =>
    simp only [exec, Store.expire] at ok ⊢
    split
    · exact bounded.total
    · refine (Store.run_total_le ?_ (KeyOp.expireAt_decides _ _).accounts.sized).trans bounded.total
      cases s.lookup now key <;> exact id
  | rename src dst => cases notRename
  | renameNX src dst => cases notRename
  | flushDB => exact s.flushDB_total_le.trans bounded.total
  | sampleAllShards =>
    simp only [exec]
    exact (s.sampleAllShards_total_le now).trans bounded.total
  | applySnapshotEntry ent =>
    obtain ⟨value, answered⟩ := ofOk ok
    exact Store.applySnapshotEntry_within limited small bounded answered
  | applySnapshot entries =>
    obtain ⟨value, answered⟩ := ofOk ok
    exact Store.applySnapshotEntries_within limited small
      ⟨Store.sound_closed.flushDB (fun _ => Store.sound_closed.forget) bounded.sound,
        s.flushDB_total_le.trans bounded.total⟩ answered

/-- In a run from an empty store in which no increment has found an expired entry,
a successful operation keeps the total within the limit, unless it can evict its
own entry. -/
theorem run_total_le_limit (policy : Policy) (oracle : Oracle) (limited : limit ≠ 0)
    (small : limit < 2 ^ 63) (ops : List (Time × StoreOp fl)) (op : StoreOp fl)
    (pays : RunPays false (newStore policy limit oracle) ops) (notRename : op.isRename = false)
    (itself : ¬ op.MayEvictItself (run (newStore policy limit oracle) ops) now)
    (within : (run (newStore policy limit oracle) ops).total ≤ limit)
    (ok : (op.exec (run (newStore policy limit oracle) ops) now).2 = true) :
    (op.exec (run (newStore policy limit oracle) ops) now).1.total ≤ limit :=
  op.exec_within limited small
    ⟨run_sound ops (newStore_sound false policy limit oracle) pays, within⟩ notRename itself ok

def setOldKey : List (Time × StoreOp integerFloats) :=
  [(1, .single (ascii "old") (.set (zeros 100) 0))]

/-- A write that has to evict the oldest key before it fits. -/
theorem set_total_le_limit :
    ((StoreOp.single (ascii "new") (.set (zeros 100) 0)
      : StoreOp integerFloats).exec
        (run (newStore .allkeysLru 300 sortedOracle) setOldKey) 2).1.total ≤ (300 : Nat) := by
  apply run_total_le_limit
  · decide
  · decide
  · exact ⟨trivial, trivial⟩
  · rfl
  · rintro ⟨-, emptyKey, -⟩
    exact absurd emptyKey (by decide)
  · decide +kernel
  · decide +kernel

/-- Both ways past the limit of 600 and of 300 bytes: the increment of an expired
counter makes room on paper for one more value; the append to the empty key
evicts what it appends to, and stores the sum. -/
theorem set_after_incr_exceeds_limit :
    (let s := run (newStore .noeviction 600 sortedOracle)
      ([(1, .single (ascii "a") (.set (zeros 200) 0)),
        (1, .single (ascii "k") (.set (zeros 100) 2)),
        (10, .single (ascii "k") (.incrBy 1))] : List (Time × StoreOp integerFloats))
    let op : StoreOp integerFloats := .single (ascii "b") (.set (zeros 200) 0)
    s.total ≤ 600 ∧ (op.exec s 10).2 = true ∧ 600 < (op.exec s 10).1.total)
    ∧
    (let s := run (newStore .allkeysLru 300 sortedOracle)
      ([(1, .single [] (.set (zeros 100) 0))] : List (Time × StoreOp integerFloats))
    let op : StoreOp integerFloats := .single [] (.append (zeros 200))
    s.total ≤ 300 ∧ (op.exec s 1).2 = true ∧ 300 < (op.exec s 1).1.total) := by
  decide +kernel

end StoreOp

end SuperCache
