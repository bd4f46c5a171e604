import SuperCache.Store.LiveKeys

/-! # Operations on several keys, seen live

What `Del`, `Exists`, `MSet`, `MSetNX`, the renames and `FlushDB` do to the live
keyspace.
-/

namespace SuperCache

open Lib

namespace Keyspace

def remove (keys : List Key) (view : Keyspace) : Keyspace :=
  fun key => if key ∈ keys then none else view key

def plain (bytes : Bytes) : Entry :=
  { value := .string bytes, expiresAt := 0 }

def putAll (pairs : GoMap Bytes) (view : Keyspace) : Keyspace :=
  fun key =>
    match pairs.lookup key with
    | some bytes => some (plain bytes)
    | none => view key

def move (src dst : Key) (view : Keyspace) : Keyspace :=
  if src = dst then view
  else
    match view src with
    | none => view
    | some e => Function.update (Function.update view src none) dst (some e)

def putEach (view : Keyspace) (pairs : List (Key × Bytes)) : Keyspace :=
  pairs.foldl (fun view pair => Function.update view pair.1 (some (plain pair.2))) view

theorem putEach_pairsIn (pairs : GoMap Bytes) (order : List Key) (view : Keyspace) (key : Key) :
    putEach view (Store.pairsIn pairs order) key
      = if key ∈ order then putAll pairs view key else view key := by
  induction order generalizing view with
  | nil => rfl
  | cons first rest ih =>
    cases found : pairs.lookup first with
    | none =>
      have skipped : Store.pairsIn pairs (first :: rest) = Store.pairsIn pairs rest := by
        simp [Store.pairsIn, found]
      rw [skipped, ih]
      by_cases later : key ∈ rest
      · rw [if_pos later, if_pos (List.mem_cons_of_mem _ later)]
      · rw [if_neg later]
        by_cases same : key = first
        · subst same
          rw [if_pos List.mem_cons_self]
          simp [putAll, found]
        · rw [if_neg (by simp [same, later])]
    | some bytes =>
      have taken : Store.pairsIn pairs (first :: rest)
          = (first, bytes) :: Store.pairsIn pairs rest := by
        simp [Store.pairsIn, found]
      rw [taken]
      simp only [putEach, List.foldl_cons] at ih ⊢
      rw [ih]
      by_cases same : key = first
      · subst same
        rw [if_pos List.mem_cons_self]
        simp [putAll, found]
      · by_cases later : key ∈ rest
        · rw [if_pos later, if_pos (List.mem_cons_of_mem _ later)]
          simp [putAll, Function.update_of_ne same]
        · rw [if_neg later, if_neg (by simp [same, later]), Function.update_of_ne same]

theorem putEach_all {pairs : GoMap Bytes} (order : List Key) (view : Keyspace)
    (complete : ∀ key, key ∈ order ↔ key ∈ pairs.keys) :
    putEach view (Store.pairsIn pairs order) = putAll pairs view := by
  funext key
  rw [putEach_pairsIn]
  split
  · rfl
  · next absent =>
    rw [complete, Finmap.mem_keys] at absent
    simp [putAll, Finmap.lookup_eq_none.mpr absent]

/-- The room that setting the pairs asks for, no key among them twice. -/
def price (view : Keyspace) (pairs : List (Key × Bytes)) : Int :=
  (pairs.map fun pair => (KeyOp.set pair.1 pair.2 0).adds (view pair.1)).sum

theorem price_nonneg (view : Keyspace) (pairs : List (Key × Bytes)) : 0 ≤ price view pairs := by
  refine List.sum_nonneg fun n listed => ?_
  obtain ⟨pair, -, rfl⟩ := List.mem_map.mp listed
  exact KeyOp.adds_nonneg _ _

theorem price_update {view : Keyspace} {key : Key} {pairs : List (Key × Bytes)}
    (unlisted : key ∉ pairs.map Prod.fst) (entry : Option Entry) :
    price (Function.update view key entry) pairs = price view pairs := by
  unfold price
  congr 1
  refine List.map_congr_left fun pair listed => ?_
  rw [Function.update_of_ne]
  rintro rfl
  exact unlisted (List.mem_map_of_mem listed)

end Keyspace

namespace Store

variable (s : Store) (now : Time)

theorem live_purgeExpired (key : Key) :
    (s.purgeExpired key (s.lookup now key)).live now = s.live now := by
  funext other
  unfold live
  rw [stored_purgeExpired]
  split
  · next same =>
    subst same
    exact s.alive_live now other
  · rfl

theorem live_replaceEntry (key : Key) (old : Option Entry) (ne : Entry) :
    (s.replaceEntry key old ne).live now = Function.update (s.live now) key (alive now (some ne)) := by
  funext other
  unfold live
  rw [stored_replaceEntry]
  by_cases same : other = key
  · rw [if_pos same, same, Function.update_self]
  · rw [if_neg same, Function.update_of_ne same]

theorem Evictions.live {s t : Store} {avoidKey : Key} (evictions : Evictions avoidKey s t) (now : Time)
    (limited : s.maxMem ≠ 0) : Within s.maxMem (t.live now) (s.live now) := by
  intro key
  unfold Store.live
  obtain same | gone := evictions.stored key
  · exact .inl (by rw [same])
  · exact .inr ⟨limited, by rw [gone]; rfl⟩

/-! ## One key after another -/

theorem exists_live (keys : List Key) :
    (s.exists' now keys).1.live now = s.live now ∧ (s.exists' now keys).1.maxMem = s.maxMem := by
  induction keys generalizing s with
  | nil => exact ⟨rfl, rfl⟩
  | cons key rest ih =>
    obtain ⟨sameLive, sameLimit⟩ := run_read s now key KeyOp.exists1_readOnly
    obtain ⟨restLive, restLimit⟩ := ih (s.run now key KeyOp.exists1).1
    exact ⟨restLive.trans sameLive, restLimit.trans sameLimit⟩

theorem del_live (keys : List Key) :
    (s.del now keys).1.live now = Keyspace.remove keys (s.live now)
      ∧ (s.del now keys).1.maxMem = s.maxMem := by
  induction keys generalizing s with
  | nil => exact ⟨by funext key; simp [Keyspace.remove, Store.del, countKeys], rfl⟩
  | cons key rest ih =>
    have sameLimit := (run_frame s now key KeyOp.del).1
    obtain ⟨oneLive, -⟩ := run_immediate s now key KeyOp.del_regular KeyOp.del_immediate
    obtain ⟨restLive, restLimit⟩ := ih (s.run now key KeyOp.del).1
    refine ⟨restLive.trans ?_, restLimit.trans sameLimit⟩
    have gone : KeyOp.del.effect now (s.live now key) = none := by
      cases s.live now key <;> rfl
    rw [oneLive, gone]
    funext other
    by_cases same : other = key
    · subst same
      simp [Keyspace.remove]
    · simp [Keyspace.remove, same]

theorem pairsIn_keys (pairs : GoMap Bytes) (order : List Key) :
    ((pairsIn pairs order).map Prod.fst).Sublist order := by
  induction order with
  | nil => exact .refl _
  | cons key rest ih =>
    simp only [pairsIn, List.filterMap_cons]
    cases pairs.lookup key with
    | none => exact ih.cons key
    | some val => exact ih.cons_cons key

theorem mSetList_fits {s : Store} {now : Time} {pairs : List (Key × Bytes)}
    (nodup : (pairs.map Prod.fst).Nodup) (room : s.HasRoom (Keyspace.price (s.live now) pairs)) :
    (s.mSetList now pairs).1.live now = Keyspace.putEach (s.live now) pairs
      ∧ (s.mSetList now pairs).2 = .ok () := by
  induction pairs generalizing s with
  | nil => exact ⟨rfl, rfl⟩
  | cons pair rest ih =>
    obtain ⟨key, val⟩ := pair
    obtain ⟨unlisted, nodupRest⟩ := List.nodup_cons.mp nodup
    have later := Keyspace.price_nonneg (s.live now) rest
    have regular : (KeyOp.set key val 0).Regular := KeyOp.set_regular val 0
    have split : Keyspace.price (s.live now) ((key, val) :: rest)
        = (KeyOp.set key val 0).adds (s.live now key) + Keyspace.price (s.live now) rest := rfl
    rw [split] at room
    obtain ⟨live, ok⟩ := s.run_live_fits now key regular.blind
      (room.mono (le_trans (le_max_right _ _) (le_add_of_nonneg_right later)))
    have spare := room.run_adds regular.blind (KeyOp.set_pays val 0) later
    replace live : _ = Function.update (s.live now) key (some (Keyspace.plain val)) :=
      live.trans (congrArg _ (alive_of_no_deadline _))
    simp only [mSetList]
    rcases ran : s.run now key (KeyOp.set key val 0) with ⟨t, failure | done⟩ <;>
      rw [ran] at live ok spare
    · cases ok
    · rw [← Keyspace.price_update unlisted (some (Keyspace.plain val)), ← live] at spare
      have rest := ih nodupRest spare
      rw [live] at rest
      exact rest

/-- The order in which Go ranges over the pairs is no matter. -/
theorem price_rangeOrder (view : Keyspace) (oracle : Oracle) (tick : Nat) (pairs : GoMap Bytes) :
    Keyspace.price view (pairsIn pairs (rangeOrder oracle tick pairs.keys))
      = Keyspace.price view (pairsIn pairs (sortedElems pairs.keys)) := by
  have perm : (rangeOrder oracle tick pairs.keys).Perm (sortedElems pairs.keys) :=
    (List.perm_ext_iff_of_nodup (nodup_rangeOrder _ _ _) (nodup_sortedElems _)).mpr fun key => by
      rw [mem_rangeOrder, mem_sortedElems]
  exact ((perm.filterMap _).map _).sum_eq

theorem mSet_fits (pairs : GoMap Bytes)
    (room : s.HasRoom (Keyspace.price (s.live now) (pairsIn pairs (sortedElems pairs.keys)))) :
    (s.mSet now pairs).1.live now = Keyspace.putAll pairs (s.live now)
      ∧ (s.mSet now pairs).2 = .ok () := by
  rw [← Keyspace.putEach_all (sortedElems pairs.keys) _ fun _ => mem_sortedElems]
  exact mSetList_fits ((nodup_sortedElems _).sublist (pairsIn_keys pairs _)) room

theorem mSetList_maxMem (pairs : List (Key × Bytes)) : (s.mSetList now pairs).1.maxMem = s.maxMem :=
  Closed.mSetList (P := (·.maxMem = s.maxMem)) (fun _ _ _ same => (run_frame ..).1.trans same) rfl pairs

/-! ## `MSetNX` -/

theorem priceNew_live (now : Time) (pairs : List (Key × Bytes)) (s : Store) (delta : Int) :
    (pairs.foldl (priceNew now) (s, delta)).1.live now = s.live now
      ∧ (pairs.foldl (priceNew now) (s, delta)).1.maxMem = s.maxMem := by
  induction pairs generalizing s delta with
  | nil => exact ⟨rfl, rfl⟩
  | cons pair rest ih =>
    obtain ⟨sameLive, sameLimit⟩ := ih
      (s.purgeExpired pair.1 (s.lookup now pair.1))
      (delta + estimateMem pair.1 { value := .string pair.2 })
    exact ⟨sameLive.trans (live_purgeExpired s now pair.1),
      sameLimit.trans (purgeExpired_maxMem _ _ _)⟩

theorem installNew_live (now : Time) (pairs : List (Key × Bytes)) (s : Store) :
    (pairs.foldl (installNew now) s).live now = Keyspace.putEach (s.live now) pairs := by
  induction pairs generalizing s with
  | nil => rfl
  | cons pair rest ih =>
    have one : (installNew now s pair).live now
        = Function.update (s.live now) pair.1 (some (Keyspace.plain pair.2)) := by
      simp only [installNew]
      rw [live_replaceEntry, live_purgeExpired]
      exact congrArg _ (alive_of_no_deadline _)
    rw [List.foldl_cons, ih, one]
    rfl

theorem priceNew_delta (now : Time) (pairs : List (Key × Bytes)) (s : Store) (delta : Int) :
    (pairs.foldl (priceNew now) (s, delta)).2
      = delta + (pairs.map fun pair => estimateMem pair.1 (Keyspace.plain pair.2)).sum := by
  induction pairs generalizing s delta with
  | nil => exact (add_zero delta).symm
  | cons pair rest ih =>
    rw [List.foldl_cons, ih, List.map_cons, List.sum_cons, ← add_assoc]
    rfl

theorem evictUntilFits_fits {s : Store} {delta : Int} (asks : 0 < delta) (room : s.HasRoom delta) :
    s.evictUntilFits delta = (s, .ok false) := by
  have same := ensureMemoryWithRetry_fits room []
  unfold ensureMemoryWithRetry at same
  unfold evictUntilFits
  split
  · rfl
  · next limited => rwa [if_neg (by omega)] at same

theorem anyLive_eq (keys : List Key) :
    s.anyLive now keys = keys.any fun key => (s.live now key).isSome := by
  unfold anyLive
  simp only [isLive_lookup]

theorem vacant_purgeable (now : Time) (keys : List Key) :
    Purgeable fun s => s.anyLive now keys = false where
  quiet holds shards route _ _ _ _ := by
    unfold anyLive lookup stored at *
    rwa [shards, route]
  purge holds found := by
    simp only [anyLive_eq, List.any_eq_false] at holds ⊢
    intro key listed
    have before := holds key listed
    unfold live at before ⊢
    rw [stored_purgeEntryLocked]
    split
    · simp
    · exact before

theorem mSetNX_refused (pairs : GoMap Bytes) (refused : (s.mSetNX now pairs).2 = .ok false) :
    (s.mSetNX now pairs).1.live now = s.live now := by
  unfold mSetNX at refused ⊢
  split at refused
  · cases refused
  · next nonempty =>
    rw [if_neg nonempty]
    split at refused
    · next taken => rw [if_pos taken]
    · next vacant =>
      -- what was evicted to make room was none of the keys
      have vacancy := vacant_purgeable now (sortedElems pairs.keys)
      have priced := vacancy.priceAll (vacancy.drawn (Bool.eq_false_iff.mpr vacant) (s.tick + 1)
        s.evictCursor) now (pairsIn pairs (rangeOrder s.oracle s.tick pairs.keys)) 0
      simp only [drawRange] at refused
      generalize (pairsIn pairs (rangeOrder s.oracle s.tick pairs.keys)).foldl _ _ = state at *
      have still := vacancy.evictUntilFits priced state.2
      rcases made : state.1.evictUntilFits state.2 with ⟨t, failure | evicted⟩ <;>
        rw [made] at refused still
      · cases refused
      · simp only [still, Bool.false_eq_true, if_false] at refused
        cases refused

theorem price_vacant {s : Store} {now : Time} {pairs : GoMap Bytes} (nonempty : pairs ≠ ∅)
    (vacant : s.anyLive now (sortedElems pairs.keys) = false) (oracle : Oracle) (tick : Nat) :
    let prices := (pairsIn pairs (rangeOrder oracle tick pairs.keys)).map fun pair =>
      estimateMem pair.1 (Keyspace.plain pair.2)
    0 < prices.sum
      ∧ prices.sum = Keyspace.price (s.live now) (pairsIn pairs (sortedElems pairs.keys)) := by
  rw [← price_rangeOrder _ oracle tick]
  constructor
  · refine List.sum_pos _ (fun n listed => ?_) fun none => nonempty ?_
    · obtain ⟨pair, -, rfl⟩ := List.mem_map.mp listed
      exact estimateMem_pos _ _
    · refine Finmap.ext_lookup fun key => ?_
      rw [Finmap.lookup_empty]
      cases found : pairs.lookup key with
      | none => rfl
      | some val =>
        have listed : (key, val) ∈ pairsIn pairs (rangeOrder oracle tick pairs.keys) :=
          List.mem_filterMap.mpr ⟨key, mem_rangeOrder.mpr (Finmap.mem_keys.mpr
            (Finmap.mem_iff.mpr ⟨val, found⟩)), by rw [found]; rfl⟩
        rw [List.map_eq_nil_iff.mp none] at listed
        cases listed
  · refine congrArg List.sum (List.map_congr_left fun pair listed => ?_)
    have key := (pairsIn_keys pairs _).subset (List.mem_map_of_mem listed)
    rw [anyLive_eq, List.any_eq_false] at vacant
    have absent := vacant pair.1 (mem_sortedElems.mpr (mem_rangeOrder.mp key))
    rw [Bool.not_eq_true, Option.isSome_eq_false_iff, Option.isNone_iff_eq_none] at absent
    have growth : (KeyOp.set pair.1 pair.2 0 .missing).growth
        = estimateMem pair.1 (Keyspace.plain pair.2) := sub_zero _
    rw [absent, KeyOp.adds, Look.ofLive, growth, max_eq_right (estimateMem_pos _ _).le]

theorem mSetNX_fits (pairs : GoMap Bytes)
    (room : s.HasRoom (Keyspace.price (s.live now) (pairsIn pairs (sortedElems pairs.keys)))) :
    (s.mSetNX now pairs).1.live now
        = (if pairs = ∅ ∨ s.anyLive now (sortedElems pairs.keys) = false
          then Keyspace.putAll pairs (s.live now) else s.live now)
      ∧ (s.mSetNX now pairs).2
        = .ok (decide (pairs = ∅ ∨ s.anyLive now (sortedElems pairs.keys) = false)) := by
  unfold mSetNX
  split
  · next empty =>
    subst empty
    exact ⟨(if_pos (.inl rfl)).symm, by simp⟩
  · next nonempty =>
    split
    · next taken => simp [nonempty, taken]
    · next vacant =>
      have vacant' := Bool.eq_false_iff.mpr vacant
      rw [if_pos (.inr vacant'), decide_eq_true (.inr vacant')]
      obtain ⟨asks, priced⟩ := price_vacant nonempty vacant' s.oracle s.tick
      rw [← priced] at room
      simp only [drawRange]
      generalize pairsIn pairs (rangeOrder s.oracle s.tick pairs.keys) = order at asks room
      obtain ⟨sameLive, -⟩ := priceNew_live now order (s.drawn (s.tick + 1) s.evictCursor) 0
      have delta := priceNew_delta now order (s.drawn (s.tick + 1) s.evictCursor) 0
      have spare := (hasRoom_purgeable _).priceAll
        ((hasRoom_purgeable _).drawn room (s.tick + 1) s.evictCursor) now order 0
      generalize order.foldl (priceNew now) (s.drawn (s.tick + 1) s.evictCursor, 0) = state at *
      have still : state.1.anyLive now (sortedElems pairs.keys) = false := by
        rw [anyLive_eq, sameLive]
        exact (anyLive_eq s now _).symm.trans vacant'
      rw [zero_add] at delta
      rw [← delta] at asks spare
      simp only [evictUntilFits_fits asks spare, still, Bool.false_eq_true, if_false]
      rw [installNew_live, Keyspace.putEach_all _ _ fun _ => mem_rangeOrder]
      exact ⟨congrArg _ sameLive, trivial⟩

theorem mSetNX_maxMem (pairs : GoMap Bytes) : (s.mSetNX now pairs).1.maxMem = s.maxMem :=
  (maxMem_closed s.maxMem).mSetNX rfl now pairs

/-! ## Renaming -/

theorem moveEntry_live {s : Store} {now : Time} {src dst : Key} {e : Entry} (different : src ≠ dst)
    (found : s.live now src = some e) :
    (s.moveEntry src dst e).live now = Keyspace.move src dst (s.live now) := by
  have fresh : alive now (some e) = some e := by
    rw [← found, alive_live]
  unfold Keyspace.move
  rw [if_neg different, found]
  unfold moveEntry
  rw [live_replaceEntry]
  simp only
  rw [show cloneEntryForRename e = e from rfl, fresh]
  funext key
  by_cases atDst : key = dst
  · rw [atDst, Function.update_self, Function.update_self]
  · rw [Function.update_of_ne atDst, Function.update_of_ne atDst]
    unfold live
    rw [stored_dropSource, stored_clearDestination, if_neg atDst]
    by_cases atSrc : key = src
    · rw [if_pos atSrc, atSrc, Function.update_self]
      rfl
    · rw [if_neg atSrc, Function.update_of_ne atSrc]

theorem moveEntry_maxMem (src dst : Key) (e : Entry) :
    (s.moveEntry src dst e).maxMem = s.maxMem := by
  unfold moveEntry
  rw [replaceEntry_maxMem, dropSource, addMem_maxMem]
  simp only [modifyShard, clearDestination]
  split
  · exact purgeEntryLocked_maxMem s _ dst _
  · rfl

theorem rename_live (src dst : Key) :
    (s.rename now src dst).1.live now = Keyspace.move src dst (s.live now)
      ∧ (s.rename now src dst).1.maxMem = s.maxMem := by
  unfold rename
  by_cases same : src = dst
  · rw [if_pos same]
    unfold Keyspace.move
    rw [if_pos same]
    exact ⟨rfl, rfl⟩
  · rw [if_neg same]
    have current := s.lookup_current now src
    split
    · next e found =>
      rw [found] at current
      exact ⟨moveEntry_live same current.symm, moveEntry_maxMem s src dst e⟩
    · next notLive =>
      refine ⟨(live_purgeExpired s now src).trans ?_, purgeExpired_maxMem _ _ _⟩
      unfold Keyspace.move
      rw [if_neg same, live_eq_none notLive]

theorem renameNX_live (src dst : Key) :
    ∃ moved, (s.renameNX now src dst).2 = .ok moved
      ∧ (s.renameNX now src dst).1.live now
        = (if moved then Keyspace.move src dst (s.live now) else s.live now)
      ∧ (s.renameNX now src dst).1.maxMem = s.maxMem := by
  unfold renameNX
  by_cases same : src = dst
  · rw [if_pos same]
    refine ⟨true, rfl, ?_, rfl⟩
    rw [if_pos rfl]
    unfold Keyspace.move
    rw [if_pos same]
  · rw [if_neg same]
    have current := s.lookup_current now src
    split
    · next e found =>
      rw [found] at current
      split
      · exact ⟨false, rfl, rfl, rfl⟩
      · exact ⟨true, rfl, moveEntry_live same current.symm, moveEntry_maxMem s src dst e⟩
    · exact ⟨false, rfl, live_purgeExpired s now src, purgeExpired_maxMem _ _ _⟩

/-! ## Flushing -/

theorem purgeKeys_m (si sj : Fin 256) (keys : List Key) (s : Store) (key : Key) :
    ((purgeKeys (fun _ => true) si s keys).shards sj).m.lookup key
      = if sj = si ∧ key ∈ keys then none else (s.shards sj).m.lookup key := by
  induction keys generalizing s with
  | nil => simp [purgeKeys]
  | cons first rest ih =>
    have step : ((purgeKeys (fun _ => true) si s [first]).shards sj).m.lookup key
        = if sj = si ∧ key = first then none else (s.shards sj).m.lookup key := by
      simp only [purgeKeys, List.foldl_cons, List.foldl_nil, if_true]
      split
      · rw [purgeEntryLocked_m]
        by_cases sameShard : sj = si
        · subst sameShard
          rw [if_pos rfl, lookup_erase_eq_ite]
          simp
        · rw [if_neg sameShard, if_neg (fun both => sameShard both.1)]
      · next absent =>
        split
        · next both => rw [both.1, both.2, absent]
        · rfl
    have split : purgeKeys (fun _ => true) si s (first :: rest)
        = purgeKeys (fun _ => true) si (purgeKeys (fun _ => true) si s [first]) rest := by
      simp only [purgeKeys, List.foldl_cons, List.foldl_nil]
    rw [split, ih, step]
    by_cases sameShard : sj = si
    · by_cases later : key ∈ rest
      · simp [sameShard, later]
      · by_cases here : key = first <;> simp [sameShard, later, here]
    · simp [sameShard]

theorem flushShard_m (si sj : Fin 256) (key : Key) :
    ((s.flushShard si).shards sj).m.lookup key
      = if sj = si then none else (s.shards sj).m.lookup key := by
  unfold flushShard drawRange
  simp only
  rw [purgeKeys_m, drawn_shards]
  by_cases sameShard : sj = si
  · subst sameShard
    rw [if_pos rfl]
    split
    · rfl
    · next absent =>
      rw [mem_rangeOrder, Finmap.mem_keys] at absent
      exact Finmap.lookup_eq_none.mpr fun member => absent ⟨rfl, member⟩
  · rw [if_neg sameShard, if_neg fun both => sameShard both.1]

theorem foldl_flushShard (indices : List (Fin 256)) (s : Store) (sj : Fin 256) (key : Key) :
    ((indices.foldl flushShard s).shards sj).m.lookup key
      = if sj ∈ indices then none else (s.shards sj).m.lookup key := by
  induction indices generalizing s with
  | nil => rfl
  | cons si rest ih =>
    refine (ih (s.flushShard si)).trans ?_
    rw [flushShard_m]
    by_cases here : sj = si <;> by_cases later : sj ∈ rest <;> simp [here, later]

theorem flushDB_m (si : Fin 256) (key : Key) : (s.flushDB.shards si).m.lookup key = none := by
  unfold flushDB clearWatch
  simp only
  rw [foldl_flushShard (List.finRange 256) s si key, if_pos (List.mem_finRange _)]

theorem flushDB_maxMem : s.flushDB.maxMem = s.maxMem :=
  (maxMem_closed s.maxMem).flushDB (fun _ => id) rfl

theorem flushDB_live : s.flushDB.live now = (fun _ => none) ∧ s.flushDB.maxMem = s.maxMem := by
  refine ⟨?_, flushDB_maxMem s⟩
  funext key
  unfold live stored
  rw [flushDB_m]
  rfl

end Store

end SuperCache
