import SuperCache.Store.Basic

/-! # Eviction

`evictFromStore` for the six policies and the two loops that call it until a
write fits.  `Evicted` says once what a call can do: it changes nothing but the
cursor and the draws, or it purges one stored key other than the avoided one.
Every later fact about eviction follows from that relation.
-/

namespace SuperCache

open Lib

/-! ## Draws -/

def sortedOracle : Oracle where
  intN := fun _ => 0
  range := fun _ keys => sortedElems keys

namespace Store

/-- The order in which a `range` over a map with these keys visits them. -/
def rangeOrder (oracle : Oracle) (tick : Nat) (keys : Finset Key) : List Key :=
  if (oracle.range tick keys).Nodup ∧ (oracle.range tick keys).toFinset = keys then
    oracle.range tick keys
  else sortedElems keys

theorem mem_rangeOrder {oracle : Oracle} {tick : Nat} {keys : Finset Key} {key : Key} :
    key ∈ rangeOrder oracle tick keys ↔ key ∈ keys := by
  unfold rangeOrder
  split
  · next enumeration => rw [← List.mem_toFinset, enumeration.2]
  · exact mem_sortedElems

theorem nodup_rangeOrder (oracle : Oracle) (tick : Nat) (keys : Finset Key) :
    (rangeOrder oracle tick keys).Nodup := by
  unfold rangeOrder
  split
  · next enumeration => exact enumeration.1
  · exact nodup_sortedElems keys

def drawn (s : Store) (tick cursor : Nat) : Store :=
  { s with tick := tick, evictCursor := cursor }

@[simp] theorem drawn_shards (s : Store) (tick cursor : Nat) :
    (s.drawn tick cursor).shards = s.shards :=
  rfl

@[simp] theorem drawn_maxMem (s : Store) (tick cursor : Nat) :
    (s.drawn tick cursor).maxMem = s.maxMem :=
  rfl

@[simp] theorem drawn_policy (s : Store) (tick cursor : Nat) :
    (s.drawn tick cursor).policy = s.policy :=
  rfl

/-- `rand.IntN(n)`. -/
def drawInt (s : Store) (n : Nat) : Store × Nat :=
  (s.drawn (s.tick + 1) s.evictCursor, s.oracle.intN s.tick % n)

def drawRange (s : Store) (keys : Finset Key) : Store × List Key :=
  (s.drawn (s.tick + 1) s.evictCursor, rangeOrder s.oracle s.tick keys)

/-- `evictCursor.Add(1) - 1`, a `uint32`, as a shard index. -/
def nextShard (s : Store) : Store × Fin 256 :=
  (s.drawn s.tick ((s.evictCursor + 1) % 2 ^ 32), shardOf s.evictCursor)

/-! ## Policies -/

/-- Whether the victim is the key the caller protects.  An empty `avoidKey`
protects nothing. -/
def avoided (avoidKey victim : Key) : Bool :=
  avoidKey ≠ [] ∧ victim = avoidKey

/-- The probe loop shared by `evictAllKeysLRU` and `evictVolatileLRU`: the back
of the next shard's list goes, if it is still stored and eligible. -/
def evictBack (listOf : Shard → LruList) (eligible : Entry → Bool) (avoidKey : Key) :
    Nat → Store → Store × Bool
  | 0, s => (s, false)
  | attempts + 1, s =>
    let (s, si) := s.nextShard
    match (listOf (s.shards si)).list.getLast? with
    | none => evictBack listOf eligible avoidKey attempts s
    | some (_, victim) =>
      if avoided avoidKey victim then evictBack listOf eligible avoidKey attempts s
      else
        match (s.shards si).m.lookup victim with
        | none => evictBack listOf eligible avoidKey attempts s
        | some e =>
          if eligible e then (s.purgeEntryLocked si victim e, true)
          else evictBack listOf eligible avoidKey attempts s

def evictAllKeysLRU (s : Store) (avoidKey : Key) : Store × Bool :=
  evictBack Shard.all (fun _ => true) avoidKey (numShards * 2) s

def evictVolatileLRU (s : Store) (avoidKey : Key) : Store × Bool :=
  evictBack Shard.vol Entry.hasTTL avoidKey (numShards * 2) s

/-- The tries of `evictRandom`; `pred` is constantly true for a nil predicate. -/
def evictRandomTries (pred : Entry → Bool) (avoidKey : Key) : Nat → Store → Store × Bool
  | 0, s => (s, false)
  | tries + 1, s =>
    let (s, shardDraw) := s.drawInt numShards
    let si := shardOf shardDraw
    let keys := (s.shards si).m.keys
    if keys = ∅ then evictRandomTries pred avoidKey tries s
    else
      let (s, order) := s.drawRange keys
      let cand := order.filter fun key => ((s.shards si).m.lookup key).any pred
      if cand = [] then evictRandomTries pred avoidKey tries s
      else
        let (s, index) := s.drawInt cand.length
        match cand[index]? with
        | none => evictRandomTries pred avoidKey tries s
        | some victim =>
          if avoided avoidKey victim then evictRandomTries pred avoidKey tries s
          else
            match (s.shards si).m.lookup victim with
            | none => evictRandomTries pred avoidKey tries s
            | some e => (s.purgeEntryLocked si victim e, true)

def evictRandom (s : Store) (pred : Entry → Bool) (avoidKey : Key) : Store × Bool :=
  evictRandomTries pred avoidKey (numShards * 8) s

/-- The candidate `evictVolatileTTL` keeps: its shard, key and deadline. -/
structure Soonest where
  si : Fin 256
  key : Key
  deadline : Time

def soonestOf (m : GoMap Entry) (si : Fin 256) (avoidKey : Key) (best : Option Soonest)
    (key : Key) : Option Soonest :=
  match m.lookup key with
  | none => best
  | some e =>
    if !e.hasTTL || avoided avoidKey key then best
    else
      match best with
      | none => some ⟨si, key, e.expiresAt⟩
      | some found => if e.expiresAt < found.deadline then some ⟨si, key, e.expiresAt⟩ else best

def scanShard (avoidKey : Key) (state : Store × Option Soonest) (si : Fin 256) :
    Store × Option Soonest :=
  let (s, order) := state.1.drawRange (state.1.shards si).m.keys
  (s, order.foldl (soonestOf (s.shards si).m si avoidKey) state.2)

def evictVolatileTTL (s : Store) (avoidKey : Key) : Store × Bool :=
  match (List.finRange 256).foldl (scanShard avoidKey) (s, none) with
  | (s, none) => (s, false)
  | (s, some best) =>
    match (s.shards best.si).m.lookup best.key with
    | none => (s, false)
    | some e => if e.hasTTL then (s.purgeEntryLocked best.si best.key e, true) else (s, false)

def evictFromStore (s : Store) (avoidKey : Key) : Store × Bool :=
  match s.policy with
  | .noeviction => (s, false)
  | .allkeysLru => s.evictAllKeysLRU avoidKey
  | .volatileLru => s.evictVolatileLRU avoidKey
  | .allkeysRandom => s.evictRandom (fun _ => true) avoidKey
  | .volatileRandom => s.evictRandom Entry.hasTTL avoidKey
  | .volatileTtl => s.evictVolatileTTL avoidKey

/-! ## What one eviction can do -/

/-- The outcomes of a call that protects `avoidKey`. -/
inductive Evicted (avoidKey : Key) (s : Store) : Store × Bool → Prop
  | nothing (tick cursor : Nat) : Evicted avoidKey s (s.drawn tick cursor, false)
  | purged (tick cursor : Nat) (si : Fin 256) (victim : Key) (e : Entry)
      (found : (s.shards si).m.lookup victim = some e)
      (spared : avoided avoidKey victim = false) :
      Evicted avoidKey s ((s.drawn tick cursor).purgeEntryLocked si victim e, true)

/-- The outcomes of a call that purges only a `chosen` key. -/
inductive EvictedBy (chosen : Fin 256 → Key → Entry → Prop) (s : Store) : Store × Bool → Prop
  | nothing (tick cursor : Nat) : EvictedBy chosen s (s.drawn tick cursor, false)
  | purged (tick cursor : Nat) (si : Fin 256) (victim : Key) (e : Entry)
      (found : (s.shards si).m.lookup victim = some e) (pick : chosen si victim e) :
      EvictedBy chosen s ((s.drawn tick cursor).purgeEntryLocked si victim e, true)

section EvictedBy

variable {chosen : Fin 256 → Key → Entry → Prop} {s : Store} {outcome : Store × Bool}

theorem EvictedBy.of_drawn {tick cursor : Nat}
    (evicted : EvictedBy chosen (s.drawn tick cursor) outcome) : EvictedBy chosen s outcome := by
  cases evicted with
  | nothing tick' cursor' => exact .nothing tick' cursor'
  | purged tick' cursor' si victim e found pick =>
    exact .purged tick' cursor' si victim e found pick

theorem EvictedBy.evicted {avoidKey : Key} (evicted : EvictedBy chosen s outcome)
    (spares : ∀ si victim e, chosen si victim e → avoided avoidKey victim = false) :
    Evicted avoidKey s outcome := by
  cases evicted with
  | nothing tick cursor => exact .nothing tick cursor
  | purged tick cursor si victim e found pick =>
    exact .purged tick cursor si victim e found (spares si victim e pick)

end EvictedBy

def AtBack (listOf : Shard → LruList) (eligible : Entry → Bool) (avoidKey : Key)
    (shards : Fin 256 → Shard) (si : Fin 256) (victim : Key) (e : Entry) : Prop :=
  (∃ element, (listOf (shards si)).list.getLast? = some (element, victim))
    ∧ avoided avoidKey victim = false ∧ eligible e = true

theorem evictBack_evicted (listOf : Shard → LruList) (eligible : Entry → Bool)
    (avoidKey : Key) (attempts : Nat) (s : Store) :
    EvictedBy (AtBack listOf eligible avoidKey s.shards) s
      (evictBack listOf eligible avoidKey attempts s) := by
  induction attempts generalizing s with
  | zero => exact .nothing s.tick s.evictCursor
  | succ attempts ih =>
    have again := (ih s.nextShard.1).of_drawn
    simp only [evictBack]
    split
    · exact again
    · next element victim back =>
      split
      · exact again
      · next spared =>
        split
        · exact again
        · next e found =>
          split
          · next fit =>
            exact .purged _ _ _ victim e found ⟨⟨element, back⟩, Bool.eq_false_iff.mpr spared, fit⟩
          · exact again

theorem evictRandomTries_evicted (pred : Entry → Bool) (avoidKey : Key) (tries : Nat)
    (s : Store) :
    EvictedBy (fun _ victim e => avoided avoidKey victim = false ∧ pred e = true) s
      (evictRandomTries pred avoidKey tries s) := by
  induction tries generalizing s with
  | zero => exact .nothing s.tick s.evictCursor
  | succ tries ih =>
    -- Every way to go round again starts from `s` after one, two or three draws.
    have again (tick cursor : Nat) := (ih (s.drawn tick cursor)).of_drawn
    simp only [evictRandomTries]
    split
    · exact again _ _
    · split
      · exact again _ _
      · split
        · exact again _ _
        · next victim drawn =>
          split
          · exact again _ _
          · next spared =>
            split
            · exact again _ _
            · next e found =>
              have eligible : ((s.shards (shardOf (s.drawInt numShards).2)).m.lookup victim).any pred
                  = true := (List.mem_filter.mp (List.mem_of_getElem? drawn)).2
              have stored : (s.shards (shardOf (s.drawInt numShards).2)).m.lookup victim = some e :=
                found
              rw [stored] at eligible
              exact .purged _ _ _ victim e found ⟨Bool.eq_false_iff.mpr spared, eligible⟩

/-! ## The earliest deadline -/

/-- The keys `evictVolatileTTL` chooses among. -/
def Mortal (shards : Fin 256 → Shard) (avoidKey : Key) (si : Fin 256) (key : Key) (e : Entry) :
    Prop :=
  (shards si).m.lookup key = some e ∧ e.hasTTL = true ∧ avoided avoidKey key = false

/-- The candidate after some keys have been seen: one of the choices, and none of those
seen has an earlier deadline. -/
structure Leads (shards : Fin 256 → Shard) (avoidKey : Key) (seen : Fin 256 → Key → Prop)
    (best : Option Soonest) : Prop where
  among : ∀ b ∈ best, ∃ e, Mortal shards avoidKey b.si b.key e ∧ e.expiresAt = b.deadline
  least : ∀ si key e, seen si key → Mortal shards avoidKey si key e →
    ∃ b ∈ best, b.deadline ≤ e.expiresAt

section Leads

variable {shards : Fin 256 → Shard} {avoidKey : Key} {seen seen' : Fin 256 → Key → Prop}
  {best : Option Soonest}

theorem Leads.mono (leads : Leads shards avoidKey seen best)
    (less : ∀ si key, seen' si key → seen si key) : Leads shards avoidKey seen' best :=
  ⟨leads.among, fun si key e old => leads.least si key e (less si key old)⟩

theorem Leads.soonestOf (leads : Leads shards avoidKey seen best) (si : Fin 256) (key : Key) :
    Leads shards avoidKey (fun sj other => seen sj other ∨ sj = si ∧ other = key)
      (soonestOf (shards si).m si avoidKey best key) := by
  obtain ⟨among, least⟩ := leads
  unfold Store.soonestOf
  cases stored : (shards si).m.lookup key with
  | none => constructor <;> grind [Mortal]
  | some e =>
    by_cases skipped : (!e.hasTTL || avoided avoidKey key) = true
    · simp only [skipped, if_true]
      constructor <;> grind [Mortal]
    · have mortal : Mortal shards avoidKey si key e := ⟨stored, by simpa using skipped⟩
      cases best with
      | none =>
        simp only [Option.mem_def, reduceCtorEq, false_and, exists_false] at least
        constructor <;> simp [skipped] <;> grind [Mortal]
      | some found =>
        simp only [Option.mem_def, Option.some.injEq, forall_eq', exists_eq_left'] at among least
        by_cases earlier : e.expiresAt < found.deadline <;> constructor <;>
          simp [skipped, earlier] <;> grind [Mortal]

theorem Leads.foldl_soonestOf (si : Fin 256) (order : List Key)
    (leads : Leads shards avoidKey seen best) :
    Leads shards avoidKey (fun sj other => seen sj other ∨ sj = si ∧ other ∈ order)
      (order.foldl (Store.soonestOf (shards si).m si avoidKey) best) := by
  induction order generalizing seen best with
  | nil => exact leads.mono fun _ _ => by simp
  | cons key rest ih =>
    refine (ih (leads.soonestOf si key)).mono fun sj other => ?_
    grind

end Leads

theorem foldl_scanShard (avoidKey : Key) (indices : List (Fin 256)) (s : Store)
    {seen : Fin 256 → Key → Prop} {best : Option Soonest} (leads : Leads s.shards avoidKey seen best) :
    ∃ tick cursor best',
      Leads s.shards avoidKey (fun si key => seen si key ∨ si ∈ indices ∧ key ∈ (s.shards si).m) best'
        ∧ indices.foldl (scanShard avoidKey) (s, best) = (s.drawn tick cursor, best') := by
  induction indices generalizing s seen best with
  | nil => exact ⟨s.tick, s.evictCursor, best, leads.mono fun _ _ => by simp, rfl⟩
  | cons si rest ih =>
    obtain ⟨tick, cursor, best', leads', equation⟩ := ih (s.drawn (s.tick + 1) s.evictCursor)
      (leads.foldl_soonestOf si (rangeOrder s.oracle s.tick (s.shards si).m.keys))
    refine ⟨tick, cursor, best', leads'.mono fun sj key => ?_, equation⟩
    simp only [mem_rangeOrder, Finmap.mem_keys, drawn_shards, List.mem_cons]
    rintro (old | ⟨rfl | later, member⟩)
    · exact .inl (.inl old)
    · exact .inl (.inr ⟨rfl, member⟩)
    · exact .inr ⟨later, member⟩

theorem evictVolatileTTL_evicted (s : Store) (avoidKey : Key) :
    EvictedBy (fun si victim e => Mortal s.shards avoidKey si victim e
        ∧ ∀ sj key other, Mortal s.shards avoidKey sj key other → e.expiresAt ≤ other.expiresAt) s
      (s.evictVolatileTTL avoidKey)
    ∧ ((s.evictVolatileTTL avoidKey).2 = false → ∀ si key e, ¬ Mortal s.shards avoidKey si key e) := by
  have nothingYet : Leads s.shards avoidKey (fun _ _ => False) none :=
    ⟨by simp, fun _ _ _ never => never.elim⟩
  obtain ⟨tick, cursor, best, ⟨among, least⟩, equation⟩ :=
    foldl_scanShard avoidKey (List.finRange 256) s nothingYet
  have seen {si : Fin 256} {key : Key} {e : Entry} (mortal : Mortal s.shards avoidKey si key e) :=
    least si key e (.inr ⟨List.mem_finRange si, Finmap.mem_of_lookup_eq_some mortal.1⟩) mortal
  unfold evictVolatileTTL
  rw [equation]
  cases best with
  | none =>
    refine ⟨.nothing tick cursor, fun _ si key e mortal => ?_⟩
    obtain ⟨_, ⟨⟩, -⟩ := seen mortal
  | some best =>
    obtain ⟨e, mortal, deadline⟩ := among best rfl
    simp only [drawn_shards, mortal.1, mortal.2.1, if_true]
    refine ⟨.purged tick cursor best.si best.key e mortal.1 ⟨mortal, fun sj key other theirs => ?_⟩,
      fun gaveUp => by cases gaveUp⟩
    obtain ⟨_, ⟨⟩, earliest⟩ := seen theirs
    rw [deadline]
    exact earliest

theorem evictFromStore_evicted (s : Store) (avoidKey : Key) :
    Evicted avoidKey s (s.evictFromStore avoidKey) := by
  unfold evictFromStore
  cases s.policy with
  | noeviction => exact .nothing s.tick s.evictCursor
  | allkeysLru | volatileLru =>
    exact (evictBack_evicted _ _ _ _ s).evicted fun _ _ _ pick => pick.2.1
  | allkeysRandom | volatileRandom =>
    exact (evictRandomTries_evicted _ _ _ s).evicted fun _ _ _ pick => pick.1
  | volatileTtl => exact (evictVolatileTTL_evicted s avoidKey).1.evicted fun _ _ _ pick => pick.1.2.2

end Store

end SuperCache
