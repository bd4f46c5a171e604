import SuperCache.Store.Eviction

/-! # Operations on one key

Every single-key operation of the store has one shape.  It takes the shard lock,
looks its key up and purges it if expired, decides, makes room for the bytes it
adds, and commits.  `KeyOp` is the decision, `Store.run` the shape around it.

Making room releases the lock (`ensureMemoryWithRetry`), so an operation says
what it does when it comes back: most keep the value computed before and only
re-read the entry to account for (`Retry.stored`); `Set`, `SetNX`, `SetXX` and
the creating branch of `Append` look again and decide again (`Retry.recheck`).
-/

namespace SuperCache

open Lib

/-- The errors of the package `store`.  `notInteger` carries the numeral that
`strconv.ParseInt` quotes in its message. -/
inductive StoreErr where
  | wrongType
  | oom
  | notInteger (numeral : Bytes)
  | overflow
  | notFloat
  | keyNotFound
  | listIndex
  | noSuchKey
  | nonPositive
  | unknownSnapshotType
deriving DecidableEq

inductive Look where
  | missing
  | expired (e : Entry)
  | live (e : Entry)

def look (now : Time) : Option Entry → Look
  | none => .missing
  | some e => if isExpired now e then .expired e else .live e

def Look.current : Look → Option Entry
  | .live e => some e
  | _ => none

/-- How a read moves its key in the LRU lists: not at all, by `touchLRU`, or by
the sampled touch of `Get`. -/
inductive Touch where
  | none
  | lru
  | read

inductive Commit (ρ : Type) where
  | keep (result : Except StoreErr ρ)
  | purge (e : Entry) (result : ρ)
  | replace (old : Option Entry) (ne : Entry) (result : ρ)

inductive Retry (ρ : Type) where
  | stored
  | recheck (purgeExpired : Bool) (decide : Look → Commit ρ)

inductive Action (ρ : Type) where
  | done (touch : Touch) (commit : Commit ρ)
  | ensure (touch : Touch) (delta : Int) (old : Option Entry) (ne : Entry) (result : ρ)
      (retry : Retry ρ)

abbrev KeyOp (ρ : Type) := Look → Action ρ

namespace Store

/-! ## Making room -/

/-- Whether a write of `delta` more bytes is over the limit.  The limit is a
`uint64` compared as an `int64`. -/
def overLimit (s : Store) (delta : Int) : Bool :=
  wrap64 s.maxMem < s.mem + delta

def size (s : Store) : Nat :=
  ((List.finRange 256).map fun si => (s.shards si).m.keys.card).sum

/-- Evict until `delta` more bytes fit.  The result is whether anything was
evicted; `error` is `ErrOOM`. -/
def evictLoop (avoidKey : Key) (delta : Int) : Nat → Bool → Store → Store × Except StoreErr Bool
  | 0, _, s => (s, .error .oom)
  | fuel + 1, evicted, s =>
    if s.overLimit delta then
      match s.evictFromStore avoidKey with
      | (s, true) => evictLoop avoidKey delta fuel true s
      | (s, false) => (s, .error .oom)
    else (s, .ok evicted)

def ensureMemoryWithRetry (s : Store) (key : Key) (delta : Int) : Store × Except StoreErr Bool :=
  if s.maxMem = 0 ∨ delta ≤ 0 then (s, .ok false)
  else evictLoop key delta (s.size + 1) false s

def evictUntilFits (s : Store) (delta : Int) : Store × Except StoreErr Bool :=
  if s.maxMem = 0 then (s, .ok false)
  else evictLoop [] delta (s.size + 1) false s

/-! ## The shape of an operation -/

def lookup (s : Store) (now : Time) (key : Key) : Look :=
  look now (s.stored key)

def purgeExpired (s : Store) (key : Key) : Look → Store
  | .expired e => s.purgeEntryLocked (s.route key) key e
  | _ => s

def touchLRU (s : Store) (key : Key) (e : Entry) : Store :=
  s.modifyShard (s.route key) fun sh => sh.touchLRU s.policy key e

/-- The touch of `Get`: always under an LRU policy, else one read in sixteen. -/
def touchRead (s : Store) (key : Key) (e : Entry) : Store :=
  if s.policy = .allkeysLru ∨ s.policy = .volatileLru then s.touchLRU key e
  else
    let ticked := { s with readLRUTick := (s.readLRUTick + 1) % 2 ^ 64 }
    if ticked.readLRUTick % 16 = 0 then ticked.touchLRU key e else ticked

def touch (s : Store) (key : Key) : Touch → Look → Store
  | .lru, .live e => s.touchLRU key e
  | .read, .live e => s.touchRead key e
  | _, _ => s

def commit {ρ : Type} (s : Store) (key : Key) : Commit ρ → Store × Except StoreErr ρ
  | .keep result => (s, result)
  | .purge e result => (s.purgeEntryLocked (s.route key) key e, .ok result)
  | .replace old ne result => (s.replaceEntry key old ne, .ok result)

def resume {ρ : Type} (s : Store) (now : Time) (key : Key) (evicted : Bool) (old : Option Entry)
    (ne : Entry) (result : ρ) (retry : Retry ρ) : Store × Except StoreErr ρ :=
  if evicted then
    match retry with
    | .stored => s.commit key (.replace (s.stored key) ne result)
    | .recheck purge decide =>
      let found := s.lookup now key
      (if purge then s.purgeExpired key found else s).commit key (decide found)
  else s.commit key (.replace old ne result)

def run {ρ : Type} (s : Store) (now : Time) (key : Key) (op : KeyOp ρ) :
    Store × Except StoreErr ρ :=
  let found := s.lookup now key
  let s := s.purgeExpired key found
  match op found with
  | .done touch commit => (s.touch key touch found).commit key commit
  | .ensure touch delta old ne result retry =>
    match (s.touch key touch found).ensureMemoryWithRetry key delta with
    | (s, .error failure) => (s, .error failure)
    | (s, .ok evicted) => s.resume now key evicted old ne result retry

/-! ## Eviction, whole -/

inductive Evictions (avoidKey : Key) : Store → Store → Prop
  | refl (s : Store) : Evictions avoidKey s s
  | draw {s t : Store} (tick cursor : Nat) (rest : Evictions avoidKey (s.drawn tick cursor) t) :
      Evictions avoidKey s t
  | purge {s t : Store} (si : Fin 256) (victim : Key) (e : Entry)
      (found : (s.shards si).m.lookup victim = some e)
      (spared : avoided avoidKey victim = false)
      (rest : Evictions avoidKey (s.purgeEntryLocked si victim e) t) : Evictions avoidKey s t

theorem evictLoop_evictions (avoidKey : Key) (delta : Int) (fuel : Nat) (evicted : Bool)
    (s : Store) : Evictions avoidKey s (evictLoop avoidKey delta fuel evicted s).1 := by
  induction fuel generalizing evicted s with
  | zero => exact .refl s
  | succ fuel ih =>
    simp only [evictLoop]
    split
    · have oneEviction := evictFromStore_evicted s avoidKey
      generalize s.evictFromStore avoidKey = outcome at oneEviction
      cases oneEviction with
      | nothing tick cursor => exact .draw tick cursor (.refl _)
      | purged tick cursor si victim e found spared =>
        exact .draw tick cursor (.purge si victim e found spared (ih true _))
    · exact .refl s

variable {s t : Store} {avoidKey key : Key} {delta : Int} {evicted : Bool} {fuel : Nat}

theorem evictLoop_ok {result : Bool}
    (fits : evictLoop avoidKey delta fuel evicted s = (t, .ok result)) :
    t.overLimit delta = false ∧ (result = false → t = s ∧ evicted = false) := by
  induction fuel generalizing evicted s with
  | zero => simp [evictLoop] at fits
  | succ fuel ih =>
    simp only [evictLoop] at fits
    split at fits
    · split at fits
      · obtain ⟨fitsNow, reported⟩ := ih fits
        exact ⟨fitsNow, fun unreported => absurd (reported unreported).2 (by decide)⟩
      · simp at fits
    · next withinLimit =>
      simp only [Prod.mk.injEq, Except.ok.injEq] at fits
      obtain ⟨rfl, rfl⟩ := fits
      exact ⟨Bool.eq_false_iff.mpr withinLimit, fun unreported => ⟨rfl, unreported⟩⟩

theorem evictLoop_error {failure : StoreErr}
    (failed : evictLoop avoidKey delta fuel evicted s = (t, .error failure)) : failure = .oom := by
  induction fuel generalizing evicted s with
  | zero =>
    simp only [evictLoop, Prod.mk.injEq, Except.error.injEq] at failed
    exact failed.2.symm
  | succ fuel ih =>
    simp only [evictLoop] at failed
    split at failed
    · split at failed
      · exact ih failed
      · simp only [Prod.mk.injEq, Except.error.injEq] at failed
        exact failed.2.symm
    · simp at failed

theorem evictLoop_noeviction {result : Bool} (policy : s.policy = .noeviction)
    (fits : evictLoop avoidKey delta fuel evicted s = (t, .ok result)) : result = evicted := by
  cases fuel with
  | zero => simp [evictLoop] at fits
  | succ fuel =>
    simp only [evictLoop, evictFromStore, policy] at fits
    split at fits
    · simp at fits
    · simp only [Prod.mk.injEq, Except.ok.injEq] at fits
      exact fits.2.symm

/-- What a successful `ensureMemoryWithRetry` has done and established. -/
structure Room (key : Key) (delta : Int) (s t : Store) (evicted : Bool) : Prop where
  evictions : Evictions key s t
  unchanged : evicted = false → t = s
  fits : s.maxMem ≠ 0 → 0 < delta → t.overLimit delta = false
  policy : evicted = true → s.policy ≠ .noeviction
  limited : evicted = true → s.maxMem ≠ 0

theorem ensureMemoryWithRetry_ok (succeeded : s.ensureMemoryWithRetry key delta = (t, .ok evicted)) :
    Room key delta s t evicted := by
  unfold ensureMemoryWithRetry at succeeded
  split at succeeded
  · next skipped =>
    simp only [Prod.mk.injEq, Except.ok.injEq] at succeeded
    obtain ⟨rfl, rfl⟩ := succeeded
    refine ⟨.refl s, fun _ => rfl, fun limited grows => ?_, by simp, by simp⟩
    exact absurd skipped (by omega)
  · next needed =>
    have evictions := evictLoop_evictions key delta (s.size + 1) false s
    rw [succeeded] at evictions
    obtain ⟨fits, unchanged⟩ := evictLoop_ok succeeded
    refine ⟨evictions, fun quiet => (unchanged quiet).1, fun _ _ => fits, ?_, ?_⟩
    · intro reported policy
      rw [evictLoop_noeviction policy succeeded] at reported
      cases reported
    · intro _ unlimited
      exact needed (.inl unlimited)

theorem ensureMemoryWithRetry_error {failure : StoreErr}
    (failed : s.ensureMemoryWithRetry key delta = (t, .error failure)) :
    failure = .oom ∧ s.maxMem ≠ 0 ∧ 0 < delta ∧ Evictions key s t := by
  unfold ensureMemoryWithRetry at failed
  split at failed
  · simp at failed
  · next needed =>
    have evictions := evictLoop_evictions key delta (s.size + 1) false s
    rw [failed] at evictions
    exact ⟨evictLoop_error failed, fun unlimited => needed (.inl unlimited), by omega, evictions⟩

theorem Evictions.policy (evictions : Evictions avoidKey s t) : t.policy = s.policy := by
  induction evictions with
  | refl s => rfl
  | draw tick cursor rest ih => rw [ih, drawn_policy]
  | purge si victim e found spared rest ih =>
    rw [ih, purgeEntryLocked_policy]

theorem Evictions.maxMem (evictions : Evictions avoidKey s t) : t.maxMem = s.maxMem := by
  induction evictions with
  | refl s => rfl
  | draw tick cursor rest ih => rw [ih, drawn_maxMem]
  | purge si victim e found spared rest ih =>
    rw [ih, purgeEntryLocked_maxMem]

theorem Evictions.stored (evictions : Evictions avoidKey s t) (key : Key) :
    t.stored key = s.stored key ∨ t.stored key = none := by
  induction evictions with
  | refl s => exact .inl rfl
  | draw tick cursor rest ih => exact ih
  | purge si victim e found spared rest ih =>
    rw [stored_purgeEntryLocked] at ih
    split at ih
    · exact .inr (ih.elim id id)
    · exact ih

theorem Evictions.stored_avoided (evictions : Evictions avoidKey s t) (nonempty : avoidKey ≠ []) :
    t.stored avoidKey = s.stored avoidKey := by
  induction evictions with
  | refl s => rfl
  | draw tick cursor rest ih => exact ih
  | purge si victim e found spared rest ih =>
    rw [ih, stored_purgeEntryLocked, if_neg]
    rintro ⟨rfl, -⟩
    simp [avoided, nonempty] at spared

/-! ## Small facts about the shape -/

@[simp] theorem touchLRU_m (s : Store) (key : Key) (e : Entry) (si : Fin 256) :
    ((s.touchLRU key e).shards si).m = (s.shards si).m := by
  simp only [touchLRU, modifyShard, Function.update_apply]
  split
  · next same => rw [Shard.touchLRU_m, same]
  · rfl

theorem touch_frame (s : Store) (key : Key) (kind : Touch) (found : Look) :
    (∀ si, ((s.touch key kind found).shards si).m = (s.shards si).m)
      ∧ (s.touch key kind found).mem = s.mem
      ∧ (s.touch key kind found).maxMem = s.maxMem
      ∧ (s.touch key kind found).policy = s.policy := by
  have moved (ticked : Store) (e : Entry) :
      (∀ si, ((ticked.touchLRU key e).shards si).m = (ticked.shards si).m)
        ∧ (ticked.touchLRU key e).mem = ticked.mem
        ∧ (ticked.touchLRU key e).maxMem = ticked.maxMem
        ∧ (ticked.touchLRU key e).policy = ticked.policy :=
    ⟨touchLRU_m ticked key e, rfl, rfl, rfl⟩
  unfold touch
  split
  · exact moved s _
  · next e =>
    unfold touchRead
    split
    · exact moved s e
    · simp only
      split
      · exact moved _ e
      · exact ⟨fun _ => rfl, rfl, rfl, rfl⟩
  · exact ⟨fun _ => rfl, rfl, rfl, rfl⟩

@[simp] theorem touch_route (s : Store) (key : Key) (kind : Touch) (found : Look) :
    (s.touch key kind found).route = s.route := by
  unfold touch
  split
  · rfl
  · unfold touchRead
    split
    · rfl
    · simp only
      split <;> rfl
  · rfl

@[simp] theorem stored_touch (s : Store) (key other : Key) (kind : Touch) (found : Look) :
    (s.touch key kind found).stored other = s.stored other := by
  unfold stored
  rw [(touch_frame s key kind found).1, touch_route]

@[simp] theorem purgeExpired_maxMem (s : Store) (key : Key) (found : Look) :
    (s.purgeExpired key found).maxMem = s.maxMem := by
  cases found with
  | expired e => exact purgeEntryLocked_maxMem s _ key e
  | missing => rfl
  | live e => rfl

@[simp] theorem purgeExpired_policy (s : Store) (key : Key) (found : Look) :
    (s.purgeExpired key found).policy = s.policy := by
  cases found with
  | expired e => exact purgeEntryLocked_policy s _ key e
  | missing => rfl
  | live e => rfl

theorem lookup_cases (s : Store) (now : Time) (key : Key) :
    (s.lookup now key = .missing ∧ s.stored key = none)
      ∨ (∃ e, s.lookup now key = .expired e ∧ s.stored key = some e ∧ isExpired now e = true)
      ∨ ∃ e, s.lookup now key = .live e ∧ s.stored key = some e ∧ isExpired now e = false := by
  unfold lookup look
  cases s.stored key with
  | none => exact .inl ⟨rfl, rfl⟩
  | some e =>
    cases expiry : isExpired now e with
    | true => exact .inr (.inl ⟨e, by simp [expiry], rfl, expiry⟩)
    | false => exact .inr (.inr ⟨e, by simp [expiry], rfl, expiry⟩)

theorem lookup_live {now : Time} {e : Entry} (found : s.lookup now key = .live e) :
    s.stored key = some e ∧ isExpired now e = false := by
  obtain ⟨other, -⟩ | ⟨e', other, -⟩ | ⟨e', other, stored, fresh⟩ := s.lookup_cases now key
  · cases found.symm.trans other
  · cases found.symm.trans other
  · cases found.symm.trans other
    exact ⟨stored, fresh⟩

theorem stored_purgeExpired (s : Store) (now : Time) (key other : Key) :
    (s.purgeExpired key (s.lookup now key)).stored other
      = if other = key then (s.lookup now key).current else s.stored other := by
  obtain ⟨found, stored⟩ | ⟨e, found, stored, -⟩ | ⟨e, found, stored, -⟩ := s.lookup_cases now key
  · rw [found]
    simp only [purgeExpired, Look.current]
    split
    · next same => rw [same, stored]
    · rfl
  · rw [found]
    simp only [purgeExpired, Look.current, stored_purgeOwn]
  · rw [found]
    simp only [purgeExpired, Look.current]
    split
    · next same => rw [same, stored]
    · rfl

theorem stored_purgeExpired_self (s : Store) (now : Time) (key : Key) :
    (s.purgeExpired key (s.lookup now key)).stored key = (s.lookup now key).current := by
  rw [stored_purgeExpired, if_pos rfl]

end Store

end SuperCache
