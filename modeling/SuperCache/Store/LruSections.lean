import SuperCache.Store.LruLists

/-! # The LRU lists under interleaved operations

Any number of calls on one store, cut where they release the locks of their shards
to make room.  In between, other calls run, keys are evicted and expire, and the
configuration changes.  The four structures of every shard stay in step
(`Store.Listed`) as long as no `Append` that came back to create its key finds an
expired entry there that a list still has: that entry is neither purged nor named
as the old one.
-/

namespace SuperCache

open Lib

/-- The calls that are cut into sections.  `Del`, `Exists`, `MGet`, `MSet`, `Expire`, `FlushDB`,
the expiry worker and `ApplySnapshot` make such calls one after another. -/
inductive LruCall (fl : FloatOps) where
  | single (key : Key) (op : SingleOp fl)
  | del (key : Key)
  | exists' (key : Key)
  | mSetNX (pairs : GoMap Bytes)
  | rename (src dst : Key)
  | renameNX (src dst : Key)
  | flushShard (si : Fin 256)
  | sampleOnceShard (si : Fin 256)
  | applySnapshotEntry (ent : SnapshotEntry)

/-- Where a call stands.  One that makes room remembers when it began and what it
found under its key. -/
inductive LruPhase where
  | idle
  | evicting (began : Time) (found : Look)
  | returned

namespace LruCall

variable {fl : FloatOps}

def rowEntry (began : Time) (ent : SnapshotEntry) (value : Value) : Entry :=
  { value := value, expiresAt := Store.snapshotExpiry began ent }

/-- The first section; `fits` is the outcome of the memory test. -/
def first (s : Store) (now : Time) (fits : Bool) : LruCall fl → Option (Store × LruPhase)
  | .single key op =>
    (Call.start { key, op } s now fits).map fun after =>
      (after.1, match after.2 with
        | .evicting plan _ => .evicting now plan.found
        | _ => .returned)
  | .del key => some ((s.run now key KeyOp.del).1, .returned)
  | .exists' key => some ((s.run now key KeyOp.exists1).1, .returned)
  | .mSetNX pairs =>
    if pairs = ∅ ∨ s.anyLive now (sortedElems pairs.keys) = true then some (s, .returned)
    else
      -- the locks are released whether or not the pairs fit
      let (s, order) := s.drawRange pairs.keys
      some (((Store.pairsIn pairs order).foldl (Store.priceNew now) (s, 0)).1, .evicting now .missing)
  | .rename src dst => some ((s.rename now src dst).1, .returned)
  | .renameNX src dst => some ((s.renameNX now src dst).1, .returned)
  | .flushShard si => some (s.flushShard si, .returned)
  | .sampleOnceShard si => some ((s.sampleOnceShard now si).1, .returned)
  | .applySnapshotEntry ent =>
    match Store.snapshotValue ent.value with
    | none => some (s, .returned)
    | some value =>
      if fits then
        some (s.replaceEntry ent.key (s.stored ent.key) (rowEntry now ent value), .returned)
      else some (s, .evicting now .missing)

def again (s : Store) (now began : Time) (found : Look) : LruCall fl → Store
  | .single key op =>
    match op.keyOp began key found with
    | .ensure _ _ old ne result retry => (s.resume now key true old ne result retry).1
    | .done .. => s
  | .mSetNX pairs =>
    if s.anyLive now (sortedElems pairs.keys) then s
    else
      let (s, order) := s.drawRange pairs.keys
      (Store.pairsIn pairs order).foldl (Store.installNew now) s
  | .applySnapshotEntry ent =>
    match Store.snapshotValue ent.value with
    | none => s
    | some value => s.replaceEntry ent.key (s.stored ent.key) (rowEntry began ent value)
  | _ => s

/-- The call decides again without a purge of its own: only the branch of `Append` that
creates the key does. -/
def unpurged (began : Time) (found : Look) : LruCall fl → Option Key
  | .single key op =>
    match op.keyOp began key found with
    | .ensure _ _ _ _ _ (.recheck false _) => some key
    | _ => none
  | _ => none

end LruCall

def Store.expiredListed (s : Store) (now : Time) (key : Key) : Bool :=
  match s.lookup now key with
  | .expired _ =>
    key ∈ (s.shards (s.route key)).all.keys ∨ key ∈ (s.shards (s.route key)).vol.keys
  | _ => false

structure LruWorld {fl : FloatOps} {ι : Type} (calls : ι → LruCall fl) where
  store : Store
  phase : ι → LruPhase

/-- `evict` is one eviction by any call that makes room, whatever the policy. -/
inductive LruMove (ι : Type) where
  | first (i : ι) (now : Time) (fits : Bool)
  | evict (victim : Key)
  | again (i : ι) (now : Time)
  | refuse (i : ι)
  | replaceConfig (policy : Policy) (maxMem : Nat)

namespace LruWorld

variable {fl : FloatOps} {ι : Type} {calls : ι → LruCall fl} [DecidableEq ι]

def start (calls : ι → LruCall fl) (policy : Policy) (maxMem : Nat) (oracle : Oracle) :
    LruWorld calls where
  store := newStore policy maxMem oracle
  phase := fun _ => .idle

def step (w : LruWorld calls) : LruMove ι → Option (LruWorld calls)
  | .first i now fits =>
    match w.phase i with
    | .idle => ((calls i).first w.store now fits).map fun after =>
        { store := after.1, phase := Function.update w.phase i after.2 }
    | _ => none
  | .evict victim =>
    match w.store.stored victim with
    | some e => some { w with store := w.store.purgeEntryLocked (w.store.route victim) victim e }
    | none => none
  | .again i now =>
    match w.phase i with
    | .evicting began found =>
      some { store := (calls i).again w.store now began found
             phase := Function.update w.phase i .returned }
    | _ => none
  | .refuse i =>
    match w.phase i with
    | .evicting .. => some { w with phase := Function.update w.phase i .returned }
    | _ => none
  | .replaceConfig policy maxMem => some { w with store := { w.store with policy, maxMem } }

def heeds (w : LruWorld calls) : LruMove ι → Bool
  | .again i now =>
    match w.phase i with
    | .evicting began found =>
      ((calls i).unpurged began found).all fun key => !w.store.expiredListed now key
    | _ => true
  | _ => true

end LruWorld

/-! ## Each section -/

theorem Store.Listed.commit {ρ : Type} {s : Store} {key : Key} (listed : s.Listed)
    (absent : key ∉ (s.shards (s.route key)).all.keys ∧ key ∉ (s.shards (s.route key)).vol.keys)
    (commit : Commit ρ) : (s.commit key commit).1.Listed := by
  cases commit with
  | keep result => exact listed
  | purge e result => exact listed.purge _ key e
  | replace old ne result => exact listed.write ne fun _ => absent

namespace LruCall

variable {fl : FloatOps} {s t : Store} {now began : Time} {found : Look}

theorem first_listed (listed : s.Listed) (c : LruCall fl) {fits : Bool} {phase : LruPhase}
    (begins : c.first s now fits = some (t, phase)) : t.Listed := by
  have stable := Store.stable_listed
  cases c with
  | single key op =>
    obtain ⟨⟨t, after⟩, starts, ⟨⟩⟩ := Option.map_eq_some_iff.mp begins
    unfold Call.start at starts
    split at starts
    · obtain ⟨-, ⟨⟩⟩ := Option.ite_none_right_eq_some.mp starts
      exact listed
    · exact stable.start listed (op.keyOp_honest now key) starts
  | del key =>
    cases begins
    exact stable.run listed now key Store.Stable.del_honest
  | exists' key =>
    cases begins
    exact stable.run listed now key Store.Stable.exists1_honest
  | mSetNX pairs =>
    simp only [first] at begins
    split at begins <;> cases begins
    · exact listed
    · exact stable.closed.priceAll (stable.closed.drawn listed _ _) now _ 0
  | rename src dst =>
    cases begins
    exact stable.closed.rename listed now src dst
  | renameNX src dst =>
    cases begins
    exact stable.closed.renameNX listed now src dst
  | flushShard si =>
    cases begins
    exact stable.closed.flushShard listed si
  | sampleOnceShard si =>
    cases begins
    exact stable.closed.sampleOnceShard listed now si
  | applySnapshotEntry ent =>
    simp only [first] at begins
    split at begins
    · cases begins
      exact listed
    · split at begins <;> cases begins
      · exact stable.closed.write _ listed rfl
      · exact listed

theorem again_listed (listed : s.Listed) (c : LruCall fl)
    (heeds : (c.unpurged began found).all (fun key => !s.expiredListed now key) = true) :
    (c.again s now began found).Listed := by
  have stable := Store.stable_listed
  cases c with
  | single key op =>
    have honest := op.keyOp_honest began key found
    simp only [again]
    simp only [unpurged] at heeds
    split
    · next old ne result retry decision =>
      rw [decision] at honest heeds
      by_cases unpurged : ∃ decide e, retry = .recheck false decide ∧ s.lookup now key = .expired e
      · -- the expired entry is in no list, so nobody misses the old one
        obtain ⟨decide, e, rfl, expired⟩ := unpurged
        simp [Store.expiredListed, expired] at heeds
        exact listed.commit heeds _
      · refine stable.resume listed now ne result ?_ honest.2 fun _ decide same e expired => ?_
        · intro none
          cases none
        · exact unpurged ⟨decide, e, same, expired⟩
    · exact listed
  | mSetNX pairs =>
    simp only [again]
    split
    · exact listed
    · exact stable.closed.installAll (stable.closed.drawn listed _ _) now _
  | applySnapshotEntry ent =>
    simp only [again]
    split
    · exact listed
    · exact stable.closed.write _ listed rfl
  | _ => exact listed

end LruCall

/-! ## Whole runs -/

namespace LruWorld

variable {fl : FloatOps} {ι : Type} {calls : ι → LruCall fl} [DecidableEq ι]

theorem step_listed {w next : LruWorld calls} {move : LruMove ι} (listed : w.store.Listed)
    (heeds : w.heeds move = true) (stepped : w.step move = some next) : next.store.Listed := by
  revert stepped
  fun_cases step w move <;> intro stepped <;> try cases stepped
  · obtain ⟨⟨t, phase⟩, begins, rfl⟩ := Option.map_eq_some_iff.mp stepped
    exact (calls _).first_listed listed begins
  · exact listed.purge _ _ _
  · next i now began found evicting =>
    simp only [LruWorld.heeds, evicting] at heeds
    exact (calls i).again_listed listed heeds
  · exact listed
  · exact listed

/-- Whenever no shard is locked, the lists, their indexes and the pointers of the entries
agree. -/
theorem lru_lists_agree {policy : Policy} {maxMem : Nat} {oracle : Oracle}
    {moves : List (LruMove ι)} {final : LruWorld calls}
    (heeds : Machine.Guarded step (fun w move => w.heeds move = true)
      (start calls policy maxMem oracle) moves)
    (ran : Machine.run step (start calls policy maxMem oracle) moves = some final) :
    final.store.Listed := by
  have keeps (w : LruWorld calls) (move : LruMove ι) (next : LruWorld calls)
      (listed : w.store.Listed) (heeds : w.heeds move = true) (stepped : w.step move = some next) :
      next.store.Listed :=
    step_listed listed heeds stepped
  have listed := Machine.run_invariant keeps (Store.newStore_listed policy maxMem oracle) heeds ran
  exact listed

/-- `Append` creates `k` while another client sets it with a deadline. -/
def appendAndSet : Fin 3 → LruCall integerFloats
  | 0 => .single (ascii "a") (.set (List.replicate 100 0) 0)
  | 1 => .single (ascii "k") (.append (ascii "x"))
  | 2 => .single (ascii "k") (.set (ascii "v") 5)

/-- `Append` has to evict `a`; `k` appears meanwhile, and `Append` comes back at `later`. -/
def appendReturns (later : Time) : List (LruMove (Fin 3)) :=
  [.first 0 1 true, .first 1 2 false, .evict (ascii "a"), .first 2 3 true, .again 1 later]

/-- It comes back in time. -/
theorem append_in_time_agrees :
    ∃ final, Machine.run step (start appendAndSet .allkeysLru 300 sortedOracle) (appendReturns 4)
      = some final ∧ final.store.Listed :=
  ⟨_, Machine.ran (by decide +kernel), lru_lists_agree (by decide +kernel) (Machine.ran _)⟩

/-- It comes back when the other entry has expired, and leaves a new entry that does not
know its place in the list. -/
theorem append_late_disagrees :
    ∃ final, Machine.run step (start appendAndSet .allkeysLru 300 sortedOracle) (appendReturns 9)
      = some final ∧ ¬ final.store.Listed := by
  refine ⟨_, Machine.ran (by decide +kernel), fun agree => ?_⟩
  have owned := ((agree (shardIndex (ascii "k"))).all.owned (ascii "k") 0).mpr (by decide +kernel)
  exact absurd owned (by decide +kernel)

end LruWorld

end SuperCache
