import SuperCache.Lib.Machine
import SuperCache.Store.LiveMulti

/-! # Concurrent operations

Any number of single-key operations on one store, in critical sections.  An
operation runs in one section unless it has to make room: then it releases its
lock around each eviction, and other operations run in between.  A `Move` is one
critical section; a run of the pool is a list of moves.

The memory counter is read under the lock of one shard, while other shards may
be in the middle of an update; the outcome of the test is therefore left open,
and so is the choice of the victims within what the policy allows.
-/

namespace SuperCache

open Lib

structure Plan (ρ : Type) where
  found : Look
  old : Option Entry
  ne : Entry
  result : ρ
  retry : Retry ρ

/-- Where an operation stands; `evicted` says whether it has evicted a key since it
released its lock. -/
inductive Phase (ρ : Type) where
  | idle
  | evicting (plan : Plan ρ) (evicted : Bool)
  | returned (result : Except StoreErr ρ)

def Phase.isReturned {ρ : Type} : Phase ρ → Bool
  | .returned _ => true
  | _ => false

def Phase.result {ρ : Type} : Phase ρ → Option (Except StoreErr ρ)
  | .returned result => some result
  | _ => none

theorem Phase.result_eq_some {ρ : Type} {phase : Phase ρ} {result : Except StoreErr ρ} :
    phase.result = some result ↔ phase = .returned result := by
  cases phase <;> simp [Phase.result]

def Policy.mayEvict : Policy → Entry → Bool
  | .noeviction, _ => false
  | .allkeysLru, _ | .allkeysRandom, _ => true
  | .volatileLru, e | .volatileRandom, e | .volatileTtl, e => e.hasTTL

namespace Store

variable {ρ : Type}

/-- From the first lock to the return or the first unlock; `fits` is the outcome
of the memory test. -/
def start (s : Store) (now : Time) (key : Key) (op : KeyOp ρ) (fits : Bool) :
    Option (Store × Phase ρ) :=
  let found := s.lookup now key
  let entered := s.purgeExpired key found
  match op found with
  | .done touch commit =>
    let (t, result) := (entered.touch key touch found).commit key commit
    if fits then some (t, .returned result) else none
  | .ensure touch delta old ne result retry =>
    let touched := entered.touch key touch found
    if fits then
      let (t, result) := touched.resume now key false old ne result retry
      some (t, .returned result)
    else if touched.maxMem ≠ 0 ∧ 0 < delta then
      some (touched, .evicting { found, old, ne, result, retry } false)
    else none

/-- One successful `evictFromStore`. -/
def evictOne (s : Store) (avoidKey victim : Key) : Option Store :=
  match s.stored victim with
  | some e =>
    if avoided avoidKey victim = false ∧ s.policy.mayEvict e then
      some (s.purgeEntryLocked (s.route victim) victim e)
    else none
  | none => none

def finish (s : Store) (now : Time) (key : Key) (plan : Plan ρ) : Store × Phase ρ :=
  let (t, result) := s.resume now key true plan.old plan.ne plan.result plan.retry
  (t, .returned result)

end Store

structure Call (fl : FloatOps) where
  key : Key
  op : SingleOp fl

def Call.start {fl : FloatOps} (c : Call fl) (s : Store) (now : Time) (fits : Bool) :
    Option (Store × Phase c.op.Result) :=
  match c.op.early with
  | some result => if fits then some (s, .returned (.ok result)) else none
  | none => s.start now c.key (c.op.keyOp now c.key) fits

inductive Move (ι : Type) where
  | start (i : ι) (now : Time) (fits : Bool)
  | evict (i : ι) (victim : Key)
  | resume (i : ι) (now : Time)
  | refuse (i : ι)
deriving DecidableEq

def Move.actor {ι : Type} : Move ι → ι
  | .start i .. | .evict i _ | .resume i _ | .refuse i => i

def Move.evicted {ι : Type} : Move ι → Option Key
  | .evict _ victim => some victim
  | _ => none

section Pool

variable {ι : Type} {fl : FloatOps} {calls : ι → Call fl}

/-- The operations `calls` on one store. -/
structure Pool (calls : ι → Call fl) where
  store : Store
  clock : Time
  phase : ∀ i, Phase (calls i).op.Result

variable [DecidableEq ι]

def Pool.moved (pool : Pool calls) (store : Store) (now : Time) (i : ι)
    (phase : Phase (calls i).op.Result) : Pool calls where
  store := store
  clock := now
  phase := Function.update pool.phase i phase

/-- One critical section.  `refuse` is `ErrOOM`, when nothing could be evicted. -/
def Pool.step (pool : Pool calls) : Move ι → Option (Pool calls)
  | .start i now fits =>
    match pool.phase i with
    | .idle =>
      if pool.clock ≤ now then
        ((calls i).start pool.store now fits).map fun after =>
          pool.moved after.1 now i after.2
      else none
    | _ => none
  | .evict i victim =>
    match pool.phase i with
    | .evicting plan _ =>
      (pool.store.evictOne (calls i).key victim).map fun store =>
        pool.moved store pool.clock i (.evicting plan true)
    | _ => none
  | .resume i now =>
    match pool.phase i with
    | .evicting plan true =>
      if pool.clock ≤ now then
        let (store, phase) := pool.store.finish now (calls i).key plan
        some (pool.moved store now i phase)
      else none
    | _ => none
  | .refuse i =>
    match pool.phase i with
    | .evicting _ _ => some (pool.moved pool.store pool.clock i (.returned (.error .oom)))
    | _ => none

def Pool.Fresh (pool : Pool calls) : Prop :=
  ∀ i, pool.phase i = .idle

end Pool

end SuperCache
