import SuperCache.Store.Sections

/-! # One operation at a time

The sequential meaning of a pool: operations and evictions one after the other,
on the live keyspace (`Legal`).  A run of the pool is linearizable if such an
order gives its results and its contents and respects its real time.
-/

namespace SuperCache

open Lib

def Keyspace.prune (now : Time) (view : Keyspace) : Keyspace :=
  fun key => alive now (view key)

/-- The decision of an operation when it is alone, also of one that returns before
it takes the lock. -/
def Call.decision {fl : FloatOps} (c : Call fl) (now : Time) : KeyOp c.op.Result :=
  match c.op.early with
  | some result => fun _ => .done .none (.keep (.ok result))
  | none => c.op.keyOp now c.key

inductive Item (ι : Type) where
  | op (i : ι) (now : Time)
  | evict (victim : Key)

section Sequential

variable {ι : Type} {fl : FloatOps} (calls : ι → Call fl)

/-- The items one after the other, where the operations return `results`.  An
operation that wants to grow may be refused. -/
inductive Legal (results : ∀ i, Phase (calls i).op.Result) :
    Keyspace → List (Item ι) → Keyspace → Prop
  | nil (view : Keyspace) : Legal results view [] view
  | op {view final : Keyspace} {rest : List (Item ι)} (i : ι) (now : Time)
      (result : results i
        = .returned (((calls i).decision now).outcome (view.prune now (calls i).key)))
      (later : Legal results
        (Function.update (view.prune now) (calls i).key
          (((calls i).decision now).effect now (view.prune now (calls i).key))) rest final) :
      Legal results view (.op i now :: rest) final
  | refused {view final : Keyspace} {rest : List (Item ι)} (i : ι) (now : Time)
      (result : results i = .returned (.error .oom))
      (grows : 0 < ((calls i).decision now (.ofLive (view.prune now (calls i).key))).growth)
      (later : Legal results view rest final) : Legal results view (.op i now :: rest) final
  | evict {view final : Keyspace} {rest : List (Item ι)} (victim : Key)
      (later : Legal results (Function.update view victim none) rest final) :
      Legal results view (.evict victim :: rest) final

end Sequential

namespace Item

variable {ι : Type}

def isOp [DecidableEq ι] (i : ι) : Item ι → Bool
  | .op j _ => j = i
  | .evict _ => false

def instant : Item ι → Option Time
  | .op _ now => some now
  | .evict _ => none

def evicted : Item ι → Option Key
  | .op .. => none
  | .evict victim => some victim

end Item

section Linearizable

variable {ι : Type} {fl : FloatOps} {calls : ι → Call fl} [DecidableEq ι]

/-- The critical section a move enters: whose it is and its instant. -/
def Move.entered {ι : Type} : Move ι → Option (ι × Time)
  | .start i now _ => some (i, now)
  | .resume i now => some (i, now)
  | .evict .. | .refuse _ => none

/-- Each operation stands at the instant of one of its sections in these moves. -/
def TakenFrom {ι : Type} (moves : List (Move ι)) (items : List (Item ι)) : Prop :=
  ∀ i now, .op i now ∈ items → ∃ move ∈ moves, move.entered = some (i, now)

/-- The order gives the results and the contents of the run, contains every
operation that returned once, in time, and the evictions in the order of the run.  At
every moment of the run it can be cut so that what had returned and what had been
evicted by then stands before the cut, what had not begun and what was evicted later
behind it, and each operation on the side of a section of its own, at its instant. -/
structure Linearizes (start final : Pool calls) (moves : List (Move ι)) (order : List (Item ι)) :
    Prop where
  legal : ∃ view, Legal calls final.phase (start.store.live start.clock) order view
    ∧ final.store.live final.clock = view.prune final.clock
  once : ∀ i, order.countP (Item.isOp i) = if (final.phase i).isReturned then 1 else 0
  instants : (order.filterMap Item.instant).Pairwise (· ≤ ·)
  evictions : order.filterMap Item.evicted = moves.filterMap Move.evicted
  realTime : ∀ before after mid, moves = before ++ after →
    Machine.run Pool.step start before = some mid →
    ∃ first second, order = first ++ second
      ∧ first.filterMap Item.evicted = before.filterMap Move.evicted
      ∧ TakenFrom before first ∧ TakenFrom after second
      ∧ (∀ i, (mid.phase i).isReturned = true → second.countP (Item.isOp i) = 0)
      ∧ ∀ i, mid.phase i = .idle → first.countP (Item.isOp i) = 0

def Linearizable (start final : Pool calls) (moves : List (Move ι)) : Prop :=
  ∃ order, Linearizes start final moves order

/-- An operation that does not look again after it made room finds its key as it
was when it released its lock. -/
def Plan.Undisturbed {ρ : Type} (plan : Plan ρ) (s : Store) (now : Time) (key : Key) : Prop :=
  match plan.retry with
  | .stored => (s.lookup now key).current = plan.found.current
  | .recheck _ _ => True

instance {ρ : Type} (plan : Plan ρ) (s : Store) (now : Time) (key : Key) :
    Decidable (plan.Undisturbed s now key) := by
  unfold Plan.Undisturbed
  split <;> infer_instance

def Phase.Undisturbed {ρ : Type} (s : Store) (now : Time) (key : Key) : Phase ρ → Prop
  | .evicting plan _ => plan.Undisturbed s now key
  | _ => True

instance {ρ : Type} (s : Store) (now : Time) (key : Key) (phase : Phase ρ) :
    Decidable (phase.Undisturbed s now key) := by
  unfold Phase.Undisturbed
  split <;> infer_instance

def Pool.Undisturbed (pool : Pool calls) : Move ι → Prop
  | .resume i now => (pool.phase i).Undisturbed pool.store now (calls i).key
  | _ => True

instance (pool : Pool calls) (move : Move ι) : Decidable (pool.Undisturbed move) := by
  unfold Pool.Undisturbed
  split <;> infer_instance

/-! ## One move -/

variable {pool next final : Pool calls} {i : ι}

variable {now : Time} {fits : Bool} {moves : List (Move ι)}

theorem Pool.step_start (stepped : pool.step (.start i now fits) = some next) :
    pool.phase i = .idle ∧ pool.clock ≤ now ∧ ∃ store phase,
      (calls i).start pool.store now fits = some (store, phase)
        ∧ next = pool.moved store now i phase := by
  simp only [Pool.step] at stepped
  split at stepped
  · next idle =>
    split at stepped
    · next later =>
      obtain ⟨⟨store, phase⟩, starts, rfl⟩ := Option.map_eq_some_iff.mp stepped
      exact ⟨idle, later, store, phase, starts, rfl⟩
    · cases stepped
  · cases stepped

theorem Pool.step_evict {victim : Key} (stepped : pool.step (.evict i victim) = some next) :
    ∃ plan evicted store, pool.phase i = .evicting plan evicted
      ∧ pool.store.evictOne (calls i).key victim = some store
      ∧ next = pool.moved store pool.clock i (.evicting plan true) := by
  simp only [Pool.step] at stepped
  split at stepped
  · next plan evicted parked =>
    obtain ⟨store, evicts, rfl⟩ := Option.map_eq_some_iff.mp stepped
    exact ⟨plan, evicted, store, parked, evicts, rfl⟩
  · cases stepped

theorem Pool.step_resume (stepped : pool.step (.resume i now) = some next) :
    pool.clock ≤ now ∧ ∃ plan, pool.phase i = .evicting plan true
      ∧ next = pool.moved (pool.store.finish now (calls i).key plan).1 now i
        (pool.store.finish now (calls i).key plan).2 := by
  simp only [Pool.step] at stepped
  split at stepped
  · next plan parked =>
    split at stepped <;> cases stepped
    next later => exact ⟨later, plan, parked, rfl⟩
  · cases stepped

theorem Pool.step_refuse (stepped : pool.step (.refuse i) = some next) :
    ∃ plan evicted, pool.phase i = .evicting plan evicted
      ∧ next = pool.moved pool.store pool.clock i (.returned (.error .oom)) := by
  simp only [Pool.step] at stepped
  split at stepped <;> cases stepped
  next plan evicted parked => exact ⟨plan, evicted, parked, rfl⟩

theorem Pool.moved_own (pool : Pool calls) (store : Store) (now : Time)
    (phase : Phase (calls i).op.Result) : (pool.moved store now i phase).phase i = phase :=
  Function.update_self ..

theorem Pool.moved_other (pool : Pool calls) (store : Store) (now : Time)
    (phase : Phase (calls i).op.Result) {j : ι} (other : j ≠ i) :
    (pool.moved store now i phase).phase j = pool.phase j :=
  Function.update_of_ne other ..

theorem Store.start_not_idle {ρ : Type} {s t : Store} {key : Key} {op : KeyOp ρ} {phase : Phase ρ}
    (starts : s.start now key op fits = some (t, phase)) : phase ≠ .idle := by
  rintro rfl
  revert starts
  fun_cases Store.start s now key op fits <;> simp

theorem Call.start_not_idle {c : Call fl} {s t : Store} {phase : Phase c.op.Result}
    (starts : c.start s now fits = some (t, phase)) : phase ≠ .idle := by
  unfold Call.start at starts
  split at starts
  · split at starts <;> cases starts
    nofun
  · exact Store.start_not_idle starts

/-- A move is made by an operation that has not returned; it has begun afterwards,
and no other operation has moved. -/
theorem Pool.step_phases {move : Move ι} (stepped : pool.step move = some next) :
    (pool.phase move.actor).isReturned = false ∧ next.phase move.actor ≠ .idle
      ∧ ∀ j, j ≠ move.actor → next.phase j = pool.phase j := by
  cases move with
  | start i now fits =>
    obtain ⟨idle, -, store, phase, starts, rfl⟩ := Pool.step_start stepped
    refine ⟨?_, ?_, fun j other => Pool.moved_other _ _ _ _ other⟩
    · simp only [Move.actor, idle, Phase.isReturned]
    · simp only [Move.actor, Pool.moved_own]
      exact Call.start_not_idle starts
  | evict i victim =>
    obtain ⟨plan, evicted, store, parked, -, rfl⟩ := Pool.step_evict stepped
    refine ⟨?_, ?_, fun j other => Pool.moved_other _ _ _ _ other⟩
    · simp only [Move.actor, parked, Phase.isReturned]
    · simp only [Move.actor, Pool.moved_own]
      nofun
  | resume i now =>
    obtain ⟨-, plan, parked, rfl⟩ := Pool.step_resume stepped
    refine ⟨?_, ?_, fun j other => Pool.moved_other _ _ _ _ other⟩
    · simp only [Move.actor, parked, Phase.isReturned]
    · simp only [Move.actor, Pool.moved_own, Store.finish]
      nofun
  | refuse i =>
    obtain ⟨plan, evicted, parked, rfl⟩ := Pool.step_refuse stepped
    refine ⟨?_, ?_, fun j other => Pool.moved_other _ _ _ _ other⟩
    · simp only [Move.actor, parked, Phase.isReturned]
    · simp only [Move.actor, Pool.moved_own]
      nofun

/-! ## Phases along a run -/

theorem Pool.returned_stays {result : Except StoreErr (calls i).op.Result}
    (returned : pool.phase i = .returned result)
    (ran : Machine.run Pool.step pool moves = some final) :
    final.phase i = .returned result ∧ ∀ move ∈ moves, move.actor ≠ i := by
  induction moves generalizing pool with
  | nil =>
    cases ran
    exact ⟨returned, nofun⟩
  | cons move rest ih =>
    obtain ⟨next, stepped, later⟩ := Machine.run_cons.mp ran
    obtain ⟨open_, -, others⟩ := Pool.step_phases stepped
    have other : move.actor ≠ i := by
      rintro rfl
      rw [returned] at open_
      cases open_
    obtain ⟨stays, idle⟩ := ih ((others i other.symm).trans returned) later
    exact ⟨stays, List.forall_mem_cons.mpr ⟨other, idle⟩⟩

theorem Pool.begun_stays (ran : Machine.run Pool.step pool moves = some final) :
    (pool.phase i ≠ .idle → final.phase i ≠ .idle)
      ∧ ∀ move ∈ moves, final.phase move.actor ≠ .idle := by
  induction moves generalizing pool i with
  | nil =>
    cases ran
    exact ⟨id, nofun⟩
  | cons move rest ih =>
    obtain ⟨next, stepped, later⟩ := Machine.run_cons.mp ran
    obtain ⟨-, begun, others⟩ := Pool.step_phases stepped
    have stays (j : ι) (begunBefore : next.phase j ≠ .idle) : final.phase j ≠ .idle :=
      (ih later).1 begunBefore
    constructor
    · intro begunBefore
      by_cases own : i = move.actor
      · subst own
        exact stays _ begun
      · exact stays i (by rwa [others i own])
    · exact List.forall_mem_cons.mpr ⟨stays _ begun, (ih later (i := i)).2⟩

theorem Pool.refused_returns (ran : Machine.run Pool.step pool moves = some final)
    (refused : .refuse i ∈ moves) : final.phase i = .returned (.error .oom) := by
  obtain ⟨before, after, rfl⟩ := List.append_of_mem refused
  obtain ⟨mid, -, later⟩ := Machine.run_append.mp ran
  obtain ⟨next, stepped, last⟩ := Machine.run_cons.mp later
  obtain ⟨plan, evicted, -, rfl⟩ := Pool.step_refuse stepped
  exact (Pool.returned_stays (Pool.moved_own ..) last).1

end Linearizable

end SuperCache
