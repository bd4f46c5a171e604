import SuperCache.Store.Linearize

/-! # Undisturbed runs are linearizable

Each operation takes effect in its last critical section, or in its first if it
is refused.  The sections in the order of the run, reduced to these points, are
a one-at-a-time order with the same results and contents, if every operation
that does not look again finds its key as it left it.
-/

namespace SuperCache

open Lib

variable {ι : Type} {fl : FloatOps} {calls : ι → Call fl} {pool next final : Pool calls} {i : ι}

/-! ## Calls -/

theorem Call.start_fits (c : Call fl) (s : Store) (now : Time) :
    ∃ t, c.start s now true
        = some (t, .returned ((c.decision now).outcome (s.live now c.key)))
      ∧ t.live now = Function.update (s.live now) c.key
        ((c.decision now).effect now (s.live now c.key)) := by
  unfold Call.start Call.decision
  cases c.op.early with
  | some result =>
    refine ⟨s, rfl, ?_⟩
    have kept : KeyOp.effect (fun _ => .done .none (.keep (.ok result))) now (s.live now c.key)
        = s.live now c.key := by
      have live := s.alive_live now c.key
      cases found : s.live now c.key with rw [found] at live
      | none => rfl
      | some e => exact live
    rw [kept, Function.update_eq_self]
  | none => exact Store.start_fits (c.op.keyOp_blind now c.key)

variable {now : Time}

theorem Call.start_parks {c : Call fl} {s t : Store} {phase : Phase c.op.Result}
    (parks : c.start s now false = some (t, phase)) :
    t.live now = s.live now
      ∧ 0 < (c.decision now (.ofLive (s.live now c.key))).growth
      ∧ ∃ plan, phase = .evicting plan false ∧ c.op.early = none ∧ ∃ kind delta,
        c.op.keyOp now c.key plan.found
          = .ensure kind delta plan.old plan.ne plan.result plan.retry := by
  unfold Call.start at parks
  unfold Call.decision
  cases early : c.op.early with rw [early] at parks
  | some result => cases parks
  | none =>
    obtain ⟨live, plan, kind, delta, rfl, grows, found, decision⟩ := Store.start_parks parks
    refine ⟨live, ?_, plan, rfl, rfl, kind, delta, decision⟩
    have sameGrowth := (c.op.keyOp_blind now c.key).current plan.found
    rw [found, Store.lookup_current] at sameGrowth
    rw [← sameGrowth.2.2, ← found, decision]
    exact grows

/-! ## What the pool shows -/

def Pool.Shows (pool : Pool calls) (view : Keyspace) : Prop :=
  pool.store.live pool.clock = view.prune pool.clock

theorem Pool.Shows.later {view : Keyspace} (shows : pool.Shows view) (passed : pool.clock ≤ now) :
    pool.store.live now = view.prune now := by
  funext key
  have here := congrArg (alive now) (congrFun shows key)
  unfold Store.live Keyspace.prune at here
  rwa [alive_later passed, alive_later passed] at here

def Pool.Planned (pool : Pool calls) : Prop :=
  ∀ i plan evicted, pool.phase i = .evicting plan evicted →
    (calls i).op.early = none ∧ ∃ now kind delta,
      (calls i).op.keyOp now (calls i).key plan.found
        = .ensure kind delta plan.old plan.ne plan.result plan.retry

theorem Pool.Planned.finish (planned : pool.Planned) {plan : Plan (calls i).op.Result}
    {evicted : Bool} (parked : pool.phase i = .evicting plan evicted)
    (undisturbed : plan.Undisturbed pool.store now (calls i).key) :
    ∃ t, pool.store.finish now (calls i).key plan
        = (t, .returned (((calls i).decision now).outcome (pool.store.live now (calls i).key)))
      ∧ t.live now = Function.update (pool.store.live now) (calls i).key
        (((calls i).decision now).effect now (pool.store.live now (calls i).key)) := by
  obtain ⟨early, then_, kind, delta, decision⟩ := planned i plan evicted parked
  have anew : (calls i).decision now = (calls i).op.keyOp then_ (calls i).key := by
    unfold Call.decision
    rw [early]
    exact (calls i).op.keyOp_now decision now
  rw [anew]
  refine Store.finish_live ((calls i).op.keyOp_blind then_ (calls i).key) decision
    ((calls i).op.keyOp_exact _) fun stored => ?_
  unfold Plan.Undisturbed at undisturbed
  rwa [stored] at undisturbed

theorem Keyspace.prune_remove (now : Time) (view : Keyspace) (victim : Key) :
    Keyspace.prune now (Function.update view victim none)
      = Function.update (view.prune now) victim none := by
  funext key
  by_cases same : key = victim
  · simp [Keyspace.prune, same]
  · simp [Keyspace.prune, same]

theorem Legal.takes_effect {results : ∀ i, Phase (calls i).op.Result} {view after : Keyspace}
    {rest : List (Item ι)} {s t : Store} (shown : s.live now = view.prune now) (result : results i
      = .returned (((calls i).decision now).outcome (s.live now (calls i).key)))
    (live : t.live now = Function.update (s.live now) (calls i).key
      (((calls i).decision now).effect now (s.live now (calls i).key)))
    (later : Legal calls results (t.live now) rest after) :
    Legal calls results view (.op i now :: rest) after := by
  rw [shown] at result live
  rw [live] at later
  exact .op i now result later

section Order

variable [DecidableEq ι]

theorem Pool.Planned.moved (planned : pool.Planned) {store : Store} {now : Time}
    {phase : Phase (calls i).op.Result}
    (own : ∀ plan evicted, phase = .evicting plan evicted →
      (calls i).op.early = none ∧ ∃ now kind delta,
        (calls i).op.keyOp now (calls i).key plan.found
          = .ensure kind delta plan.old plan.ne plan.result plan.retry) :
    (pool.moved store now i phase).Planned := by
  intro j plan evicted parked
  by_cases same : j = i
  · subst same
    rw [Pool.moved_own] at parked
    exact own plan evicted parked
  · rw [Pool.moved_other _ _ _ _ same] at parked
    exact planned j plan evicted parked

theorem Pool.Planned.returned (planned : pool.Planned) {store : Store} {now : Time}
    {result : Except StoreErr (calls i).op.Result} :
    (pool.moved store now i (.returned result)).Planned :=
  planned.moved fun _ _ same => by cases same

/-! ## The order of a run -/

def point (all : List (Move ι)) : Move ι → List (Item ι)
  | .start i now fits => if fits = true ∨ .refuse i ∈ all then [.op i now] else []
  | .evict _ victim => [.evict victim]
  | .resume i now => [.op i now]
  | .refuse _ => []

theorem Pool.shows_live (pool : Pool calls) (t : Store) (now : Time)
    (phase : Phase (calls i).op.Result) : (pool.moved t now i phase).Shows (t.live now) :=
  funext fun key => (t.alive_live now key).symm

variable {all moves : List (Move ι)} {move : Move ι}

theorem legal_points {view : Keyspace}
    (refusals : ∀ i, .refuse i ∈ all → final.phase i = .returned (.error .oom))
    (planned : pool.Planned) (shows : pool.Shows view)
    (guarded : Machine.Guarded Pool.step Pool.Undisturbed pool moves)
    (ran : Machine.run Pool.step pool moves = some final) :
    ∃ after, Legal calls final.phase view (moves.flatMap (point all)) after ∧ final.Shows after := by
  induction moves generalizing pool view with
  | nil =>
    cases ran
    exact ⟨view, .nil view, shows⟩
  | cons move rest ih =>
    obtain ⟨next, stepped, later⟩ := Machine.run_cons.mp ran
    have guardedRest := guarded.tail stepped
    rw [List.flatMap_cons]
    cases move with
    | start i now fits =>
      obtain ⟨-, passed, store, phase, starts, rfl⟩ := Pool.step_start stepped
      have shown := shows.later passed
      cases fits with
      | true =>
        obtain ⟨t, starts', live⟩ := (calls i).start_fits pool.store now
        cases starts'.symm.trans starts
        have result := (Pool.returned_stays (Pool.moved_own ..) later).1
        obtain ⟨after, legal, shown'⟩ := ih planned.returned
          (pool.shows_live _ _ _) guardedRest later
        exact ⟨after, .takes_effect shown result live legal, shown'⟩
      | false =>
        obtain ⟨live, grows, plan, rfl, early, kind, delta, decision⟩ := Call.start_parks starts
        have shows' : (pool.moved store now i (.evicting plan false)).Shows view :=
          live.trans shown
        obtain ⟨after, legal, shown'⟩ := ih
          (planned.moved fun _ _ same => by cases same; exact ⟨early, now, kind, delta, decision⟩)
          shows' guardedRest later
        refine ⟨after, ?_, shown'⟩
        by_cases refused : .refuse i ∈ all
        · rw [shown] at grows
          simp only [point, refused, or_true, if_true]
          exact .refused i now (refusals i refused) grows legal
        · simp only [point, refused, Bool.false_eq_true, or_self, if_false]
          exact legal
    | evict i victim =>
      obtain ⟨plan, evicted, store, parked, evicts, rfl⟩ := Pool.step_evict stepped
      have shows' : (pool.moved store pool.clock i (.evicting plan true)).Shows
          (Function.update view victim none) := by
        refine (Store.evictOne_live pool.clock evicts).trans ?_
        rw [shows]
        exact (Keyspace.prune_remove pool.clock view victim).symm
      obtain ⟨after, legal, shown'⟩ := ih
        (planned.moved fun _ _ same => by cases same; exact planned i plan evicted parked)
        shows' guardedRest later
      exact ⟨after, .evict victim legal, shown'⟩
    | resume i now =>
      obtain ⟨passed, plan, parked, rfl⟩ := Pool.step_resume stepped
      have undisturbed : Pool.Undisturbed pool (.resume i now) := guarded.1
      simp only [Pool.Undisturbed, Phase.Undisturbed, parked] at undisturbed
      obtain ⟨t, finishes, live⟩ := planned.finish parked undisturbed
      rw [finishes] at later guardedRest
      have result := (Pool.returned_stays (Pool.moved_own ..) later).1
      obtain ⟨after, legal, shown'⟩ := ih planned.returned
        (pool.shows_live _ _ _) guardedRest later
      exact ⟨after, .takes_effect (shows.later passed) result live legal, shown'⟩
    | refuse i =>
      obtain ⟨plan, evicted, parked, rfl⟩ := Pool.step_refuse stepped
      exact ih planned.returned shows guardedRest later

/-! ## Every operation once, in time -/

theorem countP_point_other (other : move.actor ≠ i) : (point all move).countP (Item.isOp i) = 0 := by
  cases move with
  | start j now fits =>
    simp only [point]
    split
    · simpa [Item.isOp, Move.actor] using other
    · rfl
  | evict j victim => rfl
  | resume j now => simpa [point, Item.isOp, Move.actor] using other
  | refuse j => rfl

theorem countP_points_none (none : ∀ move ∈ moves, move.actor ≠ i) :
    (moves.flatMap (point all)).countP (Item.isOp i) = 0 := by
  induction moves with
  | nil => rfl
  | cons move rest ih =>
    obtain ⟨other, others⟩ := List.forall_mem_cons.mp none
    rw [List.flatMap_cons, List.countP_append, countP_point_other other, ih others]

def remainingPoints (all : List (Move ι)) (final : Pool calls) (i : ι) :
    Phase (calls i).op.Result → Nat
  | .idle => if (final.phase i).isReturned then 1 else 0
  | .evicting _ _ => if .refuse i ∈ all then 0 else if (final.phase i).isReturned then 1 else 0
  | .returned _ => 0

theorem countP_op (i : ι) (now : Time) :
    ([.op i now] : List (Item ι)).countP (Item.isOp i) = 1 := by
  simp [Item.isOp]

theorem remainingPoints_own {rest : List (Move ι)} (stepped : pool.step move = some next)
    (later : Machine.run Pool.step next rest = some final)
    (ahead : .refuse move.actor ∈ all ↔ .refuse move.actor ∈ move :: rest) :
    (point all move).countP (Item.isOp move.actor)
        + remainingPoints all final move.actor (next.phase move.actor)
      = remainingPoints all final move.actor (pool.phase move.actor) := by
  cases move with
  | start i now fits =>
    obtain ⟨idle, -, store, phase, starts, rfl⟩ := Pool.step_start stepped
    simp only [Move.actor] at ahead ⊢
    rw [idle, Pool.moved_own]
    cases fits with
    | true =>
      obtain ⟨t, starts', -⟩ := (calls i).start_fits pool.store now
      cases starts'.symm.trans starts
      have result := (Pool.returned_stays (Pool.moved_own ..) later).1
      simp [point, Item.isOp, remainingPoints, result, Phase.isReturned]
    | false =>
      obtain ⟨-, -, plan, rfl, -⟩ := Call.start_parks starts
      by_cases refused : .refuse i ∈ all
      · have inRest : .refuse i ∈ rest := by simpa using ahead.mp refused
        have result := Pool.refused_returns later inRest
        simp [point, refused, Item.isOp, remainingPoints, result, Phase.isReturned]
      · simp [point, refused, remainingPoints]
  | evict i victim =>
    obtain ⟨plan, evicted, store, parked, -, rfl⟩ := Pool.step_evict stepped
    simp only [Move.actor]
    rw [parked, Pool.moved_own]
    simp [point, Item.isOp, remainingPoints]
  | resume i now =>
    obtain ⟨-, plan, parked, rfl⟩ := Pool.step_resume stepped
    simp only [Move.actor] at ahead ⊢
    have returns := Pool.returned_stays (Pool.moved_own ..) later
    have accepted : .refuse i ∉ all := by
      intro refused
      have inRest : .refuse i ∈ rest := by simpa using ahead.mp refused
      exact returns.2 _ inRest rfl
    rw [parked, Pool.moved_own]
    simp only [point, countP_op i now, remainingPoints, accepted, returns.1, Phase.isReturned, if_true,
      if_false, Store.finish]
  | refuse i =>
    obtain ⟨plan, evicted, parked, rfl⟩ := Pool.step_refuse stepped
    simp only [Move.actor] at ahead ⊢
    have refused : .refuse i ∈ all := ahead.mpr List.mem_cons_self
    rw [parked, Pool.moved_own]
    simp [point, remainingPoints, refused]

theorem countP_points
    (ahead : (pool.phase i).isReturned = false → (.refuse i ∈ all ↔ .refuse i ∈ moves))
    (ran : Machine.run Pool.step pool moves = some final) :
    (moves.flatMap (point all)).countP (Item.isOp i) = remainingPoints all final i (pool.phase i) := by
  induction moves generalizing pool with
  | nil =>
    cases ran
    cases phase : final.phase i <;> simp [remainingPoints, phase, Phase.isReturned]
  | cons move rest ih =>
    obtain ⟨next, stepped, later⟩ := Machine.run_cons.mp ran
    obtain ⟨open_, begun, others⟩ := Pool.step_phases stepped
    rw [List.flatMap_cons, List.countP_append]
    by_cases own : move.actor = i
    · subst own
      have aheadRest (waits : (next.phase move.actor).isReturned = false) :
          .refuse move.actor ∈ all ↔ .refuse move.actor ∈ rest := by
        refine (ahead open_).trans (List.mem_cons.trans (or_iff_right ?_))
        rintro refuses
        rw [← refuses] at stepped
        obtain ⟨plan, evicted, -, rfl⟩ := Pool.step_refuse stepped
        rw [Pool.moved_own] at waits
        cases waits
      rw [ih aheadRest later]
      exact remainingPoints_own stepped later (ahead open_)
    · have same := others i (Ne.symm own)
      rw [countP_point_other own, Nat.zero_add, ← same]
      refine ih (fun waits => ?_) later
      rw [same] at waits
      refine (ahead waits).trans (List.mem_cons.trans (or_iff_right ?_))
      rintro rfl
      exact own rfl

theorem evicted_points (all moves : List (Move ι)) :
    (moves.flatMap (point all)).filterMap Item.evicted = moves.filterMap Move.evicted := by
  induction moves with
  | nil => rfl
  | cons move rest ih =>
    rw [List.flatMap_cons, List.filterMap_append, ih]
    cases move with
    | start i now fits =>
      simp only [point]
      split <;> rfl
    | evict i victim => rfl
    | resume i now => rfl
    | refuse i => rfl

theorem takenFrom_points (all moves : List (Move ι)) :
    TakenFrom moves (moves.flatMap (point all)) := by
  intro i now listed
  obtain ⟨move, made, member⟩ := List.mem_flatMap.mp listed
  refine ⟨move, made, ?_⟩
  cases move with
  | start j instant fits =>
    simp only [point] at member
    split at member
    · cases List.mem_singleton.mp member
      rfl
    · cases member
  | evict j victim => cases List.mem_singleton.mp member
  | resume j instant =>
    cases List.mem_singleton.mp member
    rfl
  | refuse j => cases member

theorem instant_point (all : List (Move ι)) (stepped : pool.step move = some next) :
    pool.clock ≤ next.clock ∧ ∀ item ∈ point all move, ∀ now, item.instant = some now →
      now = next.clock := by
  cases move with
  | start i now fits =>
    obtain ⟨-, passed, store, phase, -, rfl⟩ := Pool.step_start stepped
    refine ⟨passed, fun item member instant same => ?_⟩
    simp only [point] at member
    split at member
    · rw [List.mem_singleton.mp member] at same
      exact (Option.some.inj same).symm
    · cases member
  | evict i victim =>
    obtain ⟨plan, evicted, store, -, -, rfl⟩ := Pool.step_evict stepped
    refine ⟨le_refl _, fun item member instant same => ?_⟩
    rw [List.mem_singleton.mp member] at same
    cases same
  | resume i now =>
    obtain ⟨passed, plan, -, rfl⟩ := Pool.step_resume stepped
    refine ⟨passed, fun item member instant same => ?_⟩
    rw [List.mem_singleton.mp member] at same
    exact (Option.some.inj same).symm
  | refuse i =>
    obtain ⟨plan, evicted, -, rfl⟩ := Pool.step_refuse stepped
    exact ⟨le_refl _, nofun⟩

theorem instants_points (ran : Machine.run Pool.step pool moves = some final) :
    ((moves.flatMap (point all)).filterMap Item.instant).Pairwise (· ≤ ·)
      ∧ ∀ now ∈ (moves.flatMap (point all)).filterMap Item.instant, pool.clock ≤ now := by
  induction moves generalizing pool with
  | nil => exact ⟨.nil, nofun⟩
  | cons move rest ih =>
    obtain ⟨next, stepped, later⟩ := Machine.run_cons.mp ran
    obtain ⟨passed, here⟩ := instant_point all stepped
    obtain ⟨sorted, bound⟩ := ih later
    have now_ : ∀ now ∈ (point all move).filterMap Item.instant, now = next.clock := by
      intro now member
      obtain ⟨item, inPoint, same⟩ := List.mem_filterMap.mp member
      exact here item inPoint now same
    rw [List.flatMap_cons, List.filterMap_append]
    constructor
    · refine List.pairwise_append.mpr ⟨?_, sorted, fun now member later' memberLater => ?_⟩
      · refine List.pairwise_of_forall_mem_list fun a inA b inB => ?_
        rw [now_ a inA, now_ b inB]
      · rw [now_ now member]
        exact bound later' memberLater
    · intro now member
      rcases List.mem_append.mp member with inPoint | inRest
      · rw [now_ now inPoint]
        exact passed
      · exact passed.trans (bound now inRest)

end Order

/-- In every run in which no operation that does not look again is disturbed while
it makes room, the results and the contents are those of the operations and the
evictions one at a time, in real-time order. -/
theorem undisturbed_linearizable [DecidableEq ι] (start final : Pool calls) (moves : List (Move ι))
    (fresh : start.Fresh) (undisturbed : Machine.Guarded Pool.step Pool.Undisturbed start moves)
    (ran : Machine.run Pool.step start moves = some final) : Linearizable start final moves := by
  refine ⟨moves.flatMap (point moves), ?_, ?_, (instants_points ran).1,
    evicted_points moves moves, ?_⟩
  · refine legal_points (fun i refused => Pool.refused_returns ran refused) ?_ ?_ undisturbed ran
    · intro i plan evicted parked
      cases (fresh i).symm.trans parked
    · exact funext fun key => (start.store.alive_live start.clock key).symm
  · intro i
    rw [countP_points (fun _ => Iff.rfl) ran, fresh i]
    rfl
  · intro before after mid split_ first
    subst split_
    obtain ⟨mid', first', second⟩ := Machine.run_append.mp ran
    cases first.symm.trans first'
    refine ⟨_, _, List.flatMap_append, evicted_points _ before, takenFrom_points _ before,
      takenFrom_points _ after, fun i returned => ?_, fun i idle => ?_⟩
    · cases phase : mid.phase i with rw [phase] at returned
      | idle => cases returned
      | evicting plan evicted => cases returned
      | returned result => exact countP_points_none (Pool.returned_stays phase second).2
    · refine countP_points_none fun move member own => ?_
      subst own
      exact (Pool.begun_stays (i := move.actor) first).2 move member idle

/-! ## Two operations on a full store -/

def fullStore : Store :=
  let s := newStore .allkeysLru 265 sortedOracle
  let s := (s.run 1 (ascii "hits") (KeyOp.set (ascii "hits") (ascii "9") 0)).1
  (s.run 1 (ascii "b") (KeyOp.set (ascii "b") (ascii "old") 0)).1

def twoFresh (calls : Fin 2 → Call integerFloats) : Pool calls where
  store := fullStore
  clock := 1
  phase := fun _ => .idle

def overtaken : List (Move (Fin 2)) :=
  [.start 0 1 false, .evict 0 (ascii "b"), .start 1 1 true, .resume 0 1]

def incrAndGet (i : Fin 2) : Call integerFloats where
  key := ascii "hits"
  op := if i = 0 then .incrBy 1 else .get

theorem incrAndGet_linearizable :
    ∃ final, Machine.run Pool.step (twoFresh incrAndGet) overtaken = some final
      ∧ Linearizable (twoFresh incrAndGet) final overtaken := by
  have possible : (Machine.run Pool.step (twoFresh incrAndGet) overtaken).isSome = true := by
    decide +kernel
  obtain ⟨final, ran⟩ := Option.isSome_iff_exists.mp possible
  exact ⟨final, ran, undisturbed_linearizable _ final overtaken (fun _ => rfl) (by decide +kernel)
    ran⟩

def twoIncrs (_ : Fin 2) : Call integerFloats where
  key := ascii "hits"
  op := .incrBy 1

section LostUpdate

variable {results : ∀ i, Phase (twoIncrs i).op.Result} {view after : Keyspace}
  {order : List (Item (Fin 2))}

def counterEntry (text : String) : Option Entry :=
  some { value := .string (ascii text), expiresAt := 0 }

theorem prune_counter {text : String} (now : Time)
    (holds : view (ascii "hits") = counterEntry text) :
    view.prune now (ascii "hits") = counterEntry text := by
  unfold Keyspace.prune
  rw [holds]
  exact alive_of_no_deadline _

theorem incr_outcome {text : String} (j : Fin 2) (now : Time)
    (holds : view (ascii "hits") = counterEntry text) :
    ((twoIncrs j).decision now).outcome (view.prune now (twoIncrs j).key)
      = (KeyOp.incrBy (ascii "hits") 1).outcome (counterEntry text) :=
  congrArg (KeyOp.incrBy (ascii "hits") 1).outcome (prune_counter now holds)

theorem legal_at_ten (answers : ∀ i, results i = .returned (.ok (10 : Int)))
    (holds : view (ascii "hits") = counterEntry "10")
    (spared : ∀ item ∈ order, item.evicted ≠ some (ascii "hits"))
    (legal : Legal twoIncrs results view order after) (i : Fin 2) :
    order.countP (Item.isOp i) = 0 := by
  induction legal with
  | nil view => rfl
  | op j now result later ih =>
    rw [answers j, incr_outcome j now holds] at result
    have tenIsEleven : Except.ok (10 : Int)
        = (KeyOp.incrBy (ascii "hits") 1).outcome (counterEntry "10") := Phase.returned.inj result
    exact absurd tenIsEleven (by decide +kernel)
  | refused j now result grows later ih =>
    cases (answers j).symm.trans result
  | evict victim later ih =>
    obtain ⟨here, others⟩ := List.forall_mem_cons.mp spared
    rw [List.countP_cons_of_neg (by simp [Item.isOp])]
    refine ih ?_ others
    rwa [Function.update_of_ne (fun same => here (congrArg some same.symm))]

theorem legal_at_nine (answers : ∀ i, results i = .returned (.ok (10 : Int)))
    (holds : view (ascii "hits") = counterEntry "9")
    (spared : ∀ item ∈ order, item.evicted ≠ some (ascii "hits"))
    (legal : Legal twoIncrs results view order after) :
    order.countP (Item.isOp 0) + order.countP (Item.isOp 1) ≤ 1 := by
  induction legal with
  | nil view => exact Nat.zero_le _
  | @op view after rest j now result later ih =>
    obtain ⟨-, others⟩ := List.forall_mem_cons.mp spared
    have ten : Function.update (view.prune now) (twoIncrs j).key
        (((twoIncrs j).decision now).effect now (view.prune now (twoIncrs j).key)) (ascii "hits")
          = counterEntry "10" := by
      have after : (KeyOp.incrBy (ascii "hits") 1).after (.ofLive (counterEntry "9"))
          = counterEntry "10" := by
        decide +kernel
      refine (Function.update_self ..).trans ?_
      show alive now ((KeyOp.incrBy (ascii "hits") 1).after
        (.ofLive (view.prune now (ascii "hits")))) = _
      rw [prune_counter now holds, after]
      exact alive_of_no_deadline _
    have none (i : Fin 2) := legal_at_ten answers ten others later i
    rw [List.countP_cons, List.countP_cons, none 0, none 1]
    match j with
    | 0 | 1 => simp [Item.isOp]
  | refused j now result grows later ih =>
    cases (answers j).symm.trans result
  | evict victim later ih =>
    obtain ⟨here, others⟩ := List.forall_mem_cons.mp spared
    rw [List.countP_cons_of_neg (by simp [Item.isOp]),
      List.countP_cons_of_neg (by simp [Item.isOp])]
    refine ih ?_ others
    rwa [Function.update_of_ne (fun same => here (congrArg some same.symm))]

end LostUpdate

def answered (pool : Pool twoIncrs) :
    Option (Except StoreErr Int) × Option (Except StoreErr Int) :=
  ((pool.phase 0).result, (pool.phase 1).result)

/-- Both increments return 10: the first writes what it computed before it made
room.  The memory tests of the run come out as the counter says. -/
theorem twoIncrs_not_linearizable :
    fullStore.overLimit 1 = true
      ∧ (fullStore.evictOne (ascii "hits") (ascii "b")).map (·.overLimit 1) = some false
      ∧ ∃ final, Machine.run Pool.step (twoFresh twoIncrs) overtaken = some final
        ∧ ¬ Linearizable (twoFresh twoIncrs) final overtaken := by
  have answers : (Machine.run Pool.step (twoFresh twoIncrs) overtaken).map answered
      = some (some (.ok 10), some (.ok 10)) := by
    decide +kernel
  obtain ⟨final, ran, results⟩ := Option.map_eq_some_iff.mp answers
  obtain ⟨first, second⟩ := Prod.mk.inj results
  have answers (i : Fin 2) : final.phase i = .returned (.ok (10 : Int)) :=
    match i with
    | 0 => Phase.result_eq_some.mp first
    | 1 => Phase.result_eq_some.mp second
  refine ⟨by decide +kernel, by decide +kernel, final, ran, ?_⟩
  rintro ⟨order, ⟨view, legal, -⟩, once, -, evictions, -⟩
  have nine : (twoFresh twoIncrs).store.live (twoFresh twoIncrs).clock (ascii "hits")
      = counterEntry "9" := by
    decide +kernel
  have spared (item : Item (Fin 2)) (member : item ∈ order) :
      item.evicted ≠ some (ascii "hits") := by
    have kept : ascii "hits" ∉ overtaken.filterMap Move.evicted := by decide +kernel
    exact fun evicted => kept (evictions ▸ List.mem_filterMap.mpr ⟨item, member, evicted⟩)
  have atMostOne := legal_at_nine answers nine spared legal
  rw [once 0, once 1, answers 0, answers 1] at atMostOne
  exact absurd atMostOne (by decide)

end SuperCache
