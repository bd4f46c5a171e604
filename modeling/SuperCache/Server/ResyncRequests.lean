import SuperCache.Server.OneSync

/-! # No resync request is forgotten

A call of `RequestResync` that does not start a loop leaves `resyncPending` set,
and whoever clears that flag goes on to start a loop.
-/

namespace SuperCache

open Lib

def CallPhase.undecided : CallPhase → Bool
  | .begun | .busy | .claimed | .limited | .deferring | .admitted _ | .stamping _ | .clearing =>
    true
  | _ => false

/-- The call has cleared `resyncPending` and will start a loop. -/
def CallPhase.committed : CallPhase → Bool
  | .closing | .launching => true
  | _ => false

def CallPhase.inProgress (phase : CallPhase) : Bool :=
  phase ≠ .idle ∧ phase ≠ .returned

variable {phase : CallPhase}

theorem CallPhase.inProgress_of_undecided (undecided : phase.undecided = true) :
    phase.inProgress = true := by
  cases phase <;> first | rfl | cases undecided

theorem CallPhase.inProgress_of_committed (committed : phase.committed = true) :
    phase.inProgress = true := by
  cases phase <;> first | rfl | cases committed

theorem requestStep_remembers {interval : Int} {flags flags' : SyncFlags} {phase' : CallPhase}
    {move : RequestMove}
    (stepped : requestStep interval true flags phase move = some (phase', flags')) :
    (flags.resyncPending = true → flags'.resyncPending = true ∨ phase'.committed = true)
      ∧ (phase.undecided = true →
        flags'.resyncPending = true ∨ phase'.undecided = true ∨ phase'.committed = true)
      ∧ (phase.committed = true → phase'.committed = true) := by
  revert stepped
  fun_cases requestStep interval true flags phase move <;> rintro ⟨⟩
  case case3 | case4 => exact ⟨fun _ => .inl rfl, fun _ => .inl rfl, nofun⟩
  case case8 => exact ⟨.inl, nofun, nofun⟩
  case case11 => exact ⟨fun _ => .inr rfl, fun _ => .inr (.inr rfl), nofun⟩
  case case12 => exact ⟨.inl, nofun, fun _ => rfl⟩
  all_goals exact ⟨.inl, fun _ => .inr (.inl rfl), nofun⟩

namespace Sync

variable {ι κ : Type} [DecidableEq ι] [DecidableEq κ] {start m next : Sync ι κ}

/-- In the run of `moves` from `start` the `go` statement of a call set its loop going. -/
def Launches (start : Sync ι κ) (moves : List (SyncMove ι κ)) : Prop :=
  ∃ j before rest next, moves = before ++ .launch j :: rest
    ∧ Machine.run step start (before ++ [.launch j]) = some next ∧ next.loop (some j) = .checking

/-- A request that the call `i` had made in the state `start`, after the run of `moves`. -/
def Remembered (start : Sync ι κ) (i : ι) (moves : List (SyncMove ι κ)) (m : Sync ι κ) : Prop :=
  start.Launches moves ∨ m.flags.resyncPending = true ∨ (m.call i).undecided = true
    ∨ ∃ j, (m.call j).committed = true

variable {i : ι} {moves : List (SyncMove ι κ)} {move : SyncMove ι κ}

theorem Launches.concat (launches : start.Launches moves) : start.Launches (moves ++ [move]) := by
  obtain ⟨j, before, rest, next, rfl, ran, going⟩ := launches
  exact ⟨j, before, rest ++ [move], next, by simp, ran, going⟩

theorem Remembered.of_same (remembered : start.Remembered i moves m)
    (pending : next.flags.resyncPending = m.flags.resyncPending) (calls : next.call = m.call) :
    start.Remembered i (moves ++ [move]) next := by
  unfold Remembered
  rw [pending, calls]
  exact remembered.imp_left Launches.concat

theorem Remembered.call {k : ι} {request : RequestMove} {phase : CallPhase} {flags : SyncFlags}
    (remembered : start.Remembered i moves m)
    (requested : requestStep m.resyncMinInterval true m.flags (m.call k) request
      = some (phase, flags)) :
    start.Remembered i (moves ++ [move]) { m.setCall k phase with flags := flags } := by
  obtain ⟨keeps, decides, goesOn⟩ := requestStep_remembers requested
  have here : (Function.update m.call k phase) k = phase := Function.update_self ..
  have committed (yes : phase.committed = true) :
      ∃ j, ((Function.update m.call k phase) j).committed = true :=
    ⟨k, by rw [here]; exact yes⟩
  rcases remembered with launched | pending | undecided | ⟨j, will⟩
  · exact .inl launched.concat
  · rcases keeps pending with pending | yes
    · exact .inr (.inl pending)
    · exact .inr (.inr (.inr (committed yes)))
  · by_cases own : i = k
    · subst own
      rcases decides undecided with pending | still | yes
      · exact .inr (.inl pending)
      · exact .inr (.inr (.inl (by simpa only [setCall, here] using still)))
      · exact .inr (.inr (.inr (committed yes)))
    · refine .inr (.inr (.inl ?_))
      simpa only [setCall, Function.update_of_ne own] using undecided
  · by_cases own : j = k
    · subst own
      exact .inr (.inr (.inr (committed (goesOn will))))
    · refine .inr (.inr (.inr ⟨j, ?_⟩))
      simpa only [setCall, Function.update_of_ne own] using will

theorem Remembered.enter {k : ι} {phase : CallPhase} {ticked : Bool} (idle : m.call k = .idle)
    (remembered : start.Remembered i moves m) :
    start.Remembered i (moves ++ [move]) { m.setCall k phase with ticked := ticked } := by
  -- the call that begins was in no phase that counts
  have other (j : ι) (counts : (m.call j).inProgress = true) : j ≠ k := by
    rintro rfl
    rw [idle] at counts
    cases counts
  rcases remembered with launched | pending | undecided | ⟨j, will⟩
  · exact .inl launched.concat
  · exact .inr (.inl pending)
  · refine .inr (.inr (.inl ?_))
    have apart := other i (CallPhase.inProgress_of_undecided undecided)
    simpa only [setCall, Function.update_of_ne apart] using undecided
  · refine .inr (.inr (.inr ⟨j, ?_⟩))
    have apart := other j (CallPhase.inProgress_of_committed will)
    simpa only [setCall, Function.update_of_ne apart] using will

theorem Remembered.step (context : m.runCtx = true) (ran : Machine.run step start moves = some m)
    (remembered : start.Remembered i moves m) (stepped : m.step move = some next) :
    start.Remembered i (moves ++ [move]) next := by
  have ranOn := Machine.run_concat ran stepped
  cases stepped_of_step stepped with
  | aside _ _ calls _ _ flags => exact remembered.of_same (by rw [flags]) calls
  | sync | alone | launchInitial | release => exact remembered.of_same rfl rfl
  | enter k deferred idle => exact remembered.enter idle
  | call k move phase flags requested => exact remembered.call (context ▸ requested)
  | launch k =>
    exact .inl ⟨k, moves, [], _, rfl, ranOn, Function.update_self ..⟩
  | loop l move phase flags looped => exact remembered.of_same (loopStep_loopStep looped).pending rfl

theorem step_runCtx (context : m.runCtx = true) (stepped : m.step move = some next) :
    next.runCtx = true := by
  cases stepped_of_step stepped with
  | aside _ _ _ _ _ _ kept => exact kept context
  | _ => exact context

theorem enter_undecided {deferred : Bool} (enabled : m.resyncOnGapEnabled = true)
    (stepped : m.step (.enter i deferred) = some next) : (next.call i).undecided = true := by
  simp only [Sync.step] at stepped
  split at stepped
  · split at stepped <;> cases stepped
    simp only [setCall, Function.update_self, enabled]
    rfl
  · cases stepped

/-- From any state: once no call is in progress, a loop was set going since a given
call began, or a resync is pending. -/
theorem resync_request_kept (m final : Sync ι κ) (i : ι) (deferred : Bool)
    (after : List (SyncMove ι κ)) (enabled : m.resyncOnGapEnabled = true)
    (context : m.runCtx = true)
    (ran : Machine.run step m (.enter i deferred :: after) = some final)
    (quiet : ∀ j, (final.call j).inProgress = false) :
    m.Launches (.enter i deferred :: after) ∨ final.flags.resyncPending = true := by
  obtain ⟨next, stepped, ran⟩ := Machine.run_cons.mp ran
  have context' := step_runCtx context stepped
  have entered : Machine.run step m [.enter i deferred] = some next :=
    Machine.run_cons.mpr ⟨next, stepped, rfl⟩
  obtain ⟨-, -, remembered⟩ := Machine.run_history
    (fun moves s => s.runCtx = true ∧ Machine.run step m (.enter i deferred :: moves) = some s
      ∧ m.Remembered i (.enter i deferred :: moves) s)
    ⟨context', entered, .inr (.inr (.inl (enter_undecided enabled stepped)))⟩
    (fun _ _ _ _ ⟨context, ran, remembered⟩ stepped =>
      ⟨step_runCtx context stepped, Machine.run_concat ran stepped,
        remembered.step context ran stepped⟩) ran
  rcases remembered with launched | pending | undecided | ⟨j, committed⟩
  · exact .inl launched
  · exact .inr pending
  · exact absurd (CallPhase.inProgress_of_undecided undecided) (by rw [quiet i]; exact Bool.false_ne_true)
  · exact absurd (CallPhase.inProgress_of_committed committed) (by rw [quiet j]; exact Bool.false_ne_true)

def serving : Sync (Fin 2) (Fin 1) where
  resyncOnGapEnabled := true
  resyncMinInterval := 300
  startup := .done
  runCtx := true
  requester := true
  cancelled := false
  ticked := false
  flags := {
    resyncing := false
    resyncPending := false
    lastResync := 0
    clientReady := true
    bootstrapActive := false }
  call _ := .idle
  loop _ := .off
  serve _ := .none

def twoRequests : List (SyncMove (Fin 2) (Fin 1)) :=
  [.call 0 .cas, .enter 1 false, .call 1 .cas, .call 0 (.rate 7), .call 0 .context, .call 0 .stamp,
    .call 0 .clear, .call 1 .defer, .call 0 .close, .launch 0]

theorem twoRequests_kept : ∃ final,
    Machine.run step serving (.enter 0 false :: twoRequests) = some final
      ∧ (∀ j, (final.call j).inProgress = false)
      ∧ (serving.Launches (.enter 0 false :: twoRequests) ∨ final.flags.resyncPending = true) := by
  refine ⟨_, Machine.ran (by decide +kernel), by decide +kernel, ?_⟩
  exact resync_request_kept serving _ 0 false twoRequests rfl rfl (Machine.ran _) (by decide +kernel)

end Sync

end SuperCache
