import SuperCache.Server.Sync

/-! # One sync at a time

The flag `resyncing` is held by one call of `RequestResync` at a time, from its
compare-and-swap to the end of the loop it starts.  The first loop does not hold
it, so that one loop runs at a time only if no call takes the flag before the
first loop has ended.
-/

namespace SuperCache

open Lib

/-- The loop runs: it has started and not yet set `clientReady` or returned. -/
def LoopPhase.active : LoopPhase → Bool
  | .off | .ended | .released => false
  | _ => true

/-- The call has taken `resyncing` and neither given it back nor handed it to its
loop. -/
def CallPhase.holds : CallPhase → Bool
  | .claimed | .limited | .admitted _ | .stranded | .stamping _ | .clearing | .closing
  | .launching => true
  | _ => false

attribute [grind =] LoopPhase.active CallPhase.holds

structure CallStep (move : RequestMove) (flags flags' : SyncFlags) (phase phase' : CallPhase) :
    Prop where
  from_active : phase ≠ .idle ∧ phase ≠ .returned
  takes : phase'.holds = true → phase.holds = true ∧ flags'.resyncing = flags.resyncing
    ∨ move = .cas ∧ flags.resyncing = false ∧ flags'.resyncing = true
  gives : phase.holds = false → flags.resyncing = true → flags'.resyncing = true
  ready : flags'.clientReady = flags.clientReady ∨ flags'.clientReady = false
  launching : phase' = .launching → flags'.clientReady = false

variable {flags flags' : SyncFlags}

theorem requestStep_callStep {interval : Int} {runCtx : Bool} {phase phase' : CallPhase}
    {move : RequestMove}
    (stepped : requestStep interval runCtx flags phase move = some (phase', flags')) :
    CallStep move flags flags' phase phase' := by
  unfold requestStep at stepped
  constructor <;> grind

structure LoopStep (flags flags' : SyncFlags) (phase phase' : LoopPhase) : Prop where
  from_active : phase.active = true
  onward : phase' ≠ .off ∧ phase' ≠ .released
  resyncing : flags'.resyncing = flags.resyncing
  pending : flags'.resyncPending = flags.resyncPending
  ready : phase'.active = true → flags'.clientReady = flags.clientReady

theorem loopStep_loopStep {cancelled : Bool} {phase phase' : LoopPhase} {move : LoopMove}
    (stepped : loopStep cancelled flags phase move = some (phase', flags')) :
    LoopStep flags flags' phase phase' := by
  unfold loopStep at stepped
  constructor <;> grind

namespace Sync

variable {ι κ : Type} {m next : Sync ι κ}

/-- The call, or the loop it started, holds `resyncing`. -/
def Holds (m : Sync ι κ) (i : ι) : Prop :=
  (m.call i).holds = true ∨ m.loop (some i) ≠ .off ∧ m.loop (some i) ≠ .released

/-- `Run` has decided, and the first loop does not run. -/
def Settled (m : Sync ι κ) : Prop :=
  m.startup = .done ∧ (m.loop none).active = false

/-- A call takes the flag `resyncing` only when the first sync is over. -/
def Orderly (m : Sync ι κ) : SyncMove ι κ → Prop
  | .call _ .cas => m.flags.resyncing = false → m.Settled
  | _ => True

instance (m : Sync ι κ) (move : SyncMove ι κ) : Decidable (m.Orderly move) :=
  match move with
  | .call _ .cas => inferInstanceAs (Decidable (_ → _ ∧ _))
  | .call _ .defer | .call _ (.rate _) | .call _ .unlock | .call _ .context | .call _ .stamp
  | .call _ .clear | .call _ .close | .setRunContext | .setRequester | .decide | .launchInitial
  | .cancel | .tick | .enter .. | .launch _ | .loop .. | .release _ | .serve .. => .isTrue trivial

def Closed (m : Sync ι κ) : Prop :=
  m.startup = .chosen ∨ (∃ i, m.call i = .launching) ∨ ∃ l, (m.loop l).active = true

structure OneAtATime (m : Sync ι κ) : Prop where
  locked : ∀ i, m.Holds i → m.flags.resyncing = true
  unique : ∀ i j, m.Holds i → m.Holds j → i = j
  settled : ∀ i, m.Holds i → m.Settled
  handed : ∀ i, m.loop (some i) ≠ .off → m.call i = .returned
  beforehand : m.startup ≠ .done → m.loop none = .off
  closed : m.Closed → m.flags.clientReady = false

theorem Fresh.oneAtATime (fresh : m.Fresh) : m.OneAtATime := by
  have free (i : ι) : ¬ m.Holds i := by
    rintro (holds | ⟨started, -⟩)
    · rw [fresh.calls i] at holds
      cases holds
    · exact started (fresh.loops _)
  refine ⟨fun i holds => absurd holds (free i), fun i _ holds => absurd holds (free i),
    fun i holds => absurd holds (free i), fun i started => absurd (fresh.loops _) started,
    fun _ => fresh.loops none, ?_⟩
  rintro (chosen | ⟨i, launching⟩ | ⟨l, active⟩)
  · obtain ⟨sync, starting⟩ := fresh.starting
    cases starting.symm.trans chosen
  · cases (fresh.calls i).symm.trans launching
  · rw [fresh.loops l] at active
    cases active

theorem OneAtATime.of_same (one : m.OneAtATime) (calls : next.call = m.call)
    (loops : next.loop = m.loop) (startup : next.startup = m.startup)
    (flags : next.flags = m.flags) : next.OneAtATime := by
  obtain ⟨locked, unique, settled, handed, beforehand, closed⟩ := one
  unfold Holds Settled at *
  unfold Closed at closed
  constructor <;> (try unfold Holds) <;> (try unfold Settled) <;> (try unfold Closed)
  all_goals simpa only [calls, loops, startup, flags]

variable {l : Option ι} {move : SyncMove ι κ}

theorem OneAtATime.loop_active (one : m.OneAtATime) (active : (m.loop l).active = true) :
    (l = none ∨ ∃ k, l = some k ∧ m.Holds k) ∧ m.startup = .done := by
  cases l with
  | none =>
    refine ⟨.inl rfl, ?_⟩
    by_contra early
    rw [one.beforehand early] at active
    cases active
  | some k =>
    have holds : m.Holds k := by
      refine .inr ⟨fun off => ?_, fun released => ?_⟩
      · rw [off] at active
        cases active
      · rw [released] at active
        cases active
    exact ⟨.inr ⟨k, rfl, holds⟩, (one.settled k holds).1⟩

theorem OneAtATime.active_unique (one : m.OneAtATime) {l' : Option ι}
    (active : (m.loop l).active = true) (active' : (m.loop l').active = true) : l = l' := by
  have apart {k : ι} (holds : m.Holds k) (first : (m.loop none).active = true) : False := by
    rw [(one.settled k holds).2] at first
    cases first
  rcases (one.loop_active active).1 with rfl | ⟨k, rfl, holds⟩
  · rcases (one.loop_active active').1 with rfl | ⟨k', rfl, holds'⟩
    · rfl
    · exact (apart holds' active).elim
  · rcases (one.loop_active active').1 with rfl | ⟨k', rfl, holds'⟩
    · exact (apart holds active').elim
    · rw [one.unique k k' holds holds']

variable [DecidableEq ι]

theorem OneAtATime.call {k : ι} {move : RequestMove} {phase : CallPhase} (one : m.OneAtATime)
    (orderly : m.Orderly (.call k move))
    (requested : requestStep m.resyncMinInterval m.runCtx m.flags (m.call k) move
      = some (phase, flags)) :
    OneAtATime { m.setCall k phase with flags := flags } := by
  obtain ⟨fromActive, takes, gives, ready, launching⟩ := requestStep_callStep requested
  obtain ⟨locked, unique, settled, handed, beforehand, closed⟩ := one
  have settles : move = .cas → m.flags.resyncing = false → m.Settled := by
    rintro rfl
    exact orderly
  simp only [Holds, Settled, Closed] at locked unique settled closed settles
  constructor <;> simp only [Holds, Settled, Closed, setCall, Function.update_apply] <;> grind

theorem OneAtATime.loop {move : LoopMove} {phase : LoopPhase} (one : m.OneAtATime)
    (looped : loopStep m.cancelled m.flags (m.loop l) move = some (phase, flags)) :
    OneAtATime { m.setLoop l phase with flags := flags } := by
  obtain ⟨fromActive, onward, resyncing, -, ready⟩ := loopStep_loopStep looped
  have startup := (one.loop_active fromActive).2
  have alone (l' : Option ι) (active : (m.loop l').active = true) := one.active_unique active fromActive
  obtain ⟨locked, unique, settled, handed, beforehand, closed⟩ := one
  simp only [Holds, Settled, Closed] at locked unique settled closed
  constructor <;> simp only [Holds, Settled, Closed, setLoop, Function.update_apply]
  case closed =>
    rintro (chosen | ⟨i, launching⟩ | ⟨l', active⟩)
    · grind
    · -- the call holds the flag, so it is the loop's own call, which has returned
      have holds : (m.call i).holds = true := by simp [launching, CallPhase.holds]
      cases l with
      | none => grind
      | some k =>
        have running : m.loop (some k) ≠ .off ∧ m.loop (some k) ≠ .released := by grind
        have same := unique i k (.inl holds) (.inr running)
        grind
    · grind
  all_goals grind

variable [DecidableEq κ]

theorem OneAtATime.step (one : m.OneAtATime) (orderly : m.Orderly move)
    (stepped : m.step move = some next) : next.OneAtATime := by
  have started (l : Option ι) (active : (m.loop l).active = true) := (one.loop_active active).2
  cases stepped_of_step stepped with
  | aside _ _ calls loops startup flags => exact one.of_same calls loops startup flags
  | call i move phase flags requested => exact one.call orderly requested
  | loop l move phase flags looped => exact one.loop looped
  | _ =>
    obtain ⟨locked, unique, settled, handed, beforehand, closed⟩ := one
    simp only [Holds, Settled, Closed] at locked unique settled closed
    constructor <;>
      simp only [Holds, Settled, Closed, setCall, setLoop, setReady, Function.update_apply] <;> grind

/-- In every run in which no call takes the flag before the first sync is over, at
most one loop runs, and `clientReady` is false while it does. -/
theorem one_sync_at_a_time (start final : Sync ι κ) (moves : List (SyncMove ι κ))
    (fresh : start.Fresh) (orderly : Machine.Guarded step Orderly start moves)
    (ran : Machine.run step start moves = some final) :
    (∀ l l', (final.loop l).active = true → (final.loop l').active = true → l = l')
      ∧ ∀ l, (final.loop l).active = true → final.flags.clientReady = false := by
  have one : final.OneAtATime :=
    Machine.run_invariant (fun _ _ _ one orderly stepped => one.step orderly stepped)
      fresh.oneAtATime orderly ran
  exact ⟨fun l l' active active' => one.active_unique active active',
    fun l active => one.closed (.inr (.inr ⟨l, active⟩))⟩

def booting : Sync (Fin 1) (Fin 1) where
  resyncOnGapEnabled := true
  resyncMinInterval := 300
  startup := .starting true
  runCtx := false
  requester := false
  cancelled := false
  ticked := false
  flags := {
    resyncing := false
    resyncPending := false
    lastResync := 0
    clientReady := true
    bootstrapActive := false }
  call _ := .idle
  loop _ := .off
  serve _ := .none

theorem booting_fresh : booting.Fresh :=
  ⟨⟨true, rfl⟩, rfl, fun _ => rfl, fun _ => rfl, fun _ => rfl⟩

/-- `Run` up to the start of the first loop. -/
def startFirst : List (SyncMove (Fin 1) (Fin 1)) :=
  [.setRunContext, .setRequester, .decide, .launchInitial]

def firstSyncs : List (SyncMove (Fin 1) (Fin 1)) :=
  [.loop none (.check true false), .loop none .activate, .loop none (.attempted true),
    .loop none .deactivate, .loop none .serve]

def resync : List (SyncMove (Fin 1) (Fin 1)) :=
  [.enter 0 false, .call 0 .cas, .call 0 (.rate 7), .call 0 .context, .call 0 .stamp,
    .call 0 .clear, .call 0 .close, .launch 0]

theorem resync_after_first : ∃ final,
    Machine.run step booting (startFirst ++ firstSyncs ++ resync) = some final
      ∧ (final.loop (some 0)).active = true ∧ final.flags.clientReady = false := by
  refine ⟨_, Machine.ran (by decide +kernel), by decide +kernel, ?_⟩
  exact (one_sync_at_a_time booting _ (startFirst ++ firstSyncs ++ resync) booting_fresh
    (by decide +kernel) (Machine.ran _)).2 (some 0) (by decide +kernel)

/-- A request during the first sync starts a second loop beside it, and the first
one opens the server to clients while the second still runs. -/
theorem resync_during_first : booting.Fresh
    ∧ (∃ both, Machine.run step booting (startFirst ++ resync) = some both
      ∧ (both.loop none).active = true ∧ (both.loop (some 0)).active = true)
    ∧ ∃ final, Machine.run step booting (startFirst ++ resync ++ firstSyncs) = some final
      ∧ (final.loop (some 0)).active = true ∧ final.flags.clientReady = true :=
  ⟨booting_fresh, Machine.exists_run (by decide +kernel), Machine.exists_run (by decide +kernel)⟩

end Sync

end SuperCache
