import SuperCache.Server.ResyncRequests

/-! # Snapshots of a node that syncs itself

A snapshot request is refused while `bootstrapActive` is set.  The flag is set
only during an attempt, not while the node waits between attempts or before its
first one, and it is looked at only once, while a resync may begin later.
-/

namespace SuperCache

open Lib

namespace Sync

variable {ι κ : Type} {m next : Sync ι κ}

def Syncing (m : Sync ι κ) : Prop :=
  m.startup = .starting true ∨ m.Closed

instance [Fintype ι] (m : Sync ι κ) : Decidable m.Syncing :=
  inferInstanceAs (Decidable (_ ∨ _ ∨ (∃ _, _) ∨ ∃ _, _))

/-- The flag tells the truth when a request is looked at; no resync begins while
a snapshot is streamed, and no sync ends while a request waits. -/
def Truthful (m : Sync ι κ) : SyncMove ι κ → Prop
  | .serve _ .test => m.flags.bootstrapActive = true ∨ ¬ m.Syncing
  | .call _ .close => ∀ j, m.serve j ≠ .streaming
  | .loop _ .serve | .loop _ .quit => ∀ j, m.serve j ≠ .requested
  | _ => True

variable [DecidableEq ι] [DecidableEq κ]

variable {move : SyncMove ι κ} {flags flags' : SyncFlags}

theorem requestStep_launching {interval : Int} {runCtx : Bool} {phase : CallPhase}
    {move : RequestMove}
    (stepped : requestStep interval runCtx flags phase move = some (.launching, flags')) :
    move = .close := by
  unfold requestStep at stepped
  grind

theorem loopStep_ends {cancelled : Bool} {phase phase' : LoopPhase} {move : LoopMove}
    (stepped : loopStep cancelled flags phase move = some (phase', flags'))
    (ends : phase'.active = false) : move = .serve ∨ move = .quit := by
  unfold loopStep at stepped
  grind

theorem sync_begins (stepped : m.step move = some next) (before : ¬ m.Syncing)
    (after : next.Syncing) : ∃ i, move = .call i .close := by
  cases stepped_of_step stepped with
  | aside _ _ calls loops startup =>
    simp only [Syncing, Closed, calls, loops, startup] at before after
    exact absurd after before
  | call k move phase flags requested =>
    have closes : phase = .launching → move = .close := by
      rintro rfl
      exact requestStep_launching requested
    refine ⟨k, ?_⟩
    simp only [Syncing, Closed, setCall, Function.update_apply] at before after
    grind
  | loop l move phase flags looped =>
    exact absurd (.inr (.inr (.inr ⟨l, (loopStep_loopStep looped).from_active⟩))) before
  | _ =>
    -- no other step starts a call's loop, or one before the first loop
    simp only [Syncing, Closed, setCall, setLoop, setReady, Function.update_apply] at before after
    grind

theorem sync_ends (stepped : m.step move = some next) (before : m.Syncing) (after : ¬ next.Syncing) :
    ∃ l, move = .loop l .serve ∨ move = .loop l .quit := by
  cases stepped_of_step stepped with
  | aside _ _ calls loops startup =>
    simp only [Syncing, Closed, calls, loops, startup] at before after
    exact absurd before after
  | call k move phase flags requested =>
    have still : m.call k ≠ .launching := by
      intro launching
      rw [launching] at requested
      cases move <;> cases requested
    simp only [Syncing, Closed, setCall, Function.update_apply] at before after
    grind
  | loop l move phase flags looped =>
    refine ⟨l, ?_⟩
    simp only [Syncing, Closed, setLoop, Function.update_apply, not_or, not_exists] at after
    have ends := after.2.2.2 l
    grind [loopStep_ends]
  | launchInitial =>
    exact absurd (.inr (.inr (.inr ⟨none, by simp [setLoop, LoopPhase.active]⟩))) after
  | launch k =>
    exact absurd (.inr (.inr (.inr ⟨some k, by simp [setLoop, LoopPhase.active]⟩))) after
  | _ =>
    simp only [Syncing, Closed, setCall, setLoop, setReady, Function.update_apply] at before after
    grind

theorem serve_same (stepped : m.step move = some next) (j : κ) (other : ∀ own, move ≠ .serve j own) :
    next.serve j = m.serve j := by
  cases move with simp only [step, Option.map_eq_some_iff] at stepped
  | serve j' move =>
    obtain ⟨phase, -, rfl⟩ := stepped
    exact Function.update_of_ne (fun same => other move (by rw [same])) ..
  | call | loop =>
    obtain ⟨_, _, rfl⟩ := stepped
    rfl
  | _ => (repeat' split at stepped) <;> cases stepped <;> rfl

def Premature (j : κ) (m : Sync ι κ) : Prop :=
  m.serve j ≠ .done ∧ m.Syncing

/-- A request and the run since it was sent from the state `mid`. -/
structure Watched (mid : Sync ι κ) (j : κ) (moves : List (SyncMove ι κ)) (m : Sync ι κ) : Prop where
  ran : Machine.run step mid moves = some m
  clean : match m.serve j with
    | .none => False
    | .requested => ¬ Machine.Passes step mid moves (Premature j) ∨ m.Syncing
    | .streaming | .done => ¬ Machine.Passes step mid moves (Premature j)
    | .refused | .failed => True

theorem Watched.step {mid : Sync ι κ} {j : κ} {moves : List (SyncMove ι κ)}
    (watched : Watched mid j moves m) (truthful : m.Truthful move)
    (stepped : m.step move = some next) : Watched mid j (moves ++ [move]) next := by
  have ran : Machine.run Sync.step mid (moves ++ [move]) = some next :=
    Machine.run_concat watched.ran stepped
  have onward (sofar : ¬ Machine.Passes Sync.step mid moves (Premature j))
      (now : ¬ Premature j next) :
      ¬ Machine.Passes Sync.step mid (moves ++ [move]) (Premature j) := fun passes =>
    (Machine.Passes.of_append ran passes).elim sofar now
  refine ⟨ran, ?_⟩
  have clean := watched.clean
  by_cases own : ∃ mine, move = .serve j mine
  · obtain ⟨mine, rfl⟩ := own
    simp only [Sync.step, Option.map_eq_some_iff] at stepped
    obtain ⟨phase, served, rfl⟩ := stepped
    simp only [Function.update_self]
    cases here : m.serve j with rw [here] at served clean
    | none => exact clean.elim
    | requested =>
      cases mine with
      | test =>
        cases served
        cases active : m.flags.bootstrapActive with
        | true => exact trivial
        | false =>
          have synced : ¬ m.Syncing := truthful.resolve_left (by rw [active]; exact Bool.false_ne_true)
          exact onward (clean.resolve_right synced) fun premature => synced premature.2
      | request | finish => cases served
    | streaming =>
      cases mine with
      | finish ok =>
        cases served
        cases ok with
        | true => exact onward clean fun premature => premature.1 (Function.update_self ..)
        | false => exact trivial
      | request | test => cases served
    | refused | done | failed => cases mine <;> cases served
  · have same := serve_same stepped j fun mine moved => own ⟨mine, moved⟩
    rw [same]
    cases here : m.serve j with rw [here] at clean
    | none => exact clean.elim
    | refused | failed => exact trivial
    | requested =>
      by_cases after : next.Syncing
      · exact .inr after
      · refine .inl (onward ?_ fun premature => after premature.2)
        refine clean.resolve_right fun before => ?_
        -- no sync ends while the request waits
        obtain ⟨l, rfl | rfl⟩ := sync_ends stepped before after <;> exact truthful j here
    | streaming =>
      refine onward clean fun premature => ?_
      have before : ¬ m.Syncing := fun syncing =>
        clean (Machine.Passes.here watched.ran
          ⟨by simp only [here, ne_eq, reduceCtorEq, not_false_eq_true], syncing⟩)
      obtain ⟨i, rfl⟩ := sync_begins stepped before premature.2
      exact truthful j here
    | done => exact onward clean fun premature => premature.1 (same.trans here)

/-- In every run in which the flag tells the truth to the requests looked at, no
resync begins while a snapshot is streamed and no sync ends while a request
waits: a requester that receives the end marker was served by a node that at no
moment since the request was waiting for a sync of its own or in the middle of
one. -/
theorem snapshot_from_synced (mid final : Sync ι κ) (j : κ) (rest : List (SyncMove ι κ))
    (truthful : Machine.Guarded step Truthful mid (.serve j .request :: rest))
    (ran : Machine.run step mid (.serve j .request :: rest) = some final)
    (sent : final.serve j = .done) :
    ¬ Machine.Passes step mid (.serve j .request :: rest)
      fun moment => moment.serve j ≠ .done ∧ moment.Syncing := by
  obtain ⟨next, stepped, later⟩ := Machine.run_cons.mp ran
  have requested : next.serve j = .requested ∧ (mid.Syncing → next.Syncing) := by
    simp only [step, Option.map_eq_some_iff] at stepped
    obtain ⟨phase, served, rfl⟩ := stepped
    refine ⟨?_, id⟩
    cases here : mid.serve j with rw [here] at served
    | none =>
      cases served
      exact Function.update_self ..
    | requested | refused | streaming | done | failed => cases served
  have started : Watched mid j [.serve j .request] next := by
    have first : Machine.run step mid [.serve j .request] = some next :=
      Machine.run_cons.mpr ⟨next, stepped, rfl⟩
    refine ⟨first, ?_⟩
    rw [requested.1]
    by_cases syncing : next.Syncing
    · exact .inr syncing
    · refine .inl fun passes => ?_
      have first' : Machine.run step mid ([] ++ [.serve j .request]) = some next := first
      rcases Machine.Passes.of_append first' passes with
        ⟨before, after, moment, split, at_mid, early⟩ | late
      · obtain ⟨rfl, rfl⟩ := List.append_eq_nil_iff.mp split.symm
        cases at_mid
        exact syncing (requested.2 early.2)
      · exact syncing late.2
  have watched : Watched mid j (.serve j .request :: rest) final :=
    Machine.guarded_history (fun moves m => Watched mid j (.serve j .request :: moves) m) started
      (fun _ _ _ _ watched truthful stepped => watched.step truthful stepped)
      (truthful.tail stepped) later
  have clean := watched.clean
  rw [sent] at clean
  exact clean

instance [Fintype ι] [Fintype κ] (m : Sync ι κ) (move : SyncMove ι κ) :
    Decidable (m.Truthful move) := by
  unfold Truthful
  split <;> infer_instance

/-- A request to a node that serves clients. -/
theorem serving_snapshot_synced : ∃ final,
    Machine.run step serving [.serve 0 .request, .enter 0 false, .serve 0 .test,
        .serve 0 (.finish true), .call 0 .cas] = some final
      ∧ final.serve 0 = .done
      ∧ ¬ Machine.Passes step serving [.serve 0 .request, .enter 0 false, .serve 0 .test,
        .serve 0 (.finish true), .call 0 .cas]
          fun moment => moment.serve 0 ≠ .done ∧ moment.Syncing := by
  refine ⟨_, Machine.ran (by decide +kernel), by decide +kernel, ?_⟩
  exact snapshot_from_synced serving _ 0 _ (by decide +kernel) (Machine.ran (by decide +kernel))
    (by decide +kernel)

def firstFails : List (SyncMove (Fin 1) (Fin 1)) :=
  [.loop none (.check true false), .loop none .activate, .loop none (.attempted false),
    .loop none .deactivate, .loop none (.giveUp false)]

/-- While the node waits for its next attempt it serves its empty store as a
whole snapshot. -/
theorem snapshot_while_waiting : booting.Fresh ∧ ∃ mid final,
    Machine.run step booting (startFirst ++ firstFails) = some mid ∧ mid.Syncing
      ∧ Machine.run step mid [.serve 0 .request, .serve 0 .test, .serve 0 (.finish true)] = some final
      ∧ final.serve 0 = .done ∧ final.Syncing :=
  ⟨booting_fresh, _, _, rfl, by decide +kernel, rfl, rfl, by decide +kernel⟩

end Sync

end SuperCache
