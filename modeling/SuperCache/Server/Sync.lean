import Mathlib.Data.Fintype.Option
import SuperCache.Lib.GoTime
import SuperCache.Lib.Machine

/-! # The life cycle of a node's synchronisation

`Run` starts a first sync loop, `RequestResync` starts further ones after a
confirmed loss, and the ticks of `runResyncDeferred` repeat a request that was
put off.  Each loop (`bootstrapUntilSynced`) makes attempts until one succeeds;
meanwhile the node may be asked for a snapshot of its own.  Every access to an
atomic variable is a step of its own.
-/

namespace SuperCache

open Lib

/-- Where `Run` stands.  Whether it will find a snapshot source or discovery to
wait for (`sync`) is fixed beforehand. -/
inductive Startup where
  | starting (sync : Bool)
  | chosen
  | done
deriving DecidableEq

/-- Where a call of `RequestResync` stands, named by what it does next. -/
inductive CallPhase where
  | idle
  /-- The compare-and-swap of `resyncing`. -/
  | begun
  /-- `resyncing` was taken: `resyncPending.Store(true)`. -/
  | busy
  /-- The rate limit. -/
  | claimed
  /-- Too early: `resyncing.Store(false)`. -/
  | limited
  /-- `resyncPending.Store(true)`. -/
  | deferring
  /-- `runContext()`. -/
  | admitted (now : Time)
  /-- There is no context: `resyncing.Store(false)`. -/
  | stranded
  /-- `lastResync.Store(now.UnixMilli())`. -/
  | stamping (now : Time)
  /-- `resyncPending.Store(false)`. -/
  | clearing
  /-- `clientReady.Store(false)`. -/
  | closing
  /-- The `go` statement. -/
  | launching
  | returned
deriving DecidableEq

inductive LoopPhase where
  | off
  /-- The candidates. -/
  | checking
  /-- `SetBootstrapInboundActive(true, depth)`. -/
  | activating
  /-- The pull and the drain. -/
  | attempting
  /-- `SetBootstrapInboundActive(false, 0)`. -/
  | deactivating (ok : Bool)
  /-- What to make of the error. -/
  | failed
  /-- The wait for discovery or before the next attempt. -/
  | waiting
  /-- `clientReady.Store(true)`. -/
  | finishing
  /-- The deferred `resyncing.Store(false)`. -/
  | ended
  | released
deriving DecidableEq

inductive ServePhase where
  | none
  /-- Sent, and not yet looked at. -/
  | requested
  | refused
  | streaming
  /-- The end marker has been sent. -/
  | done
  | failed
deriving DecidableEq

inductive RequestMove where
  | cas
  | defer
  | rate (now : Time)
  | unlock
  | context
  | stamp
  | clear
  | close

inductive LoopMove where
  | check (found listed : Bool)
  | activate
  | attempted (ok : Bool)
  | deactivate
  | giveUp (founder : Bool)
  | wake
  | serve
  | quit

inductive ServeMove where
  | request
  | test
  | finish (ok : Bool)

inductive SyncMove (ι κ : Type) where
  | setRunContext
  | setRequester
  | decide
  | launchInitial
  | cancel
  | tick
  | enter (i : ι) (deferred : Bool)
  | call (i : ι) (move : RequestMove)
  | launch (i : ι)
  | loop (l : Option ι) (move : LoopMove)
  | release (i : ι)
  | serve (j : κ) (move : ServeMove)

structure SyncFlags where
  resyncing : Bool
  resyncPending : Bool
  lastResync : Int
  clientReady : Bool
  bootstrapActive : Bool

/-- A server with its calls, its loops (`none` is the first one, `some i` the one
the call `i` starts) and the requests it serves. -/
structure Sync (ι κ : Type) where
  resyncOnGapEnabled : Bool
  resyncMinInterval : Int
  startup : Startup
  runCtx : Bool
  requester : Bool
  cancelled : Bool
  /-- The deferred tick has found a request pending. -/
  ticked : Bool
  flags : SyncFlags
  call : ι → CallPhase
  loop : Option ι → LoopPhase
  serve : κ → ServePhase

/-- One step of `RequestResync` after it has begun, up to the `go` statement. -/
def requestStep (resyncMinInterval : Int) (runCtx : Bool) (flags : SyncFlags) :
    CallPhase → RequestMove → Option (CallPhase × SyncFlags)
  | .begun, .cas =>
    if flags.resyncing then some (.busy, flags)
    else some (.claimed, { flags with resyncing := true })
  | .busy, .defer | .deferring, .defer =>
    some (.returned, { flags with resyncPending := true })
  | .claimed, .rate now =>
    let last := flags.lastResync
    if last ≠ 0 ∧ untilTime (timeUnixMilli last) now < seconds resyncMinInterval then
      some (.limited, flags)
    else some (.admitted now, flags)
  | .limited, .unlock => some (.deferring, { flags with resyncing := false })
  | .stranded, .unlock => some (.returned, { flags with resyncing := false })
  | .admitted now, .context => some (if runCtx then .stamping now else .stranded, flags)
  | .stamping now, .stamp => some (.clearing, { flags with lastResync := unixMilli now })
  | .clearing, .clear => some (.closing, { flags with resyncPending := false })
  | .closing, .close => some (.launching, { flags with clientReady := false })
  | _, _ => none

/-- One step of `bootstrapUntilSynced`. -/
def loopStep (cancelled : Bool) (flags : SyncFlags) :
    LoopPhase → LoopMove → Option (LoopPhase × SyncFlags)
  | .checking, .check found listed =>
    some (if found then .activating else if listed then .finishing else .waiting, flags)
  | .activating, .activate => some (.attempting, { flags with bootstrapActive := true })
  | .attempting, .attempted ok => some (.deactivating ok, flags)
  | .deactivating ok, .deactivate =>
    some (if ok then .finishing else .failed, { flags with bootstrapActive := false })
  | .failed, .giveUp founder => some (if founder then .finishing else .waiting, flags)
  | .waiting, .wake => some (.checking, flags)
  | .finishing, .serve => some (.ended, { flags with clientReady := true })
  | .checking, .quit | .failed, .quit | .waiting, .quit =>
    if cancelled then some (.ended, flags) else none
  | _, _ => none

def serveStep (flags : SyncFlags) : ServePhase → ServeMove → Option ServePhase
  | .none, .request => some .requested
  | .requested, .test => some (if flags.bootstrapActive then .refused else .streaming)
  | .streaming, .finish ok => some (if ok then .done else .failed)
  | _, _ => none

namespace Sync

variable {ι κ : Type} [DecidableEq ι] [DecidableEq κ]

def setCall (m : Sync ι κ) (i : ι) (phase : CallPhase) : Sync ι κ :=
  { m with call := Function.update m.call i phase }

def setLoop (m : Sync ι κ) (l : Option ι) (phase : LoopPhase) : Sync ι κ :=
  { m with loop := Function.update m.loop l phase }

def setReady (m : Sync ι κ) (ready : Bool) : Sync ι κ :=
  { m with flags := { m.flags with clientReady := ready } }

def step (m : Sync ι κ) : SyncMove ι κ → Option (Sync ι κ)
  | .setRunContext => if m.runCtx then none else some { m with runCtx := true }
  | .setRequester => if m.runCtx then some { m with requester := true } else none
  | .decide =>
    match m.startup with
    | .starting sync =>
      if m.requester then
        some (if sync then { m.setReady false with startup := .chosen }
          else { m.setReady true with startup := .done })
      else none
    | _ => none
  | .launchInitial =>
    match m.startup with
    | .chosen => some { m.setLoop none .checking with startup := .done }
    | _ => none
  | .cancel => some { m with cancelled := true }
  | .tick => if m.requester then some { m with ticked := m.flags.resyncPending } else none
  | .enter i deferred =>
    match m.call i with
    | .idle =>
      if m.requester ∧ (deferred → m.ticked) then
        some { m.setCall i (if m.resyncOnGapEnabled then .begun else .returned) with
          ticked := m.ticked && !deferred }
      else none
    | _ => none
  | .call i move =>
    (requestStep m.resyncMinInterval m.runCtx m.flags (m.call i) move).map fun next =>
      { m.setCall i next.1 with flags := next.2 }
  | .launch i =>
    match m.call i with
    | .launching => some ((m.setCall i .returned).setLoop (some i) .checking)
    | _ => none
  | .loop l move =>
    (loopStep m.cancelled m.flags (m.loop l) move).map fun next =>
      { m.setLoop l next.1 with flags := next.2 }
  | .release i =>
    match m.loop (some i) with
    | .ended =>
      some { m.setLoop (some i) .released with flags := { m.flags with resyncing := false } }
    | _ => none
  | .serve j move =>
    (serveStep m.flags (m.serve j) move).map fun next =>
      { m with serve := Function.update m.serve j next }

variable {m next : Sync ι κ} {move : SyncMove ι κ}

/-- What a step can do.  The moves of `aside` touch neither the flags nor a call or a loop. -/
inductive Stepped (m : Sync ι κ) : SyncMove ι κ → Sync ι κ → Prop
  | aside (move : SyncMove ι κ) (next : Sync ι κ) (calls : next.call = m.call)
    (loops : next.loop = m.loop) (startup : next.startup = m.startup)
    (flags : next.flags = m.flags) (context : m.runCtx = true → next.runCtx = true) :
    Stepped m move next
  | sync (starting : m.startup = .starting true) :
    Stepped m .decide { m.setReady false with startup := .chosen }
  | alone (starting : m.startup = .starting false) :
    Stepped m .decide { m.setReady true with startup := .done }
  | launchInitial (chosen : m.startup = .chosen) :
    Stepped m .launchInitial { m.setLoop none .checking with startup := .done }
  | enter (i : ι) (deferred : Bool) (idle : m.call i = .idle) :
    Stepped m (.enter i deferred)
      { m.setCall i (if m.resyncOnGapEnabled then .begun else .returned) with
        ticked := m.ticked && !deferred }
  | call (i : ι) (move : RequestMove) (phase : CallPhase) (flags : SyncFlags)
    (requested : requestStep m.resyncMinInterval m.runCtx m.flags (m.call i) move
      = some (phase, flags)) :
    Stepped m (.call i move) { m.setCall i phase with flags := flags }
  | launch (i : ι) (launching : m.call i = .launching) :
    Stepped m (.launch i) ((m.setCall i .returned).setLoop (some i) .checking)
  | loop (l : Option ι) (move : LoopMove) (phase : LoopPhase) (flags : SyncFlags)
    (looped : loopStep m.cancelled m.flags (m.loop l) move = some (phase, flags)) :
    Stepped m (.loop l move) { m.setLoop l phase with flags := flags }
  | release (i : ι) (ended : m.loop (some i) = .ended) :
    Stepped m (.release i)
      { m.setLoop (some i) .released with flags := { m.flags with resyncing := false } }

theorem stepped_of_step (stepped : m.step move = some next) : Stepped m move next := by
  revert stepped
  fun_cases step m move <;> intro stepped
  case case16 i move =>
    obtain ⟨⟨phase, flags⟩, requested, rfl⟩ := Option.map_eq_some_iff.mp stepped
    exact .call i move phase flags requested
  case case19 l move =>
    obtain ⟨⟨phase, flags⟩, looped, rfl⟩ := Option.map_eq_some_iff.mp stepped
    exact .loop l move phase flags looped
  case case22 =>
    obtain ⟨phase, -, rfl⟩ := Option.map_eq_some_iff.mp stepped
    exact .aside _ _ rfl rfl rfl rfl id
  all_goals cases stepped
  case case5 sync starting _ =>
    cases sync with
    | true => exact .sync starting
    | false => exact .alone starting
  case case8 chosen => exact .launchInitial chosen
  case case13 idle _ => exact .enter _ _ idle
  case case17 launching => exact .launch _ launching
  case case20 ended => exact .release _ ended
  case case2 => exact .aside _ _ rfl rfl rfl rfl fun _ => rfl
  all_goals exact .aside _ _ rfl rfl rfl rfl id

/-- A server that `Run` has not been called on. -/
structure Fresh (m : Sync ι κ) : Prop where
  starting : ∃ sync, m.startup = .starting sync
  free : m.flags.resyncing = false
  calls : ∀ i, m.call i = .idle
  loops : ∀ l, m.loop l = .off
  serves : ∀ j, m.serve j = .none

end Sync

end SuperCache
