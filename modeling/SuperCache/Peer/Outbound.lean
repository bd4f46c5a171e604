import SuperCache.Peer.TargetsCache

/-! # Events on their way to the links

`Replicate` puts an event into the queue of every chosen link, a writer per link
takes the events from its queue to the socket, links are torn down under way, and
`FinalizeGracefulShutdown` collects what is left into the spill file.  Each access
to shared state is a step of its own.

An event goes by the call that replicates it, and a link by its `linkSeq`.  Waits
with a time limit end at any time; the 500 ms after which a writer no longer drains
its queue are over from the step `deadline` on.
-/

namespace SuperCache

open Lib

/-- Where a call of `Replicate` stands.  `chosen` is what `replicationTargets`
returned, and `rest` the links the loop has not come to. -/
inductive ReplicateCall where
  | idle
  | choosing
  | sending (chosen rest : List Nat)
deriving DecidableEq

def ReplicateCall.chosen : ReplicateCall → List Nat
  | .sending chosen _ => chosen
  | _ => []

def ReplicateCall.rest : ReplicateCall → List Nat
  | .sending _ rest => rest
  | _ => []

/-- Where `outboundReplWriter` stands: in one of its two loops, in
`flushOutboundReplLine` with a frame of one of them, or not running. -/
inductive LinkWriter (ι : Type) where
  | serving
  | draining
  | drainSelect
  | writing (frame : ι) (drains : Bool)
  | exited
deriving DecidableEq

def LinkWriter.holds {ι : Type} : LinkWriter ι → Option ι
  | .writing frame _ => some frame
  | _ => none

/-- The part of an `outPeer` that changes; `broken` is a closed connection or a
buffered writer that has failed. -/
structure LinkState (ι : Type) where
  replCh : List ι := []
  writer : LinkWriter ι := .exited
  cancelled : Bool := false
  expired : Bool := false
  broken : Bool := false

inductive LinkMove where
  | take
  | done
  | drainCheck
  | drainTake
  | deadline
  | cancelSession

namespace LinkState

variable {ι : Type}

/-- `outboundReplWriter` between two frames.  The select of the first loop may
choose either way once the session is cancelled. -/
def step (state : LinkState ι) : LinkMove → Option (LinkState ι)
  | .take =>
    match state.writer, state.replCh with
    | .serving, frame :: rest => some { state with replCh := rest, writer := .writing frame false }
    | _, _ => none
  | .done =>
    match state.writer, state.cancelled with
    | .serving, true => some { state with writer := .draining }
    | _, _ => none
  | .drainCheck =>
    match state.writer with
    | .draining =>
      if state.replCh ≠ [] ∧ state.expired = false then some { state with writer := .drainSelect }
      else some { state with writer := .exited }
    | _ => none
  | .drainTake =>
    match state.writer, state.replCh with
    | .drainSelect, frame :: rest =>
      some { state with replCh := rest, writer := .writing frame true }
    | .drainSelect, [] => some { state with writer := .draining }
    | _, _ => none
  | .deadline => some { state with expired := true }
  | .cancelSession => some { state with cancelled := true }

end LinkState

/-! ## Teardown and shutdown -/

inductive TeardownStep where
  | cancelSession
  | replStop
  | closeConn
  | unregisterLink
  | awaitWriter
deriving DecidableEq

inductive Teardown where
  | sessionEnd (l : Nat)
  | stopInboundReplLink (l : Nat)
  | closeActiveConnections

/-- What each way to tear links down does, one step after the other; `out` are the
links that are registered when it begins. -/
def Teardown.steps (out : List Nat) : Teardown → List (Nat × TeardownStep)
  | .sessionEnd l =>
    [(l, .cancelSession), (l, .replStop), (l, .closeConn), (l, .unregisterLink)]
  | .stopInboundReplLink l =>
    [(l, .replStop), (l, .unregisterLink), (l, .cancelSession), (l, .awaitWriter)]
  | .closeActiveConnections =>
    out.flatMap fun l => [(l, .cancelSession), (l, .closeConn)]

inductive ShutdownPhase where
  | idle
  | visiting
  | cancelled
  | waited
  | returned
deriving DecidableEq

/-- `FinalizeGracefulShutdown`: the links still to visit, the one at hand first, and
what has been collected. -/
structure Shutdown (ι : Type) where
  phase : ShutdownPhase := .idle
  peers : List Nat := []
  pending : List (ι × Nat) := []

inductive ShutdownMove where
  | start
  | cancel
  | waited
  | take
  | break_
  | write (succeeds : Bool)

/-! ## The machine -/

/-- How `flushOutboundReplLine` ends. -/
inductive FlushResult where
  | flushed
  | writeFailed
  | encodeFailed
deriving DecidableEq

/-- The links, the calls of `Replicate`, the goroutines that tear links down, and
what has become of each event on each link. -/
structure Outbound (ι κ : Type) where
  mesh : Mesh ι
  linkSeq : Nat
  depth : Nat
  link : Nat → LinkState ι
  call : ι → ReplicateCall
  teardown : κ → List (Nat × TeardownStep)
  shutdown : Shutdown ι
  flushed : List (ι × Nat)
  dropped : List (ι × Nat)
  sendErrors : List (ι × Nat)
  spilled : List (ι × Nat)

/-- The steps of `replicationTargets`. -/
inductive TargetsMove where
  | loadGen
  | loadCache
  | compute
  | storeCache

def TargetsMove.of {ι : Type} (i : ι) : TargetsMove → MeshMove ι
  | .loadGen => .loadGen i
  | .loadCache => .loadCache i
  | .compute => .compute i
  | .storeCache => .storeCache i

inductive OutboundMove (ι κ : Type) where
  | registerOut (addr remoteID : Bytes) (inbound : Bool)
  | replicate (i : ι)
  | targets (i : ι) (move : TargetsMove)
  | chosen (i : ι)
  | enqueue (i : ι)
  | writer (l : Nat) (move : LinkMove)
  | flush (l : Nat) (result : FlushResult)
  | startTeardown (t : κ) (what : Teardown)
  | teardown (t : κ)
  | shutdown (move : ShutdownMove)

namespace Outbound

variable {ι κ : Type}

/-- The links in `s.out`. -/
def registered (o : Outbound ι κ) : List Nat :=
  o.mesh.out.map OutPeer.linkSeq

def setLink (o : Outbound ι κ) (l : Nat) (state : LinkState ι) : Outbound ι κ :=
  { o with link := Function.update o.link l state }

def replStop (o : Outbound ι κ) (l : Nat) : Outbound ι κ :=
  { o with
    mesh.out := o.mesh.out.map fun p => if p.linkSeq = l then { p with replStop := true } else p }

def unregisterLink (o : Outbound ι κ) (l : Nat) : Outbound ι κ :=
  { o with mesh := o.mesh.changed (o.mesh.out.filter fun p => p.linkSeq ≠ l) }

def teardownStep (o : Outbound ι κ) (l : Nat) : TeardownStep → Outbound ι κ
  | .cancelSession => o.setLink l { o.link l with cancelled := true }
  | .replStop => o.replStop l
  | .closeConn => o.setLink l { o.link l with broken := true }
  | .unregisterLink => o.unregisterLink l
  | .awaitWriter => o

def shutdownStep (o : Outbound ι κ) : ShutdownMove → Option (Outbound ι κ)
  | .start =>
    -- the wait for empty queues before this ends with them or with the context
    match o.shutdown.phase with
    | .idle => some { o with shutdown := { phase := .visiting, peers := o.registered } }
    | _ => none
  | .cancel =>
    match o.shutdown.phase, o.shutdown.peers with
    | .visiting, l :: _ =>
      some { o.setLink l { o.link l with cancelled := true } with shutdown.phase := .cancelled }
    | _, _ => none
  | .waited =>
    match o.shutdown.phase with
    | .cancelled => some { o with shutdown.phase := .waited }
    | _ => none
  | .take =>
    match o.shutdown.phase, o.shutdown.peers with
    | .waited, l :: _ =>
      match (o.link l).replCh with
      | frame :: rest =>
        some { o.setLink l { o.link l with replCh := rest } with
          shutdown.pending := o.shutdown.pending ++ [(frame, l)] }
      | [] => none
    | _, _ => none
  | .break_ =>
    match o.shutdown.phase, o.shutdown.peers with
    | .waited, l :: peers =>
      match (o.link l).replCh with
      | [] => some { o with shutdown.phase := .visiting, shutdown.peers := peers }
      | _ :: _ => none
    | _, _ => none
  | .write succeeds =>
    match o.shutdown.phase, o.shutdown.peers with
    | .visiting, [] =>
      some { o with
        shutdown := { phase := .returned }
        spilled := if succeeds then o.spilled ++ o.shutdown.pending else o.spilled }
    | _, _ => none

/-- `flushOutboundReplLine` with the frame in hand. -/
def flushStep (o : Outbound ι κ) (l : Nat) (result : FlushResult) : Option (Outbound ι κ) :=
  match (o.link l).writer with
  | .writing frame drains =>
    let back := { o.link l with writer := if drains then .draining else .serving }
    match result with
    | .flushed =>
      if back.broken then none
      else some { o.setLink l back with flushed := o.flushed ++ [(frame, l)] }
    | .writeFailed =>
      some { o.setLink l { back with broken := true } with
        sendErrors := o.sendErrors ++ [(frame, l)] }
    | .encodeFailed => some { o.setLink l back with sendErrors := o.sendErrors ++ [(frame, l)] }
  | _ => none

variable {o next : Outbound ι κ}

/-- What the end of `flushOutboundReplLine` can do. -/
inductive Flushes (o : Outbound ι κ) (l : Nat) (frame : ι) (writer : LinkWriter ι) :
    Outbound ι κ → Prop
  | flushed : Flushes o l frame writer
      { o.setLink l { o.link l with writer := writer } with flushed := o.flushed ++ [(frame, l)] }
  | failed (broken : Bool) : Flushes o l frame writer
      { o.setLink l { o.link l with writer := writer, broken := broken } with
        sendErrors := o.sendErrors ++ [(frame, l)] }

theorem flushStep_cases {l : Nat} {result : FlushResult}
    (stepped : o.flushStep l result = some next) :
    ∃ frame drains, (o.link l).writer = .writing frame drains
      ∧ Flushes o l frame (if drains then .draining else .serving) next := by
  revert stepped
  fun_cases flushStep o l result <;> rintro ⟨⟩
  · next writing _ _ => exact ⟨_, _, writing, .flushed⟩
  · next writing _ => exact ⟨_, _, writing, .failed true⟩
  · next writing _ => exact ⟨_, _, writing, .failed (o.link l).broken⟩

inductive Finalizes (o : Outbound ι κ) : ShutdownMove → Outbound ι κ → Prop
  | start (idle : o.shutdown.phase = .idle) :
      Finalizes o .start { o with shutdown := { phase := .visiting, peers := o.registered } }
  | cancel (l : Nat) (peers : List Nat) (visiting : o.shutdown.phase = .visiting)
      (here : o.shutdown.peers = l :: peers) :
      Finalizes o .cancel { o.setLink l { o.link l with cancelled := true } with
        shutdown.phase := .cancelled }
  | waited (cancelled : o.shutdown.phase = .cancelled) :
      Finalizes o .waited { o with shutdown.phase := .waited }
  | take (l : Nat) (peers : List Nat) (frame : ι) (rest : List ι)
      (waited : o.shutdown.phase = .waited) (here : o.shutdown.peers = l :: peers)
      (queue : (o.link l).replCh = frame :: rest) :
      Finalizes o .take { o.setLink l { o.link l with replCh := rest } with
        shutdown.pending := o.shutdown.pending ++ [(frame, l)] }
  | break_ (l : Nat) (peers : List Nat) (waited : o.shutdown.phase = .waited)
      (here : o.shutdown.peers = l :: peers) (empty : (o.link l).replCh = []) :
      Finalizes o .break_ { o with shutdown.phase := .visiting, shutdown.peers := peers }
  | write (succeeds : Bool) (visiting : o.shutdown.phase = .visiting)
      (all : o.shutdown.peers = []) :
      Finalizes o (.write succeeds) { o with
        shutdown := { phase := .returned }
        spilled := if succeeds then o.spilled ++ o.shutdown.pending else o.spilled }

theorem shutdownStep_cases {move : ShutdownMove} (stepped : o.shutdownStep move = some next) :
    Finalizes o move next := by
  revert stepped
  fun_cases shutdownStep o move <;> rintro ⟨⟩
  · next idle => exact .start idle
  · next l peers here visiting => exact .cancel l peers visiting here
  · next cancelled => exact .waited cancelled
  · next l peers here waited frame rest queue => exact .take l peers frame rest waited here queue
  · next l peers here waited empty => exact .break_ l peers waited here empty
  · next succeeds all visiting => exact .write succeeds visiting all

variable [DecidableEq ι]

def setCall (o : Outbound ι κ) (i : ι) (phase : ReplicateCall) : Outbound ι κ :=
  { o with call := Function.update o.call i phase }

/-- One round of the loop of `Replicate`. -/
def enqueue (o : Outbound ι κ) (i : ι) : Option (Outbound ι κ) :=
  match o.call i with
  | .sending chosen (l :: rest) =>
    let sent := o.setCall i (.sending chosen rest)
    if (o.link l).replCh.length < o.depth then
      some (sent.setLink l { o.link l with replCh := (o.link l).replCh ++ [i] })
    else some { sent with dropped := o.dropped ++ [(i, l)] }
  | _ => none

/-- What a round of the loop of `Replicate` can do. -/
inductive Enqueues (o : Outbound ι κ) (i : ι) (chosen : List Nat) (l : Nat) (rest : List Nat) :
    Outbound ι κ → Prop
  | queued (room : (o.link l).replCh.length < o.depth) :
      Enqueues o i chosen l rest ((o.setCall i (.sending chosen rest)).setLink l
        { o.link l with replCh := (o.link l).replCh ++ [i] })
  | dropped (full : ¬ (o.link l).replCh.length < o.depth) :
      Enqueues o i chosen l rest
        { o.setCall i (.sending chosen rest) with dropped := o.dropped ++ [(i, l)] }

theorem enqueue_cases {i : ι} (stepped : o.enqueue i = some next) :
    ∃ chosen l rest, o.call i = .sending chosen (l :: rest) ∧ Enqueues o i chosen l rest next := by
  revert stepped
  fun_cases enqueue o i <;> rintro ⟨⟩
  · next sending _ room => exact ⟨_, _, _, sending, .queued room⟩
  · next sending _ full => exact ⟨_, _, _, sending, .dropped full⟩

variable [DecidableEq κ]

def step (o : Outbound ι κ) : OutboundMove ι κ → Option (Outbound ι κ)
  | .registerOut addr remoteID inbound =>
    let l := o.linkSeq + 1
    some { o.setLink l { writer := .serving } with
      mesh := o.mesh.changed (o.mesh.out ++ [{ addr, remoteID, inbound, linkSeq := l }])
      linkSeq := l }
  | .replicate i => if o.call i = .idle then some (o.setCall i .choosing) else none
  | .targets i move =>
    if o.call i = .choosing then (o.mesh.step (move.of i)).map fun mesh => { o with mesh }
    else none
  | .chosen i =>
    match o.call i, o.mesh.call i with
    | .choosing, .returned links =>
      some (o.setCall i (.sending (links.map OutPeer.linkSeq) (links.map OutPeer.linkSeq)))
    | _, _ => none
  | .enqueue i => o.enqueue i
  | .writer l move => ((o.link l).step move).map (o.setLink l)
  | .flush l result => o.flushStep l result
  | .startTeardown t what =>
    if o.teardown t = [] then
      some { o with teardown := Function.update o.teardown t (what.steps o.registered) }
    else none
  | .teardown t =>
    match o.teardown t with
    | (l, first) :: rest =>
      some { o.teardownStep l first with teardown := Function.update o.teardown t rest }
    | [] => none
  | .shutdown move => o.shutdownStep move

/-- What a step can do. -/
inductive Stepped (o : Outbound ι κ) : OutboundMove ι κ → Outbound ι κ → Prop
  | registerOut (addr remoteID : Bytes) (inbound : Bool) : Stepped o (.registerOut addr remoteID inbound)
      { o.setLink (o.linkSeq + 1) { writer := .serving } with
        mesh := o.mesh.changed (o.mesh.out ++ [{ addr, remoteID, inbound, linkSeq := o.linkSeq + 1 }])
        linkSeq := o.linkSeq + 1 }
  | replicate (i : ι) (idle : o.call i = .idle) : Stepped o (.replicate i) (o.setCall i .choosing)
  | targets (i : ι) (move : TargetsMove) (mesh : Mesh ι)
      (moved : o.mesh.step (move.of i) = some mesh) : Stepped o (.targets i move) { o with mesh }
  | chosen (i : ι) (links : List OutPeer) (choosing : o.call i = .choosing)
      (returned : o.mesh.call i = .returned links) : Stepped o (.chosen i)
        (o.setCall i (.sending (links.map OutPeer.linkSeq) (links.map OutPeer.linkSeq)))
  | enqueue (i : ι) (next : Outbound ι κ) (enqueued : o.enqueue i = some next) :
      Stepped o (.enqueue i) next
  | writer (l : Nat) (move : LinkMove) (state : LinkState ι)
      (moved : (o.link l).step move = some state) : Stepped o (.writer l move) (o.setLink l state)
  | flush (l : Nat) (result : FlushResult) (next : Outbound ι κ)
      (flushed : o.flushStep l result = some next) : Stepped o (.flush l result) next
  | startTeardown (t : κ) (what : Teardown) : Stepped o (.startTeardown t what)
      { o with teardown := Function.update o.teardown t (what.steps o.registered) }
  | teardown (t : κ) (l : Nat) (first : TeardownStep) (rest : List (Nat × TeardownStep))
      (steps : o.teardown t = (l, first) :: rest) : Stepped o (.teardown t)
        { o.teardownStep l first with teardown := Function.update o.teardown t rest }
  | shutdown (move : ShutdownMove) (next : Outbound ι κ) (moved : o.shutdownStep move = some next) :
      Stepped o (.shutdown move) next

theorem step_cases {move : OutboundMove ι κ} (stepped : o.step move = some next) :
    Stepped o move next := by
  revert stepped
  fun_cases step o move <;> intro stepped
  case case4 =>
    obtain ⟨mesh, moved, rfl⟩ := Option.map_eq_some_iff.mp stepped
    exact .targets _ _ mesh moved
  case case8 => exact .enqueue _ next stepped
  case case9 =>
    obtain ⟨state, moved, rfl⟩ := Option.map_eq_some_iff.mp stepped
    exact .writer _ _ state moved
  case case10 => exact .flush _ _ next stepped
  case case15 => exact .shutdown _ next stepped
  all_goals cases stepped
  · exact .registerOut ..
  · next idle => exact .replicate _ idle
  · next returned choosing => exact .chosen _ _ choosing returned
  · exact .startTeardown ..
  · next steps => exact .teardown _ _ _ _ steps

structure Fresh (o : Outbound ι κ) : Prop where
  out : o.mesh.out = []
  cache : o.mesh.targetsCache = none
  choices : ∀ i, o.mesh.call i = .idle
  link : ∀ l, o.link l = {}
  calls : ∀ i, o.call i = .idle
  shutdown : o.shutdown = {}
  records : o.flushed = [] ∧ o.dropped = [] ∧ o.sendErrors = [] ∧ o.spilled = []

end Outbound

end SuperCache
