import SuperCache.Lib.Machine
import SuperCache.Peer.Apply

/-! # Inbound replication

The goroutines that read the connections of a node hand each event to a shard,
chosen by its origin, and one worker per shard applies the events.  While the
node fetches a snapshot (`bootstrapOnce`) the workers put events in a buffer,
which is drained once the snapshot has been applied.  Every access to a channel,
to the flag, to the buffer and to the store is a step of its own.
-/

namespace SuperCache

open Lib

/-- A connection: the address events go by that name no origin, and whether this
node dialled it. -/
structure Conn where
  remote : Bytes
  dialled : Bool

/-- `inboundReplJob`, with the connection it came on. -/
structure Job (ι : Type) where
  conn : ι
  remote : Bytes
  wr : WireRepl

def inboundShardDepth : Nat := 1024

def inboundShardFor (n : Nat) (origin remote : Bytes) : Option (Fin n) :=
  let key := if trimSpace origin = [] then remote else trimSpace origin
  match n with
  | 0 => none
  | 1 => some ⟨0, Nat.one_pos⟩
  | n + 2 => some ⟨fnv1a key % (n + 2), Nat.mod_lt _ (Nat.succ_pos _)⟩

def WireRepl.isBootstrap (wr : WireRepl) : Bool :=
  match wr.payload.op with
  | .other name => toUpper name = ascii "BOOTSTRAP"
  | _ => false

inductive ReaderPhase where
  | reading
  | handing (wr : WireRepl)
  | closed

/-- Where a worker stands: `took` before it has tested the flag, then one of the
two branches. -/
inductive WorkerPhase (ι : Type) where
  | idle
  | took (job : Job ι)
  | buffering (job : Job ι)
  | applying (job : Job ι)

structure Buffered (ι : Type) (n : Nat) where
  worker : Fin n
  job : Job ι

/-- Where `bootstrapOnce` stands, and with it `bootstrapUntilSynced`. -/
inductive BootPhase (ι : Type) (n : Nat) where
  | off
  | armed
  | pulling
  | draining (round : Nat) (drained : Bool)
  | popped (round : Nat) (event : Buffered ι n)
  | closing (ok : Bool)
  | clearing (ok : Bool)
  | synced
  | ready

inductive StoreEvent (ι : Type) (n : Nat) where
  | applied (worker : Option (Fin n)) (job : Job ι) (now : Time)
  | flushed
  | entry (ent : SnapshotEntry) (now : Time)
  | snapshotDone

/-- What an event of the log does to the store. -/
def StoreEvent.exec {ι : Type} {n : Nat} (s : Store) : StoreEvent ι n → Store
  | .applied _ job now => (applyWireRepl s now job.wr).1
  | .flushed => s.flushDB
  | .entry ent now => (s.applySnapshotEntry now ent).1
  | .snapshotDone => s

structure Inbound (ι : Type) (n : Nat) where
  store : Store
  reader : ι → ReaderPhase
  inboundShards : Fin n → List (Job ι)
  worker : Fin n → WorkerPhase ι
  bootstrapActive : Bool
  bootstrapReplBuf : List (Buffered ι n)
  bootstrapMaxCap : Int
  boot : BootPhase ι n
  clientReady : Bool
  /-- The events each connection brought, in order. -/
  arrived : ι → List WireRepl
  /-- The events each worker took from its channel, in order. -/
  taken : Fin n → List (Job ι)
  log : List (StoreEvent ι n)

inductive InboundMove (ι : Type) (n : Nat) where
  | read (i : ι) (wr : WireRepl)
  | hand (i : ι) (now : Time)
  | take (k : Fin n)
  | test (k : Fin n)
  | buffer (k : Fin n)
  | apply (k : Fin n) (now : Time)
  | arm (maxCap : Int)
  | activate
  | flush
  | entry (ent : SnapshotEntry) (now : Time)
  | pulled
  | pullFailed
  | pop
  | drain (now : Time)
  | check
  | deactivate
  | clear
  | serve

namespace Inbound

variable {ι : Type} {n : Nat} [DecidableEq ι]

def setReader (m : Inbound ι n) (i : ι) (phase : ReaderPhase) : Inbound ι n :=
  { m with reader := Function.update m.reader i phase }

def setWorker (m : Inbound ι n) (k : Fin n) (phase : WorkerPhase ι) : Inbound ι n :=
  { m with worker := Function.update m.worker k phase }

def applyJob (m : Inbound ι n) (worker : Option (Fin n)) (job : Job ι) (now : Time) :
    Inbound ι n :=
  { m with
    store := (applyWireRepl m.store now job.wr).1
    log := m.log ++ [.applied worker job now] }

/-- `enqueueBootstrapRepl`: a full buffer drops the event. -/
def enqueueBootstrapRepl (m : Inbound ι n) (event : Buffered ι n) : Inbound ι n :=
  if max 1 m.bootstrapMaxCap ≤ m.bootstrapReplBuf.length then m
  else { m with bootstrapReplBuf := m.bootstrapReplBuf ++ [event] }

/-- The loops of the readers (`serveInbound`, `handleDuplexRepl`) and of the
workers. -/
def stepPeer (conns : ι → Conn) (m : Inbound ι n) : InboundMove ι n → Option (Inbound ι n)
  | .read i wr =>
    match m.reader i with
    | .reading =>
      -- an accepted connection serves the snapshot and ends
      if !(conns i).dialled && wr.isBootstrap then some (m.setReader i .closed)
      else some { m.setReader i (.handing wr) with
        arrived := Function.update m.arrived i (m.arrived i ++ [wr]) }
    | _ => none
  | .hand i now =>
    match m.reader i with
    | .handing wr =>
      let job : Job ι := { conn := i, remote := (conns i).remote, wr := wr }
      match inboundShardFor n wr.origin job.remote with
      | none => some ((m.applyJob none job now).setReader i .reading)
      | some k =>
        if (m.inboundShards k).length < inboundShardDepth then
          some { m.setReader i .reading with
            inboundShards := Function.update m.inboundShards k (m.inboundShards k ++ [job]) }
        else none
    | _ => none
  | .take k =>
    match m.worker k, m.inboundShards k with
    | .idle, job :: rest =>
      some { m.setWorker k (.took job) with
        inboundShards := Function.update m.inboundShards k rest
        taken := Function.update m.taken k (m.taken k ++ [job]) }
    | _, _ => none
  | .test k =>
    match m.worker k with
    | .took job =>
      some (m.setWorker k (if m.bootstrapActive then .buffering job else .applying job))
    | _ => none
  | .buffer k =>
    match m.worker k with
    | .buffering job =>
      some ((m.enqueueBootstrapRepl { worker := k, job := job }).setWorker k .idle)
    | _ => none
  | .apply k now =>
    match m.worker k with
    | .applying job => some ((m.applyJob (some k) job now).setWorker k .idle)
    | _ => none
  | _ => none

def afterRound (round : Nat) (drained : Bool) : BootPhase ι n :=
  if !drained then .closing true
  else if round + 1 < 500 then .draining (round + 1) false
  else .closing true

/-- `bootstrapOnce` and the end of `bootstrapUntilSynced`. -/
def stepBoot (m : Inbound ι n) : InboundMove ι n → Option (Inbound ι n)
  | .arm maxCap =>
    match m.boot with
    | .off => some { m with bootstrapMaxCap := max 1 maxCap, boot := .armed }
    | _ => none
  | .activate =>
    match m.boot with
    | .armed => some { m with bootstrapActive := true, boot := .pulling }
    | _ => none
  | .flush =>
    match m.boot with
    | .pulling => some { m with store := m.store.flushDB, log := m.log ++ [.flushed] }
    | _ => none
  | .entry ent now =>
    match m.boot with
    | .pulling =>
      some { m with
        store := (m.store.applySnapshotEntry now ent).1
        log := m.log ++ [.entry ent now] }
    | _ => none
  | .pulled =>
    match m.boot with
    | .pulling => some { m with boot := .draining 0 false, log := m.log ++ [.snapshotDone] }
    | _ => none
  | .pullFailed =>
    match m.boot with
    | .pulling => some { m with boot := .closing false }
    | _ => none
  | .pop =>
    match m.boot, m.bootstrapReplBuf with
    | .draining round _, event :: rest =>
      some { m with boot := .popped round event, bootstrapReplBuf := rest }
    | _, _ => none
  | .drain now =>
    match m.boot with
    | .popped round event =>
      some { m.applyJob (some event.worker) event.job now with
        boot :=
          match (applyWireRepl m.store now event.job.wr).2 with
          | .ok () => .draining round true
          | .error _ => .closing false }
    | _ => none
  | .check =>
    match m.boot, m.bootstrapReplBuf with
    | .draining round drained, [] => some { m with boot := afterRound round drained }
    | _, _ => none
  | .deactivate =>
    match m.boot with
    | .closing ok => some { m with bootstrapActive := false, boot := .clearing ok }
    | _ => none
  | .clear =>
    match m.boot with
    | .clearing ok =>
      some { m with bootstrapReplBuf := [], boot := if ok then .synced else .off }
    | _ => none
  | .serve =>
    match m.boot with
    | .synced => some { m with clientReady := true, boot := .ready }
    | _ => none
  | _ => none

def step (conns : ι → Conn) (m : Inbound ι n) (move : InboundMove ι n) : Option (Inbound ι n) :=
  (m.stepPeer conns move).or (m.stepBoot move)

end Inbound

end SuperCache
