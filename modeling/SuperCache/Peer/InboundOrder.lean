import SuperCache.Peer.Inbound

/-! # The order of inbound events

The events of one origin that come on one connection go to one shard, whose
channel is first in, first out and has one worker.  In every state the events
that have arrived are those applied, then those the worker and the channel hold,
then the one in the hand of the reader.
-/

namespace SuperCache

open Lib

variable {ι : Type} {n : Nat}

def WorkerPhase.held : WorkerPhase ι → List (Job ι)
  | .idle => []
  | .took job | .buffering job | .applying job => [job]

def WorkerPhase.isBuffering : WorkerPhase ι → Bool
  | .buffering _ => true
  | _ => false

def ReaderPhase.held : ReaderPhase → List WireRepl
  | .handing wr => [wr]
  | .reading | .closed => []

def StoreEvent.job : StoreEvent ι n → Option (Job ι)
  | .applied _ job _ => some job
  | _ => none

namespace Inbound

def inShard (m : Inbound ι n) : Option (Fin n) → List (Job ι)
  | none => []
  | some k => (m.worker k).held ++ m.inboundShards k

variable {k : Fin n} {i : ι} {phase : WorkerPhase ι} {now : Time}

theorem inShard_setWorker {m : Inbound ι n} (same : phase.held = (m.worker k).held)
    (s : Option (Fin n)) : (m.setWorker k phase).inShard s = m.inShard s := by
  cases s with
  | none => rfl
  | some k' =>
    by_cases here : k' = k
    · subst here
      simp only [inShard, setWorker, Function.update_self, same]
    · simp only [inShard, setWorker, Function.update_of_ne here]

theorem isBuffering_setWorker {m : Inbound ι n} (workers : ∀ k, (m.worker k).isBuffering = false)
    (applies : phase.isBuffering = false) (k' : Fin n) :
    ((m.setWorker k phase).worker k').isBuffering = false := by
  by_cases here : k' = k
  · subst here
    simp only [setWorker, Function.update_self]
    exact applies
  · simp only [setWorker, Function.update_of_ne here]
    exact workers k'

variable [DecidableEq ι]

def fromPeer (i : ι) (origin : Bytes) (jobs : List (Job ι)) : List WireRepl :=
  (jobs.filter fun job => job.conn = i ∧ job.wr.origin = origin).map Job.wr

def arrivedFrom (m : Inbound ι n) (i : ι) (origin : Bytes) : List WireRepl :=
  (m.arrived i).filter fun wr => wr.origin = origin

def appliedFrom (m : Inbound ι n) (i : ι) (origin : Bytes) : List WireRepl :=
  fromPeer i origin (m.log.filterMap StoreEvent.job)

structure Fresh (m : Inbound ι n) : Prop where
  inactive : m.bootstrapActive = false
  readers : ∀ i, m.reader i = .reading
  shards : ∀ k, m.inboundShards k = []
  workers : ∀ k, m.worker k = .idle
  arrived : ∀ i, m.arrived i = []
  log : m.log = []

structure Idle (m : Inbound ι n) : Prop where
  readers : ∀ i, (m.reader i).held = []
  shards : ∀ k, m.inboundShards k = []
  workers : ∀ k, (m.worker k).held = []

variable {conns : ι → Conn} {m next : Inbound ι n}

structure InOrder (conns : ι → Conn) (m : Inbound ι n) : Prop where
  inactive : m.bootstrapActive = false
  workers : ∀ k, (m.worker k).isBuffering = false
  routed : ∀ k, ∀ job ∈ m.inShard (some k),
    inboundShardFor n job.wr.origin (conns job.conn).remote = some k
  order : ∀ i origin, m.arrivedFrom i origin
    = m.appliedFrom i origin
      ++ fromPeer i origin (m.inShard (inboundShardFor n origin (conns i).remote))
      ++ (m.reader i).held.filter fun wr => wr.origin = origin

/-! ## The store and its log -/

/-- The store is what its log makes of `first`. -/
def Replays (first : Store) (m : Inbound ι n) : Prop :=
  m.store = m.log.foldl StoreEvent.exec first

variable {first : Store} {move : InboundMove ι n}

omit [DecidableEq ι] in
theorem Replays.logged (replays : m.Replays first) (event : StoreEvent ι n) :
    event.exec m.store = (m.log ++ [event]).foldl StoreEvent.exec first := by
  rw [List.foldl_append, ← replays]
  rfl

theorem Replays.stepPeer (replays : m.Replays first) (stepped : m.stepPeer conns move = some next) :
    next.Replays first := by
  revert stepped
  fun_cases Inbound.stepPeer conns m move <;> rintro ⟨⟩
  case case4 now _ _ _ _ => exact replays.logged (.applied none _ now)
  case case12 =>
    unfold enqueueBootstrapRepl
    split <;> exact replays
  case case14 k now _ _ => exact replays.logged (.applied (some k) _ now)
  all_goals exact replays

theorem fromPeer_append (i : ι) (origin : Bytes) (first second : List (Job ι)) :
    fromPeer i origin (first ++ second) = fromPeer i origin first ++ fromPeer i origin second := by
  unfold fromPeer
  rw [List.filter_append, List.map_append]

theorem fromPeer_nil (i : ι) (origin : Bytes) : fromPeer i origin ([] : List (Job ι)) = [] :=
  rfl

theorem fromPeer_single (i : ι) (origin : Bytes) (job : Job ι) :
    fromPeer i origin [job]
      = if job.conn = i ∧ job.wr.origin = origin then [job.wr] else [] := by
  unfold fromPeer
  by_cases mine : job.conn = i ∧ job.wr.origin = origin <;> simp [mine]

theorem fromPeer_elsewhere {origin : Bytes} {k : Option (Fin n)} {job : Job ι}
    (routed : inboundShardFor n job.wr.origin (conns job.conn).remote = k)
    (elsewhere : inboundShardFor n origin (conns i).remote ≠ k) : fromPeer i origin [job] = [] := by
  rw [fromPeer_single, if_neg]
  rintro ⟨rfl, rfl⟩
  exact elsewhere routed

theorem held_handing (i j : ι) (origin : Bytes) (remote : Bytes) (wr : WireRepl)
    (reader : ι → ReaderPhase) (handing : reader i = .handing wr) :
    ((reader j).held.filter fun wr => wr.origin = origin)
      = fromPeer j origin [{ conn := i, remote := remote, wr := wr }]
        ++ ((Function.update reader i .reading j).held.filter fun wr => wr.origin = origin) := by
  rw [fromPeer_single]
  by_cases own : j = i
  · subst own
    by_cases same : wr.origin = origin <;>
      simp [handing, ReaderPhase.held, same, Function.update_self]
  · rw [if_neg fun mine => own mine.1.symm, Function.update_of_ne own, List.nil_append]

theorem Fresh.inOrder (fresh : m.Fresh) : m.InOrder conns where
  inactive := fresh.inactive
  workers k := by
    rw [fresh.workers k]
    rfl
  routed k job member := by
    simp only [inShard, fresh.workers k, fresh.shards k, WorkerPhase.held] at member
    cases member
  order i origin := by
    have empty (k : Option (Fin n)) : m.inShard k = [] := by
      cases k with
      | none => rfl
      | some k => simp only [inShard, fresh.workers k, fresh.shards k, WorkerPhase.held]; rfl
    simp only [arrivedFrom, appliedFrom, fresh.arrived, fresh.log, fresh.readers, empty]
    rfl

/-! ## One step -/

theorem InOrder.close (inOrder : m.InOrder conns) (reading : m.reader i = .reading) :
    (m.setReader i .closed).InOrder conns := by
  refine { inOrder with order := fun j origin => ?_ }
  have before := inOrder.order j origin
  by_cases own : j = i
  · subst own
    rw [reading] at before
    simp only [setReader, Function.update_self]
    exact before
  · simp only [setReader, Function.update_of_ne own]
    exact before

theorem InOrder.read {wr : WireRepl} (inOrder : m.InOrder conns) (reading : m.reader i = .reading) :
    InOrder conns { m.setReader i (.handing wr) with
      arrived := Function.update m.arrived i (m.arrived i ++ [wr]) } := by
  refine { inOrder with order := fun j origin => ?_ }
  have before := inOrder.order j origin
  by_cases own : j = i
  · subst own
    rw [reading, ReaderPhase.held, List.filter_nil, List.append_nil] at before
    simp only [arrivedFrom, setReader, Function.update_self, List.filter_append]
    rw [← arrivedFrom, before]
    rfl
  · simp only [arrivedFrom, setReader, Function.update_of_ne own]
    exact before

theorem appliedFrom_applyJob (m : Inbound ι n) (worker : Option (Fin n)) (job : Job ι) (now : Time)
    (i : ι) (origin : Bytes) :
    (m.applyJob worker job now).appliedFrom i origin
      = m.appliedFrom i origin ++ fromPeer i origin [job] := by
  unfold appliedFrom applyJob
  simp only [List.filterMap_append, fromPeer_append]
  rfl

/-- Without workers the reader applies the event. -/
theorem InOrder.inline {wr : WireRepl} (inOrder : m.InOrder conns) (handing : m.reader i = .handing wr)
    (inline : inboundShardFor n wr.origin (conns i).remote = none) :
    ((m.applyJob none { conn := i, remote := (conns i).remote, wr := wr } now).setReader i
      .reading).InOrder conns := by
  refine { inOrder with order := fun j origin => ?_ }
  have none_waiting : fromPeer j origin [{ conn := i, remote := (conns i).remote, wr := wr }] = []
      ∨ m.inShard (inboundShardFor n origin (conns j).remote) = [] := by
    by_cases here : inboundShardFor n origin (conns j).remote = none
    · rw [here]
      exact .inr rfl
    · exact .inl (fromPeer_elsewhere inline here)
  have before := inOrder.order j origin
  rw [held_handing i j origin (conns i).remote wr m.reader handing] at before
  show m.arrivedFrom j origin = (m.applyJob none _ now).appliedFrom j origin
    ++ fromPeer j origin (m.inShard _) ++ _
  rw [appliedFrom_applyJob, before]
  obtain elsewhere | empty := none_waiting
  · simp only [elsewhere, List.append_nil, List.nil_append]
    rfl
  · simp only [empty, fromPeer_nil, List.append_nil, List.append_assoc]
    rfl

theorem InOrder.hand {wr : WireRepl} (inOrder : m.InOrder conns) (handing : m.reader i = .handing wr)
    (routed : inboundShardFor n wr.origin (conns i).remote = some k) :
    InOrder conns { m.setReader i .reading with
      inboundShards := Function.update m.inboundShards k (m.inboundShards k
        ++ [{ conn := i, remote := (conns i).remote, wr := wr }]) } := by
  have shards (s : Option (Fin n)) (j : ι) (origin : Bytes)
      (s_eq : inboundShardFor n origin (conns j).remote = s) :
      fromPeer j origin (inShard { m.setReader i .reading with
          inboundShards := Function.update m.inboundShards k (m.inboundShards k
            ++ [{ conn := i, remote := (conns i).remote, wr := wr }]) } s)
        = fromPeer j origin (m.inShard s)
          ++ fromPeer j origin [{ conn := i, remote := (conns i).remote, wr := wr }] := by
    by_cases here : s = some k
    · rw [here, ← fromPeer_append]
      simp only [inShard, Function.update_self, List.append_assoc]
      rfl
    · rw [fromPeer_elsewhere routed (s_eq ▸ here), List.append_nil]
      cases s with
      | none => rfl
      | some k' =>
        have other : k' ≠ k := fun same => here (congrArg some same)
        simp only [inShard, Function.update_of_ne other]
        rfl
  refine { inOrder with routed := fun k' job member => ?_, order := fun j origin => ?_ }
  · by_cases here : k' = k
    · subst here
      simp only [inShard, Function.update_self, ← List.append_assoc] at member
      rcases List.mem_append.mp member with before | last
      · exact inOrder.routed k' job before
      · rw [List.mem_singleton.mp last]
        exact routed
    · simp only [inShard, Function.update_of_ne here] at member
      exact inOrder.routed k' job member
  · have before := inOrder.order j origin
    rw [held_handing i j origin (conns i).remote wr m.reader handing] at before
    show m.arrivedFrom j origin = m.appliedFrom j origin ++ _ ++ _
    rw [before, shards _ j origin rfl]
    simp only [setReader, List.append_assoc]

/-- A step of a worker that leaves in its shard what was there. -/
theorem InOrder.of_shards (inOrder : m.InOrder conns) (inactive : next.bootstrapActive = false)
    (workers : ∀ k, (next.worker k).isBuffering = false) (same : ∀ s, next.inShard s = m.inShard s)
    (arrived : next.arrived = m.arrived) (log : next.log = m.log) (reader : next.reader = m.reader) :
    next.InOrder conns where
  inactive := inactive
  workers := workers
  routed k' job member := inOrder.routed k' job (same _ ▸ member)
  order i origin := by
    unfold arrivedFrom appliedFrom
    rw [same, arrived, log, reader]
    exact inOrder.order i origin

theorem InOrder.take {job : Job ι} {rest : List (Job ι)} (inOrder : m.InOrder conns)
    (idle : m.worker k = .idle) (channel : m.inboundShards k = job :: rest) :
    InOrder conns { m.setWorker k (.took job) with
      inboundShards := Function.update m.inboundShards k rest
      taken := Function.update m.taken k (m.taken k ++ [job]) } := by
  refine inOrder.of_shards inOrder.inactive (isBuffering_setWorker inOrder.workers rfl) ?_ rfl rfl rfl
  intro s
  cases s with
  | none => rfl
  | some k' =>
    by_cases here : k' = k
    · subst here
      simp only [inShard, setWorker, Function.update_self, idle, channel]
      rfl
    · simp only [inShard, setWorker, Function.update_of_ne here]

theorem InOrder.apply {job : Job ι} (inOrder : m.InOrder conns) (applying : m.worker k = .applying job) :
    ((m.applyJob (some k) job now).setWorker k .idle).InOrder conns := by
  have head (s : Option (Fin n)) : m.inShard s
      = (if s = some k then [job] else [])
        ++ ((m.applyJob (some k) job now).setWorker k .idle).inShard s := by
    cases s with
    | none => rfl
    | some k' =>
      by_cases here : k' = k
      · subst here
        simp only [inShard, setWorker, applyJob, Function.update_self, applying, if_pos]
        rfl
      · simp only [inShard, setWorker, applyJob, Function.update_of_ne here,
          Option.some.injEq, here, if_false, List.nil_append]
  have routed : inboundShardFor n job.wr.origin (conns job.conn).remote = some k := by
    refine inOrder.routed k job ?_
    rw [head, if_pos rfl]
    exact List.mem_cons_self
  refine { inOrder with
    workers := isBuffering_setWorker (m := m.applyJob (some k) job now) inOrder.workers rfl
    routed := fun k' job' member => ?_
    order := fun i origin => ?_ }
  · refine inOrder.routed k' job' ?_
    rw [head]
    exact List.mem_append_right _ member
  · have before := inOrder.order i origin
    show m.arrivedFrom i origin = (m.applyJob (some k) job now).appliedFrom i origin ++ _ ++ _
    rw [appliedFrom_applyJob, before, head, fromPeer_append]
    by_cases here : inboundShardFor n origin (conns i).remote = some k
    · rw [if_pos here]
      simp only [List.append_assoc]
      rfl
    · rw [if_neg here, fromPeer_elsewhere routed here, fromPeer_nil, List.append_nil]
      rfl

theorem InOrder.step {move : InboundMove ι n} (inOrder : m.InOrder conns)
    (stepped : m.stepPeer conns move = some next) : next.InOrder conns := by
  revert stepped
  fun_cases Inbound.stepPeer conns m move <;> rintro ⟨⟩
  · next reading _ => exact inOrder.close reading
  · next reading _ => exact inOrder.read reading
  · next handing _ inline => exact inOrder.inline handing inline
  · next handing _ _ routed _ => exact inOrder.hand handing routed
  · next channel idle => exact inOrder.take idle channel
  · next k job took =>
    rw [inOrder.inactive, if_neg Bool.false_ne_true]
    exact inOrder.of_shards inOrder.inactive (isBuffering_setWorker inOrder.workers rfl)
      (inShard_setWorker (by rw [took]; rfl)) rfl rfl rfl
  · next k job buffering =>
    have here := inOrder.workers k
    rw [buffering] at here
    cases here
  · next applying => exact inOrder.apply applying

/-- Whatever the number of shards and the interleaving of readers and workers,
the store is what the events applied make of it, one after another, and of these the
events of one origin on one connection are applied in the order they arrived:
those applied come before those still on their way, and once nothing is on its
way all have been applied, each once. -/
theorem origin_order_kept (conns : ι → Conn) (start final : Inbound ι n)
    (moves : List (InboundMove ι n)) (fresh : start.Fresh)
    (ran : Machine.run (stepPeer conns) start moves = some final) (i : ι) (origin : Bytes) :
    final.store = final.log.foldl StoreEvent.exec start.store
      ∧ (∃ waiting, final.arrivedFrom i origin = final.appliedFrom i origin ++ waiting)
      ∧ (final.Idle → final.appliedFrom i origin = final.arrivedFrom i origin) := by
  have replays : start.Replays start.store := by rw [Replays, fresh.log, List.foldl_nil]
  obtain ⟨replays, inOrder⟩ : final.Replays start.store ∧ final.InOrder conns :=
    Machine.run_history (fun _ m => m.Replays start.store ∧ m.InOrder conns)
      ⟨replays, fresh.inOrder⟩
      (fun _ _ _ _ ⟨replays, inOrder⟩ stepped => ⟨replays.stepPeer stepped, inOrder.step stepped⟩) ran
  have order := inOrder.order i origin
  rw [List.append_assoc] at order
  refine ⟨replays, ⟨_, order⟩, fun idle => ?_⟩
  have empty (s : Option (Fin n)) : final.inShard s = [] := by
    cases s with
    | none => rfl
    | some k => simp only [inShard, idle.workers, idle.shards, List.append_nil]
  rw [order, empty, idle.readers]
  exact (List.append_nil _).symm

def twoConns (i : Fin 2) : Conn where
  remote := if i = 0 then ascii "10.0.0.1:7000" else ascii "10.0.0.2:7000"
  dialled := i = 0

def threeWorkers : Inbound (Fin 2) 3 where
  store := newStore .noeviction 0 sortedOracle
  reader _ := .reading
  inboundShards _ := []
  worker _ := .idle
  bootstrapActive := false
  bootstrapReplBuf := []
  bootstrapMaxCap := 1
  boot := .off
  clientReady := true
  arrived _ := []
  taken _ := []
  log := []

def setEvent (origin : String) (seq : Nat) (key value : String) : WireRepl where
  payload := { op := .set, key := ascii key, value := ascii value }
  seq := seq
  origin := ascii origin

def sharedWorker : List (InboundMove (Fin 2) 3) :=
  [.read 0 (setEvent "n1" 1 "k" "old"), .hand 0 5, .read 0 (setEvent "n1" 2 "k" "new"),
    .read 1 (setEvent "n2" 1 "j" "v"), .hand 1 5, .hand 0 6, .take 1, .test 1, .apply 1 7,
    .take 1, .test 1, .apply 1 8, .take 1, .test 1, .apply 1 9]

theorem twoConns_order_kept : ∃ final,
    Machine.run (stepPeer twoConns) threeWorkers sharedWorker = some final
      ∧ (final.appliedFrom 0 (ascii "n1")).map WireRepl.seq = [1, 2]
      ∧ (final.store.run 9 (ascii "k") KeyOp.get).2.toOption = some (some (ascii "new"))
      ∧ final.store = final.log.foldl StoreEvent.exec threeWorkers.store
      ∧ ∃ waiting, final.arrivedFrom 0 (ascii "n1")
        = final.appliedFrom 0 (ascii "n1") ++ waiting := by
  refine ⟨_, Machine.ran (by decide +kernel), by decide +kernel, by decide +kernel, ?_⟩
  obtain ⟨replays, arrived, -⟩ := origin_order_kept twoConns threeWorkers _ sharedWorker
    ⟨rfl, fun _ => rfl, fun _ => rfl, fun _ => rfl, fun _ => rfl, rfl⟩ (Machine.ran _) 0 (ascii "n1")
  exact ⟨replays, arrived⟩

end Inbound

end SuperCache
