import SuperCache.Lib.Machine
import SuperCache.Lib.OwnedLog
import SuperCache.Replication.Footprint
import SuperCache.Replication.Replica

/-! # One writer and its peer

Several client sessions write on one node.  A write changes the store, and only
then are its payloads numbered and put in the queue of the peer, each in a step
of its own.  Payloads that different sessions have in hand may enter the queue in
another order than their writes took effect; when they commute, the peer ends
with what the node has.
-/

namespace SuperCache

open Lib

/-- The calls of `Replicate` a handler still has to make, and the frame it has
built and not yet put in the queue. -/
structure Sending where
  todo : List ReplicatePayload := []
  frame : Option WireRepl := none

namespace Sending

def pending (sending : Sending) : List ReplicatePayload :=
  (sending.frame.map WireRepl.payload).toList ++ sending.todo

def isIdle (sending : Sending) : Bool :=
  sending.todo.isEmpty && sending.frame.isNone

theorem pending_of_isIdle {sending : Sending} (idle : sending.isIdle = true) :
    sending.pending = [] := by
  obtain ⟨todo, frame⟩ := sending
  simp only [isIdle, Bool.and_eq_true, List.isEmpty_iff, Option.isNone_iff_eq_none] at idle
  rw [pending, idle.1, idle.2]
  rfl

end Sending

structure Writer (ι : Type) where
  nodeId : Bytes
  store : Store
  clock : Time
  replSeq : Nat
  sessions : ι → Sending
  replCh : List WireRepl
  peer : Store
  peerClock : Time

inductive WriterMove (ι : Type) where
  /-- A session runs a command on the store. -/
  | write (i : ι) (now : Time) (cmd : Command) (args : List Bytes)
  /-- `buildWireRepl` takes the next number. -/
  | number (i : ι)
  /-- The frame enters the queue. -/
  | enqueue (i : ι)
  /-- The peer applies the oldest frame. -/
  | deliver (now : Time)

namespace Writer

variable {ι : Type} [DecidableEq ι]

def step (fl : FloatOps) (w : Writer ι) : WriterMove ι → Option (Writer ι)
  | .write i now cmd args =>
    if (w.sessions i).isIdle ∧ w.clock ≤ now then
      let outcome := cmd.dispatch fl now w.store args
      some { w with
        store := outcome.store
        clock := now
        sessions := Function.update w.sessions i { todo := outcome.sent } }
    else none
  | .number i =>
    match (w.sessions i).frame, (w.sessions i).todo with
    | none, p :: rest =>
      let (wr, replSeq) := buildWireRepl w.nodeId w.replSeq p
      some { w with
        replSeq := replSeq
        sessions := Function.update w.sessions i { todo := rest, frame := some wr } }
    | _, _ => none
  | .enqueue i =>
    match (w.sessions i).frame with
    | some wr =>
      some { w with
        replCh := w.replCh ++ [wr]
        sessions := Function.update w.sessions i { todo := (w.sessions i).todo } }
    | none => none
  | .deliver now =>
    match w.replCh with
    | wr :: rest =>
      if w.peerClock ≤ now then
        some { w with
          replCh := rest
          peer := (applyWireRepl w.peer now wr).1
          peerClock := now }
      else none
    | [] => none

/-- The beginning: nothing is under way, and the peer holds what the node holds,
without deadlines or limits. -/
structure Fresh (w : Writer ι) : Prop where
  idle : ∀ i, (w.sessions i).isIdle = true
  queue : w.replCh = []
  equal : ∀ key, w.peer.stored key = w.store.stored key
  unlimited : w.store.maxMem = 0
  unlimited' : w.peer.maxMem = 0
  undated : ∀ key, Undated (w.store.stored key)

def Delivered (w : Writer ι) : Prop :=
  (∀ i, (w.sessions i).isIdle = true) ∧ w.replCh = []

instance [Fintype ι] (w : Writer ι) : Decidable w.Delivered :=
  inferInstanceAs (Decidable ((∀ i, (w.sessions i).isIdle = true) ∧ w.replCh = []))

def Timeless (fl : FloatOps) (w : Writer ι) : WriterMove ι → Prop
  | .write _ now cmd args =>
    (∀ p ∈ (cmd.dispatch fl now w.store args).sent, p.Timeless)
      ∧ cmd.Safe (fun d => Undated (d.mine now)) now w.store args
  | _ => True

/-- A write that replicates what it does, on keys on which no other session has a
payload in hand. -/
def Orderly (fl : FloatOps) (w : Writer ι) : WriterMove ι → Prop
  | .write i now cmd args =>
    cmd.Safe (Deviation.ValueSafe now) now w.store args
      ∧ ∀ j, j ≠ i → ∀ q ∈ (w.sessions j).pending,
        ∀ p ∈ (cmd.dispatch fl now w.store args).sent, q.Apart p
  | _ => True

instance (fl : FloatOps) (w : Writer ι) (move : WriterMove ι) : Decidable (w.Timeless fl move) := by
  unfold Timeless
  split <;> infer_instance

instance [Fintype ι] (fl : FloatOps) (w : Writer ι) (move : WriterMove ι) :
    Decidable (w.Orderly fl move) := by
  unfold Orderly
  split <;> infer_instance

end Writer

/-! ## One step -/

section Undated

variable {now : Time} {s : Store}

theorem Store.live_undated {clock : Time} (undated : Keyspace.Undated (s.live clock))
    (passed : clock ≤ now) : s.live now = s.live clock := by
  funext key
  have later : s.live now key = alive now (s.live clock key) :=
    (alive_later passed (s.stored key)).symm
  rw [later, (undated key).alive]

theorem dispatch_timeless (fl : FloatOps) (cmd : Command) (args : List Bytes)
    (unlimited : s.maxMem = 0)
    (undated : Keyspace.Undated (s.live now))
    (timeless : ∀ p ∈ (cmd.dispatch fl now s args).sent, p.Timeless)
    (mine : cmd.Safe (fun d => Undated (d.mine now)) now s args)
    (safe : cmd.Safe (Deviation.ValueSafe now) now s args) :
    (cmd.dispatch fl now s args).store.live now
        = replayAll 0 (cmd.dispatch fl now s args).sent (s.live now)
      ∧ Keyspace.Undated ((cmd.dispatch fl now s args).store.live now) := by
  obtain ⟨same, replayed⟩ :
      replayAll now (cmd.dispatch fl now s args).sent (s.live now) = _ ∧ _ :=
    replayAll_timeless now timeless undated
  suffices meant : (cmd.dispatch fl now s args).store.live now
      = replayAll now (cmd.dispatch fl now s args).sent (s.live now) by
    rw [meant, same]
    exact ⟨rfl, replayed⟩
  have live := dispatch_live (cmd.served_of_unlimited fl now unlimited args)
  cases deviates : cmd.deviation now (s.live now) args with rw [deviates] at live
  | none => exact live
  | some d =>
    have fits := Command.deviation_fits deviates
    have sent := Deviation.replay_sent fits (s.allLive now)
    rw [← live.2] at sent
    -- the value is the same on both sides, and neither side has a deadline
    have theirs : Undated (d.theirs now (s.live now)) := by
      have here := replayed d.key
      rw [← same, sent, Function.update_self] at here
      exact here
    have equal : d.mine now = d.theirs now (s.live now) :=
      (mine d deviates).ext theirs ((Deviation.value_iff fits).mpr (safe d deviates))
    rw [live.1, sent, equal]

end Undated

namespace Writer

variable {ι : Type} [DecidableEq ι] {fl : FloatOps} {w next final : Writer ι}

/-- The node is ahead of its peer by the queue and by what the sessions have in
hand, which can enter the queue in any order. -/
structure Ahead (w : Writer ι) : Prop where
  unlimited : w.store.maxMem = 0
  unlimited' : w.peer.maxMem = 0
  undated : Keyspace.Undated (w.store.live w.clock)
  undated' : Keyspace.Undated (w.peer.live w.peerClock)
  queued : ∀ wr ∈ w.replCh, wr.payload.Timeless
  pending : ∀ i, ∀ p ∈ (w.sessions i).pending, p.Timeless
  log : ∃ log : List (Owned ι ReplicatePayload), Independent (replay 0) log
    ∧ (∀ i, ofOwner i log = (w.sessions i).pending)
    ∧ w.store.live w.clock = replayLog (replay 0) log
      (replayAll 0 (w.replCh.map WireRepl.payload) (w.peer.live w.peerClock))

theorem Fresh.ahead (fresh : w.Fresh) : w.Ahead where
  unlimited := fresh.unlimited
  unlimited' := fresh.unlimited'
  undated key := by
    unfold Store.live
    rw [(fresh.undated key).alive]
    exact fresh.undated key
  undated' key := by
    unfold Store.live
    rw [fresh.equal, (fresh.undated key).alive]
    exact fresh.undated key
  queued wr member := by
    rw [fresh.queue] at member
    cases member
  pending i p member := by
    rw [Sending.pending_of_isIdle (fresh.idle i)] at member
    cases member
  log := by
    refine ⟨[], List.Pairwise.nil, fun i => (Sending.pending_of_isIdle (fresh.idle i)).symm, ?_⟩
    rw [fresh.queue]
    funext key
    show alive _ _ = alive _ _
    rw [fresh.equal, (fresh.undated key).alive, (fresh.undated key).alive]

theorem Ahead.write {i : ι} {now : Time} {cmd : Command} {args : List Bytes} (ahead : w.Ahead)
    (timeless : w.Timeless fl (.write i now cmd args))
    (orderly : w.Orderly fl (.write i now cmd args))
    (stepped : w.step fl (.write i now cmd args) = some next) : next.Ahead := by
  simp only [step] at stepped
  split at stepped
  · next ready =>
    obtain ⟨idle, passed⟩ := ready
    cases stepped
    have same := Store.live_undated ahead.undated passed
    obtain ⟨meant, undated⟩ := dispatch_timeless fl cmd args ahead.unlimited
      (same ▸ ahead.undated) timeless.1 timeless.2 orderly.1
    obtain ⟨log, independent, owned, shows⟩ := ahead.log
    have nothing : ofOwner i log = [] :=
      (owned i).trans (Sending.pending_of_isIdle idle)
    refine ⟨(dispatch_maxMem fl now w.store cmd args).trans ahead.unlimited, ahead.unlimited',
      undated, ahead.undated', ahead.queued, fun j p member => ?_,
      log ++ (cmd.dispatch fl now w.store args).sent.map (Owned.mk i), ?_, fun j => ?_, ?_⟩
    · by_cases own : j = i
      · subst own
        simp only [Function.update_self] at member
        exact timeless.1 p member
      · simp only [Function.update_of_ne own] at member
        exact ahead.pending j p member
    · refine independent.append fun j other q listed p sent => replay_commute 0 ?_
      exact orderly.2 j other q (owned j ▸ listed) p sent
    · by_cases own : j = i
      · subst own
        simp only [ofOwner_append_self, nothing, Function.update_self]
        rfl
      · simp only [ofOwner_append_of_ne own, owned j, Function.update_of_ne own]
    · rw [meant, same, shows, replayLog_append, replayLog_map]
      rfl
  · cases stepped

theorem pending_number {sending : Sending} {p : ReplicatePayload} {rest : List ReplicatePayload}
    (noFrame : sending.frame = none) (todo : sending.todo = p :: rest) (nodeId : Bytes)
    (replSeq : Nat) :
    Sending.pending { todo := rest, frame := some (buildWireRepl nodeId replSeq p).1 }
      = sending.pending := by
  unfold Sending.pending
  rw [noFrame, todo]
  rfl

theorem Ahead.number {i : ι} (ahead : w.Ahead) (stepped : w.step fl (.number i) = some next) :
    next.Ahead := by
  simp only [step] at stepped
  split at stepped
  · next p rest noFrame todo =>
    cases stepped
    have same (j : ι) : (Function.update w.sessions i
        { todo := rest, frame := some (buildWireRepl w.nodeId w.replSeq p).1 } j).pending
          = (w.sessions j).pending := by
      by_cases own : j = i
      · subst own
        rw [Function.update_self]
        exact pending_number noFrame todo ..
      · rw [Function.update_of_ne own]
    obtain ⟨log, independent, owned, shows⟩ := ahead.log
    exact { ahead with
      pending := fun j p member => ahead.pending j p (same j ▸ member)
      log := ⟨log, independent, fun j => (owned j).trans (same j).symm, shows⟩ }
  · cases stepped

theorem Ahead.enqueue {i : ι} (ahead : w.Ahead) (stepped : w.step fl (.enqueue i) = some next) :
    next.Ahead := by
  simp only [step] at stepped
  split at stepped
  · next wr framed =>
    cases stepped
    have own : (w.sessions i).pending = wr.payload :: (w.sessions i).todo := by
      unfold Sending.pending
      rw [framed]
      rfl
    obtain ⟨log, independent, owned, shows⟩ := ahead.log
    -- the payload goes to the queue ahead of everything the log still holds
    obtain ⟨log', sublist, left, others, replays⟩ := take_first independent ((owned i).trans own)
    refine { ahead with queued := ?_, pending := fun j p member => ?_, log := ?_ }
    · intro other member
      rcases List.mem_append.mp member with before | last
      · exact ahead.queued other before
      · rw [List.mem_singleton.mp last]
        exact ahead.pending i _ (own ▸ List.mem_cons_self)
    · by_cases same : j = i
      · subst same
        simp only [Function.update_self] at member
        exact ahead.pending j p (own ▸ List.mem_cons_of_mem _ member)
      · simp only [Function.update_of_ne same] at member
        exact ahead.pending j p member
    · refine ⟨log', List.Pairwise.sublist sublist independent, fun j => ?_, ?_⟩
      · by_cases same : j = i
        · subst same
          simp only [Function.update_self, left]
          rfl
        · simp only [Function.update_of_ne same, others j same, owned j]
      · rw [shows, replays, List.map_append, replayAll_append]
        rfl
  · cases stepped

theorem Ahead.deliver {now : Time} (ahead : w.Ahead)
    (stepped : w.step fl (.deliver now) = some next) : next.Ahead := by
  simp only [step] at stepped
  split at stepped
  · next wr rest queue =>
    split at stepped
    · next passed =>
      cases stepped
      have same := Store.live_undated ahead.undated' passed
      have timeless := ahead.queued wr (queue ▸ List.mem_cons_self)
      obtain ⟨meant, -, limit⟩ := apply_follows w.peer now wr.payload
      obtain ⟨instant, undated⟩ : replay now wr.payload (w.peer.live now) = _ ∧ _ :=
        replay_timeless now timeless (same ▸ ahead.undated')
      have applied : (applyWireRepl w.peer now wr).1.live now
          = replay 0 wr.payload (w.peer.live w.peerClock) := by
        rw [← same]
        exact (meant (.inr (.inl ahead.unlimited'))).trans instant
      obtain ⟨log, independent, owned, shows⟩ := ahead.log
      refine { ahead with
        unlimited' := limit.trans ahead.unlimited'
        undated' := ?_
        queued := ?_
        log := ⟨log, independent, owned, ?_⟩ }
      · rw [applied, ← same]
        exact undated
      · exact fun other member => ahead.queued other (queue ▸ List.mem_cons_of_mem _ member)
      · rw [shows, applied, queue]
        rfl
    · cases stepped
  · cases stepped

theorem Ahead.step {move : WriterMove ι} (ahead : w.Ahead) (timeless : w.Timeless fl move)
    (orderly : w.Orderly fl move) (stepped : w.step fl move = some next) : next.Ahead := by
  cases move with
  | write i now cmd args => exact ahead.write timeless orderly stepped
  | number i => exact ahead.number stepped
  | enqueue i => exact ahead.enqueue stepped
  | deliver now => exact ahead.deliver stepped

theorem Ahead.delivered (ahead : w.Ahead) (delivered : w.Delivered) :
    w.store.live w.clock = w.peer.live w.peerClock := by
  obtain ⟨log, -, owned, shows⟩ := ahead.log
  have nothing : log = [] :=
    eq_nil_of_ofOwner fun i => (owned i).trans (Sending.pending_of_isIdle (delivered.1 i))
  rw [shows, nothing, delivered.2]
  rfl

/-- However the sessions, the queue and the peer interleave, the peer ends with
what the node has, if no two sessions have payloads on one key in hand. -/
theorem peer_converges (fl : FloatOps) (start final : Writer ι) (moves : List (WriterMove ι))
    (fresh : start.Fresh)
    (guarded : Machine.Guarded (Writer.step fl)
      (fun w move => w.Timeless fl move ∧ w.Orderly fl move) start moves)
    (ran : Machine.run (Writer.step fl) start moves = some final) (delivered : final.Delivered) :
    final.store.live final.clock = final.peer.live final.peerClock := by
  have keeps (w : Writer ι) (move : WriterMove ι) (next : Writer ι) (ahead : w.Ahead)
      (conditions : w.Timeless fl move ∧ w.Orderly fl move)
      (stepped : w.step fl move = some next) : next.Ahead :=
    ahead.step conditions.1 conditions.2 stepped
  exact (Machine.run_invariant keeps fresh.ahead guarded ran).delivered delivered

def twoSessions : Writer (Fin 2) where
  nodeId := ascii "n1"
  store := freshStore
  clock := 1
  replSeq := 0
  sessions := fun _ => {}
  replCh := []
  peer := freshStore
  peerClock := 1

def swapped (first second : String) : List (WriterMove (Fin 2)) :=
  [.write 0 1 .set [ascii "SET", ascii first, ascii "old"],
    .write 1 1 .set [ascii "SET", ascii second, ascii "new"],
    .number 0, .number 1, .enqueue 1, .enqueue 0, .deliver 2, .deliver 2]

theorem twoSessions_fresh : twoSessions.Fresh :=
  ⟨fun _ => rfl, rfl, fun _ => rfl, rfl, rfl, fun _ => undated_none⟩

theorem twoSessions_converge :
    ∃ final, Machine.run (Writer.step integerFloats) twoSessions (swapped "a" "b") = some final
      ∧ final.store.live final.clock = final.peer.live final.peerClock := by
  refine ⟨_, Machine.ran (by decide +kernel), ?_⟩
  exact peer_converges integerFloats twoSessions _ (swapped "a" "b") twoSessions_fresh
    (by decide +kernel) (Machine.ran _) (by decide +kernel)

/-- On one key the queue keeps the order of the enqueues, not of the writes. -/
theorem twoSessions_diverge :
    twoSessions.Fresh
    ∧ Machine.Guarded (Writer.step integerFloats) (Writer.Timeless integerFloats) twoSessions
      (swapped "k" "k")
    ∧ ∃ final, Machine.run (Writer.step integerFloats) twoSessions (swapped "k" "k") = some final
      ∧ final.Delivered
      ∧ (final.store.live final.clock (ascii "k")).map Entry.value
        = some (.string (ascii "new"))
      ∧ (final.peer.live final.peerClock (ascii "k")).map Entry.value
        = some (.string (ascii "old")) :=
  ⟨twoSessions_fresh, by decide +kernel, Machine.exists_run (by decide +kernel)⟩

end Writer

/-! ## Several writers -/

/-- Nodes that apply what every origin sent, in the order it was sent and all at one instant, end
alike however they interleave the origins, if different origins write different keys. -/
theorem origins_converge {ι : Type} [DecidableEq ι] {now : Time} {s r : Store}
    (unlimited : s.maxMem = 0) (unlimited' : r.maxMem = 0) (equal : r.live now = s.live now)
    {log log' : List (Owned ι ReplicatePayload)} (order : ∀ i, ofOwner i log' = ofOwner i log)
    (apart : ∀ a ∈ log', ∀ b ∈ log', a.owner ≠ b.owner → a.action.Apart b.action) :
    (applyAll now (log'.map Owned.action) r).live now
      = (applyAll now (log.map Owned.action) s).live now := by
  have independent : Independent (replay now) log' :=
    List.pairwise_of_forall_mem_list fun a first b second other =>
      replay_commute now (apart a first b second other)
  rw [applyAll_live unlimited, applyAll_live unlimited', equal, replayAll, replayAll,
    List.foldl_map, List.foldl_map]
  exact replayLog_eq_of_ofOwner independent order (s.live now)

def twoOrigins : List (Owned (Fin 2) ReplicatePayload) :=
  [⟨0, { op := .set, key := [1] }⟩, ⟨0, { op := .rename, key := [1], dest := [2] }⟩,
    ⟨1, { op := .set, key := [3] }⟩]

theorem twoOrigins_converge :
    (applyAll 7 ((twoOrigins.rotate 2).map Owned.action) freshStore).live 7
      = (applyAll 7 (twoOrigins.map Owned.action) freshStore).live 7 := by
  apply origins_converge rfl rfl rfl
  · exact Fin.forall_fin_two.mpr ⟨rfl, rfl⟩
  · decide

end SuperCache
