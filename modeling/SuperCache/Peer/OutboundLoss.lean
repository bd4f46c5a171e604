import SuperCache.Peer.OutboundFrames

/-! # What becomes of an event on a link

Every event is flushed, counted or spilled once on every link chosen for it, as
long as no frame is left in a queue from which nobody will take it.
-/

namespace SuperCache

open Lib

namespace Outbound

variable {ι κ : Type} [DecidableEq ι] {o next : Outbound ι κ}

/-! ## Nobody leaves a frame behind -/

def Served (o : Outbound ι κ) : Prop :=
  ∀ l, (o.link l).replCh ≠ [] → o.Attended l

section Links

omit [DecidableEq ι]

variable {l : Nat} {state : LinkState ι}

theorem Unused.setLink (unused : o.Unused)
    (kept : o.linkSeq < l → state.writer = .exited ∧ state.replCh = []) :
    (o.setLink l state).Unused := by
  intro l' above
  rw [link_setLink]
  split
  · next own => exact kept (own ▸ above)
  · exact unused l' above

theorem Served.setLink (served : o.Served)
    (attended : state.replCh ≠ [] → state.writer ≠ .exited ∨ o.ToCollect l) :
    (o.setLink l state).Served := by
  intro l' frames
  unfold Attended
  rw [link_setLink] at frames ⊢
  split at frames
  · next own =>
    rw [if_pos own]
    rw [own]
    exact attended frames
  · next other =>
    rw [if_neg other]
    exact served l' frames

theorem Served.collect (served : o.Served) (link : next.link = o.link)
    (collect : ∀ l, (o.link l).replCh ≠ [] → o.ToCollect l → next.ToCollect l) :
    next.Served := by
  intro l frames
  rw [link] at frames
  unfold Attended
  rw [link]
  exact (served l frames).imp_right (collect l frames)

theorem ToCollect.peers (collect : o.ToCollect l) (busy : o.shutdown.phase ≠ .idle) :
    l ∈ o.shutdown.peers := by
  rcases collect with here | ⟨idle, -⟩
  · exact here
  · exact absurd idle busy

variable {move : ShutdownMove}

theorem Served.shutdown (served : o.Served) (orderly : o.Orderly)
    (stepped : o.shutdownStep move = some next) : next.Served := by
  cases shutdownStep_cases stepped with
  | start idle =>
    refine served.collect rfl fun l frames collect => .inl ?_
    rcases collect with here | ⟨-, registered⟩
    · rw [(orderly (.inl idle)).1] at here
      cases here
    · exact registered
  | cancel l peers visiting here =>
    have flagged : (o.setLink l { o.link l with cancelled := true }).Served :=
      served.setLink (served l)
    refine flagged.collect rfl fun l' frames collect => .inl (collect.peers ?_)
    show o.shutdown.phase ≠ .idle
    rw [visiting]
    nofun
  | waited cancelled =>
    refine served.collect rfl fun l frames collect => .inl (collect.peers ?_)
    rw [cancelled]
    nofun
  | take l peers frame rest waited here queue =>
    have taken : (o.setLink l { o.link l with replCh := rest }).Served :=
      served.setLink fun _ => .inr (.inl (here ▸ List.mem_cons_self))
    exact taken.collect rfl fun l' frames collect => collect
  | break_ l peers waited here empty =>
    refine served.collect rfl fun l' frames collect => .inl ?_
    have listed := collect.peers (by rw [waited]; nofun)
    rw [here] at listed
    rcases List.mem_cons.mp listed with rfl | later
    · exact absurd empty frames
    · exact later
  | write succeeds visiting all =>
    refine served.collect rfl fun l frames collect => ?_
    have listed := collect.peers (by rw [visiting]; nofun)
    rw [all] at listed
    cases listed

theorem Orderly.shutdown (stepped : o.shutdownStep move = some next) : next.Orderly := by
  cases shutdownStep_cases stepped with
  | take l peers frame rest waited here queue =>
    rintro (idle | returned)
    · cases waited.symm.trans idle
    · cases waited.symm.trans returned
  | write succeeds visiting all => exact fun _ => ⟨rfl, rfl⟩
  | start | cancel | waited | break_ => rintro (⟨⟨⟩⟩ | ⟨⟨⟩⟩)

theorem step_unused {move : LinkMove} {last : LinkState ι} (stepped : state.step move = some last)
    (exited : state.writer = .exited) (empty : state.replCh = []) :
    last.writer = .exited ∧ last.replCh = [] := by
  revert stepped
  fun_cases LinkState.step state move <;> rintro ⟨⟩ <;> simp_all

theorem Unused.shutdown (unused : o.Unused) (stepped : o.shutdownStep move = some next) :
    next.Unused := by
  cases shutdownStep_cases stepped with
  | cancel l peers visiting here => exact unused.setLink (unused l)
  | take l peers frame rest waited here queue =>
    refine unused.setLink fun above => ?_
    have empty := (unused l above).2
    rw [queue] at empty
    cases empty
  | start | waited | break_ | write => exact unused

theorem Unused.flush {result : FlushResult} (unused : o.Unused)
    (stepped : o.flushStep l result = some next) : next.Unused := by
  obtain ⟨frame, drains, writing, flushes⟩ := flushStep_cases stepped
  -- the link has a writer
  have used (above : o.linkSeq < l) : False := by
    have exited := (unused l above).1
    rw [writing] at exited
    cases exited
  cases flushes <;> exact unused.setLink fun above => (used above).elim

theorem Served.flush {result : FlushResult} (served : o.Served)
    (stepped : o.flushStep l result = some next) : next.Served := by
  obtain ⟨frame, drains, writing, flushes⟩ := flushStep_cases stepped
  have running : (if drains then LinkWriter.draining else LinkWriter.serving : LinkWriter ι)
      ≠ .exited := by
    cases drains <;> nofun
  cases flushes with
  | flushed =>
    have back : (o.setLink l { o.link l with
        writer := if drains then .draining else .serving }).Served :=
      served.setLink fun _ => .inl running
    exact back
  | failed broken =>
    have back : (o.setLink l { o.link l with
        writer := if drains then .draining else .serving, broken := broken }).Served :=
      served.setLink fun _ => .inl running
    exact back

theorem Served.writer {move : LinkMove} (served : o.Served)
    (attends : o.Attends (.writer l move)) (stepped : (o.link l).step move = some state) :
    (o.setLink l state).Served := by
  refine served.setLink fun frames => ?_
  by_cases exited : state.writer = .exited
  · obtain ⟨queue, already | ⟨rfl, draining, stops⟩⟩ := LinkState.step_exited stepped exited
    · rw [queue] at frames
      exact .inr ((served l frames).resolve_left (not_not_intro already))
    · rw [queue] at frames
      exact .inr (attends draining frames (stops.resolve_left frames))
  · exact .inl exited

theorem Served.teardown {first : TeardownStep} (served : o.Served)
    (attends : first = .unregisterLink →
      (o.link l).replCh = [] ∨ (o.link l).writer ≠ .exited ∨ l ∈ o.shutdown.peers) :
    (o.teardownStep l first).Served := by
  cases first with
  | cancelSession | closeConn => exact served.setLink (served l)
  | awaitWriter => exact served
  | replStop =>
    refine served.collect rfl fun l' frames collect => ?_
    unfold ToCollect
    rw [show (o.teardownStep l .replStop).registered = o.registered from registered_replStop o l]
    exact collect
  | unregisterLink =>
    intro l' frames
    by_cases own : l' = l
    · rw [own] at frames ⊢
      rcases attends rfl with empty | running | listed
      · exact absurd empty frames
      · exact .inl running
      · exact .inr (.inl listed)
    · -- the other links stay registered
      refine (served l' frames).imp_right fun collect => collect.imp_right fun waiting => ?_
      refine ⟨waiting.1, ?_⟩
      obtain ⟨p, registered, rfl⟩ := List.mem_map.mp waiting.2
      exact List.mem_map.mpr ⟨p, List.mem_filter.mpr ⟨registered, by simpa using own⟩, rfl⟩

end Links

theorem Unused.enqueue {i : ι} (unused : o.Unused) (choices : o.Choices)
    (stepped : o.enqueue i = some next) : next.Unused := by
  obtain ⟨chosen, l, rest, sending, enqueues⟩ := enqueue_cases stepped
  have known : l ≤ o.linkSeq := by
    have listed : l ∈ (o.call i).chosen := choices.rest i (by rw [sending]; exact List.mem_cons_self)
    exact (choices.chosen i).2 l listed
  have sent : (o.setCall i (.sending chosen rest)).Unused := unused
  cases enqueues with
  | queued room => exact sent.setLink fun above => absurd known (Nat.not_le_of_lt above)
  | dropped full => exact sent

theorem Served.enqueue {i : ι} (served : o.Served) (attends : o.Attends (.enqueue i))
    (stepped : o.enqueue i = some next) : next.Served := by
  obtain ⟨chosen, l, rest, sending, enqueues⟩ := enqueue_cases stepped
  have sent : (o.setCall i (.sending chosen rest)).Served := served
  cases enqueues with
  | queued room =>
    refine sent.setLink fun _ => attends l ?_ room
    rw [sending]
    rfl
  | dropped full => exact sent

structure Sound (o : Outbound ι κ) : Prop where
  choices : o.Choices
  unused : o.Unused
  orderly : o.Orderly
  conserved : o.Conserved
  served : o.Served

variable [DecidableEq κ]

variable {move : OutboundMove ι κ}

theorem Unused.step (unused : o.Unused) (choices : o.Choices) (stepped : o.step move = some next) :
    next.Unused := by
  cases step_cases stepped with
  | registerOut addr remoteID inbound =>
    intro l above
    have added : (o.setLink (o.linkSeq + 1) { writer := .serving }).link l = o.link l := by
      rw [link_setLink, if_neg (Nat.ne_of_gt above)]
    show ((o.setLink (o.linkSeq + 1) { writer := .serving }).link l).writer = .exited ∧ _
    rw [added]
    exact unused l (Nat.lt_trans (Nat.lt_succ_self _) above)
  | enqueue i _ enqueued => exact unused.enqueue choices enqueued
  | writer l move state moved =>
    exact unused.setLink fun above => step_unused moved (unused l above).1 (unused l above).2
  | flush l result _ flushed => exact unused.flush flushed
  | shutdown move _ moved => exact unused.shutdown moved
  | teardown t l first rest steps =>
    cases first with
    | cancelSession | closeConn => exact unused.setLink (unused l)
    | replStop | unregisterLink | awaitWriter => exact unused
  | replicate | chosen | targets | startTeardown => exact unused

theorem Orderly.step (orderly : o.Orderly) (stepped : o.step move = some next) : next.Orderly := by
  cases step_cases stepped with
  | enqueue i _ enqueued =>
    obtain ⟨chosen, l, rest, -, enqueues⟩ := enqueue_cases enqueued
    cases enqueues <;> exact orderly
  | flush l result _ flushed =>
    obtain ⟨frame, drains, -, flushes⟩ := flushStep_cases flushed
    cases flushes <;> exact orderly
  | shutdown move _ moved => exact Orderly.shutdown moved
  | teardown t l first rest steps => cases first <;> exact orderly
  | registerOut | writer | replicate | chosen | targets | startTeardown => exact orderly

theorem Served.step (served : o.Served) (orderly : o.Orderly) (attends : o.Attends move)
    (stepped : o.step move = some next) : next.Served := by
  cases step_cases stepped with
  | registerOut addr remoteID inbound =>
    have started : (o.setLink (o.linkSeq + 1) { writer := .serving }).Served :=
      served.setLink fun _ => .inl nofun
    refine started.collect rfl fun l frames collect => collect.imp_right fun waiting => ?_
    refine ⟨waiting.1, ?_⟩
    show l ∈ (o.mesh.out ++ [_]).map OutPeer.linkSeq
    rw [List.map_append]
    exact List.mem_append_left _ waiting.2
  | targets i move mesh moved =>
    refine served.collect rfl fun l frames collect => ?_
    unfold ToCollect registered
    rw [Mesh.step_targets_out moved]
    exact collect
  | enqueue i _ enqueued => exact served.enqueue attends enqueued
  | writer l move state moved => exact served.writer attends moved
  | flush l result _ flushed => exact served.flush flushed
  | shutdown move _ moved => exact served.shutdown orderly moved
  | teardown t l first rest steps =>
    have torn : (o.teardownStep l first).Served := by
      refine served.teardown (attends (l, first) ?_)
      rw [steps]
      rfl
    exact torn
  | replicate | chosen | startTeardown => exact served

theorem Sound.step (sound : o.Sound) (attends : o.Attends move) (stepped : o.step move = some next) :
    next.Sound where
  choices := sound.choices.step stepped
  unused := sound.unused.step sound.choices stepped
  orderly := sound.orderly.step stepped
  conserved := sound.conserved.step sound.unused sound.orderly attends stepped
  served := sound.served.step sound.orderly attends stepped

omit [DecidableEq κ] in
theorem Fresh.sound (fresh : o.Fresh) : o.Sound where
  choices := {
    out := by
      rw [fresh.out]
      exact ⟨List.nodup_nil, nofun⟩
    selected := by
      constructor
      · rw [fresh.cache]
        nofun
      · intro i gen links
        rw [fresh.choices]
        nofun
      · intro i links
        rw [fresh.choices]
        nofun
    chosen := fun i => by
      rw [fresh.calls]
      exact ⟨List.nodup_nil, nofun⟩
    rest := fun i => by
      rw [fresh.calls]
      exact List.Subset.refl _ }
  unused l above := by
    rw [fresh.link]
    exact ⟨rfl, rfl⟩
  orderly := by
    unfold Orderly
    rw [fresh.shutdown]
    exact fun _ => ⟨rfl, rfl⟩
  conserved i l := by
    unfold held fates
    obtain ⟨flushed, dropped, sendErrors, spilled⟩ := fresh.records
    rw [fresh.calls, fresh.link, fresh.shutdown, flushed, dropped, sendErrors, spilled]
    rfl
  served l frames := by
    rw [fresh.link] at frames
    exact absurd rfl frames

/-! ## The end -/

structure Ended (o : Outbound ι κ) : Prop where
  calls : ∀ i, o.call i ≠ .choosing ∧ (o.call i).rest = []
  writers : ∀ l ≤ o.linkSeq, (o.link l).writer = .exited
  shutdown : o.shutdown.phase = .returned

omit [DecidableEq κ] in
theorem Sound.held_ended (sound : o.Sound) (ended : o.Ended) (i : ι) {l : Nat}
    (known : l ≤ o.linkSeq) : o.held i l = 0 := by
  obtain ⟨peers, pending⟩ := sound.orderly (.inr ended.shutdown)
  have queue : (o.link l).replCh = [] := by
    by_contra frames
    rcases sound.served l frames with running | listed | ⟨idle, -⟩
    · exact running (ended.writers l known)
    · rw [peers] at listed
      cases listed
    · cases ended.shutdown.symm.trans idle
  unfold held LinkState.frames
  rw [pending, queue, ended.writers l known]
  rfl

/-- Each event ends, on each link chosen for it, as flushed, dropped, failed or
spilled, and as one of them only, if no step leaves a frame behind. -/
theorem every_pair_accounted {start final : Outbound ι κ} {moves : List (OutboundMove ι κ)}
    (fresh : start.Fresh) (guarded : Machine.Guarded step Attends start moves)
    (ran : Machine.run step start moves = some final) (ended : final.Ended) (i : ι) (l : Nat)
    (chosen : l ∈ (final.call i).chosen) :
    final.flushed.count (i, l) + final.dropped.count (i, l) + final.sendErrors.count (i, l)
      + final.spilled.count (i, l) = 1 := by
  have sound : final.Sound :=
    Machine.run_invariant (fun o move next sound attends stepped => sound.step attends stepped)
      fresh.sound guarded ran
  obtain ⟨distinct, known⟩ := sound.choices.chosen i
  have conserved := sound.conserved i l
  rw [List.count_eq_one_of_mem distinct chosen, (ended.calls i).2,
    sound.held_ended ended i (known l chosen), List.count_nil] at conserved
  unfold fates at conserved
  omega

instance decidableEnded [Fintype ι] (o : Outbound ι κ) : Decidable o.Ended :=
  decidable_of_iff ((∀ i, o.call i ≠ .choosing ∧ (o.call i).rest = [])
      ∧ (∀ l ≤ o.linkSeq, (o.link l).writer = .exited) ∧ o.shutdown.phase = .returned)
    ⟨fun ⟨calls, writers, shutdown⟩ => ⟨calls, writers, shutdown⟩,
      fun ⟨calls, writers, shutdown⟩ => ⟨calls, writers, shutdown⟩⟩

def noLinks : Outbound (Fin 2) Unit where
  mesh := { out := [], targetsGen := 0, targetsCache := none, call := fun _ => .idle }
  linkSeq := 0
  depth := 4
  link _ := {}
  call _ := .idle
  teardown _ := []
  shutdown := {}
  flushed := []
  dropped := []
  sendErrors := []
  spilled := []

theorem noLinks_fresh : noLinks.Fresh :=
  ⟨rfl, rfl, fun _ => rfl, fun _ => rfl, fun _ => rfl, rfl, rfl, rfl, rfl, rfl⟩

/-- A call of `Replicate` that computes the choice of links, and sends to one. -/
def replicateOnce (i : Fin 2) : List (OutboundMove (Fin 2) Unit) :=
  [.replicate i, .targets i .loadGen, .targets i .loadCache, .targets i .compute,
    .targets i .storeCache, .chosen i, .enqueue i]

def orderlyEnd : List (OutboundMove (Fin 2) Unit) :=
  [.registerOut (ascii "h1") (ascii "n1") false] ++ replicateOnce 0
    ++ [.writer 1 .take, .flush 1 .flushed, .writer 1 .deadline, .replicate 1,
      .targets 1 .loadGen, .targets 1 .loadCache, .chosen 1, .enqueue 1, .shutdown .start,
      .shutdown .cancel, .writer 1 .done, .writer 1 .drainCheck, .shutdown .waited,
      .shutdown .take, .shutdown .break_, .shutdown (.write true)]

theorem orderlyEnd_accounted : ∃ final, Machine.run step noLinks orderlyEnd = some final
    ∧ (final.flushed = [(0, 1)] ∧ final.spilled = [(1, 1)])
    ∧ ∀ i, ∀ l ∈ (final.call i).chosen,
      final.flushed.count (i, l) + final.dropped.count (i, l) + final.sendErrors.count (i, l)
        + final.spilled.count (i, l) = 1 := by
  refine ⟨_, Machine.ran (by decide +kernel), by decide +kernel, ?_⟩
  exact every_pair_accounted noLinks_fresh (by decide +kernel) (Machine.ran _) (by decide +kernel)

/-- An event is queued, and more than 500 ms after the writer began the session of
the link ends before the writer has taken it. -/
def sessionEnds : List (OutboundMove (Fin 2) Unit) :=
  [.registerOut (ascii "h1") (ascii "n1") false, .writer 1 .deadline] ++ replicateOnce 0
    ++ [.startTeardown () (.sessionEnd 1), .teardown (), .writer 1 .done, .writer 1 .drainCheck,
      .teardown (), .teardown (), .teardown (), .shutdown .start, .shutdown (.write true)]

/-- The frame stays in the queue: the writer is over, and the link is not among those
that the shutdown visits. -/
theorem sessionEnds_loses : noLinks.Fresh ∧ ∃ final,
    Machine.run step noLinks sessionEnds = some final ∧ final.Ended
      ∧ (final.call 0).chosen = [1] ∧ (final.link 1).replCh = [0]
      ∧ final.flushed = [] ∧ final.dropped = [] ∧ final.sendErrors = [] ∧ final.spilled = [] :=
  ⟨noLinks_fresh, Machine.exists_run (by decide +kernel)⟩

end Outbound

end SuperCache
