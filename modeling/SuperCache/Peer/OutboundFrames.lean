import SuperCache.Peer.Outbound

/-! # Where the frames of an event are

A call sends an event once to each of the links chosen for it.  On each of them the
event is still to be queued, on the link, collected by the shutdown, or it has been
flushed, counted or spilled; the steps move it from one place to the next.
-/

namespace SuperCache

open Lib

namespace LinkState

variable {ι : Type} {state next : LinkState ι}

def frames (state : LinkState ι) : List ι :=
  state.writer.holds.toList ++ state.replCh

variable {move : LinkMove}

theorem step_frames (stepped : state.step move = some next) : next.frames = state.frames := by
  revert stepped
  unfold frames
  fun_cases LinkState.step state move <;> rintro ⟨⟩ <;> simp [LinkWriter.holds, *]

/-- A writer stops at the check of its second loop, when its queue is empty or its
time is over, and leaves the queue as it is. -/
theorem step_exited (stepped : state.step move = some next) (exited : next.writer = .exited) :
    next.replCh = state.replCh
      ∧ (state.writer = .exited ∨ (move = .drainCheck ∧ state.writer = .draining
        ∧ (state.replCh = [] ∨ state.expired = true))) := by
  revert stepped
  fun_cases LinkState.step state move <;> rintro ⟨⟩ <;> simp_all
  grind

end LinkState

/-! ## The links that a call comes to use -/

namespace Mesh

variable {ι : Type} [DecidableEq ι] {mesh next : Mesh ι} {P : List OutPeer → Prop}

structure Every (P : List OutPeer → Prop) (mesh : Mesh ι) : Prop where
  cached : ∀ c, mesh.targetsCache = some c → P c.links
  computed : ∀ i gen links, mesh.call i = .computed gen links → P links
  returned : ∀ i links, mesh.call i = .returned links → P links

theorem Every.step {move : MeshMove ι} (every : mesh.Every P)
    (now : P (computeReplicationTargets mesh.out)) (stepped : mesh.step move = some next) :
    next.Every P := by
  obtain ⟨cached, computed, returned⟩ := every
  cases step_cases stepped with
  | change out => exact ⟨cached, computed, returned⟩
  | loadGen | hit | miss | compute | store => constructor <;> grind [call_at, Mesh.at_]

theorem step_targets_out {i : ι} {move : TargetsMove}
    (stepped : mesh.step (move.of i) = some next) : next.out = mesh.out := by
  revert stepped
  cases move <;> simp only [TargetsMove.of, step] <;> split <;> (try split) <;> rintro ⟨⟩ <;> rfl

end Mesh

namespace Outbound

variable {ι κ : Type} {o next : Outbound ι κ}

structure Known (last : Nat) (links : List OutPeer) : Prop where
  distinct : (links.map OutPeer.linkSeq).Nodup
  registered : ∀ p ∈ links, p.linkSeq ≤ last

variable {last : Nat} {move : OutboundMove ι κ} {frame : ι}

theorem Known.mono {last' : Nat} {links : List OutPeer} (known : Known last links)
    (more : last ≤ last') : Known last' links where
  distinct := known.distinct
  registered p listed := Nat.le_trans (known.registered p listed) more

theorem Known.computed {out : List OutPeer} (known : Known last out) :
    Known last (computeReplicationTargets out) where
  distinct := (targets_nodup_key out).of_map.map_on fun _ chosen _ chosen' same =>
    List.inj_on_of_nodup_map known.distinct (targets_subset chosen).1 (targets_subset chosen').1 same
  registered p chosen := known.registered p (targets_subset chosen).1

structure Choices (o : Outbound ι κ) : Prop where
  out : Known o.linkSeq o.mesh.out
  selected : o.mesh.Every (Known o.linkSeq)
  chosen : ∀ i, (o.call i).chosen.Nodup ∧ ∀ l ∈ (o.call i).chosen, l ≤ o.linkSeq
  rest : ∀ i, (o.call i).rest ⊆ (o.call i).chosen

theorem Choices.congr (choices : o.Choices) (mesh : next.mesh = o.mesh)
    (linkSeq : next.linkSeq = o.linkSeq) (call : next.call = o.call) : next.Choices := by
  obtain ⟨out, selected, chosen, rest⟩ := choices
  rw [← mesh, ← linkSeq] at out selected
  rw [← call] at chosen rest
  rw [← linkSeq] at chosen
  exact ⟨out, selected, chosen, rest⟩

theorem Choices.relink (choices : o.Choices) (out : Known next.linkSeq next.mesh.out)
    (cache : next.mesh.targetsCache = o.mesh.targetsCache) (calls : next.mesh.call = o.mesh.call)
    (linkSeq : o.linkSeq ≤ next.linkSeq) (call : next.call = o.call) : next.Choices where
  out := out
  selected := by
    constructor
    · rw [cache]
      exact fun c found => (choices.selected.cached c found).mono linkSeq
    · rw [calls]
      exact fun i gen links found => (choices.selected.computed i gen links found).mono linkSeq
    · rw [calls]
      exact fun i links found => (choices.selected.returned i links found).mono linkSeq
  chosen i := by
    rw [call]
    exact ⟨(choices.chosen i).1, fun l listed =>
      Nat.le_trans ((choices.chosen i).2 l listed) linkSeq⟩
  rest i := by
    rw [call]
    exact choices.rest i

theorem link_setLink (o : Outbound ι κ) (l l' : Nat) (state : LinkState ι) :
    (o.setLink l state).link l' = if l' = l then state else o.link l' := by
  show Function.update o.link l state l' = _
  rw [Function.update_apply]

variable {l : Nat} {state : LinkState ι}

theorem frames_setLink (same : state.frames = (o.link l).frames) (l' : Nat) :
    ((o.setLink l state).link l').frames = (o.link l').frames := by
  rw [link_setLink]
  split
  · next own => rw [own, same]
  · rfl

theorem registered_replStop (o : Outbound ι κ) (l : Nat) :
    (o.replStop l).registered = o.registered := by
  unfold registered replStop
  rw [List.map_map]
  refine List.map_congr_left fun p _ => ?_
  dsimp only [Function.comp]
  split <;> rfl

theorem Choices.teardownStep (choices : o.Choices) (l : Nat) (step : TeardownStep) :
    (o.teardownStep l step).Choices := by
  cases step with
  | cancelSession | closeConn | awaitWriter => exact choices.relink choices.out rfl rfl le_rfl rfl
  | replStop =>
    refine choices.relink ⟨?_, fun p listed => ?_⟩ rfl rfl le_rfl rfl
    · show (o.replStop l).registered.Nodup
      rw [registered_replStop]
      exact choices.out.distinct
    obtain ⟨q, earlier, rfl⟩ := List.mem_map.mp listed
    have number : (if q.linkSeq = l then { q with replStop := true } else q).linkSeq = q.linkSeq := by
      split <;> rfl
    rw [number]
    exact choices.out.registered q earlier
  | unregisterLink =>
    refine choices.relink ⟨choices.out.distinct.sublist (List.filter_sublist.map _),
      fun p listed => choices.out.registered p (List.mem_filter.mp listed).1⟩ rfl rfl le_rfl rfl

variable [DecidableEq ι]

theorem call_setCall (o : Outbound ι κ) (i j : ι) (phase : ReplicateCall) :
    (o.setCall i phase).call j = if j = i then phase else o.call j := by
  show Function.update o.call i phase j = _
  rw [Function.update_apply]

theorem Choices.setCall (choices : o.Choices) (i : ι) {phase : ReplicateCall}
    (chosen : phase.chosen.Nodup ∧ ∀ l ∈ phase.chosen, l ≤ o.linkSeq)
    (rest : phase.rest ⊆ phase.chosen) : (o.setCall i phase).Choices where
  out := choices.out
  selected := choices.selected
  chosen j := by
    rw [call_setCall]
    split
    · exact chosen
    · exact choices.chosen j
  rest j := by
    rw [call_setCall]
    split
    · exact rest
    · exact choices.rest j

theorem Choices.step [DecidableEq κ] (choices : o.Choices) (stepped : o.step move = some next) :
    next.Choices := by
  cases step_cases stepped with
  | registerOut addr remoteID inbound =>
    refine choices.relink ⟨?_, fun p listed => ?_⟩ rfl rfl (Nat.le_succ _) rfl
    · -- the new number is above all others
      show (o.mesh.out ++ [_]).map OutPeer.linkSeq |>.Nodup
      rw [List.map_append, List.nodup_append]
      refine ⟨choices.out.distinct, List.nodup_singleton _, fun l listed l' last => ?_⟩
      obtain ⟨p, registered, rfl⟩ := List.mem_map.mp listed
      have below := choices.out.registered p registered
      rw [List.mem_singleton.mp last]
      exact Nat.ne_of_lt (Nat.lt_succ_of_le below)
    · rcases List.mem_append.mp listed with earlier | last
      · exact Nat.le_succ_of_le (choices.out.registered p earlier)
      · rw [List.mem_singleton.mp last]
  | replicate i idle => exact choices.setCall i ⟨List.nodup_nil, nofun⟩ (List.Subset.refl _)
  | targets i move mesh moved =>
    have out : mesh.out = o.mesh.out := Mesh.step_targets_out moved
    refine ⟨?_, choices.selected.step choices.out.computed moved, choices.chosen, choices.rest⟩
    exact out ▸ choices.out
  | chosen i links choosing returned =>
    have known := choices.selected.returned i links returned
    refine choices.setCall i ⟨known.distinct, fun l listed => ?_⟩ (List.Subset.refl _)
    obtain ⟨p, selected, rfl⟩ := List.mem_map.mp listed
    exact known.registered p selected
  | enqueue i _ enqueued =>
    obtain ⟨chosen, l, rest, sending, enqueues⟩ := enqueue_cases enqueued
    have sent : (o.setCall i (.sending chosen rest)).Choices := by
      have own := choices.chosen i
      have left := choices.rest i
      rw [sending] at own left
      exact choices.setCall i own fun l' listed => left (List.mem_cons_of_mem l listed)
    cases enqueues <;> exact sent.congr rfl rfl rfl
  | writer l move state moved => exact choices.congr rfl rfl rfl
  | flush l result _ flushed =>
    obtain ⟨frame, drains, -, flushes⟩ := flushStep_cases flushed
    cases flushes <;> exact choices.congr rfl rfl rfl
  | startTeardown t what => exact choices.congr rfl rfl rfl
  | teardown t l first rest steps => exact (choices.teardownStep l first).congr rfl rfl rfl
  | shutdown move _ moved => cases shutdownStep_cases moved <;> exact choices.congr rfl rfl rfl

/-! ## Where a frame is -/

def held (o : Outbound ι κ) (i : ι) (l : Nat) : Nat :=
  (o.link l).frames.count i + o.shutdown.pending.count (i, l)

def fates (o : Outbound ι κ) (i : ι) (l : Nat) : Nat :=
  o.flushed.count (i, l) + o.dropped.count (i, l) + o.sendErrors.count (i, l)
    + o.spilled.count (i, l)

/-- Each event is, on each link chosen for it, still to be queued, on the link or
collected, or it has met its fate. -/
def Conserved (o : Outbound ι κ) : Prop :=
  ∀ i l, (o.call i).chosen.count l = (o.call i).rest.count l + o.held i l + o.fates i l

def Unused (o : Outbound ι κ) : Prop :=
  ∀ l, o.linkSeq < l → (o.link l).writer = .exited ∧ (o.link l).replCh = []

def ToCollect (o : Outbound ι κ) (l : Nat) : Prop :=
  l ∈ o.shutdown.peers ∨ (o.shutdown.phase = .idle ∧ l ∈ o.registered)

def Attended (o : Outbound ι κ) (l : Nat) : Prop :=
  (o.link l).writer ≠ .exited ∨ o.ToCollect l

/-- No step leaves a frame behind: none is queued on a link that nobody attends, no
writer stops with frames in its queue and no link is unregistered with them unless
the shutdown collects them, and the spill file is written. -/
def Attends (o : Outbound ι κ) : OutboundMove ι κ → Prop
  | .enqueue i =>
    ∀ l ∈ (o.call i).rest.head?, (o.link l).replCh.length < o.depth → o.Attended l
  | .writer l .drainCheck =>
    (o.link l).writer = .draining → (o.link l).replCh ≠ [] → (o.link l).expired = true →
      o.ToCollect l
  | .teardown t =>
    ∀ todo ∈ (o.teardown t).head?, todo.2 = .unregisterLink →
      (o.link todo.1).replCh = [] ∨ (o.link todo.1).writer ≠ .exited ∨ todo.1 ∈ o.shutdown.peers
  | .shutdown (.write succeeds) => succeeds = true ∨ o.shutdown.pending = []
  | _ => True

instance decidableToCollect (o : Outbound ι κ) (l : Nat) : Decidable (o.ToCollect l) :=
  inferInstanceAs (Decidable (_ ∨ _))

instance decidableAttended (o : Outbound ι κ) (l : Nat) : Decidable (o.Attended l) :=
  inferInstanceAs (Decidable (_ ∨ _))

instance decidableAttends (o : Outbound ι κ) (move : OutboundMove ι κ) : Decidable (o.Attends move) := by
  unfold Attends
  split <;> infer_instance

/-! ## Frames move, and are not lost -/

theorem Conserved.congr (conserved : o.Conserved) (call : next.call = o.call)
    (frames : ∀ l, (next.link l).frames = (o.link l).frames)
    (pending : next.shutdown.pending = o.shutdown.pending)
    (fates : ∀ i l, next.fates i l = o.fates i l) : next.Conserved := by
  intro i l
  unfold held
  rw [call, frames, pending, fates]
  exact conserved i l

theorem Conserved.moved (conserved : o.Conserved) (call : next.call = o.call)
    (balance : ∀ i l, next.held i l + next.fates i l = o.held i l + o.fates i l) :
    next.Conserved := by
  intro i l
  have before := conserved i l
  have same := balance i l
  rw [call]
  omega

def once (frame : ι) (l : Nat) (i : ι) (l' : Nat) : Nat :=
  if (frame, l) = (i, l') then 1 else 0

theorem count_concat_pair (pairs : List (ι × Nat)) (frame i : ι) (l l' : Nat) :
    (pairs ++ [(frame, l)]).count (i, l') = pairs.count (i, l') + once frame l i l' := by
  rw [List.count_append, List.count_singleton]
  simp only [once, beq_iff_eq]

theorem held_gain (more : state.frames.Perm (frame :: (o.link l).frames)) (i : ι) (l' : Nat) :
    (o.setLink l state).held i l' = o.held i l' + once frame l i l' := by
  unfold held once
  rw [link_setLink]
  split
  · next own =>
    rw [more.count_eq, List.count_cons, own]
    simp only [beq_iff_eq, Prod.mk.injEq, and_true]
    exact Nat.add_right_comm ..
  · next other =>
    rw [if_neg (fun same => other (congrArg Prod.snd same).symm)]
    rfl

theorem held_loss (less : (o.link l).frames.Perm (frame :: state.frames)) (i : ι) (l' : Nat) :
    o.held i l' = (o.setLink l state).held i l' + once frame l i l' := by
  have back : (o.setLink l state).setLink l (o.link l) = o := by
    simp only [setLink, Function.update_idem, Function.update_eq_self]
  have own : (o.setLink l state).link l = state := Function.update_self ..
  have gained := held_gain (own ▸ less) i l'
  rwa [back] at gained

theorem Conserved.enqueue {i : ι} (conserved : o.Conserved) (stepped : o.enqueue i = some next) :
    next.Conserved := by
  obtain ⟨chosen, l, rest, sending, enqueues⟩ := enqueue_cases stepped
  intro j l'
  have before := conserved j l'
  -- the pair leaves the call, and enters the queue or the count of drops
  have left : ((o.setCall i (.sending chosen rest)).call j).chosen.count l'
      = ((o.setCall i (.sending chosen rest)).call j).rest.count l'
        + (o.held j l' + once i l j l') + o.fates j l' := by
    rw [call_setCall]
    unfold once
    split
    · next own =>
      rw [own, sending] at before
      rw [own]
      simp only [ReplicateCall.chosen, ReplicateCall.rest, List.count_cons, beq_iff_eq,
        Prod.mk.injEq, true_and] at before ⊢
      omega
    · next other =>
      rw [if_neg (fun same => other (congrArg Prod.fst same).symm)]
      omega
  cases enqueues with
  | queued room =>
    have longer : LinkState.frames { o.link l with replCh := (o.link l).replCh ++ [i] }
        = (o.link l).frames ++ [i] := (List.append_assoc ..).symm
    have queued := held_gain (longer ▸ List.perm_append_singleton i _) j l'
    rw [← queued] at left
    exact left
  | dropped full =>
    have counted : fates { o with dropped := o.dropped ++ [(i, l)] } j l'
        = o.fates j l' + once i l j l' := by
      simp only [fates, count_concat_pair]
      omega
    rw [Nat.add_assoc, Nat.add_assoc, Nat.add_comm (once i l j l'), ← counted,
      ← Nat.add_assoc] at left
    exact left

theorem Conserved.flush {result : FlushResult} (conserved : o.Conserved)
    (stepped : o.flushStep l result = some next) : next.Conserved := by
  obtain ⟨frame, drains, writing, flushes⟩ := flushStep_cases stepped
  have emptied (broken : Bool) : (o.link l).frames.Perm (frame :: LinkState.frames { o.link l with
      writer := if drains then .draining else .serving, broken := broken }) := by
    unfold LinkState.frames
    rw [writing]
    cases drains <;> exact List.Perm.refl _
  -- the frame leaves the link, and is counted once
  have settles {after : Outbound ι κ} {broken : Bool} (call : after.call = o.call)
      (held : ∀ i l', after.held i l' = (o.setLink l { o.link l with
        writer := if drains then .draining else .serving, broken := broken }).held i l')
      (counted : ∀ i l', after.fates i l' = o.fates i l' + once frame l i l') : after.Conserved :=
    conserved.moved call fun i l' => by
      rw [held, counted, held_loss (emptied broken) i l']
      omega
  cases flushes with
  | flushed =>
    refine settles rfl (fun _ _ => rfl) fun i l' => ?_
    simp only [fates, setLink, count_concat_pair]
    omega
  | failed broken =>
    refine settles rfl (fun _ _ => rfl) fun i l' => ?_
    simp only [fates, setLink, count_concat_pair]
    omega

def Orderly (o : Outbound ι κ) : Prop :=
  o.shutdown.phase = .idle ∨ o.shutdown.phase = .returned →
    o.shutdown.peers = [] ∧ o.shutdown.pending = []

theorem Conserved.shutdown {move : ShutdownMove} (conserved : o.Conserved) (orderly : o.Orderly)
    (attends : o.Attends (.shutdown move)) (stepped : o.shutdownStep move = some next) :
    next.Conserved := by
  cases shutdownStep_cases stepped with
  | start idle =>
    exact conserved.congr rfl (fun _ => rfl) (orderly (.inl idle)).2.symm fun _ _ => rfl
  | cancel l peers visiting here =>
    exact conserved.congr rfl (frames_setLink rfl) rfl fun _ _ => rfl
  | waited cancelled => exact conserved
  | take l peers frame rest waited here queue =>
    refine conserved.moved rfl fun i l' => ?_
    have less : (o.link l).frames.Perm
        (frame :: LinkState.frames { o.link l with replCh := rest }) := by
      unfold LinkState.frames
      rw [queue]
      exact List.perm_middle
    have left := held_loss less i l'
    have collected : held { o.setLink l { o.link l with replCh := rest } with
        shutdown.pending := o.shutdown.pending ++ [(frame, l)] } i l'
          = (o.setLink l { o.link l with replCh := rest }).held i l' + once frame l i l' := by
      simp only [held, count_concat_pair, Nat.add_assoc]
      rfl
    rw [collected, ← left]
    rfl
  | break_ l peers waited here empty => exact conserved
  | write succeeds visiting all =>
    refine conserved.moved rfl fun i l => ?_
    rcases attends with rfl | nothing
    · simp only [held, fates, if_true, List.count_append, List.count_nil]
      omega
    · simp only [held, fates, nothing, List.append_nil, ite_self]

omit [DecidableEq ι] in
theorem Unused.frames (unused : o.Unused) (above : o.linkSeq < l) : (o.link l).frames = [] := by
  unfold LinkState.frames
  rw [(unused l above).1, (unused l above).2]
  rfl

theorem Conserved.step [DecidableEq κ] (conserved : o.Conserved) (unused : o.Unused)
    (orderly : o.Orderly) (attends : o.Attends move) (stepped : o.step move = some next) :
    next.Conserved := by
  cases step_cases stepped with
  | registerOut addr remoteID inbound =>
    refine conserved.congr rfl (frames_setLink ?_) rfl fun _ _ => rfl
    exact (unused.frames (Nat.lt_succ_self _)).symm
  | replicate i idle =>
    intro j l
    have before := conserved j l
    rw [call_setCall]
    split
    · next own =>
      rw [own, idle] at before
      rw [own]
      exact before
    · exact before
  | chosen i links choosing returned =>
    intro j l
    have before := conserved j l
    rw [call_setCall]
    split
    · next own =>
      -- all the chosen links are still to come, and none has a frame of the event
      rw [own, choosing] at before
      rw [own]
      show (links.map OutPeer.linkSeq).count l
        = (links.map OutPeer.linkSeq).count l + o.held i l + o.fates i l
      simp only [ReplicateCall.chosen, ReplicateCall.rest, List.count_nil] at before
      omega
    · exact before
  | enqueue i _ enqueued => exact conserved.enqueue enqueued
  | writer l move state moved =>
    exact conserved.congr rfl (frames_setLink (LinkState.step_frames moved)) rfl fun _ _ => rfl
  | flush l result _ flushed => exact conserved.flush flushed
  | targets | startTeardown => exact conserved
  | teardown t l first rest steps =>
    cases first with
    | cancelSession | closeConn =>
      exact conserved.congr rfl (frames_setLink rfl) rfl fun _ _ => rfl
    | replStop | unregisterLink | awaitWriter => exact conserved
  | shutdown move _ moved => exact conserved.shutdown orderly attends moved

end Outbound

end SuperCache
