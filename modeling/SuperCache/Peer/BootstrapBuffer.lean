import SuperCache.Peer.InboundOrder

/-! # Events during a bootstrap

From the activation of the buffer on, a worker puts the events it takes into the
buffer, or applies them once the buffer is closed.  In a successful attempt each of
them is applied once, after the snapshot and in the order in which its worker took
them, as long as no worker finds the buffer full or comes to it after the drain.
-/

namespace SuperCache

open Lib

variable {ι : Type} {n : Nat}

/-! ## What is seen of one worker -/

def StoreEvent.by (k : Fin n) : StoreEvent ι n → Option (Job ι)
  | .applied (some worker) job _ => if worker = k then some job else none
  | _ => none

def StoreEvent.isApplied : StoreEvent ι n → Bool
  | .applied .. => true
  | _ => false

def appliedBy (k : Fin n) (log : List (StoreEvent ι n)) : List (Job ι) :=
  log.filterMap (StoreEvent.by k)

def bufferedBy (k : Fin n) (buf : List (Buffered ι n)) : List (Job ι) :=
  buf.filterMap fun event => if event.worker = k then some event.job else none

def BootPhase.poppedBy (k : Fin n) : BootPhase ι n → List (Job ι)
  | .popped _ event => bufferedBy k [event]
  | _ => []

def BootPhase.isActive : BootPhase ι n → Bool
  | .pulling | .draining .. | .popped .. | .closing _ => true
  | _ => false

def BootPhase.isDrained : BootPhase ι n → Bool
  | .closing true | .clearing true | .synced | .ready => true
  | _ => false

def BootPhase.hasFailed : BootPhase ι n → Bool
  | .closing false | .clearing false | .off | .armed => true
  | _ => false

def BootPhase.isReady : BootPhase ι n → Bool
  | .ready => true
  | _ => false

theorem BootPhase.isDrained_of_not_active (boot : BootPhase ι n) (underway : boot.hasFailed = false)
    (closed : ¬ boot.isActive = true) : boot.isDrained = true := by
  cases boot with
  | off | armed => cases underway
  | pulling | draining | popped | closing => exact absurd rfl closed
  | clearing ok =>
    cases ok with
    | true => rfl
    | false => cases underway
  | synced | ready => rfl

theorem BootPhase.poppedBy_of_isDrained (boot : BootPhase ι n) (drained : boot.isDrained = true)
    (k : Fin n) : boot.poppedBy k = [] := by
  cases boot with
  | popped => cases drained
  | _ => rfl

namespace Inbound

def waiting (m : Inbound ι n) (k : Fin n) : List (Job ι) :=
  m.boot.poppedBy k ++ bufferedBy k m.bootstrapReplBuf ++ (m.worker k).held

/-- `bootstrapOnce` has just activated the buffer, and the records begin. -/
structure Activated (m : Inbound ι n) : Prop where
  boot : m.boot = .pulling
  active : m.bootstrapActive = true
  log : m.log = []
  taken : ∀ k, m.taken k = []

def owed (m : Inbound ι n) (k : Fin n) : List (Job ι) :=
  bufferedBy k m.bootstrapReplBuf ++ (m.worker k).held

def Heard (m : Inbound ι n) : InboundMove ι n → Prop
  | .buffer _ =>
    m.bootstrapReplBuf.length < max 1 m.bootstrapMaxCap ∧ m.boot.isActive = true
      ∧ m.boot.isDrained = false
  | _ => True

/-! ## What is kept -/

/-- Of the events of a worker those from before are applied in some order, before or
after the snapshot, and then those it has taken since in their order. -/
def Accounts (owed before after waiting taken : List (Job ι)) : Prop :=
  ∃ old, after ++ waiting = old ++ taken ∧ (before ++ old).Perm owed

def SplitLog : BootPhase ι n → (log before after : List (StoreEvent ι n)) → Prop
  | .pulling, log, before, after => before = log ∧ after = []
  | _, log, before, after =>
    log = before ++ .snapshotDone :: after ∧ ∀ event ∈ after, event.isApplied = true

structure Kept (owed : Fin n → List (Job ι)) (m : Inbound ι n) : Prop where
  underway : m.boot.hasFailed = false
  active : m.bootstrapActive = m.boot.isActive
  drained : m.boot.isDrained = true → m.bootstrapReplBuf = []
  old : m.boot.isActive = true → ∀ k job, m.worker k = .applying job → m.taken k = []
  accounts : ∃ before after, SplitLog m.boot m.log before after
    ∧ ∀ k, Accounts (owed k) (appliedBy k before) (appliedBy k after) (m.waiting k) (m.taken k)

theorem Activated.kept {m : Inbound ι n} (activated : m.Activated) : m.Kept m.owed where
  underway := by
    rw [activated.boot]
    rfl
  active := by
    rw [activated.active, activated.boot]
    rfl
  drained := by
    rw [activated.boot]
    nofun
  old _ k _ _ := activated.taken k
  accounts := by
    rw [activated.boot]
    refine ⟨m.log, [], ⟨rfl, rfl⟩, fun k => ⟨m.owed k, ?_, ?_⟩⟩
    · rw [activated.taken, List.append_nil]
      unfold waiting owed
      rw [activated.boot]
      rfl
    · rw [activated.log]
      exact List.Perm.refl _

theorem bufferedBy_append (k : Fin n) (first second : List (Buffered ι n)) :
    bufferedBy k (first ++ second) = bufferedBy k first ++ bufferedBy k second :=
  List.filterMap_append

theorem bufferedBy_single (k : Fin n) (event : Buffered ι n) :
    bufferedBy k [event] = if event.worker = k then [event.job] else [] := by
  by_cases own : event.worker = k <;> simp [bufferedBy, own]

theorem appliedBy_append (k : Fin n) (first second : List (StoreEvent ι n)) :
    appliedBy k (first ++ second) = appliedBy k first ++ appliedBy k second :=
  List.filterMap_append

variable {k : Fin n}

theorem appliedBy_concat {event : StoreEvent ι n} (others : event.by k = none)
    (log : List (StoreEvent ι n)) : appliedBy k (log ++ [event]) = appliedBy k log := by
  rw [appliedBy_append]
  simp [appliedBy, others]

theorem appliedBy_concat_self (k : Fin n) (job : Job ι) (now : Time) (log : List (StoreEvent ι n)) :
    appliedBy k (log ++ [.applied (some k) job now]) = appliedBy k log ++ [job] := by
  rw [appliedBy_append]
  simp [appliedBy, StoreEvent.by]

theorem StoreEvent.by_other {k' : Fin n} (other : k' ≠ k) (job : Job ι) (now : Time) :
    (StoreEvent.applied (some k) job now).by k' = none :=
  if_neg (Ne.symm other)

theorem SplitLog.applied {boot : BootPhase ι n} {log before after : List (StoreEvent ι n)}
    (split : SplitLog boot log before after) (event : StoreEvent ι n)
    (applied : event.isApplied = true) :
    (boot = .pulling ∧ after = [] ∧ SplitLog boot (log ++ [event]) (before ++ [event]) after)
      ∨ SplitLog boot (log ++ [event]) before (after ++ [event]) := by
  have later (split : log = before ++ .snapshotDone :: after ∧ ∀ event ∈ after, event.isApplied = true) :
      log ++ [event] = before ++ .snapshotDone :: (after ++ [event])
        ∧ ∀ event' ∈ after ++ [event], event'.isApplied = true := by
    refine ⟨by rw [split.1, List.append_assoc, List.cons_append], fun event' listed => ?_⟩
    rcases List.mem_append.mp listed with earlier | last
    · exact split.2 event' earlier
    · rw [List.mem_singleton.mp last]
      exact applied
  cases boot with
  | pulling =>
    obtain ⟨rfl, rfl⟩ := split
    exact .inl ⟨rfl, rfl, rfl, rfl⟩
  | off | armed | draining | popped | closing | clearing | synced | ready =>
    exact .inr (later split)

namespace Accounts

variable {owed before after waiting taken : List (Job ι)} {job : Job ι}

theorem early (accounts : Accounts owed before [] (waiting ++ [job]) []) :
    Accounts owed (before ++ [job]) [] waiting [] := by
  obtain ⟨old, same, perm⟩ := accounts
  refine ⟨waiting, (List.append_nil _).symm, ?_⟩
  rw [List.append_nil, List.nil_append] at same
  rw [List.append_assoc]
  refine List.Perm.trans ?_ perm
  rw [← same]
  exact List.perm_append_comm.append_left before

theorem past (accounts : Accounts owed before after (waiting ++ [job]) []) :
    Accounts owed before (after ++ [job]) waiting [] := by
  obtain ⟨old, same, perm⟩ := accounts
  refine ⟨after ++ [job] ++ waiting, (List.append_nil _).symm, ?_⟩
  rw [List.append_nil] at same
  refine List.Perm.trans ?_ perm
  rw [← same, List.append_assoc]
  exact (List.perm_append_comm.append_left after).append_left before

theorem first (accounts : Accounts owed before after (job :: waiting) taken) :
    Accounts owed before (after ++ [job]) waiting taken := by
  obtain ⟨old, same, perm⟩ := accounts
  exact ⟨old, by rw [List.append_assoc]; exact same, perm⟩

theorem take (accounts : Accounts owed before after waiting taken) :
    Accounts owed before after (waiting ++ [job]) (taken ++ [job]) := by
  obtain ⟨old, same, perm⟩ := accounts
  exact ⟨old, by rw [← List.append_assoc, same, List.append_assoc], perm⟩

end Accounts

section Step

variable {owed : Fin n → List (Job ι)} {m next : Inbound ι n}

theorem worker_setWorker (m : Inbound ι n) (k k' : Fin n) (phase : WorkerPhase ι) :
    (m.setWorker k phase).worker k' = if k' = k then phase else m.worker k' := by
  show Function.update m.worker k phase k' = _
  rw [Function.update_apply]

theorem Kept.congr (kept : m.Kept owed) (worker : next.worker = m.worker)
    (active : next.bootstrapActive = m.bootstrapActive)
    (buf : next.bootstrapReplBuf = m.bootstrapReplBuf) (boot : next.boot = m.boot)
    (taken : next.taken = m.taken) (log : next.log = m.log) : next.Kept owed := by
  obtain ⟨underway, flag, drained, old, accounts⟩ := kept
  constructor
  · rw [boot, underway]
  · rw [active, boot, flag]
  · rw [boot, buf]
    exact drained
  · rw [boot, worker, taken]
    exact old
  · unfold waiting
    rw [boot, log, worker, buf, taken]
    exact accounts

variable {k : Fin n} {job : Job ι} {now : Time} {round : Nat} {event : Buffered ι n}

theorem Kept.setWorker {phase : WorkerPhase ι} (kept : m.Kept owed)
    (same : phase.held = (m.worker k).held)
    (buffers : m.boot.isActive = true → ∀ job, phase ≠ .applying job) :
    (m.setWorker k phase).Kept owed where
  underway := kept.underway
  active := kept.active
  drained := kept.drained
  old active k' job applying := by
    rw [worker_setWorker] at applying
    split at applying
    · exact absurd applying (buffers active job)
    · exact kept.old active k' job applying
  accounts := by
    have held (k' : Fin n) : ((m.setWorker k phase).worker k').held = (m.worker k').held := by
      rw [worker_setWorker]
      split
      · next own => rw [own, same]
      · rfl
    simp only [waiting, held]
    exact kept.accounts

theorem Kept.logged {event : StoreEvent ι n} (kept : m.Kept owed) (store : Store)
    (applied : event.isApplied = true ∨ m.boot = .pulling) (others : ∀ k, event.by k = none) :
    Kept owed { m with store := store, log := m.log ++ [event] } where
  underway := kept.underway
  active := kept.active
  drained := kept.drained
  old := kept.old
  accounts := by
    obtain ⟨before, after, split, accounts⟩ := kept.accounts
    have none (k : Fin n) := appliedBy_concat (others k)
    have later : ∃ before' after', SplitLog m.boot (m.log ++ [event]) before' after'
        ∧ ∀ k, appliedBy k before' = appliedBy k before ∧ appliedBy k after' = appliedBy k after := by
      rcases applied with applied | pulling
      · rcases split.applied event applied with ⟨-, -, split⟩ | split
        · exact ⟨_, _, split, fun k => ⟨none k _, rfl⟩⟩
        · exact ⟨_, _, split, fun k => ⟨rfl, none k _⟩⟩
      · rw [pulling] at split ⊢
        obtain ⟨rfl, rfl⟩ := split
        exact ⟨_, [], ⟨rfl, rfl⟩, fun k => ⟨none k _, rfl⟩⟩
    obtain ⟨before', after', split', same⟩ := later
    refine ⟨before', after', split', fun k => ?_⟩
    rw [(same k).1, (same k).2]
    exact accounts k

theorem Kept.take (kept : m.Kept owed) (idle : m.worker k = .idle) :
    Kept owed { m.setWorker k (.took job) with
      taken := Function.update m.taken k (m.taken k ++ [job]) } where
  underway := kept.underway
  active := kept.active
  drained := kept.drained
  old active k' job' applying := by
    dsimp only at applying ⊢
    rw [worker_setWorker] at applying
    split at applying
    · cases applying
    · next other =>
      rw [Function.update_of_ne other]
      exact kept.old active k' job' applying
  accounts := by
    obtain ⟨before, after, split, accounts⟩ := kept.accounts
    refine ⟨before, after, split, fun k' => ?_⟩
    unfold waiting at accounts ⊢
    dsimp only
    rw [worker_setWorker]
    by_cases own : k' = k
    · have mine := accounts k
      rw [idle] at mine
      rw [own, if_pos rfl, Function.update_self]
      simp only [WorkerPhase.held, List.append_nil] at mine ⊢
      exact mine.take
    · rw [if_neg own, Function.update_of_ne own]
      exact accounts k'

theorem Kept.buffer (kept : m.Kept owed) (heard : m.Heard (.buffer k))
    (buffering : m.worker k = .buffering job) :
    ((m.enqueueBootstrapRepl { worker := k, job := job }).setWorker k .idle).Kept owed := by
  obtain ⟨room, active, open_⟩ := heard
  have queued : m.enqueueBootstrapRepl { worker := k, job := job }
      = { m with bootstrapReplBuf := m.bootstrapReplBuf ++ [{ worker := k, job := job }] } := by
    unfold enqueueBootstrapRepl
    rw [if_neg (Int.not_le.mpr room)]
  rw [queued]
  obtain ⟨underway, flag, drained, old, before, after, split, accounts⟩ := kept
  constructor
  · exact underway
  · exact flag
  · intro drained
    cases open_.symm.trans drained
  · intro active k' job' applying
    rw [worker_setWorker] at applying
    split at applying
    · cases applying
    · exact old active k' job' applying
  · refine ⟨before, after, split, fun k' => ?_⟩
    have same : Inbound.waiting (Inbound.setWorker { m with
        bootstrapReplBuf := m.bootstrapReplBuf ++ [{ worker := k, job := job }] } k .idle) k'
          = m.waiting k' := by
      unfold waiting
      rw [worker_setWorker]
      show m.boot.poppedBy k' ++ bufferedBy k' (m.bootstrapReplBuf ++ [_]) ++ _ = _
      rw [bufferedBy_append, bufferedBy_single]
      by_cases own : k' = k
      · rw [if_pos own, own, buffering, if_pos rfl]
        simp only [WorkerPhase.held, List.append_nil, List.append_assoc]
      · rw [if_neg own, if_neg (Ne.symm own), List.append_nil]
    rw [same]
    exact accounts k'

theorem Kept.apply (kept : m.Kept owed) (applying : m.worker k = .applying job) :
    ((m.applyJob (some k) job now).setWorker k .idle).Kept owed := by
  obtain ⟨underway, flag, drained, old, before, after, split, accounts⟩ := kept
  have others (k' : Fin n) (other : k' ≠ k) :
      ((m.applyJob (some k) job now).setWorker k .idle).waiting k' = m.waiting k' := by
    unfold waiting
    rw [worker_setWorker, if_neg other]
    rfl
  -- what its worker still has waiting, without the event itself
  have mine : m.waiting k = ((m.applyJob (some k) job now).setWorker k .idle).waiting k ++ [job] := by
    unfold waiting
    rw [worker_setWorker, if_pos rfl, applying]
    simp [WorkerPhase.held, applyJob, Inbound.setWorker]
  constructor
  · exact underway
  · exact flag
  · exact drained
  · intro active k' job' applying'
    rw [worker_setWorker] at applying'
    split at applying'
    · cases applying'
    · exact old active k' job' applying'
  · suffices ∃ before' after', SplitLog m.boot (m.log ++ [.applied (some k) job now]) before' after'
        ∧ (∀ k', k' ≠ k → appliedBy k' before' = appliedBy k' before
          ∧ appliedBy k' after' = appliedBy k' after)
        ∧ Accounts (owed k) (appliedBy k before') (appliedBy k after')
          (((m.applyJob (some k) job now).setWorker k .idle).waiting k) (m.taken k) by
      obtain ⟨before', after', split', same, here⟩ := this
      refine ⟨before', after', split', fun k' => ?_⟩
      show Accounts _ _ _ _ (m.taken k')
      by_cases own : k' = k
      · rw [own]
        exact here
      · rw [others k' own, (same k' own).1, (same k' own).2]
        exact accounts k'
    have unseen (k' : Fin n) (other : k' ≠ k) := appliedBy_concat (StoreEvent.by_other other job now)
    have here := accounts k
    rw [mine] at here
    by_cases active : m.boot.isActive = true
    · -- the event is from before the activation
      have nothing : m.taken k = [] := old active k job applying
      rw [nothing] at here ⊢
      rcases split.applied (.applied (some k) job now) rfl with ⟨-, rfl, split⟩ | split
      · refine ⟨_, _, split, fun k' other => ⟨unseen k' other _, rfl⟩, ?_⟩
        rw [appliedBy_concat_self]
        exact here.early
      · refine ⟨_, _, split, fun k' other => ⟨rfl, unseen k' other _⟩, ?_⟩
        rw [appliedBy_concat_self]
        exact here.past
    · -- the buffer is closed, and its worker has nothing else waiting
      have closed := m.boot.isDrained_of_not_active underway active
      have only : ((m.applyJob (some k) job now).setWorker k .idle).waiting k = [] := by
        unfold waiting
        rw [worker_setWorker, if_pos rfl]
        show m.boot.poppedBy k ++ bufferedBy k m.bootstrapReplBuf ++ [] = []
        rw [drained closed, m.boot.poppedBy_of_isDrained closed]
        rfl
      rw [only] at here ⊢
      rcases split.applied (.applied (some k) job now) rfl with ⟨pulling, -, -⟩ | split
      · rw [pulling] at closed
        cases closed
      · refine ⟨_, _, split, fun k' other => ⟨rfl, unseen k' other _⟩, ?_⟩
        rw [appliedBy_concat_self]
        exact here.first

/-! ## The attempt itself -/

theorem Kept.setBoot {prev boot : BootPhase ι n} {active : Bool} (kept : m.Kept owed)
    (here : m.boot = prev) (underway : boot.hasFailed = false) (flag : active = boot.isActive)
    (opens : boot.isActive = true → prev.isActive = true)
    (drained : boot.isDrained = true → m.bootstrapReplBuf = [])
    (popped : ∀ k, boot.poppedBy k = prev.poppedBy k)
    (split : ∀ log before after, SplitLog prev log before after → SplitLog boot log before after) :
    Kept owed { m with boot := boot, bootstrapActive := active } where
  underway := underway
  active := flag
  drained := drained
  old active := kept.old (here ▸ opens active)
  accounts := by
    obtain ⟨before, after, before_after, accounts⟩ := kept.accounts
    refine ⟨before, after, split _ before after (here ▸ before_after), fun k => ?_⟩
    have same : Inbound.waiting { m with boot := boot, bootstrapActive := active } k = m.waiting k := by
      unfold waiting
      show boot.poppedBy k ++ _ ++ _ = _
      rw [popped, here]
    rw [same]
    exact accounts k

theorem Kept.pulled (kept : m.Kept owed) (pulling : m.boot = .pulling) :
    Kept owed { m with boot := .draining 0 false, log := m.log ++ [.snapshotDone] } where
  underway := rfl
  active := by
    rw [kept.active, pulling]
    rfl
  drained := nofun
  old _ := kept.old (by rw [pulling]; rfl)
  accounts := by
    obtain ⟨before, after, split, accounts⟩ := kept.accounts
    rw [pulling] at split
    obtain ⟨rfl, rfl⟩ := split
    refine ⟨m.log, [], ⟨rfl, nofun⟩, fun k => ?_⟩
    have here := accounts k
    unfold waiting at here ⊢
    rw [pulling] at here
    exact here

theorem Kept.pop {drained : Bool} {rest : List (Buffered ι n)} (kept : m.Kept owed)
    (draining : m.boot = .draining round drained) (buf : m.bootstrapReplBuf = event :: rest) :
    Kept owed { m with boot := .popped round event, bootstrapReplBuf := rest } where
  underway := rfl
  active := by
    rw [kept.active, draining]
    rfl
  drained := nofun
  old _ := kept.old (by rw [draining]; rfl)
  accounts := by
    obtain ⟨before, after, split, accounts⟩ := kept.accounts
    rw [draining] at split
    refine ⟨before, after, split, fun k => ?_⟩
    have here := accounts k
    unfold waiting at here ⊢
    rw [draining, buf, ← List.singleton_append, bufferedBy_append] at here
    exact here

theorem Kept.drain (kept : m.Kept owed) (popped : m.boot = .popped round event) :
    Kept owed { m.applyJob (some event.worker) event.job now with boot := .draining round true } where
  underway := rfl
  active := by
    show m.bootstrapActive = _
    rw [kept.active, popped]
    rfl
  drained := nofun
  old _ := kept.old (by rw [popped]; rfl)
  accounts := by
    obtain ⟨before, after, split, accounts⟩ := kept.accounts
    rw [popped] at split
    rcases split.applied (.applied (some event.worker) event.job now) rfl with ⟨pulling, -⟩ | split
    · cases pulling
    · refine ⟨before, _, split, fun k => ?_⟩
      have here := accounts k
      unfold waiting at here ⊢
      rw [popped] at here
      simp only [BootPhase.poppedBy, bufferedBy_single] at here
      by_cases own : event.worker = k
      · rw [if_pos own] at here
        rw [← own] at here ⊢
        rw [appliedBy_concat_self]
        exact here.first
      · rw [if_neg own] at here
        rw [appliedBy_concat (StoreEvent.by_other (Ne.symm own) event.job now)]
        exact here

end Step

/-! ## Runs -/

def Attempt (owed : Fin n → List (Job ι)) (m : Inbound ι n) : Prop :=
  (m.boot.hasFailed = true ∧ m.boot ≠ .armed) ∨ m.Kept owed

section Runs

variable [DecidableEq ι] {conns : ι → Conn} {owed : Fin n → List (Job ι)} {m next : Inbound ι n}
  {move : InboundMove ι n}

theorem stepPeer_boot (stepped : m.stepPeer conns move = some next) : next.boot = m.boot := by
  revert stepped
  fun_cases stepPeer conns m move <;> rintro ⟨⟩ <;>
    simp [setReader, setWorker, applyJob, enqueueBootstrapRepl, apply_ite Inbound.boot]

theorem Kept.stepPeer (kept : m.Kept owed) (heard : m.Heard move)
    (stepped : m.stepPeer conns move = some next) : next.Kept owed := by
  revert stepped
  fun_cases Inbound.stepPeer conns m move <;> rintro ⟨⟩
  · exact kept.congr rfl rfl rfl rfl rfl rfl
  · exact kept.congr rfl rfl rfl rfl rfl rfl
  · exact (kept.logged m.store (.inl rfl) fun _ => rfl).congr rfl rfl rfl rfl rfl rfl
  · exact kept.congr rfl rfl rfl rfl rfl rfl
  · next idle => exact (kept.take idle).congr rfl rfl rfl rfl rfl rfl
  · next job took =>
    refine kept.setWorker ?_ fun active job' => ?_
    · rw [took]
      split <;> rfl
    · simp [kept.active, active]
  · next buffering => exact kept.buffer heard buffering
  · next applying => exact kept.apply applying

omit [DecidableEq ι] in
theorem Kept.stepBoot (kept : m.Kept owed) (stepped : m.stepBoot move = some next) :
    next.Attempt owed := by
  have underway := kept.underway
  revert stepped
  fun_cases Inbound.stepBoot m move <;> intro stepped <;> try contradiction
  all_goals obtain rfl := Option.some.inj stepped
  · next off =>
    rw [off] at underway
    cases underway
  · next armed =>
    rw [armed] at underway
    cases underway
  · next pulling => exact .inr (kept.logged _ (.inr pulling) fun _ => rfl)
  · next pulling => exact .inr (kept.logged _ (.inr pulling) fun _ => rfl)
  · next pulling => exact .inr (kept.pulled pulling)
  · exact .inl ⟨rfl, nofun⟩
  · next buf draining => exact .inr (kept.pop draining buf)
  · next now round event popped =>
    cases (applyWireRepl m.store now event.job.wr).2 with
    | ok => exact .inr (kept.drain popped)
    | error => exact .inl ⟨rfl, nofun⟩
  · next empty draining =>
    have active : m.bootstrapActive = true := by rw [kept.active, draining]; rfl
    refine .inr ?_
    -- another round or the end: the buffer stays open and nothing is popped
    unfold afterRound
    split
    · exact kept.setBoot draining rfl active (fun _ => rfl) (fun _ => empty) (fun _ => rfl)
        fun _ _ _ split => split
    · split <;>
        exact kept.setBoot draining rfl active (fun _ => rfl) (fun _ => empty) (fun _ => rfl)
          fun _ _ _ split => split
  · next ok closing =>
    cases ok with
    | false => simp [closing, BootPhase.hasFailed] at underway
    | true =>
      exact .inr (kept.setBoot closing rfl rfl nofun (fun _ => kept.drained (by rw [closing]; rfl))
        (fun _ => rfl) fun _ _ _ split => split)
  · next ok clearing =>
    cases ok with
    | false => simp [clearing, BootPhase.hasFailed] at underway
    | true =>
      have empty : m.bootstrapReplBuf = [] := kept.drained (by rw [clearing]; rfl)
      have inactive : m.bootstrapActive = false := by rw [kept.active, clearing]; rfl
      have cleared : Kept owed { m with boot := .synced } :=
        kept.setBoot clearing rfl inactive nofun (fun _ => empty) (fun _ => rfl)
          fun _ _ _ split => split
      exact .inr (cleared.congr rfl rfl empty.symm rfl rfl rfl)
  · next synced =>
    have inactive : m.bootstrapActive = false := by rw [kept.active, synced]; rfl
    have served : Kept owed { m with boot := .ready } :=
      kept.setBoot synced rfl inactive nofun (fun _ => kept.drained (by rw [synced]; rfl))
        (fun _ => rfl) fun _ _ _ split => split
    exact .inr (served.congr rfl rfl rfl rfl rfl rfl)

omit [DecidableEq ι] in
theorem stepBoot_failed (failed : m.boot.hasFailed = true) (idle : m.boot ≠ .armed)
    (single : ∀ maxCap, move ≠ .arm maxCap) (stepped : m.stepBoot move = some next) :
    next.boot.hasFailed = true ∧ next.boot ≠ .armed := by
  cases boot : m.boot with
  | armed => exact absurd boot idle
  | off | closing | clearing =>
    -- nothing but the start of another attempt, or the end of this one
    cases move <;> simp only [Inbound.stepBoot, boot] at stepped <;> cases stepped
    all_goals grind [BootPhase.hasFailed]
  | pulling | draining | popped | synced | ready =>
    rw [boot] at failed
    cases failed

omit [DecidableEq ι] in
theorem Replays.stepBoot {first : Store} (replays : m.Replays first)
    (stepped : m.stepBoot move = some next) : next.Replays first := by
  revert stepped
  fun_cases Inbound.stepBoot m move <;> intro stepped <;> try contradiction
  all_goals obtain rfl := Option.some.inj stepped
  case case5 => exact replays.logged .flushed
  case case7 ent now _ => exact replays.logged (.entry ent now)
  case case9 => exact replays.logged .snapshotDone
  case case15 now _ _ _ => exact replays.logged (.applied (some _) _ now)
  all_goals exact replays

theorem Replays.step {first : Store} (replays : m.Replays first)
    (stepped : m.step conns move = some next) : next.Replays first := by
  rcases Option.or_eq_some_iff.mp stepped with peer | ⟨-, boot⟩
  · exact replays.stepPeer peer
  · exact replays.stepBoot boot

theorem Attempt.step (attempt : m.Attempt owed) (heard : m.Heard move)
    (single : ∀ maxCap, move ≠ .arm maxCap) (stepped : m.step conns move = some next) :
    next.Attempt owed := by
  unfold Inbound.step at stepped
  rcases Option.or_eq_some_iff.mp stepped with peer | ⟨-, boot⟩
  · rcases attempt with ⟨failed, idle⟩ | kept
    · refine .inl ?_
      rw [stepPeer_boot peer]
      exact ⟨failed, idle⟩
    · exact .inr (kept.stepPeer heard peer)
  · rcases attempt with ⟨failed, idle⟩ | kept
    · exact .inl (stepBoot_failed failed idle single boot)
    · exact kept.stepBoot boot

/-- The store is what the events of the log make of it, one after another.  In an attempt that
succeeds, with no event turned away, the events a worker has taken since the activation are
in the log once each and in order, after the snapshot and after those from before the
activation that were still to be applied then. -/
theorem buffered_events_applied (conns : ι → Conn) {start final : Inbound ι n}
    {moves : List (InboundMove ι n)} (activated : start.Activated)
    (single : ∀ move ∈ moves, ∀ maxCap, move ≠ .arm maxCap)
    (heard : Machine.Guarded (step conns) Heard start moves)
    (ran : Machine.run (step conns) start moves = some final) (ready : final.boot.isReady = true) :
    final.store = final.log.foldl StoreEvent.exec start.store
      ∧ ∃ before after, final.log = before ++ .snapshotDone :: after
      ∧ (∀ event ∈ after, event.isApplied = true)
      ∧ ∀ k, (final.worker k).held = [] → ∃ old, appliedBy k after = old ++ final.taken k
        ∧ (appliedBy k before ++ old).Perm (start.owed k) := by
  have keeps (m : Inbound ι n) (move : InboundMove ι n) (next : Inbound ι n)
      (attempt : m.Attempt start.owed) (ok : m.Heard move ∧ ∀ maxCap, move ≠ .arm maxCap)
      (stepped : m.step conns move = some next) : next.Attempt start.owed :=
    attempt.step ok.1 ok.2 stepped
  have attempt := Machine.run_invariant keeps (.inr activated.kept) (heard.and_labels single) ran
  have replays : final.Replays start.store :=
    Machine.run_history (fun _ m => m.Replays start.store)
      (by rw [Replays, activated.log, List.foldl_nil])
      (fun _ _ _ _ replays stepped => replays.step stepped) ran
  refine ⟨replays, ?_⟩
  cases boot : final.boot with
  | ready =>
    rcases attempt with ⟨failed, -⟩ | kept
    · rw [boot] at failed
      cases failed
    · obtain ⟨before, after, split, accounts⟩ := kept.accounts
      have empty := kept.drained (by rw [boot]; rfl)
      rw [boot] at split
      refine ⟨before, after, split.1, split.2, fun k idle => ?_⟩
      obtain ⟨old, order, perm⟩ := accounts k
      unfold waiting at order
      rw [boot, empty, idle] at order
      exact ⟨old, by simpa [BootPhase.poppedBy, bufferedBy] using order, perm⟩
  | off | armed | pulling | draining | popped | closing | clearing | synced =>
    rw [boot] at ready
    cases ready

instance decidableHeard (m : Inbound ι n) (move : InboundMove ι n) : Decidable (m.Heard move) := by
  unfold Heard
  split <;> infer_instance

def bootstrapping : Inbound (Fin 2) 3 :=
  { threeWorkers with
    inboundShards := fun k =>
      if k = 1 then [{ conn := 0, remote := ascii "10.0.0.1:7000", wr := setEvent "n1" 1 "k" "old" }]
      else []
    bootstrapActive := true
    bootstrapMaxCap := 4
    boot := .pulling
    clientReady := false }

theorem bootstrapping_activated : bootstrapping.Activated :=
  ⟨rfl, rfl, rfl, fun _ => rfl⟩

def oneBuffered : List (InboundMove (Fin 2) 3) :=
  [.take 1, .flush, .test 1, .read 0 (setEvent "n1" 2 "k" "new"), .buffer 1, .pulled, .pop,
    .drain 7, .check, .check, .hand 0 8, .deactivate, .take 1, .test 1, .clear, .serve, .apply 1 9]

theorem oneBuffered_applied : ∃ final,
    Machine.run (step twoConns) bootstrapping oneBuffered = some final
      ∧ (final.taken 1).map (·.wr.seq) = [1, 2]
      ∧ (final.store.run 9 (ascii "k") KeyOp.get).2.toOption = some (some (ascii "new"))
      ∧ final.store = final.log.foldl StoreEvent.exec bootstrapping.store
      ∧ ∃ before after, final.log = before ++ .snapshotDone :: after
        ∧ ∃ old, appliedBy 1 after = old ++ final.taken 1
          ∧ (appliedBy 1 before ++ old).Perm [] := by
  refine ⟨_, Machine.ran (by decide +kernel), by decide +kernel, by decide +kernel, ?_⟩
  have single (move : InboundMove (Fin 2) 3) (made : move ∈ oneBuffered) (maxCap : Int) :
      move ≠ .arm maxCap := by
    rintro rfl
    simp [oneBuffered] at made
  obtain ⟨replays, before, after, log, -, applied⟩ := buffered_events_applied twoConns
    bootstrapping_activated single (by decide +kernel) (Machine.ran (by decide +kernel))
    (by decide +kernel)
  exact ⟨replays, before, after, log, applied 1 (by decide +kernel)⟩

def comesLate : List (InboundMove (Fin 2) 3) :=
  [.take 1, .test 1, .pulled, .check, .deactivate, .clear, .serve, .buffer 1]

/-- The event lies in the buffer, where nobody will take it from, and the store has no key. -/
theorem comesLate_loses : bootstrapping.Activated ∧ ∃ final,
    Machine.run (step twoConns) bootstrapping comesLate = some final
      ∧ (final.boot.isReady = true ∧ final.clientReady = true ∧ (final.worker 1).held = [])
      ∧ (final.taken 1).map (·.wr.seq) = [1] ∧ final.log.map StoreEvent.isApplied = [false]
      ∧ (final.bootstrapReplBuf.map (·.job.wr.seq)) = [1]
      ∧ (final.store.run 9 (ascii "k") KeyOp.get).2.toOption = some none :=
  ⟨bootstrapping_activated, Machine.exists_run (by decide +kernel)⟩

end Runs

end Inbound

end SuperCache
