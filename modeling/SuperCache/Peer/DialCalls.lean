import SuperCache.Peer.DialLoops

/-! # Calls that start and cancel dial loops

Each section of `AddPeerFrom`, `RemovePeer` and a hot reload keeps the peer list and the
dial loops in step, if the calls in progress do not get in each other's way.
`dial_loops_match` draws the consequence for whole runs: once nothing is in progress, there
is a loop for each peer and for no other address.
-/

namespace SuperCache

open Lib

namespace Dialer

/-! ## What a section of a call keeps -/

variable {ι : Type} {d e : Dialer ι} {i : ι} {stage : DialStage}

variable {addr p : Bytes} {peers known : List Bytes}

theorem StageOk.setPeers {after : List Bytes} {loops : List DialLoop} {next : Nat}
    (ok : StageOk peers loops next stage) (unlocked : stage.locks = false)
    (still : stage.isReloading = false) (kept : ∀ p ∈ stage.owes, p ∈ peers → p ∈ after) :
    StageOk after loops next stage := by
  fun_cases StageOk peers loops next stage <;> grind

theorem StageOk.ensureDial (ok : StageOk d.member.peers d.loops d.next stage)
    (other : stage.drops ≠ some (trimSpace addr)) :
    StageOk d.member.peers (d.ensureDial addr).loops (d.ensureDial addr).next stage := by
  unfold Dialer.ensureDial
  fun_cases StageOk d.member.peers d.loops d.next stage <;> grind

theorem Tidy.not_reloading (tidy : d.Tidy) {j : ι} (busy : d.calls i ≠ .returned) (other : j ≠ i) :
    (d.calls j).isReloading = false := by
  have alone := tidy.orderly.alone j i
  grind

/-- `ensureDial` leaves a loop that goes on, unless the address is this node's or the entry
of an ending loop was in the way. -/
theorem ensureDial_going (mapped : d.Mapped) (plain : trimSpace addr = addr) (nonblank : addr ≠ [])
    (ready : d.Ready addr) :
    addr ∈ (d.ensureDial addr).self
      ∨ ∃ l ∈ (d.ensureDial addr).loops, l.addr = addr ∧ l.dying = false := by
  unfold Dialer.ensureDial
  simp only [plain]
  split
  · next present =>
    obtain ⟨id, entry⟩ := Finmap.mem_iff.mp (present.resolve_left nonblank)
    obtain ⟨l, listed, -, same⟩ := (mapped.entry addr id).mp entry
    exact ready.imp_right fun going => ⟨l, listed, same, going l listed same⟩
  · exact .inr ⟨_, List.mem_cons_self, rfl, rfl⟩

theorem ensureDial_frame (d : Dialer ι) (addr : Bytes) :
    (d.ensureDial addr).member = d.member ∧ (d.ensureDial addr).calls = d.calls
      ∧ (d.ensureDial addr).self = d.self ∧ (∀ l ∈ d.loops, l ∈ (d.ensureDial addr).loops)
      ∧ ∀ l ∈ (d.ensureDial addr).loops, l ∈ d.loops ∨ l.addr = trimSpace addr ∧ l.dying = false := by
  unfold Dialer.ensureDial
  grind

variable [DecidableEq ι]

theorem Orderly.advance {calls : ι → DialStage} (orderly : Orderly calls)
    (busy : calls i ≠ .returned) (lock : stage.locks = true → ∀ j, (calls j).locks = false)
    (dials : ∀ addr ∈ stage.dials, addr ∈ (calls i).dials)
    (drops : ∀ addr, stage.drops = some addr → (calls i).drops = some addr)
    (still : stage.isReloading = false) : Orderly (Function.update calls i stage) := by
  obtain ⟨locked, opposed, alone⟩ := orderly
  -- While another call reloads, this one would have returned.
  constructor <;> simp only [Function.update_apply] <;> grind

theorem tidy_setCall (mapped : e.Mapped) (orderly : Orderly (Function.update e.calls i stage))
    (own : StageOk e.member.peers e.loops e.next stage)
    (others : ∀ j ≠ i, StageOk e.member.peers e.loops e.next (e.calls j))
    (ready : ∀ addr ∈ stage.dials, e.Ready addr)
    (readyOthers : ∀ j ≠ i, ∀ addr ∈ (e.calls j).dials, e.Ready addr)
    (plain : ∀ p ∈ e.member.peers, trimSpace p = p ∧ p ≠ [])
    (listed : ∀ l ∈ e.loops, l.dying = false → l.addr ∈ e.member.peers)
    (dialled : ∀ p ∈ e.member.peers, p ∈ e.self ∨ (∃ l ∈ e.loops, l.addr = p ∧ l.dying = false)
      ∨ stage.Sees p ∨ ∃ j ≠ i, (e.calls j).Sees p) :
    (e.setCall i stage).Tidy := by
  have here : (e.setCall i stage).calls i = stage := Function.update_self ..
  have there (j : ι) (other : j ≠ i) : (e.setCall i stage).calls j = e.calls j :=
    Function.update_of_ne other ..
  refine ⟨⟨mapped.entry, mapped.distinct, mapped.below⟩, orderly, fun j => ?_, fun j addr dials => ?_,
    plain, listed, fun p peer => ?_⟩
  · by_cases same : j = i
    · rw [same, here]
      exact own
    · rw [there j same]
      exact others j same
  · by_cases same : j = i
    · rw [same, here] at dials
      exact ready addr dials
    · rw [there j same] at dials
      exact readyOthers j same addr dials
  · refine (dialled p peer).imp_right (.imp_right ?_)
    rintro (sees | ⟨j, other, sees⟩)
    · exact ⟨i, here.symm ▸ sees⟩
    · exact ⟨j, (there j other).symm ▸ sees⟩

theorem Tidy.dialled_of (tidy : d.Tidy) (i : ι) (peer : p ∈ d.member.peers) :
    p ∈ d.self ∨ (∃ l ∈ d.loops, l.addr = p ∧ l.dying = false) ∨ (d.calls i).Sees p
      ∨ ∃ j ≠ i, (d.calls j).Sees p := by
  refine (tidy.dialled p peer).imp_right (.imp_right ?_)
  rintro ⟨j, sees⟩
  by_cases same : j = i
  · exact .inl (same ▸ sees)
  · exact .inr ⟨j, same, sees⟩

theorem Tidy.move (tidy : d.Tidy) (orderly : Orderly (Function.update d.calls i stage))
    (own : StageOk d.member.peers d.loops d.next stage) (ready : ∀ addr ∈ stage.dials, d.Ready addr)
    (sees : ∀ addr, (d.calls i).Sees addr → stage.Sees addr) : (d.setCall i stage).Tidy :=
  tidy_setCall tidy.mapped orderly own (fun j _ => tidy.ok j) ready (fun j _ => tidy.ready j)
    tidy.plain tidy.listed fun _ peer =>
      (tidy.dialled_of i peer).imp_right (.imp_right (.imp_left (sees _)))

theorem Tidy.goOn (tidy : d.Tidy) (busy : d.calls i ≠ .returned)
    (lock : stage.locks = true → ∀ j, (d.calls j).locks = false)
    (dials : ∀ addr ∈ stage.dials, addr ∈ (d.calls i).dials)
    (drops : ∀ addr, stage.drops = some addr → (d.calls i).drops = some addr)
    (still : stage.isReloading = false) (own : StageOk d.member.peers d.loops d.next stage)
    (sees : ∀ addr, (d.calls i).Sees addr → stage.Sees addr) : (d.setCall i stage).Tidy :=
  tidy.move (tidy.orderly.advance busy lock dials drops still) own
    (fun addr listed => tidy.ready i addr (dials addr listed)) sees

theorem Tidy.dial (tidy : d.Tidy) (busy : d.calls i ≠ .returned) (peer : p ∈ d.member.peers)
    (dials : p ∈ (d.calls i).dials)
    (sees : ∀ addr, (d.calls i).Sees addr → addr = p ∨ stage.Sees addr)
    (later : ∀ addr ∈ stage.dials, addr ∈ (d.calls i).dials) (drops : stage.drops = none)
    (unlocked : stage.locks = false) (still : stage.isReloading = false)
    (own : StageOk d.member.peers d.loops d.next stage) :
    ((d.ensureDial p).setCall i stage).Tidy := by
  obtain ⟨plain, nonblank⟩ := tidy.plain p peer
  obtain ⟨member, calls, self, before, loops⟩ := ensureDial_frame d p
  have apart (j : ι) : (d.calls j).drops ≠ some (trimSpace p) := by
    rw [plain]
    exact tidy.orderly.opposed i j p dials
  have ready (addr : Bytes) (ready : d.Ready addr) : (d.ensureDial p).Ready addr := by
    unfold Ready at *
    grind
  refine tidy_setCall (tidy.mapped.ensureDial p) ?_ ?_ (fun j _ => ?_) (fun addr listed => ?_)
    (fun j _ addr listed => ?_) (member ▸ tidy.plain) (fun l listed going => ?_) fun q listed => ?_
  · rw [calls]
    exact tidy.orderly.advance busy (by grind) later (by grind) still
  · rw [member]
    exact own.ensureDial (by grind)
  · rw [member, calls]
    exact (tidy.ok j).ensureDial (apart j)
  · exact ready addr (tidy.ready i addr (later addr listed))
  · rw [calls] at listed
    exact ready addr (tidy.ready j addr listed)
  · rw [member]
    rcases loops l listed with there | ⟨same, -⟩
    · exact tidy.listed l there going
    · rw [same, plain]
      exact peer
  · rw [member] at listed
    rw [calls]
    have settled := ensureDial_going tidy.mapped plain nonblank (tidy.ready i p dials)
    rcases tidy.dialled_of i listed with met | ⟨l, there, same, going⟩ | sees' | others
    · exact .inl (self ▸ met)
    · exact .inr (.inl ⟨l, before l there, same, going⟩)
    · rcases sees q sees' with rfl | sees'
      · exact settled.imp_right .inl
      · exact .inr (.inr (.inl sees'))
    · exact .inr (.inr (.inr others))

theorem Tidy.relist (tidy : d.Tidy) (locked : (d.calls i).locks = true)
    (dials : ∀ addr ∈ stage.dials, addr ∈ (d.calls i).dials) (drops : stage.drops = none)
    (unlocked : stage.locks = false) (still : stage.isReloading = false)
    (own : StageOk peers d.loops d.next stage)
    (kept : ∀ j, j ≠ i → ∀ p ∈ (d.calls j).owes, p ∈ d.member.peers → p ∈ peers)
    (plain : ∀ p ∈ peers, trimSpace p = p ∧ p ≠ [])
    (listed : ∀ l ∈ d.loops, l.dying = false → l.addr ∈ peers)
    (seen : ∀ p ∈ peers, p ∈ stage.owes ∨ p ∈ d.member.peers ∧ (d.calls i).drops ≠ some p) :
    ((d.setPeers peers).setCall i stage).Tidy := by
  have busy : d.calls i ≠ .returned := fun idle => by simp [idle] at locked
  -- A call that holds the lock owes nothing.
  have owesNothing : (d.calls i).owes = [] := by
    cases here : d.calls i <;> simp_all
  refine tidy_setCall ⟨tidy.mapped.entry, tidy.mapped.distinct, tidy.mapped.below⟩
    (tidy.orderly.advance busy (by grind) dials (by grind) still) own
    (fun j other => ?_) (fun addr listed => tidy.ready i addr (dials addr listed))
    (fun j _ => tidy.ready j) plain listed fun p peer => ?_
  · have free := tidy.orderly.lock j i
    exact (tidy.ok j).setPeers (by grind) (tidy.not_reloading busy other) (kept j other)
  · rcases seen p peer with owed | ⟨before, remains⟩
    · exact .inr (.inr (.inl (.inl owed)))
    · have unseen : ¬ (d.calls i).Sees p := by grind
      exact (tidy.dialled_of i before).imp_right (.imp_right fun sees => .inr (sees.resolve_left unseen))

theorem Tidy.append (tidy : d.Tidy) (stage : d.calls i = .appending addr known) :
    ((d.setPeers (known ++ [addr])).setCall i (.dialling addr)).Tidy := by
  have ok := tidy.ok i
  rw [stage] at ok
  obtain ⟨rfl, plain, nonblank⟩ := ok
  have before := tidy.plain
  have listed := tidy.listed
  refine tidy.relist (by simp [stage]) (by simp [stage]) rfl rfl rfl
    (List.mem_append_right _ List.mem_cons_self) (fun _ _ p _ => List.mem_append_left _) ?_ ?_ ?_
  · grind
  · grind
  · simp only [stage, List.mem_append, DialStage.owes, DialStage.drops]
    grind

theorem Tidy.delete (tidy : d.Tidy) (stage : d.calls i = .deleting addr known) :
    ((d.setPeers (known.filter (· ≠ addr))).setCall i .returned).Tidy := by
  have ok := tidy.ok i
  rw [stage] at ok
  obtain ⟨rfl, ending⟩ := ok
  refine tidy.relist (by simp [stage]) (by simp) rfl rfl rfl trivial (fun j _ p owed listed => ?_) ?_ ?_ ?_
  · -- No call is about to dial the address that goes.
    have apart := tidy.orderly.opposed j i p (DialStage.owes_subset_dials _ p owed)
    simp only [stage, DialStage.drops] at apart
    grind
  · exact fun p listed => tidy.plain p (List.mem_filter.mp listed).1
  · have listed := tidy.listed
    grind
  · simp only [stage]
    grind

theorem Tidy.replaceList (tidy : d.Tidy) {file : List Bytes} (stage : d.calls i = .reloading file) :
    ((d.setPeers file).setCall i (.syncing file)).Tidy := by
  have ok := tidy.ok i
  rw [stage] at ok
  obtain ⟨plain, kept⟩ := ok
  -- No other call is in progress.
  have idle (j : ι) (other : j ≠ i) : (d.setPeers file).calls j = .returned :=
    tidy.orderly.alone i j (by simp [stage]) other
  refine tidy_setCall ⟨tidy.mapped.entry, tidy.mapped.distinct, tidy.mapped.below⟩ ?_
    (fun p listed => listed) (fun j other => ?_) (fun addr listed => ?_) (fun j other => ?_)
    plain (fun l listed going => kept _ (tidy.listed l listed going))
    fun p listed => .inr (.inr (.inl (.inl listed)))
  · exact tidy.orderly.advance (by simp [stage]) (by simp) (by simp [stage]) (by simp) rfl
  · rw [idle j other]
    trivial
  · exact tidy.ready i addr (by rw [stage]; exact listed)
  · simp [idle j other]

theorem Tidy.cancel (tidy : d.Tidy) {id : Nat} (stage : d.calls i = .cancelling addr (some id)) :
    ((d.onLoop id fun l => { l with cancelled := true }).setCall i (.unlisting addr)).Tidy := by
  have ok := tidy.ok i
  rw [stage] at ok
  obtain ⟨ending, own, -⟩ := ok
  have fewer : Fewer d (d.onLoop id fun l => { l with cancelled := true }) :=
    Fewer.onLoop d id fun l => ⟨rfl, rfl, fun _ => rfl⟩
  have listed := tidy.listed
  -- The loops of other addresses are as they were.
  have same (l : DialLoop) (other : l.addr ≠ addr) :
      l ∈ (d.onLoop id fun l => { l with cancelled := true }).loops ↔ l ∈ d.loops := by
    simp only [Dialer.onLoop, List.mem_map]
    grind
  have ready (j : ι) (other : Bytes) (dials : other ∈ (d.calls j).dials) :
      (d.onLoop id fun l => { l with cancelled := true }).Ready other := by
    have apart := tidy.orderly.opposed j i other dials
    simp only [stage, DialStage.drops] at apart
    refine (tidy.ready j other dials).imp_right fun going l listed sameAddr => ?_
    exact going l ((same l (by grind)).mp listed) sameAddr
  refine tidy_setCall (tidy.mapped.onLoop id fun l => ⟨rfl, rfl⟩) ?_ ?_ (fun j _ => ?_) (by simp)
    (fun j _ => ready j) tidy.plain (fun l there going => ?_) fun p peer => ?_
  · exact tidy.orderly.advance (by simp [stage]) (by simp) (by simp) (by simp [stage]) rfl
  · simp only [StageOk, Dialer.onLoop, List.forall_mem_map]
    grind
  · exact (tidy.ok j).of_fewer fewer
  · obtain ⟨k, there, -, sameAddr, dies⟩ := fewer l there
    exact sameAddr ▸ listed k there (by grind)
  · by_cases own : p = addr
    · exact .inr (.inr (.inl (.inr (congrArg some own.symm))))
    · rcases tidy.dialled_of i peer with met | ⟨l, listed, rfl, going⟩ | sees | others
      · exact .inl met
      · exact .inr (.inl ⟨l, (same l own).mpr listed, rfl, going⟩)
      · simp [stage, DialStage.Sees, Ne.symm own] at sees
      · exact .inr (.inr (.inr others))

/-! ## Steps and runs -/

variable {rules : AddrRules} {next : Dialer ι}

theorem Tidy.advance (tidy : d.Tidy) (nonblank : rules.valid [] = false) {free : Prop}
    [Decidable free] (unlocked : free → ∀ j, (d.calls j).locks = false) {after : Dialer ι × DialStage}
    (taken : d.section? rules free (d.calls i) = some after) : (after.1.setCall i after.2).Tidy := by
  have ok := tidy.ok i
  cases stage : d.calls i with rw [stage] at taken ok
  | adding addr =>
    simp only [section?, Option.ite_none_right_eq_some] at taken
    obtain ⟨isFree, taken⟩ := taken
    split at taken
    · cases taken
      apply tidy.goOn <;> simp [stage, DialStage.Sees, StageOk]
    · next accepted =>
      cases taken
      have valid : addr ≠ [] := by
        rintro rfl
        simp [Membership.refuses, nonblank] at accepted
      refine tidy.goOn ?_ (fun _ => unlocked isFree) ?_ ?_ rfl ⟨rfl, ok, valid⟩ ?_ <;>
        simp [stage, DialStage.Sees]
  | appending addr known =>
    cases taken
    exact tidy.append stage
  | dialling addr =>
    cases taken
    refine tidy.dial ?_ ok ?_ ?_ ?_ rfl rfl rfl trivial <;> simp [stage, DialStage.Sees]
  | removing addr =>
    cases taken
    refine tidy.goOn ?_ ?_ ?_ ?_ rfl ?_ ?_
    case refine_5 =>
      cases found : d.activeDial.lookup addr with
      | none =>
        -- Without an entry there is no loop for the address.
        intro l listed same
        have entry := (tidy.mapped.entry addr l.id).mpr ⟨l, listed, rfl, same⟩
        rw [found] at entry
        cases entry
      | some id =>
        obtain ⟨k, there, rfl, rfl⟩ := (tidy.mapped.entry addr id).mp found
        refine ⟨fun l listed same => .inr ?_, fun l listed same => ?_, tidy.mapped.below k there⟩
        · rw [tidy.mapped.unique listed there same]
        · rw [List.inj_on_of_nodup_map tidy.mapped.distinct listed there same]
    all_goals simp [stage, DialStage.Sees]
  | cancelling addr loop =>
    cases loop with
    | none =>
      cases taken
      refine tidy.goOn ?_ ?_ ?_ ?_ rfl ok ?_ <;> simp [stage, DialStage.Sees]
    | some id =>
      cases taken
      exact tidy.cancel stage
  | unlisting addr =>
    simp only [section?, Option.ite_none_right_eq_some] at taken
    obtain ⟨isFree, ⟨⟩⟩ := taken
    refine tidy.goOn ?_ (fun _ => unlocked isFree) ?_ ?_ rfl ⟨rfl, ok⟩ ?_ <;>
      simp [stage, DialStage.Sees]
  | deleting addr known =>
    cases taken
    exact tidy.delete stage
  | reloading file =>
    cases taken
    exact tidy.replaceList stage
  | syncing rest =>
    cases rest with
    | nil =>
      cases taken
      apply tidy.goOn <;> simp [stage, DialStage.Sees, StageOk]
    | cons p rest =>
      cases taken
      refine tidy.dial ?_ (ok p List.mem_cons_self) ?_ ?_ ?_ rfl rfl rfl
        fun q listed => ok q (List.mem_cons_of_mem p listed)
      all_goals simp +contextual [stage, DialStage.Sees]
  | returned => cases taken

theorem Tidy.start (tidy : d.Tidy) {call : DialCall} (idle : d.calls i = .returned)
    (inTurn : d.InTurn (.start i call)) : (d.setCall i call.stage).Tidy := by
  obtain ⟨lock, opposed, alone⟩ := tidy.orderly
  have sees : ∀ addr, (d.calls i).Sees addr → call.stage.Sees addr := by simp [idle, DialStage.Sees]
  cases call with
  | add addr =>
    obtain ⟨apart, quiet, ready⟩ := inTurn
    refine tidy.move ?_ (trimSpace_trimSpace addr) (by simpa [DialCall.stage] using ready) sees
    constructor <;> simp only [Function.update_apply, DialCall.stage] <;> grind
  | remove addr =>
    obtain ⟨apart, quiet⟩ := inTurn
    refine tidy.move ?_ trivial (by simp [DialCall.stage]) sees
    constructor <;> simp only [Function.update_apply, DialCall.stage] <;> grind
  | reload file =>
    obtain ⟨idleAll, plain, kept, ready⟩ := inTurn
    refine tidy.move ?_ ⟨plain, kept⟩ ready sees
    constructor <;> simp only [Function.update_apply, DialCall.stage] <;> grind

theorem Tidy.step [Fintype ι] (tidy : d.Tidy) (nonblank : rules.valid [] = false) {move : DialMove ι}
    (inTurn : d.InTurn move) (stepped : d.step rules move = some next) : next.Tidy := by
  cases move with
  | start i call =>
    simp only [Dialer.step, Option.ite_none_right_eq_some, Option.some.injEq] at stepped
    obtain ⟨idle, rfl⟩ := stepped
    exact tidy.start idle inTurn
  | advance i =>
    simp only [Dialer.step, Option.map_eq_some_iff] at stepped
    obtain ⟨after, taken, rfl⟩ := stepped
    exact tidy.advance nonblank id taken
  | finish id =>
    simp only [Dialer.step, Option.ite_none_right_eq_some, Option.some.injEq] at stepped
    obtain ⟨here, rfl⟩ := stepped
    exact tidy.finish here
  | meetSelf id =>
    simp only [Dialer.step] at stepped
    split at stepped
    · next l found =>
      cases stepped
      have here := List.find?_some found
      simp only [Bool.and_eq_true, decide_eq_true_eq] at here
      rw [← here.1]
      exact tidy.meetSelf (List.mem_of_find?_eq_some found)
    · cases stepped
  | cleanup id =>
    simp only [Dialer.step] at stepped
    split at stepped
    · next l found =>
      cases stepped
      have here := List.find?_some found
      simp only [Bool.and_eq_true, decide_eq_true_eq] at here
      rw [← here.1]
      exact tidy.cleanup (List.mem_of_find?_eq_some found) here.2
    · cases stepped

theorem tidy_begin {m : Membership} (plain : ∀ p ∈ m.peers, trimSpace p = p ∧ p ≠ []) (i : ι) :
    (begin m i).Tidy := by
  have calls (j : ι) : (begin m i).calls j = if j = i then .syncing m.peers else .returned := by
    simp only [begin, Function.update_apply]
  refine ⟨⟨fun addr id => ?_, List.nodup_nil, List.forall_mem_nil _⟩, ⟨fun j k => ?_, fun j k addr _ => ?_,
    fun j k => ?_⟩, fun j => ?_, fun j addr _ => .inr (List.forall_mem_nil _), plain,
    List.forall_mem_nil _, fun p peer => .inr (.inr ⟨i, .inl ?_⟩)⟩
  · simp [begin]
  · grind
  · grind
  · grind
  · rw [calls]
    split
    · exact fun p listed => listed
    · trivial
  · rw [calls, if_pos rfl]
    exact peer

def Settled (d : Dialer ι) : Prop :=
  (∀ i, d.calls i = .returned) ∧ ∀ l ∈ d.loops, l.cancelled = false

instance [Fintype ι] (d : Dialer ι) : Decidable d.Settled :=
  inferInstanceAs (Decidable (_ ∧ _))

def Dials (d : Dialer ι) (addr : Bytes) : Prop :=
  ∃ l ∈ d.loops, l.addr = addr ∧ l.returned = false

instance (d : Dialer ι) (addr : Bytes) : Decidable (d.Dials addr) :=
  inferInstanceAs (Decidable (∃ l ∈ d.loops, _))

/-- When nothing is in progress, the dial loops are those of the list, but for the addresses
that reached this node itself; in every run in which no address is added while it is
removed or an earlier loop for it is ending, and in which reloads keep the list, name their
peers plainly and do not overlap other calls. -/
theorem dial_loops_match [Fintype ι] {m : Membership} {moves : List (DialMove ι)} {final : Dialer ι}
    (nonblank : rules.valid [] = false) (plain : ∀ p ∈ m.peers, trimSpace p = p ∧ p ≠ [])
    (inTurn : Machine.Guarded (step rules) InTurn (begin m i) moves)
    (ran : Machine.run (step rules) (begin m i) moves = some final) (settled : final.Settled) :
    ∀ addr ∉ final.self, final.Dials addr ↔ addr ∈ final.member.peers := by
  have keeps (d : Dialer ι) (move : DialMove ι) (next : Dialer ι) (tidy : d.Tidy)
      (inTurn : d.InTurn move) (stepped : d.step rules move = some next) : next.Tidy :=
    tidy.step nonblank inTurn stepped
  have tidy := Machine.run_invariant keeps (tidy_begin plain i) inTurn ran
  intro addr notSelf
  constructor
  · rintro ⟨l, listed, rfl, running⟩
    exact tidy.listed l listed (by simp [DialLoop.dying, settled.2 l listed, running])
  · intro peer
    rcases tidy.dialled addr peer with met | ⟨l, listed, same, going⟩ | ⟨j, sees⟩
    · exact absurd met notSelf
    · refine ⟨l, listed, same, ?_⟩
      simp only [DialLoop.dying, Bool.or_eq_false_iff] at going
      exact going.2
    · simp [settled.1 j, DialStage.Sees] at sees

/-- `Run` on a node with the peer `b:1`, which it has dialled. -/
def oneDialled : List (DialMove (Fin 2)) :=
  [.advance 0, .advance 0]

def apartCalls : List (DialMove (Fin 2)) :=
  oneDialled ++ [.start 0 (.add (ascii "c:1")), .start 1 (.remove (ascii "b:1")), .advance 0,
    .advance 1, .advance 1, .advance 0, .advance 1, .advance 0, .advance 1, .finish 0, .cleanup 0]

theorem apartCalls_match :
    ∃ final, Machine.run (step Membership.plainRules) (begin Membership.seedNode 0) apartCalls = some final
      ∧ final.Settled ∧ final.member.peers = [ascii "c:1"]
      ∧ ∀ addr ∉ final.self, final.Dials addr ↔ addr ∈ final.member.peers := by
  refine ⟨_, Machine.ran (by decide +kernel), by decide +kernel, by decide +kernel, ?_⟩
  exact dial_loops_match rfl (by decide +kernel) (by decide +kernel) (Machine.ran _)
    (by decide +kernel)

/-- A peer that is removed and added again before its loop has ended stays without a loop; a
peer that a reload drops keeps its loop; and so does one that is removed while it is
added. -/
theorem dial_loops_differ :
    (∃ final, Machine.run (step Membership.plainRules) (begin Membership.seedNode (0 : Fin 2))
        (oneDialled ++ [.start 0 (.remove (ascii "b:1")), .advance 0, .advance 0, .advance 0, .advance 0,
          .start 0 (.add (ascii "b:1")), .advance 0, .advance 0, .advance 0, .finish 0, .cleanup 0])
        = some final
      ∧ final.Settled ∧ ascii "b:1" ∈ final.member.peers ∧ ¬ final.Dials (ascii "b:1"))
    ∧ (∃ final, Machine.run (step Membership.plainRules) (begin Membership.seedNode (0 : Fin 2))
        (oneDialled ++ [.start 0 (.add (ascii "c:1")), .advance 0, .advance 0, .advance 0,
          .start 0 (.reload [ascii "b:1"]), .advance 0, .advance 0, .advance 0]) = some final
      ∧ final.Settled ∧ ascii "c:1" ∉ final.member.peers ∧ final.Dials (ascii "c:1"))
    ∧ ∃ final, Machine.run (step Membership.plainRules) (begin Membership.seedNode (0 : Fin 2))
        (oneDialled ++ [.start 0 (.add (ascii "c:1")), .advance 0, .advance 0,
          .start 1 (.remove (ascii "c:1")), .advance 1, .advance 1, .advance 1, .advance 1,
          .advance 0]) = some final
      ∧ final.Settled ∧ ascii "c:1" ∉ final.member.peers ∧ final.Dials (ascii "c:1") :=
  ⟨Machine.exists_run (by decide +kernel), Machine.exists_run (by decide +kernel),
    Machine.exists_run (by decide +kernel)⟩

end Dialer

end SuperCache
