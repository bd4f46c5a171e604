import SuperCache.Peer.Membership

/-! # Dial loops

`AddPeerFrom`, `RemovePeer` and hot reloads of `service.go`, section by section, with the
dial loops they start and cancel.  The peer list is read and written under `configMu`,
except by a hot reload; the dial map is read and written under `dialMu`; a cancelled loop
takes its entry out of the map only when it has ended.

In between, the list and the loops disagree, and they can stay so: `ensureDial` starts no
loop while the entry of a cancelled one is there, and a reload starts loops but ends none.
`Tidy` is what holds in between when calls keep to their turn; this module has the part of
it that is about the loops and their map.
-/

namespace SuperCache

open Lib

/-- A goroutine of `ensureDial`; `returned` once its `dialLoop` has come back. -/
structure DialLoop where
  id : Nat
  addr : Bytes
  cancelled : Bool
  returned : Bool
deriving DecidableEq

def DialLoop.dying (l : DialLoop) : Bool :=
  l.cancelled || l.returned

inductive DialCall where
  | add (addr : Bytes)
  | remove (addr : Bytes)
  | reload (file : List Bytes)

/-- Where a call stands.  `known` is the list a call has read and holds the lock on. -/
inductive DialStage where
  | adding (addr : Bytes)
  | appending (addr : Bytes) (known : List Bytes)
  | dialling (addr : Bytes)
  | removing (addr : Bytes)
  | cancelling (addr : Bytes) (loop : Option Nat)
  | unlisting (addr : Bytes)
  | deleting (addr : Bytes) (known : List Bytes)
  | reloading (file : List Bytes)
  | syncing (rest : List Bytes)
  | returned
deriving DecidableEq

namespace DialStage

/-- The call holds `configMu`. -/
def locks : DialStage → Bool
  | .appending _ _ | .deleting _ _ => true
  | _ => false

def dials : DialStage → List Bytes
  | .adding addr | .appending addr _ | .dialling addr => [addr]
  | .reloading file => file
  | .syncing rest => rest
  | _ => []

def owes : DialStage → List Bytes
  | .dialling addr => [addr]
  | .syncing rest => rest
  | _ => []

def drops : DialStage → Option Bytes
  | .removing addr | .cancelling addr _ | .unlisting addr | .deleting addr _ => some addr
  | _ => none

def isReloading : DialStage → Bool
  | .reloading _ => true
  | _ => false

def Sees (stage : DialStage) (p : Bytes) : Prop :=
  p ∈ stage.owes ∨ stage.drops = some p

attribute [simp, grind =] locks dials owes drops isReloading
attribute [grind =] Sees

end DialStage

def DialCall.stage : DialCall → DialStage
  | .add addr => .adding (trimSpace addr)
  | .remove addr => .removing (trimSpace addr)
  | .reload file => .reloading file

/-- The peer service as far as dialing goes.  `calls` are the calls in progress, each in a
slot of its own; `self` are the addresses whose handshake reported this node. -/
structure Dialer (ι : Type) where
  member : Membership
  activeDial : GoMap Nat
  loops : List DialLoop
  next : Nat
  calls : ι → DialStage
  self : Finset Bytes

inductive DialMove (ι : Type) where
  | start (i : ι) (call : DialCall)
  | advance (i : ι)
  /-- A cancelled `dialLoop` returns. -/
  | finish (id : Nat)
  /-- A handshake reports this node's own identity, and `dialLoop` returns. -/
  | meetSelf (id : Nat)
  /-- The goroutine of a loop that has returned deletes its entry. -/
  | cleanup (id : Nat)

namespace Dialer

variable {ι : Type} (rules : AddrRules)

/-- `Run` has made the map and goes on to dial the peers of its configuration, in the slot
`i`. -/
def begin [DecidableEq ι] (m : Membership) (i : ι) : Dialer ι where
  member := m
  activeDial := ∅
  loops := []
  next := 0
  calls := Function.update (fun _ => .returned) i (.syncing m.peers)
  self := ∅

def setPeers (d : Dialer ι) (peers : List Bytes) : Dialer ι :=
  { d with member := { d.member with peers } }

def ensureDial (d : Dialer ι) (addr : Bytes) : Dialer ι :=
  let addr := trimSpace addr
  if addr = [] ∨ addr ∈ d.activeDial then d
  else
    { d with
      activeDial := d.activeDial.insert addr d.next
      loops := ⟨d.next, addr, false, false⟩ :: d.loops
      next := d.next + 1 }

def onLoop (d : Dialer ι) (id : Nat) (change : DialLoop → DialLoop) : Dialer ι :=
  { d with loops := d.loops.map fun l => if l.id = id then change l else l }

/-- The next section of a call; `none` if it waits for `configMu` or has returned. -/
def section? (d : Dialer ι) (free : Prop) [Decidable free] : DialStage → Option (Dialer ι × DialStage)
  | .adding addr =>
    if free then
      if Membership.refuses rules d.member addr then some (d, .returned)
      else some (d, .appending addr d.member.peers)
    else none
  | .appending addr known => some (d.setPeers (known ++ [addr]), .dialling addr)
  | .dialling addr => some (d.ensureDial addr, .returned)
  | .removing addr => some (d, .cancelling addr (d.activeDial.lookup addr))
  | .cancelling addr none => some (d, .unlisting addr)
  | .cancelling addr (some id) =>
    some (d.onLoop id fun l => { l with cancelled := true }, .unlisting addr)
  | .unlisting addr => if free then some (d, .deleting addr d.member.peers) else none
  | .deleting addr known => some (d.setPeers (known.filter (· ≠ addr)), .returned)
  | .reloading file => some (d.setPeers file, .syncing file)
  | .syncing [] => some (d, .returned)
  | .syncing (p :: rest) => some (d.ensureDial p, .syncing rest)
  | .returned => none

def setCall [DecidableEq ι] (d : Dialer ι) (i : ι) (stage : DialStage) : Dialer ι :=
  { d with calls := Function.update d.calls i stage }

def step [DecidableEq ι] [Fintype ι] (d : Dialer ι) : DialMove ι → Option (Dialer ι)
  | .start i call =>
    if d.calls i = .returned then some (d.setCall i call.stage) else none
  | .advance i =>
    (d.section? rules (∀ j, (d.calls j).locks = false) (d.calls i)).map fun after =>
      after.1.setCall i after.2
  | .finish id =>
    if d.loops.any (fun l => l.id = id && l.cancelled) then
      some (d.onLoop id fun l => { l with returned := true })
    else none
  | .meetSelf id =>
    match d.loops.find? (fun l => l.id = id && !l.returned) with
    | some l =>
      some { d.onLoop id fun l => { l with returned := true } with self := insert l.addr d.self }
    | none => none
  | .cleanup id =>
    match d.loops.find? (fun l => l.id = id && l.returned) with
    | some l =>
      some { d with
        loops := d.loops.filter (·.id ≠ id)
        activeDial := d.activeDial.erase l.addr }
    | none => none

def Ready (d : Dialer ι) (addr : Bytes) : Prop :=
  addr ∈ d.self ∨ ∀ l ∈ d.loops, l.addr = addr → l.dying = false

instance (d : Dialer ι) (addr : Bytes) : Decidable (d.Ready addr) :=
  inferInstanceAs (Decidable (_ ∨ _))

/-- An address is neither added while it is removed nor the other way round, nor added
while an earlier loop for it is ending.  A reload waits for the calls in progress and no
call begins before it has replaced the list; its file has every peer of the list, written
plainly. -/
def InTurn (d : Dialer ι) : DialMove ι → Prop
  | .start _ (.add addr) =>
    (∀ j, (d.calls j).drops ≠ some (trimSpace addr)) ∧ (∀ j, (d.calls j).isReloading = false)
      ∧ d.Ready (trimSpace addr)
  | .start _ (.remove addr) =>
    (∀ j, trimSpace addr ∉ (d.calls j).dials) ∧ ∀ j, (d.calls j).isReloading = false
  | .start _ (.reload file) =>
    (∀ j, d.calls j = .returned) ∧ (∀ p ∈ file, trimSpace p = p ∧ p ≠ [])
      ∧ (∀ p ∈ d.member.peers, p ∈ file) ∧ ∀ p ∈ file, d.Ready p
  | _ => True

instance [Fintype ι] (d : Dialer ι) (move : DialMove ι) : Decidable (d.InTurn move) := by
  unfold InTurn
  split <;> infer_instance

/-! ## What holds in between -/

def StageOk (peers : List Bytes) (loops : List DialLoop) (next : Nat) : DialStage → Prop
  | .adding addr => trimSpace addr = addr
  | .appending addr known => known = peers ∧ trimSpace addr = addr ∧ addr ≠ []
  | .dialling addr => addr ∈ peers
  | .cancelling addr none | .unlisting addr => ∀ l ∈ loops, l.addr = addr → l.dying = true
  | .cancelling addr (some id) =>
    (∀ l ∈ loops, l.addr = addr → l.dying = true ∨ l.id = id)
      ∧ (∀ l ∈ loops, l.id = id → l.addr = addr) ∧ id < next
  | .deleting addr known => known = peers ∧ ∀ l ∈ loops, l.addr = addr → l.dying = true
  | .reloading file => (∀ p ∈ file, trimSpace p = p ∧ p ≠ []) ∧ ∀ p ∈ peers, p ∈ file
  | .syncing rest => ∀ p ∈ rest, p ∈ peers
  | .removing _ | .returned => True

attribute [grind =] StageOk Ready DialLoop.dying

structure Mapped (d : Dialer ι) : Prop where
  entry : ∀ addr id, d.activeDial.lookup addr = some id ↔ ∃ l ∈ d.loops, l.id = id ∧ l.addr = addr
  distinct : (d.loops.map DialLoop.id).Nodup
  below : ∀ l ∈ d.loops, l.id < d.next

structure Orderly (calls : ι → DialStage) : Prop where
  lock : ∀ i j, (calls i).locks = true → (calls j).locks = true → i = j
  opposed : ∀ i j addr, addr ∈ (calls i).dials → (calls j).drops ≠ some addr
  alone : ∀ i j, (calls i).isReloading = true → j ≠ i → calls j = .returned

structure Tidy (d : Dialer ι) : Prop where
  mapped : d.Mapped
  orderly : Orderly d.calls
  ok : ∀ i, StageOk d.member.peers d.loops d.next (d.calls i)
  ready : ∀ i, ∀ addr ∈ (d.calls i).dials, d.Ready addr
  plain : ∀ p ∈ d.member.peers, trimSpace p = p ∧ p ≠ []
  listed : ∀ l ∈ d.loops, l.dying = false → l.addr ∈ d.member.peers
  dialled : ∀ p ∈ d.member.peers, p ∈ d.self ∨ (∃ l ∈ d.loops, l.addr = p ∧ l.dying = false)
    ∨ ∃ i, (d.calls i).Sees p

theorem DialStage.owes_subset_dials (stage : DialStage) : ∀ addr ∈ stage.owes, addr ∈ stage.dials := by
  cases stage <;> simp [DialStage.owes, DialStage.dials]

/-! ## The loops and the map -/

variable {d e : Dialer ι}

variable {l : DialLoop} {change : DialLoop → DialLoop}

theorem Mapped.unique (mapped : d.Mapped) {k : DialLoop} (left : l ∈ d.loops) (right : k ∈ d.loops)
    (same : l.addr = k.addr) : l = k := by
  have first := (mapped.entry l.addr l.id).mpr ⟨l, left, rfl, rfl⟩
  have second := (mapped.entry k.addr k.id).mpr ⟨k, right, rfl, rfl⟩
  rw [same, second, Option.some.injEq] at first
  exact List.inj_on_of_nodup_map mapped.distinct left right first.symm

theorem Mapped.ensureDial (mapped : d.Mapped) (addr : Bytes) : (d.ensureDial addr).Mapped := by
  unfold Dialer.ensureDial
  simp only
  split
  · exact mapped
  · next fresh =>
    have absent : d.activeDial.lookup (trimSpace addr) = none :=
      Finmap.lookup_eq_none.mpr fun member => fresh (.inr member)
    refine ⟨fun other id => ?_, ?_, ?_⟩
    · simp only [lookup_insert_eq_ite, List.exists_mem_cons_iff]
      by_cases same : other = trimSpace addr
      · -- No earlier loop is for the address, as the map had no entry.
        have none_before : ¬ ∃ l ∈ d.loops, l.id = id ∧ l.addr = trimSpace addr := by
          rw [← mapped.entry, absent]
          simp
        simp [same, none_before]
      · simp only [same, if_false, mapped.entry, Ne.symm same, and_false, false_or]
    · simp only [List.map_cons, List.nodup_cons]
      refine ⟨fun member => ?_, mapped.distinct⟩
      obtain ⟨l, listed, same⟩ := List.mem_map.mp member
      exact absurd (mapped.below l listed) (by omega)
    · simp only [List.forall_mem_cons]
      exact ⟨Nat.lt_succ_self _, fun l listed => Nat.lt_succ_of_lt (mapped.below l listed)⟩

theorem Mapped.onLoop (mapped : d.Mapped) (id : Nat)
    (keeps : ∀ l, (change l).id = l.id ∧ (change l).addr = l.addr) :
    (d.onLoop id change).Mapped := by
  have same (l : DialLoop) : (if l.id = id then change l else l).id = l.id
      ∧ (if l.id = id then change l else l).addr = l.addr := by
    split
    · exact keeps l
    · exact ⟨rfl, rfl⟩
  refine ⟨fun addr other => ?_, ?_, ?_⟩
  · simp only [Dialer.onLoop, mapped.entry, List.mem_map, exists_exists_and_eq_and, same]
  · simp only [Dialer.onLoop, List.map_map, Function.comp_def, same]
    exact mapped.distinct
  · simp only [Dialer.onLoop, List.forall_mem_map, same]
    exact mapped.below

theorem Mapped.cleanup (mapped : d.Mapped) (here : l ∈ d.loops) :
    Mapped { d with
      loops := d.loops.filter (·.id ≠ l.id)
      activeDial := d.activeDial.erase l.addr } := by
  refine ⟨fun addr id => ?_, ?_, ?_⟩
  · simp only [lookup_erase_eq_ite, List.mem_filter]
    by_cases same : addr = l.addr
    · -- The only loop for the address is the one that goes.
      rw [if_pos same]
      refine iff_of_false (by simp) ?_
      rintro ⟨k, ⟨listed, other⟩, -, sameAddr⟩
      rw [mapped.unique listed here (sameAddr.trans same)] at other
      simp at other
    · rw [if_neg same, mapped.entry]
      constructor
      · rintro ⟨k, listed, rfl, rfl⟩
        refine ⟨k, ⟨listed, ?_⟩, rfl, rfl⟩
        refine decide_eq_true fun sameId => same ?_
        rw [List.inj_on_of_nodup_map mapped.distinct listed here sameId]
      · rintro ⟨k, ⟨listed, -⟩, sameId, sameAddr⟩
        exact ⟨k, listed, sameId, sameAddr⟩
  · exact (List.filter_sublist.map _).nodup mapped.distinct
  · exact fun k listed => mapped.below k (List.mem_filter.mp listed).1

/-! ## What a change of the loops keeps -/

def Fewer (d e : Dialer ι) : Prop :=
  ∀ l ∈ e.loops, ∃ k ∈ d.loops, k.id = l.id ∧ k.addr = l.addr ∧ (k.dying = true → l.dying = true)

theorem Fewer.onLoop (d : Dialer ι) (id : Nat)
    (keeps : ∀ l, (change l).id = l.id ∧ (change l).addr = l.addr
      ∧ (l.dying = true → (change l).dying = true)) : Fewer d (d.onLoop id change) := by
  intro l listed
  obtain ⟨k, before, rfl⟩ := List.mem_map.mp listed
  refine ⟨k, before, ?_⟩
  split
  · exact ⟨(keeps k).1.symm, (keeps k).2.1.symm, (keeps k).2.2⟩
  · exact ⟨rfl, rfl, fun dies => dies⟩

theorem StageOk.of_fewer (fewer : Fewer d e) {peers : List Bytes} {next : Nat} {stage : DialStage}
    (ok : StageOk peers d.loops next stage) : StageOk peers e.loops next stage := by
  unfold Fewer at fewer
  fun_cases StageOk peers d.loops next stage <;> grind

theorem Tidy.of_fewer (tidy : d.Tidy) (fewer : Fewer d e) (mapped : e.Mapped)
    (member : e.member = d.member) (next : e.next = d.next) (calls : e.calls = d.calls)
    (self : ∀ addr ∈ d.self, addr ∈ e.self)
    (goesOn : ∀ k ∈ d.loops, k.dying = false →
      k.addr ∈ e.self ∨ ∃ l ∈ e.loops, l.addr = k.addr ∧ l.dying = false) : e.Tidy := by
  refine ⟨mapped, calls ▸ tidy.orderly, fun i => ?_, fun i addr dials => ?_, member ▸ tidy.plain,
    fun l listed goes => ?_, fun p peer => ?_⟩
  · rw [calls, member, next]
    exact (tidy.ok i).of_fewer fewer
  · rw [calls] at dials
    rcases tidy.ready i addr dials with met | ready
    · exact .inl (self addr met)
    · by_cases met : addr ∈ e.self
      · exact .inl met
      · refine .inr fun l listed same => ?_
        obtain ⟨k, there, -, sameAddr, -⟩ := fewer l listed
        obtain ⟨l', listed', same', goes⟩ := (goesOn k there
          (ready k there (sameAddr.trans same))).resolve_left (by rwa [sameAddr, same])
        rwa [mapped.unique listed listed' (same.trans (by rw [same', sameAddr, same]))]
  · obtain ⟨k, there, -, sameAddr, dies⟩ := fewer l listed
    rw [member, ← sameAddr]
    exact tidy.listed k there (by grind)
  · rw [member] at peer
    rw [calls]
    rcases tidy.dialled p peer with met | ⟨k, there, same, goes⟩ | later
    · exact .inl (self p met)
    · rcases goesOn k there goes with met | ⟨l, listed, sameAddr, goes⟩
      · exact .inl (same ▸ met)
      · exact .inr (.inl ⟨l, listed, sameAddr.trans same, goes⟩)
    · exact .inr (.inr later)

theorem Tidy.finish (tidy : d.Tidy) {id : Nat}
    (here : d.loops.any (fun l => l.id = id && l.cancelled) = true) :
    (d.onLoop id fun l => { l with returned := true }).Tidy := by
  obtain ⟨l, listed, found⟩ := List.any_eq_true.mp here
  simp only [Bool.and_eq_true, decide_eq_true_eq] at found
  refine tidy.of_fewer (Fewer.onLoop d id fun l => ⟨rfl, rfl, fun _ => by simp [DialLoop.dying]⟩)
    (tidy.mapped.onLoop id fun l => ⟨rfl, rfl⟩) rfl rfl rfl (fun _ met => met) fun k there going => .inr ?_
  -- The loop that returns was ending already.
  refine ⟨k, List.mem_map.mpr ⟨k, there, if_neg fun same => ?_⟩, rfl, going⟩
  rw [List.inj_on_of_nodup_map tidy.mapped.distinct there listed (same.trans found.1.symm)] at going
  simp [DialLoop.dying, found.2] at going

theorem Tidy.meetSelf (tidy : d.Tidy) (listed : l ∈ d.loops) :
    Tidy { d.onLoop l.id fun l => { l with returned := true } with self := insert l.addr d.self } := by
  have mapped : (d.onLoop l.id fun l => { l with returned := true }).Mapped :=
    tidy.mapped.onLoop l.id fun l => ⟨rfl, rfl⟩
  refine tidy.of_fewer (Fewer.onLoop d l.id fun l => ⟨rfl, rfl, fun _ => by simp [DialLoop.dying]⟩)
    ⟨mapped.entry, mapped.distinct, mapped.below⟩ rfl rfl rfl (fun _ => Finset.mem_insert_of_mem)
    fun k there going => ?_
  by_cases same : k.id = l.id
  · rw [List.inj_on_of_nodup_map tidy.mapped.distinct there listed same]
    exact .inl (Finset.mem_insert_self _ _)
  · exact .inr ⟨k, List.mem_map.mpr ⟨k, there, if_neg same⟩, rfl, going⟩

theorem Tidy.cleanup (tidy : d.Tidy) (listed : l ∈ d.loops) (ended : l.returned = true) :
    Tidy { d with
      loops := d.loops.filter (·.id ≠ l.id)
      activeDial := d.activeDial.erase l.addr } := by
  refine tidy.of_fewer ?_ (tidy.mapped.cleanup listed) rfl rfl rfl (fun _ met => met)
    fun k there going => .inr ?_
  · exact fun k there => ⟨k, (List.mem_filter.mp there).1, rfl, rfl, fun dies => dies⟩
  · refine ⟨k, List.mem_filter.mpr ⟨there, decide_eq_true fun same => ?_⟩, rfl, going⟩
    rw [List.inj_on_of_nodup_map tidy.mapped.distinct there listed same] at going
    simp [DialLoop.dying, ended] at going

end Dialer

end SuperCache
