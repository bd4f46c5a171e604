import SuperCache.Lib.Machine
import SuperCache.Store.Basic

/-! # Which peers are remembered

The peer list of `service.go` with the record of how each address became known, and the
removals of `forget.go`.  A run starts with a configuration file and goes on with
addresses that are discovered, learned or added by the operator, hot reloads, and
removals by timeout, by a fresh listing and by an announced departure.

The list and the record are two things, and only some of the paths that name an address
update the record: an address stays forgettable if the operator names it only after it
was learned.  `operator_never_forgotten` says what keeps the two in step.
-/

namespace SuperCache

open Lib

/-- `PeerSource`: how an address became known. -/
inductive PeerSource where
  | config
  | manual
  | discovery
  | learned
deriving DecidableEq

def PeerSource.forgettable : PeerSource → Bool
  | .discovery | .learned => true
  | .config | .manual => false

/-- `peerMeta`; `lastOK` is 0 when the address has never worked. -/
structure PeerMeta where
  addr : Bytes
  source : PeerSource
  added : Int
  lastOK : Int
deriving DecidableEq

/-- What `NormalizePeerAddr` makes of a trimmed address, and what `ValidatePeerAddr`
accepts. -/
structure AddrRules where
  canonical : Bytes → Bytes
  valid : Bytes → Bool

def AddrRules.normalizePeerAddr (rules : AddrRules) (addr : Bytes) : Bytes :=
  rules.canonical (trimSpace addr)

theorem AddrRules.normalizePeerAddr_trimSpace (rules : AddrRules) (addr : Bytes) :
    rules.normalizePeerAddr (trimSpace addr) = rules.normalizePeerAddr addr := by
  unfold normalizePeerAddr
  rw [trimSpace_trimSpace]

/-- The peers of a node.  Beside what the service holds: the list of the file the server
started with, the list of the file loaded last, the normalized addresses that the
management API was asked to add and not to remove since, and the addresses of the
operator that were removed automatically. -/
structure Membership where
  nodeID : Bytes
  advertise : Bytes
  peers : List Bytes
  peerMeta : GoMap PeerMeta
  startup : List Bytes
  file : List Bytes
  asked : Finset Bytes
  lost : List Bytes

/-- The automatic removals of `forget.go`. -/
inductive ForgetCall where
  | unreachable (now after : Int)
  | missing (listed : List Bytes)
  | leave (nodeID advertise connAddr : Bytes)

namespace Membership

def start (nodeID advertise : Bytes) (file : List Bytes) : Membership where
  nodeID := nodeID
  advertise := advertise
  peers := file
  peerMeta := ∅
  startup := file
  file := file
  asked := ∅
  lost := []

variable (rules : AddrRules)

/-! ## Addresses that are added -/

/-- `recordPeerMeta`: a record is kept, and only a stronger claim changes its source. -/
def recordPeerMeta (now : Int) (addr : Bytes) (src : PeerSource) (m : Membership) : Membership :=
  let key := rules.normalizePeerAddr addr
  match m.peerMeta.lookup key with
  | some found =>
    if src.forgettable then m
    else { m with peerMeta := m.peerMeta.insert key { found with source := src } }
  | none =>
    { m with peerMeta := m.peerMeta.insert key { addr, source := src, added := now, lastOK := 0 } }

/-- `NoteConfigPeers`. -/
def noteConfigPeers (now : Int) (addrs : List Bytes) (m : Membership) : Membership :=
  addrs.foldl (fun m addr =>
    if trimSpace addr = [] then m else recordPeerMeta rules now (trimSpace addr) .config m) m

def isSelf (m : Membership) (nodeID addr : Bytes) : Bool :=
  (nodeID ≠ [] ∧ nodeID = m.nodeID)
    ∨ (m.advertise ≠ [] ∧ addr ≠ []
      ∧ rules.normalizePeerAddr m.advertise = rules.normalizePeerAddr addr)

/-- The checks `AddPeerFrom` returns an error on: the address, that it is not this node,
and that it is not in the list. -/
def refuses (m : Membership) (addr : Bytes) : Bool :=
  rules.valid addr = false ∨ isSelf rules m [] addr = true
    ∨ ∃ p ∈ m.peers, p = addr ∨ rules.normalizePeerAddr p = rules.normalizePeerAddr addr

/-- `AddPeerFrom`.  An address that is refused gets no record. -/
def addPeerFrom (now : Int) (addr : Bytes) (src : PeerSource) (m : Membership) : Membership :=
  if refuses rules m (trimSpace addr) then m
  else recordPeerMeta rules now (trimSpace addr) src { m with peers := m.peers ++ [trimSpace addr] }

def markPeerReachable (now : Int) (addr : Bytes) (m : Membership) : Membership :=
  let key := rules.normalizePeerAddr addr
  match m.peerMeta.lookup key with
  | some found => { m with peerMeta := m.peerMeta.insert key { found with lastOK := now } }
  | none => m

/-! ## Addresses that are removed -/

/-- `RemovePeer`; the record stays. -/
def removePeer (m : Membership) (addr : Bytes) : Membership :=
  { m with peers := m.peers.filter (· ≠ trimSpace addr) }

/-- The loop of `forgetCandidates`, which keeps the last peer. -/
def forgetLoop (want : PeerMeta → Bool → Bool) (connected : List Bytes) :
    List Bytes → Nat → GoMap PeerMeta → GoMap PeerMeta × List Bytes
  | [], _, records => (records, [])
  | addr :: rest, remaining, records =>
    let key := rules.normalizePeerAddr addr
    if remaining ≤ 1 then (records, [])
    else match records.lookup key with
      | none => forgetLoop want connected rest remaining records
      | some found =>
        if found.source.forgettable && want found (decide (key ∈ connected)) then
          let later := forgetLoop want connected rest (remaining - 1) (records.erase key)
          (later.1, addr :: later.2)
        else forgetLoop want connected rest remaining records

def Operator (m : Membership) (key : Bytes) : Prop :=
  key ∈ m.file.map rules.normalizePeerAddr ∨ key ∈ m.asked

instance (m : Membership) (key : Bytes) : Decidable (Operator rules m key) :=
  inferInstanceAs (Decidable (_ ∨ _))

/-- `forgetCandidates`, and `RemovePeer` for each of them.  `links` are the addresses of
the live links. -/
def forget (want : PeerMeta → Bool → Bool) (links : List Bytes) (m : Membership) : Membership :=
  let found := forgetLoop rules want (links.map rules.normalizePeerAddr) m.peers m.peers.length
    m.peerMeta
  let after := found.2.foldl removePeer { m with peerMeta := found.1 }
  { after with
    lost := m.lost ++ m.peers.filter fun p =>
      p ∉ after.peers ∧ Operator rules m (rules.normalizePeerAddr p) }

/-- What a removal looks for, given the record of a peer and whether it is connected; `none`
is a call that returns at once. -/
def wanted (m : Membership) : ForgetCall → Option (PeerMeta → Bool → Bool)
  | .unreachable now after =>
    if after ≤ 0 then none
    else some fun found connected =>
      !connected && decide ((if found.lastOK = 0 then found.added else found.lastOK) < now - after)
  | .missing listed =>
    let present := (listed.filter (trimSpace · ≠ [])).map rules.normalizePeerAddr
    some fun found connected => !connected && decide (found.source = .discovery)
      && decide (rules.normalizePeerAddr found.addr ∉ present)
  | .leave nodeID advertise connAddr =>
    let addr := if trimSpace advertise = [] then trimSpace connAddr else trimSpace advertise
    if addr = [] ∨ isSelf rules m (trimSpace nodeID) addr = true then none
    else some fun found _ => rules.normalizePeerAddr found.addr = rules.normalizePeerAddr addr

def forgetFor (call : ForgetCall) (links : List Bytes) (m : Membership) : Membership :=
  match wanted rules m call with
  | none => m
  | some want => forget rules want links m

def forgetUnreachablePeers (now after : Int) : List Bytes → Membership → Membership :=
  forgetFor rules (.unreachable now after)

def forgetPeersMissingFrom (listed : List Bytes) : List Bytes → Membership → Membership :=
  forgetFor rules (.missing listed)

/-- `handleLeave` of a message that names a node and an address. -/
def handleLeave (nodeID advertise connAddr : Bytes) : List Bytes → Membership → Membership :=
  forgetFor rules (.leave nodeID advertise connAddr)

/-! ## Runs -/

end Membership

inductive MemberMove where
  /-- Startup notes the addresses of the file. -/
  | noteConfig (now : Int)
  /-- Discovery, gossip, an inbound connection or a seed names an address. -/
  | add (now : Int) (addr : Bytes) (src : PeerSource)
  /-- The management API is asked to add an address. -/
  | manage (now : Int) (addr : Bytes)
  /-- The management API is asked to remove an address. -/
  | unmanage (addr : Bytes)
  /-- A hot reload of a file with these peers. -/
  | reload (peers : List Bytes)
  | reachable (now : Int) (addr : Bytes)
  | unreachable (now after : Int) (links : List Bytes)
  | missing (listed links : List Bytes)
  | leave (nodeID advertise connAddr : Bytes) (links : List Bytes)

namespace Membership

variable (rules : AddrRules) {m next : Membership}

def step (m : Membership) : MemberMove → Option Membership
  | .noteConfig now => some (noteConfigPeers rules now m.startup m)
  | .add now addr src => some (addPeerFrom rules now addr src m)
  | .manage now addr =>
    some { addPeerFrom rules now addr .manual m with
      asked := insert (rules.normalizePeerAddr addr) m.asked }
  | .unmanage addr =>
    some { removePeer m addr with asked := m.asked.erase (rules.normalizePeerAddr addr) }
  | .reload peers => some { m with peers := peers, file := peers }
  | .reachable now addr => some (markPeerReachable rules now addr m)
  | .unreachable now after links => some (forgetUnreachablePeers rules now after links m)
  | .missing listed links => some (forgetPeersMissingFrom rules listed links m)
  | .leave nodeID advertise connAddr links =>
    some (handleLeave rules nodeID advertise connAddr links m)

def Forgettable (m : Membership) (key : Bytes) : Prop :=
  ∃ found, m.peerMeta.lookup key = some found ∧ found.source.forgettable = true

instance (m : Membership) (key : Bytes) : Decidable (m.Forgettable key) :=
  decidable_of_iff ((m.peerMeta.lookup key).any (·.source.forgettable) = true) (by
    simp only [Option.any_eq_true, Forgettable])

/-- The operator names no address that is on record as discovered or learned, unless the
record follows; and nothing is learned about an address of the operator that has no
record. -/
def InStep (m : Membership) : MemberMove → Prop
  | .manage _ addr =>
    refuses rules m (trimSpace addr) = true → ¬ m.Forgettable (rules.normalizePeerAddr addr)
  | .reload peers => ∀ p ∈ peers, ¬ m.Forgettable (rules.normalizePeerAddr p)
  | .add _ addr src =>
    src.forgettable = true → Operator rules m (rules.normalizePeerAddr addr) →
      refuses rules m (trimSpace addr) = false →
        m.peerMeta.lookup (rules.normalizePeerAddr addr) ≠ none
  | _ => True

instance (m : Membership) (move : MemberMove) : Decidable (m.InStep rules move) := by
  unfold InStep
  split <;> infer_instance

structure Safe (m : Membership) : Prop where
  kept : ∀ key, Operator rules m key → ¬ m.Forgettable key
  none_lost : m.lost = []

/-! ## What the operations do to the record -/

/-- `PeerSourceOf`, by normalized address. -/
def sourceOf (m : Membership) (key : Bytes) : Option PeerSource :=
  (m.peerMeta.lookup key).map PeerMeta.source

theorem forgettable_iff_sourceOf {key : Bytes} :
    m.Forgettable key ↔ ∃ src, m.sourceOf key = some src ∧ src.forgettable = true := by
  unfold Forgettable sourceOf
  cases m.peerMeta.lookup key with
  | none => simp
  | some found => simp

/-- The source on record once an address is also named by `src`. -/
def strongest (src : PeerSource) : Option PeerSource → PeerSource
  | none => src
  | some known => if src.forgettable then known else src

theorem strongest_forgettable {src : PeerSource} {known : Option PeerSource} :
    (strongest src known).forgettable = true
      ↔ src.forgettable = true ∧ ∀ old ∈ known, old.forgettable = true := by
  cases known with
  | none => simp [strongest]
  | some old => cases weak : src.forgettable <;> simp [strongest, weak]

theorem exists_recordPeerMeta_eq (now : Int) (addr : Bytes) (src : PeerSource) (m : Membership) :
    ∃ records, recordPeerMeta rules now addr src m = { m with peerMeta := records } := by
  unfold recordPeerMeta
  simp only
  split
  · split <;> exact ⟨_, rfl⟩
  · exact ⟨_, rfl⟩

theorem sourceOf_recordPeerMeta (now : Int) (addr : Bytes) (src : PeerSource) (m : Membership)
    (key : Bytes) :
    (recordPeerMeta rules now addr src m).sourceOf key
      = if key = rules.normalizePeerAddr addr then some (strongest src (m.sourceOf key))
        else m.sourceOf key := by
  unfold recordPeerMeta sourceOf
  simp only
  by_cases same : key = rules.normalizePeerAddr addr
  · subst same
    rw [if_pos rfl]
    cases found : m.peerMeta.lookup (rules.normalizePeerAddr addr) with
    | none => simp [strongest]
    | some old =>
      cases weak : src.forgettable with
      | true => simp [found, weak, strongest]
      | false => simp [weak, strongest]
  · rw [if_neg same]
    cases m.peerMeta.lookup (rules.normalizePeerAddr addr) with
    | none => simp [same]
    | some old => cases src.forgettable <;> simp [same]

theorem exists_markPeerReachable_eq (now : Int) (addr : Bytes) (m : Membership) :
    ∃ records, markPeerReachable rules now addr m = { m with peerMeta := records } := by
  unfold markPeerReachable
  simp only
  split <;> exact ⟨_, rfl⟩

theorem sourceOf_markPeerReachable (now : Int) (addr : Bytes) (m : Membership) (key : Bytes) :
    (markPeerReachable rules now addr m).sourceOf key = m.sourceOf key := by
  unfold markPeerReachable sourceOf
  simp only
  cases found : m.peerMeta.lookup (rules.normalizePeerAddr addr) with
  | none => rfl
  | some old =>
    simp only [lookup_insert_eq_ite]
    split
    · next same =>
      rw [same, found]
      rfl
    · rfl

variable {now : Int} {addr key : Bytes} {src : PeerSource}

/-- What is forgettable after a record: the address itself only if the new claim is weak
and there was no strong one. -/
theorem forgettable_recordPeerMeta {rules : AddrRules}
    (after : (recordPeerMeta rules now addr src m).Forgettable key) :
    (key ≠ rules.normalizePeerAddr addr ∧ m.Forgettable key)
      ∨ key = rules.normalizePeerAddr addr ∧ src.forgettable = true
        ∧ (m.Forgettable key ∨ m.peerMeta.lookup key = none) := by
  obtain ⟨found, record, weak⟩ := forgettable_iff_sourceOf.mp after
  rw [sourceOf_recordPeerMeta] at record
  split at record
  · next same =>
    cases record
    obtain ⟨claim, older⟩ := strongest_forgettable.mp weak
    refine .inr ⟨same, claim, ?_⟩
    cases before : m.peerMeta.lookup key with
    | none => exact .inr rfl
    | some old => exact .inl ⟨old, before, older old.source (by simp [sourceOf, before])⟩
  · next other => exact .inl ⟨other, forgettable_iff_sourceOf.mpr ⟨found, record, weak⟩⟩

/-! ## What the operator named is kept -/

theorem Safe.of_records {rules : AddrRules} (safe : m.Safe rules)
    (named : ∀ key, Operator rules next key → Operator rules m key)
    (records : ∀ key, Operator rules m key → next.Forgettable key → m.Forgettable key)
    (lost : next.lost = m.lost) : next.Safe rules where
  kept key operator forgettable :=
    safe.kept key (named key operator) (records key (named key operator) forgettable)
  none_lost := lost.trans safe.none_lost

theorem Safe.recordPeerMeta {rules : AddrRules} (safe : m.Safe rules) (now : Int)
    (noted : src.forgettable = true → Operator rules m (rules.normalizePeerAddr addr) →
      m.peerMeta.lookup (rules.normalizePeerAddr addr) ≠ none) :
    (recordPeerMeta rules now addr src m).Safe rules := by
  obtain ⟨records, same⟩ := exists_recordPeerMeta_eq rules now addr src m
  refine safe.of_records (fun key operator => ?_) (fun key operator forgettable => ?_)
    (by rw [same])
  · rw [same] at operator
    exact operator
  · rcases forgettable_recordPeerMeta forgettable with ⟨-, before⟩ | ⟨rfl, weak, before | fresh⟩
    · exact before
    · exact before
    · exact absurd fresh (noted weak operator)

theorem Safe.noteConfigPeers {rules : AddrRules} (safe : m.Safe rules) (now : Int)
    (addrs : List Bytes) : (noteConfigPeers rules now addrs m).Safe rules := by
  unfold Membership.noteConfigPeers
  induction addrs generalizing m with
  | nil => exact safe
  | cons addr rest ih =>
    rw [List.foldl_cons]
    apply ih
    split
    · exact safe
    · exact safe.recordPeerMeta now fun weak => by cases weak

theorem Safe.addPeerFrom {rules : AddrRules} (safe : m.Safe rules) {now : Int} {addr : Bytes}
    {src : PeerSource} (inStep : m.InStep rules (.add now addr src)) :
    (addPeerFrom rules now addr src m).Safe rules := by
  unfold Membership.addPeerFrom
  cases refused : refuses rules m (trimSpace addr) with
  | true => exact safe
  | false =>
    have listed : { m with peers := m.peers ++ [trimSpace addr] }.Safe rules :=
      ⟨safe.kept, safe.none_lost⟩
    refine listed.recordPeerMeta now fun weak operator => ?_
    rw [rules.normalizePeerAddr_trimSpace] at operator ⊢
    exact inStep weak operator refused

theorem addPeerFrom_frame (now : Int) (addr : Bytes) (src : PeerSource) (m : Membership) :
    (addPeerFrom rules now addr src m).file = m.file
      ∧ (addPeerFrom rules now addr src m).asked = m.asked := by
  unfold addPeerFrom
  split
  · exact ⟨rfl, rfl⟩
  · obtain ⟨records, same⟩ := exists_recordPeerMeta_eq rules now (trimSpace addr) src
      { m with peers := m.peers ++ [trimSpace addr] }
    rw [same]
    exact ⟨rfl, rfl⟩

theorem Safe.markPeerReachable {rules : AddrRules} (safe : m.Safe rules) (now : Int) (addr : Bytes) :
    (markPeerReachable rules now addr m).Safe rules := by
  obtain ⟨records, same⟩ := exists_markPeerReachable_eq rules now addr m
  refine safe.of_records (fun key operator => ?_) (fun key _ forgettable => ?_) (by rw [same])
  · rw [same] at operator
    exact operator
  · rwa [forgettable_iff_sourceOf, sourceOf_markPeerReachable, ← forgettable_iff_sourceOf]
      at forgettable

/-- After the management API has been asked for an address, no record says that it may be
forgotten: a record that could say so has just been written over. -/
theorem not_forgettable_managed {rules : AddrRules} (inStep : m.InStep rules (.manage now addr)) :
    ¬ (Membership.addPeerFrom rules now addr .manual m).Forgettable
      (rules.normalizePeerAddr addr) := by
  unfold Membership.addPeerFrom
  cases refused : refuses rules m (trimSpace addr) with
  | true => exact inStep refused
  | false =>
    rw [if_neg Bool.false_ne_true]
    intro forgettable
    rcases forgettable_recordPeerMeta forgettable with ⟨other, -⟩ | ⟨-, weak, -⟩
    · exact other (rules.normalizePeerAddr_trimSpace addr).symm
    · cases weak

/-! ## What is forgotten -/

theorem forgetLoop_spec (want : PeerMeta → Bool → Bool) (connected : List Bytes)
    (addrs : List Bytes) (remaining : Nat) (records : GoMap PeerMeta) :
    let done := forgetLoop rules want connected addrs remaining records
    (∀ key found, done.1.lookup key = some found → records.lookup key = some found)
      ∧ ∀ addr ∈ done.2, ∃ found, records.lookup (rules.normalizePeerAddr addr) = some found
        ∧ found.source.forgettable = true := by
  induction addrs generalizing remaining records with
  | nil => exact ⟨fun _ _ same => same, List.forall_mem_nil _⟩
  | cons addr rest ih =>
    simp only [forgetLoop]
    split
    · exact ⟨fun _ _ same => same, List.forall_mem_nil _⟩
    · split
      · exact ih remaining records
      · next found record =>
        split
        · next drops =>
          obtain ⟨kept, dropped⟩ := ih (remaining - 1)
            (records.erase (rules.normalizePeerAddr addr))
          have within (key : Bytes) (other : PeerMeta)
              (left : (records.erase (rules.normalizePeerAddr addr)).lookup key = some other) :
              records.lookup key = some other := by
            rw [lookup_erase_eq_ite] at left
            split at left
            · cases left
            · exact left
          refine ⟨fun key other later => within key other (kept key other later), ?_⟩
          rw [List.forall_mem_cons]
          refine ⟨⟨found, record, (Bool.and_eq_true_iff.mp drops).1⟩, fun addr' listed => ?_⟩
          obtain ⟨other, left, weak⟩ := dropped addr' listed
          exact ⟨other, within _ other left, weak⟩
        · exact ih remaining records

/-- The loop takes what it drops from the list in order, always keeps one, and deletes the
records of what it drops and no others. -/
theorem forgetLoop_drops (want : PeerMeta → Bool → Bool) (connected : List Bytes)
    (addrs : List Bytes) (remaining : Nat) (records : GoMap PeerMeta) :
    let done := forgetLoop rules want connected addrs remaining records
    done.2.Sublist addrs ∧ done.2.length ≤ remaining - 1
      ∧ ∀ key, done.1.lookup key
          = if key ∈ done.2.map rules.normalizePeerAddr then none else records.lookup key := by
  induction addrs generalizing remaining records with
  | nil => exact ⟨.slnil, Nat.zero_le _, fun _ => rfl⟩
  | cons addr rest ih =>
    simp only [forgetLoop]
    obtain ⟨within, few, left⟩ := ih remaining records
    split
    · exact ⟨List.nil_sublist _, Nat.zero_le _, fun _ => rfl⟩
    · next several =>
      split
      · exact ⟨within.cons addr, few, left⟩
      · split
        · obtain ⟨within, few, left⟩ := ih (remaining - 1)
            (records.erase (rules.normalizePeerAddr addr))
          refine ⟨within.cons_cons addr, ?_, fun key => ?_⟩
          · rw [List.length_cons]
            omega
          · rw [left, lookup_erase_eq_ite]
            by_cases same : key = rules.normalizePeerAddr addr
            · simp [same]
            · simp [same]
        · exact ⟨within.cons addr, few, left⟩

theorem foldl_removePeer (addrs : List Bytes) (m : Membership) :
    addrs.foldl removePeer m
      = { m with peers := m.peers.filter fun p => decide (∀ addr ∈ addrs, p ≠ trimSpace addr) } := by
  induction addrs generalizing m with
  | nil => simp
  | cons addr rest ih =>
    rw [List.foldl_cons, ih]
    simp only [removePeer, List.filter_filter, List.forall_mem_cons, Bool.decide_and, Bool.and_comm]

theorem Safe.forget {rules : AddrRules} (safe : m.Safe rules) (want : PeerMeta → Bool → Bool)
    (links : List Bytes) : (forget rules want links m).Safe rules := by
  unfold Membership.forget
  simp only [foldl_removePeer]
  obtain ⟨kept, dropped⟩ := forgetLoop_spec rules want
    (links.map rules.normalizePeerAddr) m.peers m.peers.length m.peerMeta
  refine ⟨fun key operator ⟨found, record, weak⟩ => ?_, ?_⟩
  · exact safe.kept key operator ⟨found, kept key found record, weak⟩
  · rw [safe.none_lost, List.nil_append, List.filter_eq_nil_iff]
    intro p listed gone
    simp only [List.mem_filter, listed, true_and, decide_eq_true_eq, not_forall, not_not] at gone
    obtain ⟨⟨addr, drop, rfl⟩, operator⟩ := gone
    rw [rules.normalizePeerAddr_trimSpace] at operator
    exact safe.kept _ operator (dropped addr drop)

theorem Safe.forgetFor {rules : AddrRules} (safe : m.Safe rules) (call : ForgetCall)
    (links : List Bytes) : (forgetFor rules call links m).Safe rules := by
  unfold Membership.forgetFor
  split
  · exact safe
  · exact safe.forget _ links

theorem safe_step {rules : AddrRules} {move : MemberMove} (safe : m.Safe rules)
    (inStep : m.InStep rules move) (stepped : m.step rules move = some next) : next.Safe rules := by
  cases move with
  | noteConfig now =>
    cases stepped
    exact safe.noteConfigPeers now m.startup
  | add now addr src =>
    cases stepped
    exact safe.addPeerFrom inStep
  | manage now addr =>
    cases stepped
    have firm := not_forgettable_managed inStep
    have added : (addPeerFrom rules now addr .manual m).Safe rules :=
      safe.addPeerFrom fun weak => by cases weak
    refine ⟨fun key operator forgettable => ?_, added.none_lost⟩
    rcases operator with file | asked
    · exact added.kept key (.inl file) forgettable
    · obtain rfl | before := Finset.mem_insert.mp asked
      · exact firm forgettable
      · rw [← (addPeerFrom_frame rules now addr .manual m).2] at before
        exact added.kept key (.inr before) forgettable
  | unmanage addr =>
    cases stepped
    refine safe.of_records (fun key operator => ?_) (fun key _ forgettable => forgettable) rfl
    exact operator.imp_right Finset.mem_of_mem_erase
  | reload peers =>
    cases stepped
    refine ⟨fun key operator forgettable => ?_, safe.none_lost⟩
    rcases operator with file | asked
    · obtain ⟨p, listed, rfl⟩ := List.mem_map.mp file
      exact inStep p listed forgettable
    · exact safe.kept key (.inr asked) forgettable
  | reachable now addr =>
    cases stepped
    exact safe.markPeerReachable now addr
  | unreachable now after links =>
    cases stepped
    exact safe.forgetFor _ links
  | missing listed links =>
    cases stepped
    exact safe.forgetFor _ links
  | leave nodeID advertise connAddr links =>
    cases stepped
    exact safe.forgetFor _ links

theorem safe_start (nodeID advertise : Bytes) (file : List Bytes) :
    (start nodeID advertise file).Safe rules where
  kept _ _ forgettable := by
    obtain ⟨_, record, -⟩ := forgettable
    cases record
  none_lost := rfl

/-- No automatic removal takes an address of the operator, in any run in which the
operator does not name an address that is and stays on record as discovered or learned,
and nothing is learned of an address of the operator that has no record. -/
theorem operator_never_forgotten (nodeID advertise : Bytes) (file : List Bytes)
    (moves : List MemberMove) (final : Membership)
    (inStep : Machine.Guarded (step rules) (InStep rules) (start nodeID advertise file) moves)
    (ran : Machine.run (step rules) (start nodeID advertise file) moves = some final) :
    final.lost = [] := by
  have keeps (m : Membership) (move : MemberMove) (next : Membership) (safe : m.Safe rules)
      (inStep : m.InStep rules move) (stepped : m.step rules move = some next) : next.Safe rules :=
    safe_step safe inStep stepped
  exact (Machine.run_invariant keeps (safe_start rules nodeID advertise file) inStep ran).none_lost

def plainRules : AddrRules where
  canonical := id
  valid addr := addr ≠ []

def seedNode : Membership :=
  start (ascii "n1") (ascii "a:1") [ascii "b:1"]

def addedFirst : List MemberMove :=
  [.noteConfig 1, .manage 2 (ascii "c:1"), .add 3 (ascii "c:1") .learned,
    .add 4 (ascii "d:1") .discovery, .leave (ascii "n3") (ascii "c:1") [] [],
    .unreachable 9000 1000 []]

theorem addedFirst_kept : ∃ final, Machine.run (step plainRules) seedNode addedFirst = some final
    ∧ final.peers = [ascii "b:1", ascii "c:1"] ∧ final.lost = [] := by
  refine ⟨_, Machine.ran (by decide +kernel), by decide +kernel, ?_⟩
  exact operator_never_forgotten plainRules (ascii "n1") (ascii "a:1") [ascii "b:1"] addedFirst _
    (by decide +kernel) (Machine.ran _)

/-- An address that was learned first is forgotten although the management API was asked to
add it, and although it is in the file that was loaded last. -/
theorem operator_forgotten :
    (∃ final, Machine.run (step plainRules) seedNode
        [.noteConfig 1, .add 2 (ascii "c:1") .learned, .manage 3 (ascii "c:1"),
          .unreachable 9000 1000 []] = some final
      ∧ final.lost = [ascii "c:1"])
    ∧ ∃ final, Machine.run (step plainRules) seedNode
        [.noteConfig 1, .add 2 (ascii "c:1") .learned, .reload [ascii "b:1", ascii "c:1"],
          .leave (ascii "n3") (ascii "c:1") [] []] = some final
      ∧ final.lost = [ascii "c:1"] :=
  ⟨Machine.exists_run (by decide +kernel), Machine.exists_run (by decide +kernel)⟩

end Membership

end SuperCache
