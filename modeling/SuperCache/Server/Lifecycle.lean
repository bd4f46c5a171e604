import SuperCache.Server.Config

/-! # A node over its restarts and reloads

A node holds its configuration twice: the server has the one it was started with or last
reloaded, and the peer service has a copy whose peer list goes on changing.  A hot reload
compares the file with the first and replaces both; a clean shutdown saves the list of the
second, and the next start merges it into the list of the file, where it is recorded as
the operator's.

`reloadFromDisk_keeps_iff` says which reloads keep every peer, and `exempt_only_vouched`
in which lives of a node only the operator's addresses are exempt from being forgotten.
-/

namespace SuperCache

open Lib

namespace Membership

variable (rules : AddrRules) {m : Membership}

/-! ## What the operator vouches for

`vouched` stands for the normalized addresses that the operator has named. -/

/-- No address is on record as the operator's unless it is, and every other address of the
list is on record as one that may be forgotten; such an address is written plainly and
under one name only. -/
structure Known (vouched : Bytes → Prop) (m : Membership) : Prop where
  begun : ∀ p ∈ m.startup, vouched (rules.normalizePeerAddr p)
  firm : ∀ key src, m.sourceOf key = some src → src.forgettable = false → vouched key
  listed : ∀ p ∈ m.peers, vouched (rules.normalizePeerAddr p)
    ∨ (∃ src, m.sourceOf (rules.normalizePeerAddr p) = some src ∧ src.forgettable = true)
      ∧ trimSpace p = p
      ∧ ∀ q ∈ m.peers, rules.normalizePeerAddr q = rules.normalizePeerAddr p → q = p

variable {rules} {vouched more : Bytes → Prop}

theorem Known.mono (known : m.Known rules vouched) (grows : ∀ key, vouched key → more key) :
    m.Known rules more where
  begun p listed := grows _ (known.begun p listed)
  firm key src record firm := grows _ (known.firm key src record firm)
  listed p listed := (known.listed p listed).imp_left (grows _)

theorem Known.of_within {next : Membership} (known : m.Known rules vouched)
    (startup : next.startup = m.startup) (peers : ∀ p ∈ next.peers, p ∈ m.peers)
    (records : ∀ key src, next.sourceOf key = some src → m.sourceOf key = some src)
    (kept : ∀ p ∈ next.peers, ¬ vouched (rules.normalizePeerAddr p) →
      next.sourceOf (rules.normalizePeerAddr p) = m.sourceOf (rules.normalizePeerAddr p)) :
    next.Known rules vouched where
  begun := by
    rw [startup]
    exact known.begun
  firm key src record := known.firm key src (records key src record)
  listed p listed := by
    by_cases named : vouched (rules.normalizePeerAddr p)
    · exact .inl named
    · rw [kept p listed named]
      refine (known.listed p (peers p listed)).imp_right fun ⟨weak, plain, single⟩ => ?_
      exact ⟨weak, plain, fun q other => single q (peers q other)⟩

theorem Known.record_named (known : m.Known rules vouched) (now : Int) {addr : Bytes}
    (src : PeerSource) (named : vouched (rules.normalizePeerAddr addr)) :
    (recordPeerMeta rules now addr src m).Known rules vouched := by
  obtain ⟨records, same⟩ := exists_recordPeerMeta_eq rules now addr src m
  constructor
  · rw [same]
    exact known.begun
  · intro key old record strong
    rw [sourceOf_recordPeerMeta] at record
    split at record
    · next itself => exact itself ▸ named
    · exact known.firm key old record strong
  · intro p listed
    rw [sourceOf_recordPeerMeta]
    rw [same] at listed ⊢
    split
    · next itself => exact .inl (itself ▸ named)
    · exact known.listed p listed

theorem Known.noteConfigPeers (known : m.Known rules vouched) (now : Int) :
    (noteConfigPeers rules now m.startup m).Known rules vouched := by
  have note (addrs : List Bytes) (named : ∀ p ∈ addrs, vouched (rules.normalizePeerAddr p))
      (m : Membership) (known : m.Known rules vouched) :
      (Membership.noteConfigPeers rules now addrs m).Known rules vouched := by
    unfold Membership.noteConfigPeers
    induction addrs generalizing m with
    | nil => exact known
    | cons addr rest ih =>
      rw [List.forall_mem_cons] at named
      rw [List.foldl_cons]
      apply ih named.2
      split
      · exact known
      · refine known.record_named now .config ?_
        rw [rules.normalizePeerAddr_trimSpace]
        exact named.1
  exact note m.startup known.begun m known

theorem Known.addPeerFrom (known : m.Known rules vouched) (now : Int) {addr : Bytes}
    {src : PeerSource}
    (allowed : src.forgettable = true ∨ refuses rules m (trimSpace addr) = true
      ∨ vouched (rules.normalizePeerAddr addr)) :
    (addPeerFrom rules now addr src m).Known rules vouched := by
  unfold Membership.addPeerFrom
  cases refused : refuses rules m (trimSpace addr) with
  | true => exact known
  | false =>
    rw [if_neg Bool.false_ne_true]
    have source := sourceOf_recordPeerMeta rules now (trimSpace addr) src
      { m with peers := m.peers ++ [trimSpace addr] }
    rw [rules.normalizePeerAddr_trimSpace] at source
    -- No address of the list is written differently for the same peer.
    have fresh (q : Bytes) (other : q ∈ m.peers) :
        rules.normalizePeerAddr q ≠ rules.normalizePeerAddr addr := by
      intro same
      unfold refuses at refused
      simp only [decide_eq_false_iff_not, not_or, not_exists, not_and] at refused
      exact (refused.2.2 q other).2 (by rw [rules.normalizePeerAddr_trimSpace, same])
    -- An older record is not the operator's if the operator does not vouch.
    have weak (unnamed : ¬ vouched (rules.normalizePeerAddr addr)) :
        (strongest src (m.sourceOf (rules.normalizePeerAddr addr))).forgettable = true := by
      refine strongest_forgettable.mpr ⟨allowed.resolve_right (by simp [refused, unnamed]), ?_⟩
      intro older record
      cases kind : older.forgettable with
      | true => rfl
      | false => exact absurd (known.firm _ older record kind) unnamed
    obtain ⟨records, same⟩ := exists_recordPeerMeta_eq rules now (trimSpace addr) src
      { m with peers := m.peers ++ [trimSpace addr] }
    constructor
    · rw [same]
      exact known.begun
    · intro key old record strong
      rw [source] at record
      split at record
      · next itself =>
        subst itself
        cases record
        by_contra unnamed
        cases (weak unnamed).symm.trans strong
      · exact known.firm key old record strong
    · intro p listed
      rw [source]
      rw [same] at listed ⊢
      simp only [List.mem_append, List.mem_singleton] at listed ⊢
      rcases listed with before | rfl
      · rw [if_neg (fresh p before)]
        refine (known.listed p before).imp_right fun ⟨weak, plain, single⟩ => ⟨weak, plain, ?_⟩
        rintro q (other | rfl) same
        · exact single q other same
        · rw [rules.normalizePeerAddr_trimSpace] at same
          exact absurd same.symm (fresh p before)
      · rw [rules.normalizePeerAddr_trimSpace, if_pos rfl]
        by_cases named : vouched (rules.normalizePeerAddr addr)
        · exact .inl named
        · refine .inr ⟨⟨_, rfl, weak named⟩, trimSpace_trimSpace addr, ?_⟩
          rintro q (other | rfl) same
          · exact absurd same (fresh q other)
          · rfl

theorem Known.markPeerReachable (known : m.Known rules vouched) (now : Int) (addr : Bytes) :
    (markPeerReachable rules now addr m).Known rules vouched := by
  have source := sourceOf_markPeerReachable rules now addr m
  obtain ⟨records, same⟩ := exists_markPeerReachable_eq rules now addr m
  refine known.of_within (by rw [same]) (fun p listed => ?_) (fun key src record => ?_)
    fun p _ _ => source _
  · rw [same] at listed
    exact listed
  · rwa [source] at record

theorem Known.removePeer (known : m.Known rules vouched) (addr : Bytes) :
    (removePeer m addr).Known rules vouched :=
  known.of_within rfl (fun _ listed => (List.mem_filter.mp listed).1) (fun _ _ record => record)
    fun _ _ _ => rfl

/-- What is forgotten takes its own record with it, and no other address's: an address the
operator does not vouch for stands in the list under one name only. -/
theorem Known.forget (known : m.Known rules vouched) (want : PeerMeta → Bool → Bool)
    (links : List Bytes) : (forget rules want links m).Known rules vouched := by
  obtain ⟨within, -, left⟩ := forgetLoop_drops rules want (links.map rules.normalizePeerAddr)
    m.peers m.peers.length m.peerMeta
  unfold Membership.forget
  simp only [foldl_removePeer]
  generalize forgetLoop rules want (links.map rules.normalizePeerAddr) m.peers m.peers.length
    m.peerMeta = done at within left
  refine known.of_within rfl (fun p listed => (List.mem_filter.mp listed).1)
    (fun key src record => ?_) fun p listed named => ?_
  · simp only [sourceOf, left] at record ⊢
    split at record
    · cases record
    · exact record
  · obtain ⟨before, survives⟩ := List.mem_filter.mp listed
    have survives := of_decide_eq_true survives
    simp only [sourceOf, left]
    rw [if_neg]
    intro dropped
    obtain ⟨addr, drop, same⟩ := List.mem_map.mp dropped
    obtain ⟨-, plain, single⟩ := (known.listed p before).resolve_left named
    have itself := single addr (within.subset drop) same
    exact survives addr drop (by rw [itself, plain])

end Membership

/-! ## The node -/

/-- A node: the configuration of the server, the peer service, the list in the peer state
file if there is one, and the addresses that were ever added through the management API. -/
structure Node where
  cfg : Config
  member : Membership
  saved : Option (List Bytes)
  added : Finset Bytes

inductive NodeMove where
  /-- Something the peer service does, hot reloads apart.  A seed taken from a copied
  configuration is added as `AddPeer` adds it, with the source `manual`. -/
  | serve (move : MemberMove)
  /-- `ReloadFromDisk`, of a file with this content. -/
  | reload (file : ConfigFile)
  /-- The process ends, by a clean shutdown or not, and starts again. -/
  | restart (clean : Bool) (file : ConfigFile) (nodeID advertise : Bytes)

def ConfigFile.peers : ConfigFile → List Bytes
  | .ok raw => raw.peers
  | .error _ => []

def ConfigFile.savedPeers (state : Option (List Bytes)) : ConfigFile → List Bytes
  | .ok raw => raw.savedPeers state
  | .error _ => []

namespace Node

/-- `main` until the server runs. -/
def boot (env : ConfigEnv) (file : ConfigFile) (saved : Option (List Bytes)) (added : Finset Bytes)
    (nodeID advertise : Bytes) : Option Node :=
  match Config.startup env file saved with
  | .error _ => none
  | .ok running =>
    some
      { cfg := running
        member := { Membership.start nodeID advertise running.peers with file := file.peers }
        saved
        added }

/-- `ReloadFromDisk` with `ApplyHotReload`. -/
def reloadFromDisk (env : ConfigEnv) (node : Node) (file : ConfigFile) :
    Except String (Node × List String) :=
  match node.cfg.reload env file with
  | .error failure => .error failure
  | .ok (loaded, changed) =>
    .ok ({ node with
      cfg := loaded
      member := { node.member with peers := loaded.peers, file := loaded.peers } }, changed)

/-- What the peer state file holds once the process has ended; `closeStoreOnce` writes it. -/
def savedAfter (node : Node) (clean : Bool) : Option (List Bytes) :=
  if clean ∧ trimSpace node.cfg.peerStateFile ≠ [] then some node.member.peers else node.saved

def step (env : ConfigEnv) (node : Node) : NodeMove → Option Node
  | .serve (.reload _) => none
  | .serve (.manage now addr) =>
    (node.member.step env.rules (.manage now addr)).map fun member =>
      { node with
        member
        added :=
          if Membership.refuses env.rules node.member (trimSpace addr) then node.added
          else insert (env.rules.normalizePeerAddr addr) node.added }
  | .serve move => (node.member.step env.rules move).map fun member => { node with member }
  | .reload file =>
    match node.reloadFromDisk env file with
    | .ok (next, _) => some next
    | .error _ => some node
  | .restart clean file nodeID advertise =>
    boot env file (node.savedAfter clean) node.added nodeID advertise

/-! ## Which peers a reload keeps -/

theorem mem_of_takeEach {old new : List Bytes} (taken : Config.takeEach old new = true) :
    ∀ p ∈ old, p ∈ new := by
  induction old generalizing new with
  | nil => exact List.forall_mem_nil _
  | cons p rest ih =>
    unfold Config.takeEach at taken
    split at taken
    · next here =>
      refine List.forall_mem_cons.mpr ⟨here, fun q listed => ?_⟩
      exact List.mem_of_mem_erase (ih taken q listed)
    · cases taken

variable {file : ConfigFile} {changed : List String}

theorem reload_eq_ok {env : ConfigEnv} {current loaded : Config}
    (reloads : current.reload env file = .ok (loaded, changed)) :
    Config.load env file = .ok loaded ∧ ∀ p ∈ current.peers, p ∈ loaded.peers := by
  unfold Config.reload at reloads
  split at reloads
  · cases reloads
  · next newCfg loads =>
    split at reloads
    · next passed =>
      obtain ⟨rfl, -⟩ := Prod.mk.inj (Except.ok.inj reloads)
      refine ⟨loads, ?_⟩
      by_cases same : current.peers = newCfg.peers
      · rw [same]
        exact fun p listed => listed
      · -- The row of the peers differs, so it must be one that can be taken.
        have listed : Config.peersField ∈ Config.differing current newCfg := by
          refine List.mem_filter.mpr ⟨?_, ?_⟩
          · simp [Config.configFields]
          · simpa [Config.peersField] using same
        unfold Config.diffConfigs at passed
        simp only [List.map_eq_nil_iff, List.filter_eq_nil_iff] at passed
        have taken := passed _ listed
        simp only [Config.peersField, Bool.not_eq_eq_eq_not, Bool.not_true, Bool.not_eq_false,
          Config.peersMultisetSubset] at taken
        split at taken
        · cases taken
        · exact mem_of_takeEach taken
    · cases reloads

theorem peers_of_load {env : ConfigEnv} {loaded : Config}
    (loads : Config.load env file = .ok loaded) : loaded.peers = file.peers := by
  obtain ⟨raw, rfl, -, rfl⟩ := Config.load_eq_ok.mp loads
  rfl

theorem reloadFromDisk_eq_ok {env : ConfigEnv} {node next : Node}
    (reloads : node.reloadFromDisk env file = .ok (next, changed)) :
    (∀ p ∈ node.cfg.peers, p ∈ file.peers) ∧ next.cfg.peers = file.peers
      ∧ next.member = { node.member with peers := file.peers, file := file.peers }
      ∧ next.added = node.added := by
  unfold reloadFromDisk at reloads
  split at reloads
  · cases reloads
  · next loaded reported compared =>
    obtain ⟨loads, kept⟩ := reload_eq_ok compared
    rw [peers_of_load loads] at kept
    obtain ⟨rfl, -⟩ := Prod.mk.inj (Except.ok.inj reloads)
    refine ⟨kept, peers_of_load loads, ?_, rfl⟩
    simp only [peers_of_load loads]

/-- A reload keeps every peer of the service exactly if the file names those that the
server's configuration does not have: what was added, learned or discovered since that
configuration was loaded. -/
theorem reloadFromDisk_keeps_iff {env : ConfigEnv} {node next : Node} {file : ConfigFile}
    {changed : List String} (reloads : node.reloadFromDisk env file = .ok (next, changed)) :
    (∀ addr ∈ node.member.peers, addr ∈ next.member.peers)
      ↔ ∀ addr ∈ node.member.peers, addr ∉ node.cfg.peers → addr ∈ file.peers := by
  obtain ⟨kept, -, member, -⟩ := reloadFromDisk_eq_ok reloads
  rw [member]
  constructor
  · exact fun all addr listed _ => all addr listed
  · intro named addr listed
    by_cases configured : addr ∈ node.cfg.peers
    · exact kept addr configured
    · exact named addr listed configured

/-- The node of `Config.smallFile`. -/
def smallNode : Option Node :=
  boot Config.plainEnv (.ok Config.smallFile) none ∅ (ascii "n1") (ascii "a:1")

def largerFile : Config where
  sharedSecret := List.replicate 32 97
  peerStateFile := ascii "peers.json"
  peers := [ascii "b:1", ascii "c:1"]

/-- A learned peer that the new file names is kept. -/
theorem named_kept :
    ∃ first node after, smallNode = some first
      ∧ Machine.run (Node.step Config.plainEnv) first [.serve (.add 1 (ascii "c:1") .learned)]
          = some node
      ∧ node.reloadFromDisk Config.plainEnv (.ok largerFile) = .ok after
      ∧ ∀ addr ∈ node.member.peers, addr ∈ after.1.member.peers := by
  have kept {node : Node} {after : Node × List String}
      (reloads : node.reloadFromDisk Config.plainEnv (.ok largerFile) = .ok after) :=
    (reloadFromDisk_keeps_iff reloads).mpr
  exact ⟨_, _, _, (Option.some_get (by decide +kernel)).symm,
    Machine.ran (by decide +kernel), Config.eq_ok_get (by decide +kernel),
    kept (Config.eq_ok_get _) (by decide +kernel)⟩

/-- A reload of the unchanged file drops a peer that was learned since the start. -/
theorem reload_drops_learned :
    ∃ first node, smallNode = some first
      ∧ Machine.run (Node.step Config.plainEnv) first [.serve (.add 1 (ascii "c:1") .learned)]
          = some node
      ∧ ascii "c:1" ∈ node.member.peers
      ∧ ∃ after, node.reloadFromDisk Config.plainEnv (.ok Config.smallFile) = .ok after
        ∧ ascii "c:1" ∉ after.1.member.peers := by
  exact ⟨_, _, (Option.some_get (by decide +kernel)).symm, Machine.ran (by decide +kernel),
    by decide +kernel, _, Config.eq_ok_get (by decide +kernel), by decide +kernel⟩

/-! ## Which addresses are exempt -/

def Vouched (env : ConfigEnv) (node : Node) (key : Bytes) : Prop :=
  key ∈ node.member.file.map env.rules.normalizePeerAddr ∨ key ∈ node.added

instance (env : ConfigEnv) (node : Node) (key : Bytes) : Decidable (node.Vouched env key) :=
  inferInstanceAs (Decidable (_ ∨ _))

/-- A seed is added, and a saved address is merged in, only if the operator has named it:
the file that is loaded, or the management API before. -/
def OperatorOnly (env : ConfigEnv) (node : Node) : NodeMove → Prop
  | .serve (.add _ addr src) =>
    src.forgettable = true ∨ Membership.refuses env.rules node.member (trimSpace addr) = true
      ∨ node.Vouched env (env.rules.normalizePeerAddr addr)
  | .restart clean file _ _ =>
    ∀ addr ∈ file.savedPeers (node.savedAfter clean), trimSpace addr = []
      ∨ env.rules.normalizePeerAddr addr ∈ file.peers.map env.rules.normalizePeerAddr
      ∨ env.rules.normalizePeerAddr addr ∈ node.added
  | _ => True

instance (env : ConfigEnv) (node : Node) (move : NodeMove) : Decidable (node.OperatorOnly env move) := by
  unfold OperatorOnly
  split <;> infer_instance

/-- The peers of the file are in the server's configuration, and what is on record as the
operator's is. -/
structure Sound (env : ConfigEnv) (node : Node) : Prop where
  filed : ∀ p ∈ node.member.file,
    env.rules.normalizePeerAddr p ∈ node.cfg.peers.map env.rules.normalizePeerAddr
  known : node.member.Known env.rules (node.Vouched env)

variable {env : ConfigEnv} {node next : Node}

theorem Sound.serve (sound : node.Sound env) {m : Membership} (file : m.file = node.member.file)
    (known : m.Known env.rules (node.Vouched env)) : Sound env { node with member := m } where
  filed := by
    rw [file]
    exact sound.filed
  known := known.mono fun key => Or.imp_left fun named => by rwa [file]

theorem Sound.manage (sound : node.Sound env) {now : Int} {addr : Bytes}
    (stepped : node.step env (.serve (.manage now addr)) = some next) : next.Sound env := by
  simp only [step, Membership.step, Option.map_some, Option.some.injEq] at stepped
  subst stepped
  obtain ⟨file, -⟩ := Membership.addPeerFrom_frame env.rules now addr .manual node.member
  refine ⟨by rw [file]; exact sound.filed, ?_⟩
  have added : (Membership.addPeerFrom env.rules now addr .manual node.member).Known env.rules
      fun key => node.Vouched env key
        ∨ Membership.refuses env.rules node.member (trimSpace addr) = false
          ∧ key = env.rules.normalizePeerAddr addr := by
    refine (sound.known.mono fun key named => .inl named).addPeerFrom now (.inr ?_)
    cases Membership.refuses env.rules node.member (trimSpace addr) with
    | true => exact .inl rfl
    | false => exact .inr (.inr ⟨rfl, rfl⟩)
  refine Membership.Known.mono ⟨added.begun, added.firm, added.listed⟩ fun key named => ?_
  unfold Vouched
  simp only [file]
  rcases named with (filed | before) | ⟨accepted, rfl⟩
  · exact .inl filed
  · refine .inr ?_
    split
    · exact before
    · exact Finset.mem_insert_of_mem before
  · rw [if_neg (by simp [accepted])]
    exact .inr (Finset.mem_insert_self _ _)

theorem Sound.reload (sound : node.Sound env)
    (reloads : node.reloadFromDisk env file = .ok (next, changed)) : next.Sound env := by
  obtain ⟨kept, cfg, member, added⟩ := reloadFromDisk_eq_ok reloads
  -- What the operator had named in the old file is in the new one.
  have grows (key : Bytes) (named : node.Vouched env key) : next.Vouched env key := by
    unfold Vouched
    rw [member, added]
    refine named.imp_left fun before => ?_
    obtain ⟨p, listed, rfl⟩ := List.mem_map.mp before
    obtain ⟨q, configured, same⟩ := List.mem_map.mp (sound.filed p listed)
    exact List.mem_map.mpr ⟨q, kept q configured, same⟩
  have named (p : Bytes) (listed : p ∈ file.peers) :
      next.Vouched env (env.rules.normalizePeerAddr p) := by
    unfold Vouched
    rw [member]
    exact .inl (List.mem_map_of_mem listed)
  have known := sound.known.mono grows
  constructor
  · rw [member, cfg]
    exact fun p listed => List.mem_map_of_mem listed
  · constructor
    · rw [member]
      exact known.begun
    · rw [member]
      exact known.firm
    · rw [member]
      exact fun p listed => .inl (named p listed)

theorem sound_boot {saved : Option (List Bytes)} {added : Finset Bytes} {nodeID advertise : Bytes}
    (boots : boot env file saved added nodeID advertise = some node)
    (operator : ∀ addr ∈ file.savedPeers saved, trimSpace addr = []
      ∨ env.rules.normalizePeerAddr addr ∈ file.peers.map env.rules.normalizePeerAddr
      ∨ env.rules.normalizePeerAddr addr ∈ added) : node.Sound env := by
  unfold boot at boots
  split at boots
  · cases boots
  · next running started =>
    cases boots
    obtain ⟨base, loads, merged⟩ := Config.startup_eq_ok started
    obtain ⟨raw, rfl, passed, rfl⟩ := Config.load_eq_ok.mp loads
    rw [Config.applyDefaults_savedPeers] at merged
    -- Every address of the list is one of the file or was merged in.
    have from_file (p : Bytes) (listed : p ∈ raw.peers) :
        env.rules.normalizePeerAddr p ∈ running.peers.map env.rules.normalizePeerAddr := by
      rcases merged with ⟨-, rfl⟩ | ⟨-, rfl⟩
      · exact List.mem_map_of_mem listed
      · refine List.mem_map.mpr ⟨trimSpace p, ?_, env.rules.normalizePeerAddr_trimSpace p⟩
        refine Config.mem_mergePeerLists.mpr ⟨?_, .inl ⟨p, listed, rfl⟩⟩
        exact Config.nonblank_of_validate passed p listed
    have vouched (p : Bytes) (listed : p ∈ running.peers) :
        env.rules.normalizePeerAddr p ∈ raw.peers.map env.rules.normalizePeerAddr
          ∨ env.rules.normalizePeerAddr p ∈ added := by
      rcases merged with ⟨-, rfl⟩ | ⟨-, rfl⟩
      · exact .inl (List.mem_map_of_mem listed)
      · obtain ⟨nonblank, ⟨q, own, rfl⟩ | ⟨q, other, rfl⟩⟩ := Config.mem_mergePeerLists.mp listed
        · rw [env.rules.normalizePeerAddr_trimSpace]
          exact .inl (List.mem_map_of_mem own)
        · rw [env.rules.normalizePeerAddr_trimSpace]
          exact (operator q other).resolve_left nonblank
    refine ⟨from_file, vouched, fun key src record => ?_, fun p listed => .inl (vouched p listed)⟩
    -- Nothing is on record yet.
    cases record

theorem Sound.forget (sound : node.Sound env) (want : PeerMeta → Bool → Bool) (links : List Bytes) :
    Sound env { node with member := Membership.forget env.rules want links node.member } := by
  refine sound.serve ?_ (sound.known.forget want links)
  unfold Membership.forget
  simp only [Membership.foldl_removePeer]

theorem Sound.forgetFor (sound : node.Sound env) (call : ForgetCall) (links : List Bytes) :
    Sound env { node with member := Membership.forgetFor env.rules call links node.member } := by
  unfold Membership.forgetFor
  split
  · exact sound
  · exact sound.forget _ links

theorem noteConfigPeers_file (rules : AddrRules) (now : Int) (addrs : List Bytes)
    (m : Membership) : (Membership.noteConfigPeers rules now addrs m).file = m.file := by
  unfold Membership.noteConfigPeers
  induction addrs generalizing m with
  | nil => rfl
  | cons addr rest ih =>
    rw [List.foldl_cons, ih]
    split
    · rfl
    · obtain ⟨records, same⟩ := Membership.exists_recordPeerMeta_eq rules now (trimSpace addr) .config m
      rw [same]

theorem Sound.step (sound : node.Sound env) {move : NodeMove}
    (inStep : node.OperatorOnly env move) (stepped : node.step env move = some next) :
    next.Sound env := by
  have known := sound.known
  cases move with
  | serve move =>
    cases move with
    | noteConfig now =>
      cases stepped
      exact sound.serve (noteConfigPeers_file _ now _ _) (known.noteConfigPeers now)
    | add now addr src =>
      cases stepped
      exact sound.serve (Membership.addPeerFrom_frame _ now addr src _).1
        (known.addPeerFrom now inStep)
    | manage now addr => exact sound.manage stepped
    | unmanage addr =>
      cases stepped
      have removed := known.removePeer addr
      exact sound.serve rfl ⟨removed.begun, removed.firm, removed.listed⟩
    | reload peers => cases stepped
    | reachable now addr =>
      cases stepped
      obtain ⟨records, same⟩ := Membership.exists_markPeerReachable_eq env.rules now addr node.member
      exact sound.serve (by rw [same]) (known.markPeerReachable now addr)
    | unreachable now after links =>
      cases stepped
      exact sound.forgetFor _ links
    | missing listed links =>
      cases stepped
      exact sound.forgetFor _ links
    | leave nodeID advertise connAddr links =>
      cases stepped
      exact sound.forgetFor _ links
  | reload file =>
    simp only [Node.step] at stepped
    split at stepped
    · next reloads =>
      cases stepped
      exact sound.reload reloads
    · cases stepped
      exact sound
  | restart clean file nodeID advertise => exact sound_boot stepped inStep

/-- Only addresses that the operator has named are exempt from being forgotten, in every
life of a node in which what is seeded and what is merged in from the peer state file has
been named by the operator. -/
theorem exempt_only_vouched {file : ConfigFile} {nodeID advertise : Bytes} {first final : Node}
    {moves : List NodeMove} (boots : boot env file none ∅ nodeID advertise = some first)
    (operator : Machine.Guarded (Node.step env) (OperatorOnly env) first moves)
    (ran : Machine.run (Node.step env) first moves = some final) :
    ∀ addr ∈ final.member.peers, ¬ final.member.Forgettable (env.rules.normalizePeerAddr addr) →
      final.Vouched env (env.rules.normalizePeerAddr addr) := by
  have begins : first.Sound env := by
    refine sound_boot boots fun addr merged => ?_
    cases file with
    | ok raw => simp [ConfigFile.savedPeers, Config.savedPeers] at merged
    | error failure => simp [ConfigFile.savedPeers] at merged
  have keeps (node : Node) (move : NodeMove) (next : Node) (sound : node.Sound env)
      (inStep : node.OperatorOnly env move) (stepped : node.step env move = some next) :
      next.Sound env :=
    sound.step inStep stepped
  have sound := Machine.run_invariant keeps begins operator ran
  intro addr listed exempt
  refine (sound.known.listed addr listed).resolve_right fun ⟨weak, _⟩ => ?_
  exact exempt (Membership.forgettable_iff_sourceOf.mpr weak)

def again : NodeMove :=
  .restart true (.ok Config.smallFile) (ascii "n1") (ascii "a:1")

/-- An address of the operator survives a restart, and a learned one stays forgettable. -/
theorem managed_exempt :
    ∃ first final, smallNode = some first
      ∧ Machine.run (Node.step Config.plainEnv) first
          [.serve (.manage 1 (ascii "d:1")), again, .serve (.noteConfig 2),
            .serve (.add 3 (ascii "c:1") .learned)] = some final
      ∧ final.member.peers = [ascii "b:1", ascii "d:1", ascii "c:1"]
      ∧ ∀ addr ∈ final.member.peers,
          ¬ final.member.Forgettable (Membership.plainRules.normalizePeerAddr addr) →
            final.Vouched Config.plainEnv (Membership.plainRules.normalizePeerAddr addr) := by
  have boots : smallNode = some _ := (Option.some_get (by decide +kernel)).symm
  refine ⟨_, _, boots, Machine.ran (by decide +kernel), by decide +kernel, ?_⟩
  exact exempt_only_vouched boots (by decide +kernel) (Machine.ran _)

/-- An address learned in one life of the node, and one taken from a copied configuration,
are exempt although the operator has named neither. -/
theorem learned_exempt :
    ∃ first, smallNode = some first
      ∧ (∃ final, Machine.run (Node.step Config.plainEnv) first
            [.serve (.add 1 (ascii "c:1") .learned), again, .serve (.noteConfig 2)] = some final
          ∧ ascii "c:1" ∈ final.member.peers ∧ ¬ final.member.Forgettable (ascii "c:1")
            ∧ ¬ final.Vouched Config.plainEnv (ascii "c:1"))
      ∧ ∃ final, Machine.run (Node.step Config.plainEnv) first
            [.serve (.add 1 (ascii "c:1") .manual), .serve (.noteConfig 2)] = some final
          ∧ ascii "c:1" ∈ final.member.peers ∧ ¬ final.member.Forgettable (ascii "c:1")
            ∧ ¬ final.Vouched Config.plainEnv (ascii "c:1") := by
  refine ⟨_, (Option.some_get (by decide +kernel)).symm,
    ⟨_, Machine.ran (by decide +kernel), ?_⟩, ⟨_, Machine.ran (by decide +kernel), ?_⟩⟩ <;>
    decide +kernel

end Node

end SuperCache
