import SuperCache.Peer.Membership

/-! # Configuration

`internal/config`: the settings, their defaults and checks, the merge of the saved peer
list at startup, and the comparison a hot reload makes between the running configuration
and the file.

A file is taken after it was parsed; the checks that look at the machine (whether a file
can be read, whether an address is a loopback address) are parameters.  What a reload
compares is a table with one row per setting, in the order of `diffConfigs`.
-/

namespace SuperCache

open Lib

/-- `Config`.  A nil pointer to a switch is `none`. -/
structure Config where
  clientBind : Bytes := []
  clientPort : Int := 0
  peerBind : Bytes := []
  peerPort : Int := 0
  peers : List Bytes := []
  nodeID : Bytes := []
  advertiseAddr : Bytes := []
  bootstrapPeer : Bytes := []
  sharedSecret : Bytes := []
  clusterID : Bytes := []
  maxMemory : Bytes := []
  maxMemoryPolicy : Bytes := []
  authPassword : Bytes := []
  clientIdleTimeout : Int := 0
  logLevel : Bytes := []
  logOutput : Bytes := []
  logFormat : Bytes := []
  metricsBind : Bytes := []
  metricsPort : Int := 0
  bootstrapQueueDepth : Int := 0
  peerQueueDepth : Int := 0
  heartbeatInterval : Int := 0
  heartbeatTimeout : Int := 0
  mgmtSocket : Bytes := []
  mgmtTCPBind : Bytes := []
  mgmtTCPPort : Int := 0
  gossipPeers : Bool := false
  autoDiscoverPeers : Option Bool := none
  discoveryInterval : Int := 0
  hetznerAPIToken : Bytes := []
  hetznerLabelSelector : Bytes := []
  hetznerNetworkID : Int := 0
  hetznerAPIURL : Bytes := []
  announceLeave : Option Bool := none
  resyncOnGap : Option Bool := none
  resyncMinInterval : Int := 0
  peerForgetAfter : Int := 0
  peerStateFile : Bytes := []
  replShutdownSpillPath : Bytes := []
  clientTLSCertFile : Bytes := []
  clientTLSKeyFile : Bytes := []
  clientTLSMinVersion : Bytes := []
  peerTLSCertFile : Bytes := []
  peerTLSKeyFile : Bytes := []
  peerTLSCAFile : Bytes := []
  peerTLSMinVersion : Bytes := []

/-- What the checks ask of the machine and of `net`; a result is an error text.  No
blank address is valid. -/
structure ConfigEnv where
  rules : AddrRules
  addrError : Bytes → String
  validateReadableFile : Bytes → Option String
  logParent : Bytes → Option String
  isLoopback : Bytes → Bool
  /-- `strconv.Quote`, the verb `%q`. -/
  quote : Bytes → String
  nonblank : rules.valid [] = false

abbrev ConfigFile := Except String Config

namespace Config

/-! ## Defaults -/

def orText (default value : Bytes) : Bytes :=
  if value = [] then default else value

def orNumber (default value : Int) : Int :=
  if value = 0 then default else value

/-- `ApplyDefaults`. -/
def applyDefaults (c : Config) : Config :=
  { c with
    clientBind := orText (ascii "0.0.0.0") c.clientBind
    clientPort := orNumber 6379 c.clientPort
    peerBind := orText (ascii "0.0.0.0") c.peerBind
    peerPort := orNumber 7379 c.peerPort
    bootstrapQueueDepth := orNumber 100000 c.bootstrapQueueDepth
    peerQueueDepth := orNumber 50000 c.peerQueueDepth
    heartbeatInterval := orNumber 5 c.heartbeatInterval
    heartbeatTimeout := orNumber 15 c.heartbeatTimeout
    discoveryInterval := orNumber 60 c.discoveryInterval
    peerForgetAfter := orNumber 3600 c.peerForgetAfter
    resyncMinInterval := orNumber 300 c.resyncMinInterval
    mgmtSocket := orText (ascii "/var/run/supercache.sock") c.mgmtSocket
    mgmtTCPBind :=
      if 0 < c.mgmtTCPPort ∧ trimSpace c.mgmtTCPBind = [] then ascii "127.0.0.1" else c.mgmtTCPBind
    maxMemory := orText (ascii "0") c.maxMemory
    clientIdleTimeout := orNumber 3600 c.clientIdleTimeout
    maxMemoryPolicy := orText (ascii "noeviction") c.maxMemoryPolicy
    logLevel := orText (ascii "info") c.logLevel
    logOutput := orText (ascii "stdout") c.logOutput }

/-! ## Checks -/

/-- One check of `Validate`. -/
abbrev Check := Except String Unit

def check (ok : Bool) (message : String) : Check :=
  if ok then .ok () else .error message

def checkIf (condition : Bool) (checks : List Check) : Check :=
  if condition then checks.forM id else .ok ()

def checkField (field : String) (failure : Option String) : Check :=
  match failure with
  | none => .ok ()
  | some message => .error (field ++ ": " ++ message)

def validatePeerAddr (env : ConfigEnv) (addr : Bytes) : Option String :=
  if env.rules.valid (trimSpace addr) then none else some (env.addrError addr)

/-- The loop of `Validate` over the peers, from index `i`. -/
def validatePeers (env : ConfigEnv) : Nat → List Bytes → Check
  | _, [] => .ok ()
  | i, peer :: rest =>
    match validatePeerAddr env peer with
    | none => validatePeers env (i + 1) rest
    | some message => .error ("peers[" ++ toString i ++ "]: " ++ message)

def validateClusterID (id : Bytes) : Check :=
  let id := trimSpace id
  if id = [] then .ok ()
  else if 128 < id.length then .error "cluster_id must be at most 128 characters"
  else check (id.all fun byte => 0x21 ≤ byte.val ∧ byte.val ≤ 0x7e)
    "cluster_id must contain only printable non-space ASCII"

/-- `validateNodeID`; a control character is one byte in UTF-8. -/
def validateNodeID (id : Bytes) : Option String :=
  let id := trimSpace id
  if id = [] then none
  else if 128 < id.length then some "must be at most 128 characters"
  else if id.any (fun byte => byte.val < 0x20 ∨ byte.val = 0x7f) then
    some "must not contain control characters"
  else none

/-- The multiplier of a suffix of `max_memory`. -/
def memorySuffix (suffix : Bytes) : Option Nat :=
  if suffix = [] ∨ suffix = ascii "b" then some 1
  else if suffix = ascii "k" ∨ suffix = ascii "kb" then some 1024
  else if suffix = ascii "m" ∨ suffix = ascii "mb" then some (1024 * 1024)
  else if suffix = ascii "g" ∨ suffix = ascii "gb" then some (1024 * 1024 * 1024)
  else none

/-- The errors of `parseMemoryBytes`. -/
inductive MemoryErr where
  | format
  | number (text : Bytes)
  | suffix (text : Bytes)
  | overflow
deriving DecidableEq

/-- The error of `strconv.ParseUint`, which reads from the left and stops at the first digit
that is too much. -/
def parseUintErr (quote : Bytes → String) (text : Bytes) : String :=
  let digits := text.takeWhile fun byte => (digitValue byte).isSome
  "strconv.ParseUint: parsing " ++ quote text
    ++ if digits = [] ∨ (parseUint digits).isSome then ": invalid syntax" else ": value out of range"

def MemoryErr.message (quote : Bytes → String) : MemoryErr → String
  | .format => "invalid max_memory format"
  | .number text => "parse max_memory number: " ++ parseUintErr quote text
  | .suffix text => "unknown max_memory suffix " ++ quote text
  | .overflow => "max_memory value overflow"

/-- `parseMemoryBytes`; the number ends with the last digit of the text. -/
def parseMemoryBytes (text : Bytes) : Except MemoryErr Nat :=
  let text := trimSpace (toLower text)
  if text = ascii "0" ∨ text = [] then .ok 0
  else
    let number := (text.reverse.dropWhile fun byte => (digitValue byte).isNone).reverse
    let suffix := trimSpace (text.drop number.length)
    if number = [] then .error .format
    else
      match parseUint number, memorySuffix suffix with
      | none, _ => .error (.number number)
      | some _, none => .error (.suffix suffix)
      | some n, some mul => if (2 ^ 64 - 1) / mul < n then .error .overflow else .ok (n * mul)

def validateMaxMemoryString (text : Bytes) : Option MemoryErr :=
  match parseMemoryBytes text with
  | .ok _ => none
  | .error failure => some failure

def validateLogOutputPath (env : ConfigEnv) (logOutput : Bytes) : Option String :=
  let lo := trimSpace (toLower logOutput)
  if lo = ascii "stdout" ∨ lo = ascii "stderr" then none else env.logParent logOutput

def validateMgmtTCPBind (env : ConfigEnv) (bind : Bytes) : Option String :=
  let b := trimSpace bind
  if b = [] ∨ equalFold b (ascii "localhost") ∨ env.isLoopback b then none
  else some "must be a loopback address (127.0.0.1, ::1, localhost)"

/-- `parseTLSMinVersionString`, for its error. -/
def parseTLSMinVersionString (version : Bytes) : Option String :=
  let version := trimSpace (toLower version)
  if version = [] ∨ version = ascii "1.2" ∨ version = ascii "1.3" then none
  else some "must be 1.2 or 1.3"

def allowedMaxMemoryPolicies : List Bytes :=
  [ascii "noeviction", ascii "allkeys-lru", ascii "volatile-lru", ascii "allkeys-random",
    ascii "volatile-random", ascii "volatile-ttl"]

def allowedLogLevels : List Bytes :=
  [ascii "debug", ascii "info", ascii "warn", ascii "error"]

def isPort (port : Int) : Bool :=
  1 ≤ port ∧ port ≤ 65535

/-- The checks of `Validate`, in order. -/
def checks (env : ConfigEnv) (c : Config) : List Check :=
  let text (value : Bytes) : Bool := trimSpace value ≠ []
  [ validateClusterID c.clusterID,
    check (32 ≤ (trimSpace c.sharedSecret).length)
      "shared_secret must be non-empty and at least 32 characters",
    check (isPort c.clientPort) "client_port must be between 1 and 65535",
    check (isPort c.peerPort) "peer_port must be between 1 and 65535",
    check (c.clientPort ≠ c.peerPort) "client_port and peer_port must not be equal",
    check (toLower (trimSpace c.maxMemoryPolicy) ∈ allowedMaxMemoryPolicies)
      ("max_memory_policy " ++ env.quote (trimSpace c.maxMemoryPolicy)
        ++ " is invalid: must be one of noeviction, allkeys-lru, volatile-lru, allkeys-random, "
        ++ "volatile-random, volatile-ttl"),
    check (toLower (trimSpace c.logLevel) ∈ allowedLogLevels)
      "log_level must be one of debug, info, warn, error",
    check (1 ≤ c.heartbeatInterval) "heartbeat_interval must be 1 or greater",
    check (c.heartbeatInterval < c.heartbeatTimeout)
      "heartbeat_timeout must be greater than heartbeat_interval",
    validatePeers env 0 c.peers,
    checkIf (text c.bootstrapPeer)
      [checkField "bootstrap_peer" (validatePeerAddr env c.bootstrapPeer)],
    checkIf (text c.advertiseAddr)
      [checkField "advertise_addr" (validatePeerAddr env c.advertiseAddr)],
    checkField "node_id" (validateNodeID c.nodeID),
    checkField "max_memory" ((validateMaxMemoryString c.maxMemory).map (MemoryErr.message env.quote)),
    checkField "log_output" (validateLogOutputPath env c.logOutput),
    check (c.logFormat = [] ∨ toLower (trimSpace c.logFormat) ∈
        [ascii "text", ascii "json", ascii "logfmt"])
      "log_format must be text, json, or logfmt",
    checkIf (c.metricsPort ≠ 0)
      [ check (isPort c.metricsPort) "metrics_port must be 0 or between 1 and 65535",
        check (c.metricsPort ≠ c.clientPort ∧ c.metricsPort ≠ c.peerPort)
          "metrics_port must not equal client_port or peer_port" ],
    checkIf (c.mgmtTCPPort ≠ 0)
      [ check (isPort c.mgmtTCPPort) "mgmt_tcp_port must be 0 or between 1 and 65535",
        check (c.mgmtTCPPort ≠ c.clientPort ∧ c.mgmtTCPPort ≠ c.peerPort)
          "mgmt_tcp_port must not equal client_port or peer_port",
        check (c.metricsPort = 0 ∨ c.mgmtTCPPort ≠ c.metricsPort)
          "mgmt_tcp_port must not equal metrics_port",
        checkField "mgmt_tcp_bind" (validateMgmtTCPBind env c.mgmtTCPBind) ],
    checkIf (c.mgmtTCPPort = 0)
      [check (!text c.mgmtTCPBind) "mgmt_tcp_bind is set but mgmt_tcp_port is 0"],
    check (text c.clientTLSCertFile = text c.clientTLSKeyFile)
      "client_tls_cert_file and client_tls_key_file must both be set or both empty",
    checkIf (text c.clientTLSCertFile)
      [ checkField "client_tls_cert_file"
          (env.validateReadableFile (trimSpace c.clientTLSCertFile)),
        checkField "client_tls_key_file"
          (env.validateReadableFile (trimSpace c.clientTLSKeyFile)) ],
    checkField "client_tls_min_version"
      (parseTLSMinVersionString (trimSpace c.clientTLSMinVersion)),
    check (text c.peerTLSCertFile = text c.peerTLSKeyFile)
      "peer_tls_cert_file and peer_tls_key_file must both be set or both empty",
    checkIf (text c.peerTLSCertFile)
      [ checkField "peer_tls_cert_file" (env.validateReadableFile (trimSpace c.peerTLSCertFile)),
        checkField "peer_tls_key_file" (env.validateReadableFile (trimSpace c.peerTLSKeyFile)),
        check (text c.peerTLSCAFile) "peer_tls_ca_file is required when peer TLS is enabled",
        checkField "peer_tls_ca_file" (env.validateReadableFile (trimSpace c.peerTLSCAFile)) ],
    checkIf (!text c.peerTLSCertFile)
      [check (!text c.peerTLSCAFile)
        "peer_tls_ca_file is set but peer TLS certificate files are not configured"],
    checkField "peer_tls_min_version"
      (parseTLSMinVersionString (trimSpace c.peerTLSMinVersion)) ]

/-- `Validate`: the first check that fails. -/
def validate (env : ConfigEnv) (c : Config) : Check :=
  (checks env c).forM id

/-- `Load`. -/
def load (env : ConfigEnv) (file : ConfigFile) : Except String Config :=
  match file with
  | .error failure => .error failure
  | .ok raw =>
    match validate env raw.applyDefaults with
    | .ok _ => .ok raw.applyDefaults
    | .error failure => .error ("validate config: " ++ failure)

/-! ## The saved peer list -/

/-- One round of either loop of `MergePeerLists`; `seen` holds what is in `out`. -/
def mergeOne (out : List Bytes) (p : Bytes) : List Bytes :=
  if trimSpace p = [] ∨ trimSpace p ∈ out then out else out ++ [trimSpace p]

/-- `MergePeerLists`. -/
def mergePeerLists (base extra : List Bytes) : List Bytes :=
  extra.foldl mergeOne (base.foldl mergeOne [])

/-- The addresses startup adds to those of the file: what the peer state file held, if
one is configured and could be read. -/
def savedPeers (c : Config) (state : Option (List Bytes)) : List Bytes :=
  if trimSpace c.peerStateFile = [] then [] else state.getD []

/-- The configuration `main` starts the server with. -/
def startup (env : ConfigEnv) (file : ConfigFile) (state : Option (List Bytes)) :
    Except String Config :=
  match load env file with
  | .error failure => .error ("load config: " ++ failure)
  | .ok cfg =>
    if cfg.savedPeers state = [] then .ok cfg
    else
      let merged := { cfg with peers := mergePeerLists cfg.peers (cfg.savedPeers state) }
      match validate env merged with
      | .ok _ => .ok merged
      | .error failure => .error ("peer state merge invalid: " ++ failure)

/-! ## Hot reload -/

inductive Setting where
  | text (value : Bytes)
  | number (value : Int)
  | switch (value : Bool)
  | list (value : List Bytes)
deriving DecidableEq

/-- The loop of `peersMultisetSubset`; `left` holds each address as often as its count. -/
def takeEach : List Bytes → List Bytes → Bool
  | [], _ => true
  | p :: rest, left => if p ∈ left then takeEach rest (left.erase p) else false

def peersMultisetSubset (old new : List Bytes) : Bool :=
  if new.length < old.length then false else takeEach old new

/-- A row of `diffConfigs`: the name, what is compared, and whether the running node can
take the change. -/
structure Field where
  name : String
  value : Config → Setting
  hot : Config → Config → Bool

def Field.fixed (name : String) (value : Config → Setting) : Field :=
  ⟨name, value, fun _ _ => false⟩

def Field.live (name : String) (value : Config → Setting) : Field :=
  ⟨name, value, fun _ _ => true⟩

def peersField : Field :=
  ⟨"peers", fun c => .list c.peers, fun a b => peersMultisetSubset a.peers b.peers⟩

def trimmed (value : Config → Bytes) (c : Config) : Setting :=
  .text (trimSpace (value c))

def fieldsBefore : List Field :=
  [ .fixed "client_bind" fun c => .text c.clientBind,
    .fixed "client_port" fun c => .number c.clientPort,
    .fixed "peer_bind" fun c => .text c.peerBind,
    .fixed "peer_port" fun c => .number c.peerPort,
    .fixed "shared_secret" fun c => .text c.sharedSecret,
    .fixed "cluster_id" (trimmed clusterID),
    .fixed "mgmt_socket" fun c => .text c.mgmtSocket,
    .fixed "discovery_interval" fun c => .number c.discoveryInterval,
    .fixed "hetzner_api_token" fun c => .text c.hetznerAPIToken,
    .fixed "hetzner_label_selector" (trimmed hetznerLabelSelector),
    .fixed "hetzner_network_id" fun c => .number c.hetznerNetworkID,
    .fixed "hetzner_api_url" (trimmed hetznerAPIURL),
    .fixed "peer_forget_after" fun c => .number c.peerForgetAfter,
    .live "announce_leave" fun c => .switch (c.announceLeave.getD true),
    .live "resync_on_gap" fun c => .switch (c.resyncOnGap.getD true),
    .live "resync_min_interval" fun c => .number c.resyncMinInterval,
    .fixed "mgmt_tcp_bind" (trimmed mgmtTCPBind),
    .fixed "mgmt_tcp_port" fun c => .number c.mgmtTCPPort ]

def fieldsAfter : List Field :=
  [ .fixed "bootstrap_peer" (trimmed bootstrapPeer),
    .fixed "node_id" (trimmed nodeID),
    .fixed "advertise_addr" (trimmed advertiseAddr),
    .fixed "bootstrap_queue_depth" fun c => .number c.bootstrapQueueDepth,
    .live "log_level" fun c => .text c.logLevel,
    .live "log_output" fun c => .text c.logOutput,
    .live "log_format" fun c => .text (toLower (trimSpace c.logFormat)),
    .fixed "metrics_bind" (trimmed metricsBind),
    .fixed "metrics_port" fun c => .number c.metricsPort,
    .fixed "client_tls_cert_file" (trimmed clientTLSCertFile),
    .fixed "client_tls_key_file" (trimmed clientTLSKeyFile),
    .fixed "client_tls_min_version" (trimmed clientTLSMinVersion),
    .fixed "peer_tls_cert_file" (trimmed peerTLSCertFile),
    .fixed "peer_tls_key_file" (trimmed peerTLSKeyFile),
    .fixed "peer_tls_ca_file" (trimmed peerTLSCAFile),
    .fixed "peer_tls_min_version" (trimmed peerTLSMinVersion),
    .live "max_memory" fun c => .text c.maxMemory,
    .live "max_memory_policy" fun c => .text c.maxMemoryPolicy,
    .live "auth_password" fun c => .text c.authPassword,
    .live "client_idle_timeout" fun c => .number c.clientIdleTimeout,
    .live "heartbeat_interval" fun c => .number c.heartbeatInterval,
    .live "heartbeat_timeout" fun c => .number c.heartbeatTimeout,
    .live "peer_queue_depth" fun c => .number c.peerQueueDepth,
    .fixed "gossip_peers" fun c => .switch c.gossipPeers,
    .live "auto_discover_peers" fun c => .switch (c.autoDiscoverPeers.getD true),
    .fixed "peer_state_file" (trimmed peerStateFile),
    .fixed "repl_shutdown_spill_path" (trimmed replShutdownSpillPath) ]

def configFields : List Field :=
  fieldsBefore ++ peersField :: fieldsAfter

def differing (a b : Config) : List Field :=
  configFields.filter fun field => field.value a ≠ field.value b

/-- `diffConfigs`: the names of the changes that can be taken, and of those that cannot. -/
def diffConfigs (a b : Config) : List String × List String :=
  (((differing a b).filter fun field => field.hot a b).map Field.name,
    ((differing a b).filter fun field => !field.hot a b).map Field.name)

/-- `Reload`. -/
def reload (env : ConfigEnv) (current : Config) (file : ConfigFile) :
    Except String (Config × List String) :=
  match load env file with
  | .error failure => .error ("reload config: " ++ failure)
  | .ok newCfg =>
    if (diffConfigs current newCfg).2 = [] then .ok (newCfg, (diffConfigs current newCfg).1)
    else .error ("cannot hot-reload changed fields: "
      ++ String.intercalate ", " (diffConfigs current newCfg).2)

/-! ## What a check that passed says -/

theorem forM_id_eq_ok {cs : List Check} : cs.forM id = .ok () ↔ ∀ c ∈ cs, c = .ok () := by
  induction cs with
  | nil => exact iff_of_true rfl (List.forall_mem_nil _)
  | cons c rest ih =>
    rw [List.forall_mem_cons, ← ih]
    cases c with
    | ok result => exact ⟨fun passed => ⟨rfl, passed⟩, fun passed => passed.2⟩
    | error message =>
      refine iff_of_false (fun failed => ?_) fun failed => ?_
      · cases failed
      · cases failed.1

variable {env : ConfigEnv} {ps out : List Bytes} {file : ConfigFile} {addr : Bytes}

theorem valid_of_validatePeers {i : Nat} (passed : validatePeers env i ps = .ok ()) :
    ∀ p ∈ ps, env.rules.valid (trimSpace p) = true := by
  induction ps generalizing i with
  | nil => exact List.forall_mem_nil _
  | cons peer rest ih =>
    unfold validatePeers validatePeerAddr at passed
    cases valid : env.rules.valid (trimSpace peer) with
    | true =>
      rw [valid] at passed
      exact List.forall_mem_cons.mpr ⟨valid, ih passed⟩
    | false =>
      rw [valid] at passed
      cases passed

theorem nonblank_of_validate {c : Config} (passed : validate env c = .ok ()) :
    ∀ p ∈ c.peers, trimSpace p ≠ [] := by
  have peers : validatePeers env 0 c.peers = .ok () :=
    forM_id_eq_ok.mp passed _ (by simp [checks])
  intro p listed blank
  have valid := valid_of_validatePeers peers p listed
  rw [blank, env.nonblank] at valid
  cases valid

theorem load_eq_ok {cfg : Config} :
    load env file = .ok cfg
      ↔ ∃ raw, file = .ok raw ∧ validate env raw.applyDefaults = .ok () ∧ raw.applyDefaults = cfg := by
  unfold load
  cases file with
  | error failure => simp
  | ok raw =>
    cases passed : validate env raw.applyDefaults with
    | ok result => simp [passed]
    | error failure => simp [passed]

variable {state : Option (List Bytes)} {base extra : List Bytes}

theorem startup_eq_ok {running : Config} (started : startup env file state = .ok running) :
    ∃ base, load env file = .ok base
      ∧ (base.savedPeers state = [] ∧ running = base
        ∨ base.savedPeers state ≠ []
          ∧ running = { base with peers := mergePeerLists base.peers (base.savedPeers state) }) := by
  unfold startup at started
  split at started
  · cases started
  · next base loads =>
    refine ⟨base, loads, ?_⟩
    split at started
    · next nothing =>
      cases started
      exact .inl ⟨nothing, rfl⟩
    · next saved =>
      simp only at started
      split at started
      · cases started
        exact .inr ⟨saved, rfl⟩
      · cases started

/-! ## The merged list -/

theorem mem_mergeOne {p : Bytes} :
    addr ∈ mergeOne out p ↔ addr ∈ out ∨ addr ≠ [] ∧ trimSpace p = addr := by
  unfold mergeOne
  split
  · next kept =>
    refine ⟨.inl, fun member => member.elim id ?_⟩
    rintro ⟨nonblank, rfl⟩
    exact kept.resolve_left nonblank
  · next fresh =>
    simp only [not_or] at fresh
    rw [List.mem_append, List.mem_singleton]
    refine or_congr_right ⟨?_, fun same => same.2.symm⟩
    rintro rfl
    exact ⟨fresh.1, rfl⟩

theorem mem_foldl_mergeOne :
    addr ∈ ps.foldl mergeOne out ↔ addr ∈ out ∨ addr ≠ [] ∧ ∃ p ∈ ps, trimSpace p = addr := by
  induction ps generalizing out with
  | nil => simp
  | cons p rest ih =>
    rw [List.foldl_cons, ih, mem_mergeOne, or_assoc, ← and_or_left,
      List.exists_mem_cons_iff]

theorem nodup_foldl_mergeOne (distinct : out.Nodup) : (ps.foldl mergeOne out).Nodup := by
  induction ps generalizing out with
  | nil => exact distinct
  | cons p rest ih =>
    apply ih
    unfold mergeOne
    split
    · exact distinct
    · next fresh =>
      rw [not_or] at fresh
      exact List.nodup_append.mpr ⟨distinct, List.nodup_singleton _, fun p listed q same => by
        rw [List.mem_singleton.mp same]
        exact fun equal => fresh.2 (equal ▸ listed)⟩

theorem foldl_mergeOne_append (distinct : (out ++ ps).Nodup)
    (plain : ∀ p ∈ ps, p ≠ [] ∧ trimSpace p = p) : ps.foldl mergeOne out = out ++ ps := by
  induction ps generalizing out with
  | nil => exact (List.append_nil out).symm
  | cons p rest ih =>
    rw [List.forall_mem_cons] at plain
    have fresh : p ∉ out := fun member =>
      (List.nodup_append.mp distinct).2.2 p member p List.mem_cons_self rfl
    have merged : mergeOne out p = out ++ [p] := by
      unfold mergeOne
      rw [plain.1.2, if_neg]
      exact not_or.mpr ⟨plain.1.1, fresh⟩
    rw [List.append_cons] at distinct
    rw [List.foldl_cons, merged, ih distinct plain.2, List.append_assoc]
    rfl

theorem mem_mergePeerLists :
    addr ∈ mergePeerLists base extra
      ↔ addr ≠ [] ∧ ((∃ p ∈ base, trimSpace p = addr) ∨ ∃ p ∈ extra, trimSpace p = addr) := by
  unfold mergePeerLists
  rw [mem_foldl_mergeOne, mem_foldl_mergeOne]
  simp only [List.not_mem_nil, false_or, ← and_or_left]

def Plainly (peers : List Bytes) : Prop :=
  peers.Nodup ∧ ∀ p ∈ peers, p ≠ [] ∧ trimSpace p = p

instance (peers : List Bytes) : Decidable (Plainly peers) :=
  inferInstanceAs (Decidable (_ ∧ _))

theorem mergePeerLists_eq_iff :
    mergePeerLists base extra = base
      ↔ Plainly base ∧ ∀ addr ∈ extra, trimSpace addr = [] ∨ trimSpace addr ∈ base := by
  constructor
  · intro same
    refine ⟨⟨?_, fun p listed => ?_⟩, fun addr saved => or_iff_not_imp_left.mpr fun nonblank => ?_⟩
    · rw [← same]
      exact nodup_foldl_mergeOne (nodup_foldl_mergeOne List.nodup_nil)
    · rw [← same, mem_mergePeerLists] at listed
      refine ⟨listed.1, ?_⟩
      obtain ⟨-, ⟨q, -, rfl⟩ | ⟨q, -, rfl⟩⟩ := listed
      · exact trimSpace_trimSpace q
      · exact trimSpace_trimSpace q
    · rw [← same, mem_mergePeerLists]
      exact ⟨nonblank, .inr ⟨addr, saved, rfl⟩⟩
  · rintro ⟨⟨distinct, plain⟩, known⟩
    have first : base.foldl mergeOne [] = base := foldl_mergeOne_append distinct plain
    unfold mergePeerLists
    rw [first]
    -- Every saved address is skipped, so the second loop changes nothing.
    induction extra with
    | nil => rfl
    | cons addr rest ih =>
      rw [List.forall_mem_cons] at known
      have skipped : mergeOne base addr = base := if_pos known.1
      rw [List.foldl_cons, skipped]
      exact ih known.2

/-! ## What a reload reports -/

theorem value_with_peers {field : Field} (other : field ∈ fieldsBefore ++ fieldsAfter)
    (c : Config) (ps : List Bytes) : field.value { c with peers := ps } = field.value c := by
  revert field
  simp only [fieldsBefore, fieldsAfter, List.cons_append, List.nil_append, List.forall_mem_cons]
  simp [Field.fixed, Field.live, trimmed]

theorem differing_with_peers (c : Config) (ps : List Bytes) :
    differing { c with peers := ps } c = if ps = c.peers then [] else [peersField] := by
  have silent (rows : List Field) (within : rows ⊆ fieldsBefore ++ fieldsAfter) :
      (rows.filter fun field => field.value { c with peers := ps } ≠ field.value c) = [] := by
    rw [List.filter_eq_nil_iff]
    intro field listed changed
    exact of_decide_eq_true changed (value_with_peers (within listed) c ps)
  unfold differing configFields
  rw [List.filter_append, silent _ (List.subset_append_left _ _), List.nil_append,
    List.filter_cons, silent _ (List.subset_append_right _ _)]
  by_cases same : ps = c.peers
  · rw [if_pos same, if_neg]
    simp [peersField, same]
  · rw [if_neg same, if_pos]
    simpa [peersField] using same

theorem reload_of_load {current base : Config} (loads : load env file = .ok base) :
    (∃ loaded, current.reload env file = .ok (loaded, [])) ↔ differing current base = [] := by
  unfold reload
  rw [loads]
  simp only
  constructor
  · rintro ⟨loaded, quiet⟩
    split at quiet
    · next passed =>
      -- Nothing is blocked and nothing is reported, so nothing differs.
      have reported := (Prod.mk.inj (Except.ok.inj quiet)).2
      unfold diffConfigs at passed reported
      simp only [List.map_eq_nil_iff, List.filter_eq_nil_iff] at passed reported
      refine List.eq_nil_iff_forall_not_mem.mpr fun field listed => ?_
      have fixed := passed field listed
      have silent := reported field listed
      cases kind : field.hot current base with
      | true => exact silent kind
      | false => exact fixed (by rw [kind]; rfl)
    · cases quiet
  · intro same
    refine ⟨base, ?_⟩
    unfold diffConfigs
    rw [same]
    rfl

@[simp] theorem applyDefaults_peers (raw : Config) : raw.applyDefaults.peers = raw.peers :=
  rfl

@[simp] theorem applyDefaults_savedPeers (raw : Config) (state : Option (List Bytes)) :
    raw.applyDefaults.savedPeers state = raw.savedPeers state :=
  rfl

/-- A reload of the file the node was started with reports nothing exactly if startup added
nothing to its peers: there was no saved list, or the file names every saved address and
writes each of its own plainly and once. -/
theorem reload_unchanged_iff {env : ConfigEnv} {raw running : Config}
    {state : Option (List Bytes)} (started : startup env (.ok raw) state = .ok running) :
    (∃ loaded, running.reload env (.ok raw) = .ok (loaded, []))
      ↔ raw.savedPeers state = []
        ∨ Plainly raw.peers
          ∧ ∀ addr ∈ raw.savedPeers state, trimSpace addr = [] ∨ trimSpace addr ∈ raw.peers := by
  obtain ⟨base, loads, merged⟩ := startup_eq_ok started
  rw [reload_of_load loads]
  obtain ⟨_, ⟨⟩, -, rfl⟩ := load_eq_ok.mp loads
  rw [applyDefaults_savedPeers] at merged
  rcases merged with ⟨nothing, rfl⟩ | ⟨something, rfl⟩
  · refine iff_of_true ?_ (.inl nothing)
    exact List.filter_eq_nil_iff.mpr fun field _ changed => of_decide_eq_true changed rfl
  · rw [differing_with_peers, or_iff_right something, ← mergePeerLists_eq_iff, applyDefaults_peers]
    constructor
    · intro quiet
      by_contra different
      rw [if_neg different] at quiet
      cases quiet
    · exact fun same => if_pos same

def plainEnv : ConfigEnv where
  rules := Membership.plainRules
  addrError := fun _ => "missing port in address"
  validateReadableFile := fun _ => none
  logParent := fun _ => none
  isLoopback := fun _ => true
  quote := fun _ => "\"\""
  nonblank := rfl

def smallFile : Config where
  sharedSecret := List.replicate 32 97
  peerStateFile := ascii "peers.json"
  peers := [ascii "b:1"]

theorem eq_ok_get {α : Type} {result : Except String α} (passes : result.toOption.isSome = true) :
    result = .ok (result.toOption.get passes) := by
  cases result with
  | ok a => rfl
  | error failure => cases passes

theorem smallFile_reloads :
    ∃ running, startup plainEnv (.ok smallFile) (some [ascii "b:1"]) = .ok running
      ∧ ∃ loaded, running.reload plainEnv (.ok smallFile) = .ok (loaded, []) := by
  refine ⟨_, eq_ok_get (by decide +kernel), ?_⟩
  exact (reload_unchanged_iff (eq_ok_get (by decide +kernel))).mpr (.inr (by decide +kernel))

/-- A node that has learned a peer refuses, after a restart, to reload its own file. -/
theorem learned_blocks_reload :
    ∃ running, startup plainEnv (.ok smallFile) (some [ascii "b:1", ascii "c:1"]) = .ok running
      ∧ (running.reload plainEnv (.ok smallFile)).map (fun _ => ())
        = .error "cannot hot-reload changed fields: peers" :=
  ⟨_, eq_ok_get (by decide +kernel), by decide +kernel⟩

end Config

end SuperCache
