import SuperCache.Lib.Hex
import SuperCache.Lib.Script
import SuperCache.Peer.WireJson

/-! # The peer handshake

HELLO, HELLO_ACK with a nonce, AUTH with a proof over it, and ACK: what each end of
a connection sends and checks.  The keyed hash is a parameter, and a nonce is given
where the acceptor draws one.
-/

namespace SuperCache

open Lib

/-! ## Messages -/

/-- `MsgType`; `unset` is the empty one. -/
inductive MsgType where
  | unset
  | hello
  | helloAck
  | auth
  | ack
  | heartbeat
  | nodeList
  | replicate
  | bootstrapReq
  | bootstrapChunk
  | bootstrapDone
  | leave
  | other (name : Bytes)
deriving DecidableEq

structure PeerMessage where
  type : MsgType
  nodeID : Bytes
  payload : Option Json

def wireOpHello : Bytes := ascii "HELLO"
def wireOpHelloAck : Bytes := ascii "HELLO_ACK"
def wireOpAuth : Bytes := ascii "AUTH"
def wireOpBootstrap : Bytes := ascii "BOOTSTRAP"
def wireOpBootstrapEnd : Bytes := ascii "BOOTSTRAP_END"
def wireOpHeartbeat : Bytes := ascii "HEARTBEAT"
def wireOpHeartbeatAck : Bytes := ascii "HEARTBEAT_ACK"
def wireOpPeerAnnounce : Bytes := ascii "PEER_ANNOUNCE"
def wireOpLeave : Bytes := ascii "LEAVE"

def typeOfOp (op : Bytes) : MsgType :=
  if op = wireOpHello then .hello
  else if op = wireOpHelloAck then .helloAck
  else if op = wireOpAuth then .auth
  else if op = wireOpHeartbeat ∨ op = wireOpHeartbeatAck then .heartbeat
  else if op = wireOpPeerAnnounce then .nodeList
  else if op = wireOpLeave then .leave
  else if op = wireOpBootstrap then .bootstrapReq
  else if op = wireOpBootstrapEnd then .bootstrapDone
  else if op ≠ [] then .replicate
  else .unset

def probeOp (payload : Json) : Option Bytes :=
  (membersOf payload).bind fun members => Json.field .string (ascii "op") members

def normalizePeerMessage (msg : PeerMessage) : PeerMessage :=
  if msg.type ≠ .unset then msg
  else match msg.payload.bind probeOp with
    | none => msg
    | some op => { msg with type := typeOfOp (toUpper (trimSpace op)) }

theorem normalizePeerMessage_of_typed {msg : PeerMessage} (typed : msg.type ≠ .unset) :
    normalizePeerMessage msg = msg :=
  if_pos typed

/-! ## The payloads of the handshake -/

structure WireHello where
  op : Bytes
  ver : Int
  nodeID : Bytes
  advertise : Bytes
  caps : List Bytes

structure WireHelloAck where
  op : Bytes
  ok : Bool
  ver : Int
  nonce : Bytes
  err : Bytes
  nodeID : Bytes
  advertise : Bytes
  caps : List Bytes

structure WireAuthProof where
  op : Bytes
  ver : Int
  hmac : Bytes

structure WireAck where
  ok : Bool
  err : Bytes

section Codec

open Json

def wireHelloFields (h : WireHello) : List (Bytes × Option Json) :=
  [ (ascii "op", some (ofString h.op)),
    (ascii "ver", some (.num h.ver)),
    (ascii "node_id", omitEmpty (h.nodeID = []) (ofString h.nodeID)),
    (ascii "adv", omitEmpty (h.advertise = []) (ofString h.advertise)),
    (ascii "caps", omitEmpty (h.caps = []) (ofStringList h.caps))]

def wireHelloAckFields (a : WireHelloAck) : List (Bytes × Option Json) :=
  [ (ascii "op", some (ofString a.op)),
    (ascii "ok", some (.bool a.ok)),
    (ascii "ver", omitEmpty (a.ver = 0) (.num a.ver)),
    (ascii "nonce", omitEmpty (a.nonce = []) (ofString a.nonce)),
    (ascii "err", omitEmpty (a.err = []) (ofString a.err)),
    (ascii "node_id", omitEmpty (a.nodeID = []) (ofString a.nodeID)),
    (ascii "adv", omitEmpty (a.advertise = []) (ofString a.advertise)),
    (ascii "caps", omitEmpty (a.caps = []) (ofStringList a.caps))]

def wireAuthProofFields (p : WireAuthProof) : List (Bytes × Option Json) :=
  [ (ascii "op", some (ofString p.op)),
    (ascii "ver", some (.num p.ver)),
    (ascii "hmac", some (ofString p.hmac))]

def wireAckFields (a : WireAck) : List (Bytes × Option Json) :=
  [ (ascii "ok", omitEmpty (a.ok = false) (.bool a.ok)),
    (ascii "err", omitEmpty (a.err = []) (ofString a.err))]

def encodeWireHello (h : WireHello) : Json :=
  .obj (ofFields (wireHelloFields h))

def encodeWireHelloAck (a : WireHelloAck) : Json :=
  .obj (ofFields (wireHelloAckFields a))

def encodeWireAuthProof (p : WireAuthProof) : Json :=
  .obj (ofFields (wireAuthProofFields p))

def encodeWireAck (a : WireAck) : Json :=
  .obj (ofFields (wireAckFields a))

def decodeWireHello (json : Json) : Option WireHello := do
  let members ← membersOf json
  let op ← field .string (ascii "op") members
  let ver ← field .int64 (ascii "ver") members
  let nodeID ← field .string (ascii "node_id") members
  let advertise ← field .string (ascii "adv") members
  let caps ← field (.list .string) (ascii "caps") members
  return { op, ver, nodeID, advertise, caps }

def decodeWireHelloAck (json : Json) : Option WireHelloAck := do
  let members ← membersOf json
  let op ← field .string (ascii "op") members
  let ok ← field .bool (ascii "ok") members
  let ver ← field .int64 (ascii "ver") members
  let nonce ← field .string (ascii "nonce") members
  let err ← field .string (ascii "err") members
  let nodeID ← field .string (ascii "node_id") members
  let advertise ← field .string (ascii "adv") members
  let caps ← field (.list .string) (ascii "caps") members
  return { op, ok, ver, nonce, err, nodeID, advertise, caps }

def decodeWireAuthProof (json : Json) : Option WireAuthProof := do
  let members ← membersOf json
  let op ← field .string (ascii "op") members
  let ver ← field .int64 (ascii "ver") members
  let hmac ← field .string (ascii "hmac") members
  return { op, ver, hmac }

def decodeWireAck (json : Json) : Option WireAck := do
  let members ← membersOf json
  let ok ← field .bool (ascii "ok") members
  let err ← field .string (ascii "err") members
  return { ok, err }

theorem decode_encodeWireHello {h : WireHello} (fits : IsInt64 h.ver) :
    decodeWireHello (encodeWireHello h) = some {
      op := Utf8.coerce h.op
      ver := h.ver
      nodeID := Utf8.coerce h.nodeID
      advertise := Utf8.coerce h.advertise
      caps := h.caps.map Utf8.coerce } := by
  have distinct : ((wireHelloFields h).map fun field => foldName field.1).Nodup := by
    simp only [wireHelloFields, List.map_cons, List.map_nil]
    decide
  simp only [decodeWireHello, encodeWireHello, membersOf, bind, pure, Option.bind_some,
    field_written (ascii "op") distinct (by simp [wireHelloFields]) (read_ofString _ h.op),
    field_written (ascii "ver") distinct (by simp [wireHelloFields]) (read_int64 _ fits),
    field_ofFields (ascii "node_id") distinct (by simp [wireHelloFields])
      (read_omitString h.nodeID),
    field_ofFields (ascii "adv") distinct (by simp [wireHelloFields])
      (read_omitString h.advertise),
    field_ofFields (ascii "caps") distinct (by simp [wireHelloFields])
      (read_omitStringList h.caps)]

theorem decode_encodeWireHelloAck {a : WireHelloAck} (fits : IsInt64 a.ver) :
    decodeWireHelloAck (encodeWireHelloAck a) = some {
      op := Utf8.coerce a.op
      ok := a.ok
      ver := a.ver
      nonce := Utf8.coerce a.nonce
      err := Utf8.coerce a.err
      nodeID := Utf8.coerce a.nodeID
      advertise := Utf8.coerce a.advertise
      caps := a.caps.map Utf8.coerce } := by
  have distinct : ((wireHelloAckFields a).map fun field => foldName field.1).Nodup := by
    simp only [wireHelloAckFields, List.map_cons, List.map_nil]
    decide
  have ok : Reader.bool.read false (.bool a.ok) = some a.ok := rfl
  simp only [decodeWireHelloAck, encodeWireHelloAck, membersOf, bind, pure, Option.bind_some,
    field_written (ascii "op") distinct (by simp [wireHelloAckFields]) (read_ofString _ a.op),
    field_written (ascii "ok") distinct (by simp [wireHelloAckFields]) ok,
    field_ofFields (ascii "ver") distinct (by simp [wireHelloAckFields]) (read_omitInt64 fits),
    field_ofFields (ascii "nonce") distinct (by simp [wireHelloAckFields])
      (read_omitString a.nonce),
    field_ofFields (ascii "err") distinct (by simp [wireHelloAckFields]) (read_omitString a.err),
    field_ofFields (ascii "node_id") distinct (by simp [wireHelloAckFields])
      (read_omitString a.nodeID),
    field_ofFields (ascii "adv") distinct (by simp [wireHelloAckFields])
      (read_omitString a.advertise),
    field_ofFields (ascii "caps") distinct (by simp [wireHelloAckFields])
      (read_omitStringList a.caps)]

theorem decode_encodeWireAuthProof {p : WireAuthProof} (fits : IsInt64 p.ver) :
    decodeWireAuthProof (encodeWireAuthProof p) = some {
      op := Utf8.coerce p.op
      ver := p.ver
      hmac := Utf8.coerce p.hmac } := by
  have distinct : ((wireAuthProofFields p).map fun field => foldName field.1).Nodup := by
    simp only [wireAuthProofFields, List.map_cons, List.map_nil]
    decide
  simp only [decodeWireAuthProof, encodeWireAuthProof, membersOf, bind, pure, Option.bind_some,
    field_written (ascii "op") distinct (by simp [wireAuthProofFields]) (read_ofString _ p.op),
    field_written (ascii "ver") distinct (by simp [wireAuthProofFields]) (read_int64 _ fits),
    field_written (ascii "hmac") distinct (by simp [wireAuthProofFields])
      (read_ofString _ p.hmac)]

theorem decode_encodeWireAck (a : WireAck) :
    decodeWireAck (encodeWireAck a) = some { ok := a.ok, err := Utf8.coerce a.err } := by
  have distinct : ((wireAckFields a).map fun field => foldName field.1).Nodup := by
    simp only [wireAckFields, List.map_cons, List.map_nil]
    decide
  simp only [decodeWireAck, encodeWireAck, membersOf, bind, pure, Option.bind_some,
    field_ofFields (ascii "ok") distinct (by simp [wireAckFields]) (read_omitBool a.ok),
    field_ofFields (ascii "err") distinct (by simp [wireAckFields]) (read_omitString a.err)]

end Codec

/-! ## Capabilities and proofs -/

def peerProtocolVersion : Int := 2

def minPeerProtocolVersion : Int := 2

def capCluster : Bytes := ascii "cluster"

def capDuplex : Bytes := ascii "duplex"

def clusterBindTag : Bytes := ascii "|supercache-cluster|"

def authCaps (clusterID : Bytes) : List Bytes :=
  if trimSpace clusterID = [] then [] else [capCluster]

def localCaps : List Bytes := [capDuplex]

def hasCap (caps : List Bytes) (want : Bytes) : Bool :=
  caps.any fun cap => equalFold (trimSpace cap) want

def bindClusterID (peerCaps : List Bytes) (clusterID : Bytes) : Bytes :=
  if trimSpace clusterID = [] ∨ hasCap peerCaps capCluster = false then [] else trimSpace clusterID

def proofInput (nonce clusterID : Bytes) : Bytes :=
  if clusterID = [] then nonce else nonce ++ clusterBindTag ++ clusterID

structure PeerConfig where
  nodeID : Bytes
  advertiseAddr : Bytes
  sharedSecret : Bytes
  clusterID : Bytes
  gossipPeers : Bool

structure PeerIdentity where
  nodeID : Bytes
  advertise : Bytes
  duplex : Bool
  cluster : Bool
  version : Int

section Hash

variable (hmac : Bytes → Bytes → Bytes)

def peerHMAC (secret nonce clusterID : Bytes) : Bytes :=
  hmac secret (proofInput nonce clusterID)

def peerHMACHex (secret nonce clusterID : Bytes) : Bytes :=
  Hex.encode (peerHMAC hmac secret nonce clusterID)

def verifyPeerHMAC (secret hmacHex nonce clusterID : Bytes) : Bool :=
  let want := peerHMAC hmac secret nonce clusterID
  match Hex.decode hmacHex with
  | none => false
  | some got => if got.length ≠ want.length then false else want = got

end Hash

/-! ## The accepting end -/

inductive InboundError where
  | read
  | write
  | expectedHello
  | helloJson
  | unsupportedVersion
  | expectedAuth
  | authJson
  | badAuthProof
  | hmacMismatch
deriving DecidableEq

def helloAckMessage (ack : WireHelloAck) : PeerMessage where
  type := .helloAck
  nodeID := []
  payload := some (encodeWireHelloAck ack)

def ackMessage (ack : WireAck) : PeerMessage where
  type := .ack
  nodeID := []
  payload := some (encodeWireAck ack)

def helloRefusal (ver : Int) (err : Bytes) : PeerMessage :=
  helloAckMessage {
    op := wireOpHelloAck, ok := false, ver := ver, nonce := [], err := err, nodeID := [],
    advertise := [], caps := [] }

def authRefusal (err : Bytes) : PeerMessage :=
  ackMessage { ok := false, err := err }

def InboundError.reply : InboundError → Option PeerMessage
  | .read => none
  | .write => none
  | .expectedHello => some (helloRefusal 0 (ascii "expected HELLO"))
  | .helloJson => some (helloRefusal 0 (ascii "invalid HELLO"))
  | .unsupportedVersion =>
    some (helloRefusal peerProtocolVersion (ascii "unsupported protocol version"))
  | .expectedAuth => some (authRefusal (ascii "invalid auth frame"))
  | .authJson => some (authRefusal (ascii "invalid auth frame"))
  | .badAuthProof => some (authRefusal (ascii "bad auth"))
  | .hmacMismatch => some (authRefusal (ascii "bad auth"))

def checkHello (msg : PeerMessage) : Except InboundError WireHello :=
  if msg.type ≠ .hello then .error .expectedHello
  else match msg.payload.bind decodeWireHello with
    | none => .error .helloJson
    | some hello =>
      if equalFold hello.op wireOpHello = false then .error .expectedHello
      else if hello.ver < minPeerProtocolVersion ∨ hello.ver > peerProtocolVersion then
        .error .unsupportedVersion
      else .ok hello

def identityOf (nodeID envelope advertise : Bytes) (caps : List Bytes) (ver : Int) : PeerIdentity where
  nodeID := if trimSpace nodeID = [] then trimSpace envelope else trimSpace nodeID
  advertise := trimSpace advertise
  duplex := hasCap caps capDuplex
  cluster := hasCap caps capCluster
  version := ver

def challengeMessage (self : PeerConfig) (nonce : Bytes) : PeerMessage :=
  helloAckMessage {
    op := wireOpHelloAck, ok := true, ver := peerProtocolVersion, nonce := Hex.encode nonce,
    err := [], nodeID := self.nodeID, advertise := self.advertiseAddr,
    caps := localCaps ++ authCaps self.clusterID }

def refuse (error : InboundError) : Script PeerMessage (Except InboundError PeerIdentity) :=
  match error.reply with
  | none => .done (.error error)
  | some reply => .send reply fun _ => .done (.error error)

section Hash

variable (hmac : Bytes → Bytes → Bytes)

def checkProof (self : PeerConfig) (nonce : Bytes) (caps : List Bytes) (msg : PeerMessage) :
    Except InboundError Unit :=
  if msg.type ≠ .auth then .error .expectedAuth
  else match msg.payload.bind decodeWireAuthProof with
    | none => .error .authJson
    | some proof =>
      if equalFold proof.op wireOpAuth = false ∨ proof.ver < minPeerProtocolVersion
          ∨ proof.ver > peerProtocolVersion then
        .error .badAuthProof
      else if verifyPeerHMAC hmac self.sharedSecret proof.hmac nonce
          (bindClusterID caps self.clusterID) = false then
        .error .hmacMismatch
      else .ok ()

def awaitProof (self : PeerConfig) (nonce : Bytes) (caps : List Bytes) (id : PeerIdentity) :
    Script PeerMessage (Except InboundError PeerIdentity) :=
  .recv fun
    | none => .done (.error .read)
    | some msg2 =>
      match checkProof hmac self nonce caps (normalizePeerMessage msg2) with
      | .error error => refuse error
      | .ok () =>
        .send (ackMessage { ok := true, err := [] }) fun
          | false => .done (.error .write)
          | true => .done (.ok id)

def answerHello (self : PeerConfig) (nonce : Bytes) (msg : PeerMessage) :
    Script PeerMessage (Except InboundError PeerIdentity) :=
  match checkHello msg with
  | .error error => refuse error
  | .ok hello =>
    .send (challengeMessage self nonce) fun
      | false => .done (.error .write)
      | true => awaitProof hmac self nonce hello.caps
          (identityOf hello.nodeID msg.nodeID hello.advertise hello.caps hello.ver)

def runInboundHandshakeInfo (self : PeerConfig) (nonce : Bytes) :
    Script PeerMessage (Except InboundError PeerIdentity) :=
  .recv fun
    | none => .done (.error .read)
    | some msg => answerHello hmac self nonce (normalizePeerMessage msg)

end Hash

/-! ## The dialing end -/

/-- Why an outbound handshake fails; `peerHello` and `peerAuth` carry the error the
other end sent. -/
inductive OutboundError where
  | read
  | write
  | expectedHelloAck
  | helloAckJson
  | peerHello (err : Bytes)
  | peerHelloFailed
  | peerNonce
  | expectedAck
  | authAckJson
  | peerAuth (err : Bytes)
  | peerAuthFailed
deriving DecidableEq

def helloMessage (self : PeerConfig) (caps : List Bytes) : PeerMessage where
  type := .hello
  nodeID := self.nodeID
  payload := some (encodeWireHello {
    op := wireOpHello, ver := peerProtocolVersion, nodeID := self.nodeID,
    advertise := self.advertiseAddr, caps := caps ++ authCaps self.clusterID })

def checkHelloAck (msg : PeerMessage) : Except OutboundError (WireHelloAck × Bytes) :=
  if msg.type ≠ .helloAck then .error .expectedHelloAck
  else match msg.payload.bind decodeWireHelloAck with
    | none => .error .helloAckJson
    | some ack =>
      if equalFold ack.op wireOpHelloAck = false then .error .expectedHelloAck
      else if ack.ok = false ∨ ack.err ≠ [] then
        .error (if ack.err ≠ [] then .peerHello ack.err else .peerHelloFailed)
      else match Hex.decode ack.nonce with
        | none => .error .peerNonce
        | some nonce => .ok (ack, nonce)

def checkAck (msg : PeerMessage) : Except OutboundError Unit :=
  if msg.type ≠ .ack then .error .expectedAck
  else match msg.payload.bind decodeWireAck with
    | none => .error .authAckJson
    | some final =>
      if final.ok = false ∨ final.err ≠ [] then
        .error (if final.err ≠ [] then .peerAuth final.err else .peerAuthFailed)
      else .ok ()

def awaitAck (id : PeerIdentity) : Script PeerMessage (Except OutboundError PeerIdentity) :=
  .recv fun
    | none => .done (.error .read)
    | some msg3 =>
      match checkAck (normalizePeerMessage msg3) with
      | .error error => .done (.error error)
      | .ok () => .done (.ok id)

section Hash

variable (hmac : Bytes → Bytes → Bytes)

def proofMessage (self : PeerConfig) (nonce : Bytes) (caps : List Bytes) : PeerMessage where
  type := .auth
  nodeID := self.nodeID
  payload := some (encodeWireAuthProof {
    op := wireOpAuth, ver := peerProtocolVersion,
    hmac := peerHMACHex hmac self.sharedSecret nonce (bindClusterID caps self.clusterID) })

def answerChallenge (self : PeerConfig) (msg : PeerMessage) :
    Script PeerMessage (Except OutboundError PeerIdentity) :=
  match checkHelloAck msg with
  | .error error => .done (.error error)
  | .ok (ack, nonce) =>
    .send (proofMessage hmac self nonce ack.caps) fun
      | false => .done (.error .write)
      | true => awaitAck (identityOf ack.nodeID msg.nodeID ack.advertise ack.caps ack.ver)

def awaitChallenge (self : PeerConfig) : Script PeerMessage (Except OutboundError PeerIdentity) :=
  .recv fun
    | none => .done (.error .read)
    | some msg => answerChallenge hmac self (normalizePeerMessage msg)

def handshakeOutCaps (self : PeerConfig) (caps : List Bytes) :
    Script PeerMessage (Except OutboundError PeerIdentity) :=
  .send (helloMessage self caps) fun
    | false => .done (.error .write)
    | true => awaitChallenge hmac self

end Hash

end SuperCache
