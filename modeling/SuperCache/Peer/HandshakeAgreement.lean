import SuperCache.Peer.Handshake

/-! # Two honest ends of a handshake

Each end decides for itself whether the cluster identifier goes into the proof, from
what the other one advertised.  Between two nodes of this build both decide alike, so
the handshake succeeds on both ends or on neither.
-/

namespace SuperCache

open Lib Script

/-! ## What each check makes of an honest frame -/

theorem isInt64_peerProtocolVersion : IsInt64 peerProtocolVersion := by decide

theorem hasCap_cluster {caps : List Bytes} (dialed : caps = [] ∨ caps = localCaps)
    (clusterID : Bytes) :
    hasCap ((caps ++ authCaps clusterID).map Utf8.coerce) capCluster
      = decide (trimSpace clusterID ≠ []) := by
  by_cases blank : trimSpace clusterID = []
  · simp only [authCaps, blank, if_true, List.append_nil, ne_eq, not_true_eq_false, decide_false]
    rcases dialed with rfl | rfl <;> decide
  · simp only [authCaps, blank, if_false, ne_eq, not_false_eq_true, decide_true]
    rcases dialed with rfl | rfl <;> decide

theorem checkHello_helloMessage (self : PeerConfig) (caps : List Bytes) :
    checkHello (normalizePeerMessage (helloMessage self caps)) = .ok {
      op := wireOpHello
      ver := peerProtocolVersion
      nodeID := Utf8.coerce self.nodeID
      advertise := Utf8.coerce self.advertiseAddr
      caps := (caps ++ authCaps self.clusterID).map Utf8.coerce } := by
  have op : Utf8.coerce wireOpHello = wireOpHello := by decide
  have named : equalFold wireOpHello wireOpHello = true := by decide
  rw [normalizePeerMessage_of_typed (by simp [helloMessage])]
  simp only [checkHello, helloMessage, Option.bind_some,
    decode_encodeWireHello (h := ⟨_, peerProtocolVersion, _, _, _⟩) isInt64_peerProtocolVersion, op, named]
  rfl

theorem checkHelloAck_challengeMessage (self : PeerConfig) (nonce : Bytes) :
    checkHelloAck (normalizePeerMessage (challengeMessage self nonce)) = .ok ({
      op := wireOpHelloAck
      ok := true
      ver := peerProtocolVersion
      nonce := Hex.encode nonce
      err := []
      nodeID := Utf8.coerce self.nodeID
      advertise := Utf8.coerce self.advertiseAddr
      caps := (localCaps ++ authCaps self.clusterID).map Utf8.coerce }, nonce) := by
  have op : Utf8.coerce wireOpHelloAck = wireOpHelloAck := by decide
  have named : equalFold wireOpHelloAck wireOpHelloAck = true := by decide
  have digits : Utf8.coerce (Hex.encode nonce) = Hex.encode nonce :=
    Utf8.coerce_of_valid (Utf8.valid_of_ascii fun _ => Hex.lt_of_mem_encode)
  have noError : Utf8.coerce [] = [] := rfl
  rw [normalizePeerMessage_of_typed (by simp [challengeMessage, helloAckMessage])]
  simp only [checkHelloAck, challengeMessage, helloAckMessage, Option.bind_some,
    decode_encodeWireHelloAck (a := ⟨_, _, peerProtocolVersion, _, _, _, _, _⟩) isInt64_peerProtocolVersion, op,
    named, digits, noError, Hex.decode_encode]
  rfl

theorem checkAck_ackMessage :
    checkAck (normalizePeerMessage (ackMessage { ok := true, err := [] })) = .ok () := by
  rw [normalizePeerMessage_of_typed (by simp [ackMessage])]
  simp only [checkAck, ackMessage, Option.bind_some, decode_encodeWireAck]
  rfl

section Hash

variable {hmac : Bytes → Bytes → Bytes}

def InjectiveHash (hmac : Bytes → Bytes → Bytes) : Prop :=
  ∀ key message key' message', hmac key message = hmac key' message' →
    key = key' ∧ message = message'

theorem proofInput_inj {nonce one other : Bytes} :
    proofInput nonce one = proofInput nonce other ↔ one = other := by
  refine ⟨fun same => ?_, fun same => same ▸ rfl⟩
  have tag : clusterBindTag ≠ [] := by decide
  unfold proofInput at same
  split at same <;> split at same <;> simp_all

theorem verify_peerHMACHex (injective : InjectiveHash hmac)
    (secret secret' nonce bound bound' : Bytes) :
    verifyPeerHMAC hmac secret (Utf8.coerce (peerHMACHex hmac secret' nonce bound')) nonce bound
      = decide (secret = secret' ∧ bound = bound') := by
  have digits : Utf8.coerce (peerHMACHex hmac secret' nonce bound')
      = peerHMACHex hmac secret' nonce bound' :=
    Utf8.coerce_of_valid (Utf8.valid_of_ascii fun _ => Hex.lt_of_mem_encode)
  have same : peerHMAC hmac secret nonce bound = peerHMAC hmac secret' nonce bound'
      ↔ secret = secret' ∧ bound = bound' := by
    constructor
    · intro equal
      obtain ⟨keys, inputs⟩ := injective _ _ _ _ equal
      exact ⟨keys, proofInput_inj.mp inputs⟩
    · rintro ⟨rfl, rfl⟩
      rfl
  rw [digits]
  simp only [verifyPeerHMAC, peerHMACHex, Hex.decode_encode, ← same]
  split
  · next different =>
    refine (decide_eq_false fun equal => different ?_).symm
    rw [equal]
  · rfl

theorem checkProof_proofMessage (injective : InjectiveHash hmac) (acceptor dialer : PeerConfig)
    (nonce : Bytes) (caps caps' : List Bytes) :
    checkProof hmac acceptor nonce caps (normalizePeerMessage (proofMessage hmac dialer nonce caps'))
      = if acceptor.sharedSecret = dialer.sharedSecret
          ∧ bindClusterID caps acceptor.clusterID = bindClusterID caps' dialer.clusterID then .ok ()
        else .error .hmacMismatch := by
  have op : Utf8.coerce wireOpAuth = wireOpAuth := by decide
  have named : equalFold wireOpAuth wireOpAuth = true := by decide
  have version : ¬ (true = false ∨ peerProtocolVersion < minPeerProtocolVersion
      ∨ peerProtocolVersion > peerProtocolVersion) := by decide
  rw [normalizePeerMessage_of_typed (by simp [proofMessage])]
  simp only [checkProof, proofMessage, Option.bind_some, ne_eq, not_true_eq_false, if_false,
    decode_encodeWireAuthProof (p := ⟨_, peerProtocolVersion, _⟩) isInt64_peerProtocolVersion, op, named, version,
    verify_peerHMACHex injective]
  split <;> simp_all

/-! ## The conversation -/

/-- What decides whether two nodes agree: the secrets are the same, and so are the
cluster identifiers unless one of them is blank. -/
def PeerConfig.Compatible (one other : PeerConfig) : Prop :=
  one.sharedSecret = other.sharedSecret
    ∧ (trimSpace one.clusterID = trimSpace other.clusterID
      ∨ trimSpace one.clusterID = [] ∨ trimSpace other.clusterID = [])

instance (one other : PeerConfig) : Decidable (one.Compatible other) :=
  inferInstanceAs (Decidable (_ ∧ _))

/-- Both ends bind the identifier or neither does, and they bind the same one exactly
when their own are the same or one is blank. -/
theorem bindClusterID_agree {caps : List Bytes} (dialed : caps = [] ∨ caps = localCaps)
    (acceptorID dialerID : Bytes) :
    bindClusterID ((caps ++ authCaps dialerID).map Utf8.coerce) acceptorID
        = bindClusterID ((localCaps ++ authCaps acceptorID).map Utf8.coerce) dialerID
      ↔ trimSpace dialerID = trimSpace acceptorID
        ∨ trimSpace dialerID = [] ∨ trimSpace acceptorID = [] := by
  unfold bindClusterID
  rw [hasCap_cluster dialed, hasCap_cluster (.inr rfl)]
  by_cases blank : trimSpace acceptorID = []
  · simp [blank]
  · by_cases blank' : trimSpace dialerID = []
    · simp [blank, blank']
    · simp [blank, blank', eq_comm]

def lastFrame (dialer acceptor : PeerConfig) : PeerMessage :=
  if dialer.Compatible acceptor then ackMessage { ok := true, err := [] }
  else authRefusal (ascii "bad auth")

theorem checkAck_lastFrame (dialer acceptor : PeerConfig) :
    checkAck (normalizePeerMessage (lastFrame dialer acceptor))
      = if dialer.Compatible acceptor then .ok () else .error (.peerAuth (ascii "bad auth")) := by
  unfold lastFrame
  split
  · exact checkAck_ackMessage
  · have text : Utf8.coerce (ascii "bad auth") = ascii "bad auth" := by decide
    rw [normalizePeerMessage_of_typed (by simp [authRefusal, ackMessage])]
    simp only [checkAck, authRefusal, ackMessage, Option.bind_some, decode_encodeWireAck, text]
    rfl

variable (hmac) in
def proofFor (dialer acceptor : PeerConfig) (nonce : Bytes) : PeerMessage :=
  proofMessage hmac dialer nonce ((localCaps ++ authCaps acceptor.clusterID).map Utf8.coerce)

theorem sent_handshakeOutCaps (dialer acceptor : PeerConfig) (caps : List Bytes) (nonce : Bytes)
    (rest : List PeerMessage) :
    ((handshakeOutCaps hmac dialer caps).play
        (.lossless (challengeMessage acceptor nonce :: rest))).sent
      = [helloMessage dialer caps, proofFor hmac dialer acceptor nonce] := by
  simp only [handshakeOutCaps, awaitChallenge, answerChallenge, play_send_lossless, play_recv_lossless_cons,
    checkHelloAck_challengeMessage, awaitAck, Played.after]
  cases rest with
  | nil => rfl
  | cons last rest =>
    rw [play_recv_lossless_cons]
    dsimp only
    cases checkAck (normalizePeerMessage last) <;> rfl

theorem result_handshakeOutCaps (dialer acceptor : PeerConfig) (caps : List Bytes) (nonce : Bytes) :
    ((handshakeOutCaps hmac dialer caps).play
        (.lossless [challengeMessage acceptor nonce, lastFrame dialer acceptor])).result.isOk
      = decide (dialer.Compatible acceptor) := by
  simp only [handshakeOutCaps, awaitChallenge, answerChallenge, play_send_lossless, play_recv_lossless_cons,
    checkHelloAck_challengeMessage, awaitAck, Played.after, checkAck_lastFrame]
  by_cases compatible : dialer.Compatible acceptor
  · simp only [compatible, if_true, decide_true]
    rfl
  · simp only [compatible, if_false, decide_false]
    rfl

variable (hmac) in
theorem sent_runInboundHandshakeInfo (dialer acceptor : PeerConfig) (caps : List Bytes)
    (nonce : Bytes) (rest : List PeerMessage) :
    ∃ later, ((runInboundHandshakeInfo hmac acceptor nonce).play
      (.lossless (helloMessage dialer caps :: rest))).sent
        = challengeMessage acceptor nonce :: later := by
  simp only [runInboundHandshakeInfo, answerHello, play_recv_lossless_cons,
    checkHello_helloMessage, play_send_lossless, Played.after]
  exact ⟨_, rfl⟩

theorem checkProof_proofFor (injective : InjectiveHash hmac) (dialer acceptor : PeerConfig)
    {caps : List Bytes} (dialed : caps = [] ∨ caps = localCaps) (nonce : Bytes) :
    checkProof hmac acceptor nonce ((caps ++ authCaps dialer.clusterID).map Utf8.coerce)
        (normalizePeerMessage (proofFor hmac dialer acceptor nonce))
      = if dialer.Compatible acceptor then .ok () else .error .hmacMismatch := by
  unfold proofFor
  rw [checkProof_proofMessage injective]
  refine if_congr ?_ rfl rfl
  rw [bindClusterID_agree dialed, PeerConfig.Compatible, eq_comm]

theorem play_runInboundHandshakeInfo (injective : InjectiveHash hmac)
    (dialer acceptor : PeerConfig) {caps : List Bytes} (dialed : caps = [] ∨ caps = localCaps)
    (nonce : Bytes) :
    let played := (runInboundHandshakeInfo hmac acceptor nonce).play
      (.lossless [helloMessage dialer caps, proofFor hmac dialer acceptor nonce])
    played.sent = [challengeMessage acceptor nonce, lastFrame dialer acceptor]
      ∧ played.result.isOk = decide (dialer.Compatible acceptor) := by
  simp only [runInboundHandshakeInfo, answerHello, awaitProof, play_recv_lossless_cons,
    checkHello_helloMessage, play_send_lossless, Played.after,
    checkProof_proofFor injective dialer acceptor dialed, lastFrame]
  by_cases compatible : dialer.Compatible acceptor
  · simp only [compatible, if_true, decide_true]
    exact ⟨rfl, rfl⟩
  · simp only [compatible, if_false, decide_false]
    exact ⟨rfl, rfl⟩

/-- Two nodes of this build over a connection that loses nothing: there is such a
conversation, and in every one of them both ends complete the handshake if the nodes
are compatible, and neither does if they are not. -/
theorem handshake_agreement (injective : InjectiveHash hmac) (dialer acceptor : PeerConfig)
    {caps : List Bytes} (dialed : caps = [] ∨ caps = localCaps) (nonce : Bytes) :
    Nonempty (Conversation (handshakeOutCaps hmac dialer caps)
      (runInboundHandshakeInfo hmac acceptor nonce))
    ∧ ∀ c : Conversation (handshakeOutCaps hmac dialer caps)
        (runInboundHandshakeInfo hmac acceptor nonce),
      (c.resultOne.isOk = true ↔ dialer.Compatible acceptor)
        ∧ (c.resultOther.isOk = true ↔ dialer.Compatible acceptor) := by
  obtain ⟨replies, verdict⟩ :=
    play_runInboundHandshakeInfo injective dialer acceptor dialed nonce
  refine ⟨⟨⟨_, _, sent_handshakeOutCaps dialer acceptor caps nonce _, replies⟩⟩, ?_⟩
  rintro ⟨toOther, toOne, sent, answered⟩
  -- the HELLO goes out whatever is answered, and the challenge whatever follows the HELLO
  obtain ⟨rest, first⟩ : ∃ rest, toOther = helloMessage dialer caps :: rest := ⟨_, sent.symm⟩
  obtain ⟨later, challenged⟩ :=
    sent_runInboundHandshakeInfo hmac dialer acceptor caps nonce rest
  rw [first, challenged] at answered
  -- from there each end has only one way to go
  have asked : toOther = [helloMessage dialer caps, proofFor hmac dialer acceptor nonce] := by
    rw [← sent, ← answered, sent_handshakeOutCaps]
  have got : toOne = [challengeMessage acceptor nonce, lastFrame dialer acceptor] := by
    rw [← answered, ← challenged, ← first, asked, replies]
  subst asked got
  constructor
  · rw [Conversation.resultOne, result_handshakeOutCaps, decide_eq_true_iff]
  · rw [Conversation.resultOther, verdict, decide_eq_true_iff]

end Hash

def pairHash (key message : Bytes) : Bytes :=
  key.flatMap (fun byte => [1, byte]) ++ 0 :: message

theorem pairHash_injective : InjectiveHash pairHash := by
  intro key message key' message' same
  induction key generalizing key' with
  | nil =>
    cases key' with
    | nil => exact ⟨rfl, (List.cons.inj same).2⟩
    | cons first rest => cases (List.cons.inj same).1
  | cons byte rest ih =>
    cases key' with
    | nil => cases (List.cons.inj same).1
    | cons byte' rest' =>
      obtain ⟨bytes, same⟩ := List.cons.inj (List.cons.inj same).2
      obtain ⟨rests, messages⟩ := ih rest' same
      exact ⟨by rw [bytes, rests], messages⟩

def nodeOfA : PeerConfig where
  nodeID := ascii "a"
  advertiseAddr := ascii "10.0.0.1:7379"
  sharedSecret := ascii "0123456789abcdef0123456789abcdef"
  clusterID := ascii "A"
  gossipPeers := false

def nodeOfB : PeerConfig :=
  { nodeOfA with nodeID := ascii "b", advertiseAddr := ascii "10.0.0.2:7379", clusterID := ascii "B" }

/-- The same secret in another cluster does not do. -/
theorem otherCluster_refused :
    ¬ nodeOfA.Compatible nodeOfB
      ∧ ∀ c : Conversation (handshakeOutCaps pairHash nodeOfA localCaps)
          (runInboundHandshakeInfo pairHash nodeOfB [7]),
        ¬ c.resultOne.isOk = true ∧ ¬ c.resultOther.isOk = true := by
  have incompatible : ¬ nodeOfA.Compatible nodeOfB := by decide
  refine ⟨incompatible, fun c => ?_⟩
  obtain ⟨one, other⟩ := (handshake_agreement pairHash_injective nodeOfA nodeOfB (.inr rfl) [7]).2 c
  exact ⟨fun done => incompatible (one.mp done), fun done => incompatible (other.mp done)⟩

end SuperCache
