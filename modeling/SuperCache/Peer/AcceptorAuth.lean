import SuperCache.Lib.Machine
import SuperCache.Peer.HandshakeAgreement

/-! # Handshakes with an adversary

An adversary opens connections to honest nodes and is dialed by honest nodes.  It
does not have the secret they share; what it sends is limited only by the hash: it has
the hash of a message under the secret when an honest node has sent it that hash.  The
nonces honest nodes draw are fresh.

An honest node proves itself to whoever it dials, over a nonce that it is given.  An
adversary that passes on the nonce of one honest node to another gets the proof for
it and completes a handshake; as long as no dialer is given the nonce of an acceptor,
it completes none.
-/

namespace SuperCache

open Lib

inductive Accepting where
  | opened (self : PeerConfig)
  | running (script : Script PeerMessage (Except InboundError PeerIdentity))

/-- The connections between honest nodes and the adversary: `α` names those it opens
and `δ` those on which it is dialed; the nonces that were sent to it, and all frames. -/
structure Encounters (α δ : Type) where
  inbound : α → Option Accepting
  outbound : δ → Option (PeerConfig × Script PeerMessage (Except OutboundError PeerIdentity))
  issued : List Bytes
  heard : List PeerMessage

/-- A frame is what the adversary sends, or nothing when it closes the connection; with
`ok` false the writes of the honest end fail. -/
inductive EncounterMove (α δ : Type) where
  | connect (a : α) (self : PeerConfig)
  | greet (a : α) (frame : Option PeerMessage) (nonce : Bytes) (ok : Bool)
  | prove (a : α) (frame : Option PeerMessage) (ok : Bool)
  | dial (d : δ) (self : PeerConfig) (caps : List Bytes) (ok : Bool)
  | answer (d : δ) (frame : Option PeerMessage) (ok : Bool)

def tagOf (msg : PeerMessage) : Option Bytes :=
  if (normalizePeerMessage msg).type ≠ .auth then none
  else ((normalizePeerMessage msg).payload.bind decodeWireAuthProof).bind fun proof =>
    Hex.decode proof.hmac

namespace Encounters

variable {α δ : Type} [DecidableEq α] [DecidableEq δ]

def start : Encounters α δ where
  inbound := fun _ => none
  outbound := fun _ => none
  issued := []
  heard := []

def drawn (n : Encounters α δ) (frame : Option PeerMessage) (nonce : Bytes) : List Bytes :=
  if frame.any (fun msg => (checkHello (normalizePeerMessage msg)).isOk) then nonce :: n.issued
  else n.issued

def setInbound (n : Encounters α δ) (a : α)
    (moved : List PeerMessage × Script PeerMessage (Except InboundError PeerIdentity)) :
    Encounters α δ :=
  { n with
    inbound := Function.update n.inbound a (some (.running moved.2))
    heard := n.heard ++ moved.1 }

def setOutbound (n : Encounters α δ) (d : δ) (self : PeerConfig)
    (moved : List PeerMessage × Script PeerMessage (Except OutboundError PeerIdentity)) :
    Encounters α δ :=
  { n with
    outbound := Function.update n.outbound d (some (self, moved.2))
    heard := n.heard ++ moved.1 }

section Hash

variable (hmac : Bytes → Bytes → Bytes) (secret : Bytes)

/-- Honest nodes all have the secret; their other settings are their own.  A nonce has
32 bytes. -/
def step (n : Encounters α δ) : EncounterMove α δ → Option (Encounters α δ)
  | .connect a self =>
    match n.inbound a with
    | none =>
      if self.sharedSecret = secret then
        some { n with inbound := Function.update n.inbound a (some (.opened self)) }
      else none
    | some _ => none
  | .greet a frame nonce ok =>
    match n.inbound a with
    | some (.opened self) =>
      if nonce.length = 32 then
        some { n.setInbound a ((runInboundHandshakeInfo hmac self nonce).deliver ok frame) with
          issued := n.drawn frame nonce }
      else none
    | _ => none
  | .prove a frame ok =>
    match n.inbound a with
    | some (.running script) => some (n.setInbound a (script.deliver ok frame))
    | _ => none
  | .dial d self caps ok =>
    match n.outbound d with
    | none =>
      if self.sharedSecret = secret then
        some (n.setOutbound d self ((handshakeOutCaps hmac self caps).settle ok))
      else none
    | some _ => none
  | .answer d frame ok =>
    match n.outbound d with
    | some (self, script) => some (n.setOutbound d self (script.deliver ok frame))
    | none => none

def Heard (n : Encounters α δ) (message : Bytes) : Prop :=
  ∃ frame ∈ n.heard, tagOf frame = some (hmac secret message)

/-- What the adversary and the honest nodes can do: a nonce does not begin a message
whose hash is out already, and a proof that is the hash of a message is one the
adversary has been sent. -/
def Possible (n : Encounters α δ) : EncounterMove α δ → Prop
  | .greet _ _ nonce _ => ∀ message, n.Heard hmac secret message → ¬ nonce <+: message
  | .prove _ frame _ => ∀ msg, frame = some msg →
      ∀ message, tagOf msg = some (hmac secret message) → n.Heard hmac secret message
  | _ => True

/-- A dialer that is given a challenge does not sign what begins with a nonce that an
acceptor has issued. -/
def Unrelayed (n : Encounters α δ) : EncounterMove α δ → Prop
  | .answer d frame _ => ∀ self script, n.outbound d = some (self, script) →
      ∀ msg, frame = some msg →
      ∀ ack nonce, checkHelloAck (normalizePeerMessage msg) = .ok (ack, nonce) →
      ∀ issued ∈ n.issued, ¬ issued <+: proofInput nonce (bindClusterID ack.caps self.clusterID)
  | _ => True

end Hash

def Completed (n : Encounters α δ) (a : α) : Prop :=
  ∃ id, n.inbound a = some (.running (.done (.ok id)))

end Encounters

/-! ## What an honest end does with a frame -/

theorem tagOf_of_type {msg : PeerMessage} (typed : msg.type ≠ .unset) (other : msg.type ≠ .auth) :
    tagOf msg = none := by
  unfold tagOf
  rw [normalizePeerMessage_of_typed typed, if_pos other]

section Hash

variable {hmac : Bytes → Bytes → Bytes} {self : PeerConfig}

theorem tagOf_proofMessage (nonce : Bytes) (caps : List Bytes) :
    tagOf (proofMessage hmac self nonce caps)
      = some (hmac self.sharedSecret (proofInput nonce (bindClusterID caps self.clusterID))) := by
  have digits (bytes : Bytes) : Utf8.coerce (Hex.encode bytes) = Hex.encode bytes :=
    Utf8.coerce_of_valid (Utf8.valid_of_ascii fun _ => Hex.lt_of_mem_encode)
  unfold tagOf
  rw [normalizePeerMessage_of_typed (by simp [proofMessage])]
  simp only [proofMessage, ne_eq, not_true_eq_false, if_false, Option.bind_some,
    decode_encodeWireAuthProof (p := ⟨_, peerProtocolVersion, _⟩) isInt64_peerProtocolVersion,
    peerHMACHex, digits, Hex.decode_encode, peerHMAC]

theorem refuse_settle (ok : Bool) (error : InboundError) :
    ((refuse error).settle ok).2 = .done (.error error)
      ∧ ∀ msg ∈ ((refuse error).settle ok).1, tagOf msg = none := by
  have typed (reply : PeerMessage) (sent : error.reply = some reply) : tagOf reply = none := by
    cases error <;> cases sent <;>
      exact tagOf_of_type (by simp [helloRefusal, authRefusal, helloAckMessage, ackMessage])
        (by simp [helloRefusal, authRefusal, helloAckMessage, ackMessage])
  unfold refuse
  split
  · exact ⟨rfl, List.forall_mem_nil _⟩
  · next reply sent =>
    refine ⟨rfl, fun msg listed => ?_⟩
    rw [List.mem_singleton.mp listed]
    exact typed reply sent

variable (hmac self) in
theorem runInbound_deliver (nonce : Bytes) (ok : Bool) (frame : Option PeerMessage) :
    let moved := (runInboundHandshakeInfo hmac self nonce).deliver ok frame
    (∀ msg ∈ moved.1, tagOf msg = none)
      ∧ ((∃ error, moved.2 = .done (.error error))
        ∨ (frame.any fun msg => (checkHello (normalizePeerMessage msg)).isOk) = true
          ∧ ∃ caps id, moved.2 = awaitProof hmac self nonce caps id) := by
  cases frame with
  | none => exact ⟨nofun, .inl ⟨.read, rfl⟩⟩
  | some msg =>
    simp only [runInboundHandshakeInfo, Script.deliver, answerHello, Option.any_some]
    cases checked : checkHello (normalizePeerMessage msg) with
    | error error =>
      obtain ⟨ended, untagged⟩ := refuse_settle ok error
      exact ⟨untagged, .inl ⟨error, ended⟩⟩
    | ok hello =>
      have untagged : tagOf (challengeMessage self nonce) = none :=
        tagOf_of_type (by simp [challengeMessage, helloAckMessage])
          (by simp [challengeMessage, helloAckMessage])
      cases ok with
      | false => exact ⟨by simpa [Script.settle] using untagged, .inl ⟨.write, rfl⟩⟩
      | true => exact ⟨by simpa [Script.settle, awaitProof] using untagged, .inr ⟨rfl, _, _, rfl⟩⟩

theorem tagOf_of_checkProof {nonce : Bytes} {caps : List Bytes} {msg : PeerMessage}
    (passed : checkProof hmac self nonce caps (normalizePeerMessage msg) = .ok ()) :
    tagOf msg
      = some (hmac self.sharedSecret (proofInput nonce (bindClusterID caps self.clusterID))) := by
  revert passed
  fun_cases checkProof hmac self nonce caps (normalizePeerMessage msg) <;> rintro ⟨⟩
  next auth proof decoded _ verified =>
    unfold tagOf
    rw [if_neg auth, decoded, Option.bind_some]
    -- the digits decode to bytes that are the wanted ones
    unfold verifyPeerHMAC peerHMAC at verified
    dsimp only at verified
    cases got : Hex.decode proof.hmac with
    | none => simp [got] at verified
    | some bytes =>
      simp only [got] at verified
      split at verified
      · simp at verified
      · simpa [eq_comm] using verified

theorem awaitProof_deliver (nonce : Bytes) (caps : List Bytes) (id : PeerIdentity) (ok : Bool)
    (frame : Option PeerMessage) :
    let moved := (awaitProof hmac self nonce caps id).deliver ok frame
    (∀ msg ∈ moved.1, tagOf msg = none)
      ∧ ((∃ error, moved.2 = .done (.error error))
        ∨ ∃ msg, frame = some msg ∧ tagOf msg
          = some (hmac self.sharedSecret (proofInput nonce (bindClusterID caps self.clusterID)))) := by
  cases frame with
  | none => exact ⟨nofun, .inl ⟨.read, rfl⟩⟩
  | some msg =>
    simp only [awaitProof, Script.deliver]
    cases checked : checkProof hmac self nonce caps (normalizePeerMessage msg) with
    | error error =>
      obtain ⟨ended, untagged⟩ := refuse_settle ok error
      exact ⟨untagged, .inl ⟨error, ended⟩⟩
    | ok _ =>
      have untagged : tagOf (ackMessage { ok := true, err := [] }) = none :=
        tagOf_of_type (by simp [ackMessage]) (by simp [ackMessage])
      refine ⟨?_, .inr ⟨msg, rfl, tagOf_of_checkProof checked⟩⟩
      cases ok <;> simpa [Script.settle] using untagged

variable (hmac self) in
theorem handshakeOut_settle (caps : List Bytes) (ok : Bool) :
    let moved := (handshakeOutCaps hmac self caps).settle ok
    (∀ msg ∈ moved.1, tagOf msg = none)
      ∧ (moved.2 = awaitChallenge hmac self ∨ ∃ result, moved.2 = .done result) := by
  have untagged : tagOf (helloMessage self caps) = none :=
    tagOf_of_type (by simp [helloMessage]) (by simp [helloMessage])
  cases ok with
  | false => exact ⟨by simpa [handshakeOutCaps, Script.settle] using untagged, .inr ⟨_, rfl⟩⟩
  | true =>
    exact ⟨by simpa [handshakeOutCaps, Script.settle, awaitChallenge] using untagged, .inl rfl⟩

variable (hmac self) in
theorem awaitChallenge_deliver (ok : Bool) (frame : Option PeerMessage) :
    let moved := (awaitChallenge hmac self).deliver ok frame
    ((∃ id, moved.2 = awaitAck id) ∨ ∃ result, moved.2 = .done result)
      ∧ ∀ sent ∈ moved.1, ∃ msg ack nonce, frame = some msg
        ∧ checkHelloAck (normalizePeerMessage msg) = .ok (ack, nonce)
        ∧ sent = proofMessage hmac self nonce ack.caps := by
  cases frame with
  | none => exact ⟨.inr ⟨_, rfl⟩, List.forall_mem_nil _⟩
  | some msg =>
    simp only [awaitChallenge, Script.deliver, answerChallenge]
    cases checked : checkHelloAck (normalizePeerMessage msg) with
    | error error => exact ⟨.inr ⟨_, rfl⟩, List.forall_mem_nil _⟩
    | ok found =>
      have proof (sent : PeerMessage) (listed : sent ∈ [proofMessage hmac self found.2 found.1.caps]) :
          ∃ msg' ack nonce, some msg = some msg'
            ∧ checkHelloAck (normalizePeerMessage msg') = .ok (ack, nonce)
            ∧ sent = proofMessage hmac self nonce ack.caps :=
        ⟨msg, found.1, found.2, rfl, checked, List.mem_singleton.mp listed⟩
      cases ok with
      | false => exact ⟨.inr ⟨_, rfl⟩, proof⟩
      | true => exact ⟨.inl ⟨_, rfl⟩, proof⟩

theorem awaitAck_deliver (id : PeerIdentity) (ok : Bool) (frame : Option PeerMessage) :
    let moved := (awaitAck id).deliver ok frame
    moved.1 = [] ∧ ∃ result, moved.2 = .done result := by
  cases frame with
  | none => exact ⟨rfl, _, rfl⟩
  | some msg =>
    simp only [awaitAck, Script.deliver]
    cases checkAck (normalizePeerMessage msg) with
    | error error => exact ⟨rfl, _, rfl⟩
    | ok _ => exact ⟨rfl, _, rfl⟩

end Hash

/-! ## No proof for an issued nonce is out -/

namespace Encounters

variable {α δ : Type} [DecidableEq α] [DecidableEq δ] {hmac : Bytes → Bytes → Bytes}
  {secret : Bytes} {n next : Encounters α δ} {move : EncounterMove α δ}

/-- A connection the adversary has opened is at one of the stages of a handshake that
has not completed, and its nonce is among the issued ones. -/
def Waiting (hmac : Bytes → Bytes → Bytes) (secret : Bytes) (issued : List Bytes) : Accepting → Prop
  | .opened self => self.sharedSecret = secret
  | .running script => (∃ error, script = .done (.error error))
      ∨ ∃ self nonce caps id, self.sharedSecret = secret ∧ nonce ∈ issued
        ∧ script = awaitProof hmac self nonce caps id

def Dialing (hmac : Bytes → Bytes → Bytes) (secret : Bytes) (self : PeerConfig)
    (script : Script PeerMessage (Except OutboundError PeerIdentity)) : Prop :=
  self.sharedSecret = secret
    ∧ (script = awaitChallenge hmac self ∨ (∃ id, script = awaitAck id) ∨ ∃ result, script = .done result)

structure Unproved (hmac : Bytes → Bytes → Bytes) (secret : Bytes) (n : Encounters α δ) : Prop where
  inbound : ∀ a c, n.inbound a = some c → Waiting hmac secret n.issued c
  outbound : ∀ d self script, n.outbound d = some (self, script) → Dialing hmac secret self script
  unheard : ∀ message, n.Heard hmac secret message → ∀ nonce ∈ n.issued, ¬ nonce <+: message

omit [DecidableEq α] [DecidableEq δ] in
theorem unproved_start : Unproved hmac secret (start : Encounters α δ) where
  inbound := nofun
  outbound := nofun
  unheard := fun _ heard => by
    obtain ⟨_, listed, -⟩ := heard
    cases listed

theorem Waiting.more {issued : List Bytes} {c : Accepting} (waiting : Waiting hmac secret issued c)
    {more : List Bytes} (within : issued ⊆ more) : Waiting hmac secret more c := by
  cases c with
  | opened self => exact waiting
  | running script =>
    rcases waiting with failed | ⟨self, nonce, caps, id, has, listed, rfl⟩
    · exact .inl failed
    · exact .inr ⟨self, nonce, caps, id, has, within listed, rfl⟩

omit [DecidableEq α] [DecidableEq δ] in
theorem heard_of_untagged {sent : List PeerMessage} (untagged : ∀ msg ∈ sent, tagOf msg = none)
    {m : Encounters α δ} (frames : m.heard = n.heard ++ sent) {message : Bytes}
    (heard : m.Heard hmac secret message) : n.Heard hmac secret message := by
  obtain ⟨frame, listed, tagged⟩ := heard
  rw [frames] at listed
  rcases List.mem_append.mp listed with before | now
  · exact ⟨frame, before, tagged⟩
  · cases (untagged frame now).symm.trans tagged

omit [DecidableEq δ] in
theorem Unproved.setInbound (inv : Unproved hmac secret n) (a : α)
    {moved : List PeerMessage × Script PeerMessage (Except InboundError PeerIdentity)}
    {issued : List Bytes} (within : n.issued ⊆ issued)
    (unheard : ∀ message, n.Heard hmac secret message → ∀ nonce ∈ issued, ¬ nonce <+: message)
    (untagged : ∀ msg ∈ moved.1, tagOf msg = none)
    (waiting : Waiting hmac secret issued (.running moved.2)) :
    Unproved hmac secret { n.setInbound a moved with issued := issued } where
  inbound := by
    refine (Function.forall_update_iff _ fun _ found => ∀ c, found = some c →
      Waiting hmac secret issued c).mpr
        ⟨?_, fun b _ c found => (inv.inbound b c found).more within⟩
    rintro _ ⟨⟩
    exact waiting
  outbound := inv.outbound
  unheard := fun message heard nonce listed =>
    unheard message (heard_of_untagged untagged rfl heard) nonce listed

omit [DecidableEq α] in
theorem Unproved.setOutbound (inv : Unproved hmac secret n) (d : δ) {self : PeerConfig}
    {moved : List PeerMessage × Script PeerMessage (Except OutboundError PeerIdentity)}
    (dialing : Dialing hmac secret self moved.2)
    (unheard : ∀ frame ∈ moved.1, ∀ message, tagOf frame = some (hmac secret message) →
      ∀ nonce ∈ n.issued, ¬ nonce <+: message) :
    Unproved hmac secret (n.setOutbound d self moved) where
  inbound := inv.inbound
  outbound := by
    refine (Function.forall_update_iff _ fun _ found => ∀ self script, found = some (self, script) →
      Dialing hmac secret self script).mpr ⟨?_, fun e _ => inv.outbound e⟩
    rintro _ _ ⟨⟩
    exact dialing
  unheard := by
    rintro message ⟨frame, listed, tagged⟩ nonce issued
    rcases List.mem_append.mp listed with before | now
    · exact inv.unheard message ⟨frame, before, tagged⟩ nonce issued
    · exact unheard frame now message tagged nonce issued

theorem Unproved.step (injective : ∀ m m', hmac secret m = hmac secret m' → m = m')
    (inv : Unproved hmac secret n) (possible : n.Possible hmac secret move)
    (unrelayed : n.Unrelayed move) (stepped : n.step hmac secret move = some next) :
    Unproved hmac secret next := by
  revert stepped
  fun_cases Encounters.step hmac secret n move <;> rintro ⟨⟩
  · next has =>
    refine { inv with inbound := (Function.forall_update_iff _ fun _ found => ∀ c, found = some c →
      Waiting hmac secret n.issued c).mpr ⟨?_, fun b _ => inv.inbound b⟩ }
    rintro _ ⟨⟩
    exact has
  · next a frame nonce ok self opened _ =>
    obtain ⟨untagged, stage⟩ := runInbound_deliver hmac self nonce ok frame
    -- a drawn nonce is fresh, the others are as before
    have within : n.issued ⊆ n.drawn frame nonce := by
      unfold drawn
      split
      · exact List.subset_cons_self _ _
      · exact List.Subset.refl _
    have unheard (message : Bytes) (heard : n.Heard hmac secret message) :
        ∀ nonce' ∈ n.drawn frame nonce, ¬ nonce' <+: message := by
      intro nonce' listed
      unfold drawn at listed
      split at listed
      · rcases List.mem_cons.mp listed with rfl | before
        · exact possible message heard
        · exact inv.unheard message heard nonce' before
      · exact inv.unheard message heard nonce' listed
    refine inv.setInbound a within unheard untagged ?_
    rcases stage with failed | ⟨passed, caps, id, stage⟩
    · exact .inl failed
    · refine .inr ⟨self, nonce, caps, id, inv.inbound a _ opened, ?_, stage⟩
      unfold drawn
      rw [if_pos passed]
      exact List.mem_cons_self
  · next a frame ok script running =>
    refine inv.setInbound a (List.Subset.refl _) inv.unheard ?_ ?_
    · rcases inv.inbound a _ running with ⟨error, rfl⟩ | ⟨self, nonce, caps, id, -, -, rfl⟩
      · exact nofun
      · exact (awaitProof_deliver nonce caps id ok frame).1
    · rcases inv.inbound a _ running with ⟨error, rfl⟩ | ⟨self, nonce, caps, id, has, issued, rfl⟩
      · exact .inl ⟨error, rfl⟩
      · rcases (awaitProof_deliver nonce caps id ok frame).2 with failed | ⟨msg, isFrame, tagged⟩
        · exact .inl failed
        · -- the proof it wants begins with its nonce, and none such is out
          rw [has] at tagged
          refine absurd ?_ (inv.unheard _ (possible msg isFrame _ tagged) nonce issued)
          unfold proofInput
          split
          · exact List.prefix_rfl
          · rw [List.append_assoc]
            exact List.prefix_append _ _
  · next d self caps ok _ has =>
    obtain ⟨untagged, stage⟩ := handshakeOut_settle hmac self caps ok
    refine inv.setOutbound d ⟨has, stage.imp_right .inr⟩ fun frame listed message tagged => ?_
    cases (untagged frame listed).symm.trans tagged
  · next d frame ok self script dialed =>
    obtain ⟨has, stage⟩ := inv.outbound d self script dialed
    rcases stage with rfl | ⟨id, rfl⟩ | ⟨result, rfl⟩
    · obtain ⟨stage, proofs⟩ := awaitChallenge_deliver hmac self ok frame
      refine inv.setOutbound d ⟨has, .inr stage⟩ fun sent listed message tagged => ?_
      obtain ⟨msg, ack, nonce, isFrame, challenge, rfl⟩ := proofs sent listed
      rw [tagOf_proofMessage, has, Option.some_inj] at tagged
      rw [← injective _ _ tagged]
      exact unrelayed self _ dialed msg isFrame ack nonce challenge
    · obtain ⟨silent, result, ended⟩ := awaitAck_deliver id ok frame
      refine inv.setOutbound d ⟨has, .inr (.inr ⟨result, ended⟩)⟩ fun sent listed => ?_
      rw [silent] at listed
      cases listed
    · exact inv.setOutbound d ⟨has, .inr (.inr ⟨result, rfl⟩)⟩ nofun

omit [DecidableEq α] [DecidableEq δ] in
theorem Unproved.not_completed (inv : Unproved hmac secret n) (a : α) : ¬ n.Completed a := by
  rintro ⟨id, done⟩
  rcases inv.inbound a _ done with ⟨error, failed⟩ | ⟨self, nonce, caps, id', -, -, waits⟩
  · cases failed
  · cases waits

/-- The adversary completes no handshake on a connection it has opened, in any run in
which no honest dialer is given a challenge that makes it sign an issued nonce. -/
theorem adversary_never_completes (injective : ∀ m m', hmac secret m = hmac secret m' → m = m')
    {moves : List (EncounterMove α δ)} {final : Encounters α δ}
    (guarded : Machine.Guarded (step hmac secret)
      (fun n move => n.Possible hmac secret move ∧ n.Unrelayed move) start moves)
    (ran : Machine.run (step hmac secret) start moves = some final) (a : α) :
    ¬ final.Completed a := by
  have keeps (n : Encounters α δ) (move : EncounterMove α δ) (next : Encounters α δ)
      (inv : Unproved hmac secret n) (ok : n.Possible hmac secret move ∧ n.Unrelayed move)
      (stepped : n.step hmac secret move = some next) : Unproved hmac secret next :=
    inv.step injective ok.1 ok.2 stepped
  exact (Machine.run_invariant keeps unproved_start guarded ran).not_completed a

/-! ## A relayed challenge -/

instance (n : Encounters α δ) (a : α) : Decidable (n.Completed a) :=
  match found : n.inbound a with
  | some (.running (.done (.ok id))) => .isTrue ⟨id, found⟩
  | none | some (.opened _) | some (.running (.done (.error _))) | some (.running (.send _ _))
  | some (.running (.recv _)) => .isFalse fun completed => by
    obtain ⟨id, done⟩ := completed
    cases found.symm.trans done

def nodeOfC : PeerConfig :=
  { nodeOfA with nodeID := ascii "c", advertiseAddr := ascii "10.0.0.3:7379" }

/-- The adversary opens a connection to one node and is dialed by another; it passes on
the HELLO, gives the dialer a challenge, and passes on its proof. -/
def relay (nonce given : Bytes) : List (EncounterMove Unit Unit) :=
  [ .connect () nodeOfA,
    .dial () nodeOfC localCaps true,
    .greet () (some (helloMessage nodeOfC localCaps)) nonce true,
    .answer () (some (challengeMessage nodeOfA given)) true,
    .prove () (some (proofFor pairHash nodeOfC nodeOfA given)) true]

def nonceOf (byte : Byte) : Bytes :=
  List.replicate 32 byte

theorem proofFor_sent (given : Bytes) :
    ((awaitChallenge pairHash nodeOfC).deliver true (some (challengeMessage nodeOfA given))).1
      = [proofFor pairHash nodeOfC nodeOfA given] := by
  simp only [awaitChallenge, Script.deliver, answerChallenge, checkHelloAck_challengeMessage]
  rfl

theorem relay_possible (given : Bytes) :
    Machine.Guarded (step pairHash nodeOfA.sharedSecret)
      (fun n move => n.Possible pairHash nodeOfA.sharedSecret move) start (relay (nonceOf 7) given) := by
  refine ⟨trivial, fun n₁ first => ⟨trivial, fun n₂ second => ⟨?_, fun n₃ third => ⟨trivial,
    fun n₄ fourth => ⟨?_, fun _ _ => trivial⟩⟩⟩⟩⟩
  · cases first
    cases second
    rintro message ⟨frame, listed, tagged⟩
    -- only the HELLO is out, and it carries no proof
    cases List.mem_singleton.mp listed
    cases tagged
  · cases first
    cases second
    cases third
    cases fourth
    intro msg isFrame message tagged
    cases isFrame
    refine ⟨_, List.mem_append_right _ ?_, tagged⟩
    show _ ∈ ((awaitChallenge pairHash nodeOfC).deliver true
      (some (challengeMessage nodeOfA given))).1
    rw [proofFor_sent]
    exact List.mem_singleton_self _

/-- A relayed nonce: the dialer's proof completes the adversary's handshake. -/
theorem relayed_nonce_completes :
    ∃ (moves : List (EncounterMove Unit Unit)) (final : Encounters Unit Unit),
      Machine.Guarded (step pairHash nodeOfA.sharedSecret)
        (fun n move => n.Possible pairHash nodeOfA.sharedSecret move) start moves
      ∧ Machine.run (step pairHash nodeOfA.sharedSecret) start moves = some final
      ∧ final.Completed () :=
  ⟨_, _, relay_possible (nonceOf 7), Machine.ran (by decide +kernel), by decide +kernel⟩

theorem relay_unrelayed :
    Machine.Guarded (step pairHash nodeOfA.sharedSecret) (fun n move => n.Unrelayed move) start
      (relay (nonceOf 7) (nonceOf 8)) := by
  refine ⟨trivial, fun n₁ first => ⟨trivial, fun n₂ second => ⟨trivial, fun n₃ third => ⟨?_,
    fun n₄ fourth => ⟨trivial, fun _ _ => trivial⟩⟩⟩⟩⟩
  cases first
  cases second
  cases third
  intro self script dialed msg isFrame ack nonce challenge issued listed
  cases isFrame
  rw [checkHelloAck_challengeMessage] at challenge
  cases challenge
  -- what is signed begins with another byte than the issued nonce
  have only : issued ∈ [nonceOf 7] := listed
  rw [List.mem_singleton.mp only]
  unfold proofInput
  split <;> exact fun begins => absurd (List.cons_prefix_cons.mp begins).1 (by decide)

/-- A challenge of its own does not help the adversary. -/
theorem own_nonce_completes_not :
    ∃ final, Machine.run (step pairHash nodeOfA.sharedSecret) start (relay (nonceOf 7) (nonceOf 8))
        = some final ∧ ¬ final.Completed () := by
  have injective (m m' : Bytes) (same : pairHash nodeOfA.sharedSecret m
      = pairHash nodeOfA.sharedSecret m') : m = m' := (pairHash_injective _ _ _ _ same).2
  exact ⟨_, Machine.ran (by decide +kernel), adversary_never_completes injective
    ((relay_possible (nonceOf 8)).and relay_unrelayed) (Machine.ran _) ()⟩

end Encounters

end SuperCache
