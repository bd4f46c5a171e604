import SuperCache.Peer.Bootstrap
import SuperCache.Peer.Links

/-! # What the dialer checks

Only the accepting end of a handshake verifies a proof.  The dialing end takes
whoever answers with frames of the right form: the connection is then registered, and
chosen as a replication target like any other, or its snapshot is applied.
-/

namespace SuperCache

open Lib Script

inductive DialError where
  | handshake (error : OutboundError)
  | self
  | announce (error : AnnounceError)

section Hash

variable (hmac : Bytes → Bytes → Bytes)

/-- A round of `dialLoop` up to `outboundPeerSession`, which registers a link before it
reads anything. -/
def dialTarget (self : PeerConfig) : Script PeerMessage (Except DialError PeerIdentity) :=
  (handshakeOutCaps hmac self localCaps).bind fun
    | .error error => .done (.error (.handshake error))
    | .ok id =>
      if id.nodeID ≠ [] ∧ id.nodeID = self.nodeID then .done (.error .self)
      else (consumeOptionalPeerAnnounce self).bind fun
        | .error error => .done (.error (.announce error))
        | .ok _ => .done (.ok id)

end Hash

/-- The link that `outboundPeerSession` registers. -/
def dialedLink (addr : Bytes) (linkSeq : Nat) (id : PeerIdentity) : OutPeer where
  addr := addr
  remoteID := id.nodeID
  inbound := false
  linkSeq := linkSeq

/-! ## The checks as a function of what arrives -/

/-- A challenge and an ACK of the right form: who the other end says it is, and what
it sends then.  The nonce may be any. -/
def admits : List (Option PeerMessage) → Option (PeerIdentity × List (Option PeerMessage))
  | some first :: some last :: rest =>
    match checkHelloAck (normalizePeerMessage first), checkAck (normalizePeerMessage last) with
    | .ok (ack, _), .ok () =>
      some (identityOf ack.nodeID (normalizePeerMessage first).nodeID ack.advertise ack.caps ack.ver, rest)
    | _, _ => none
  | _ => none

def announces (self : PeerConfig) (inbox : List (Option PeerMessage)) : Bool :=
  self.gossipPeers = false
    || match inbox with
      | some msg :: _ => (checkAnnounce (normalizePeerMessage msg)).isOk
      | _ => true

def handshakeVerdict (c : Connection PeerMessage) : Option (PeerIdentity × Connection PeerMessage) :=
  if c.fails 0 = false ∧ c.fails 1 = false then
    (admits c.inbox).map fun found => (found.1, ⟨found.2, fun n => c.fails (n + 2)⟩)
  else none

section Hash

variable (hmac : Bytes → Bytes → Bytes) (self : PeerConfig)

theorem handshakeOutCaps_verdict (caps : List Bytes) (c : Connection PeerMessage) :
    let played := (handshakeOutCaps hmac self caps).play c
    match handshakeVerdict c with
    | some (id, left) => played.result = .ok id ∧ played.left = left
    | none => ∃ error, played.result = .error error := by
  obtain ⟨inbox, fails⟩ := c
  unfold handshakeVerdict
  simp only [handshakeOutCaps, play_send, Played.after_result, Played.after_left]
  cases first : fails 0 with
  | true => simp
  | false =>
    simp only [awaitChallenge, Bool.not_false, true_and]
    rcases inbox with _ | ⟨_ | challenge, inbox⟩
    · simp [admits, play_recv_nil]
    · simp [admits, play_recv_cons]
    · simp only [play_recv_cons, answerChallenge]
      cases checked : checkHelloAck (normalizePeerMessage challenge) with
      | error error => rcases inbox with _ | ⟨_ | last, rest⟩ <;> simp [admits, checked]
      | ok found =>
        -- the proof goes out, and the ACK decides
        simp only [play_send, Played.after_result, Played.after_left, zero_add]
        cases second : fails 1 with
        | true => simp
        | false =>
          simp only [awaitAck, Bool.not_false, if_true]
          rcases inbox with _ | ⟨_ | last, rest⟩
          · simp [admits, play_recv_nil]
          · simp [admits, play_recv_cons]
          · simp only [play_recv_cons]
            cases final : checkAck (normalizePeerMessage last) <;> simp [admits, checked, final]

/-! ## Whoever answers in form is trusted -/

def afterAnnounce (c : Connection PeerMessage) : Connection PeerMessage :=
  if self.gossipPeers = false then c else c.afterRead

theorem consumeOptionalPeerAnnounce_play (c : Connection PeerMessage) :
    ((consumeOptionalPeerAnnounce self).play c).result.isOk = announces self c.inbox
      ∧ ((consumeOptionalPeerAnnounce self).play c).left = afterAnnounce self c := by
  obtain ⟨inbox, fails⟩ := c
  unfold consumeOptionalPeerAnnounce announces afterAnnounce
  split
  · next off => simp [off, Except.isOk, Except.toBool]
  · next on =>
    rcases inbox with _ | ⟨_ | msg, rest⟩
    · simp [on, play_recv_nil, Except.isOk, Except.toBool, Connection.afterRead]
    · simp [on, play_recv_cons, Except.isOk, Except.toBool, Connection.afterRead]
    · simp [on, play_recv_cons, Connection.afterRead]

def AnswersInForm (c left : Connection PeerMessage) (id : PeerIdentity) : Prop :=
  handshakeVerdict c = some (id, left) ∧ announces self left.inbox = true

theorem dialTarget_eq_ok_iff (c : Connection PeerMessage) (id : PeerIdentity) :
    ((dialTarget hmac self).play c).result = .ok id
      ↔ ∃ left, AnswersInForm self c left id ∧ ¬ (id.nodeID ≠ [] ∧ id.nodeID = self.nodeID) := by
  have verdict := handshakeOutCaps_verdict hmac self localCaps c
  simp only [dialTarget, play_bind, Played.after_result, AnswersInForm]
  cases decided : handshakeVerdict c with rw [decided] at verdict
  | none =>
    obtain ⟨error, failed⟩ := verdict
    simp [failed]
  | some found =>
    obtain ⟨named, left⟩ := found
    obtain ⟨done, rest⟩ := verdict
    obtain ⟨announced, -⟩ := consumeOptionalPeerAnnounce_play self left
    simp only [done, rest, Option.some_inj, Prod.mk.injEq]
    split
    · next own =>
      refine ⟨nofun, ?_⟩
      rintro ⟨_, ⟨⟨rfl, rfl⟩, -⟩, other⟩
      exact absurd own other
    · next other =>
      rw [play_bind, Played.after_result]
      cases outcome : ((consumeOptionalPeerAnnounce self).play left).result with
          rw [outcome] at announced
      | error error =>
        refine ⟨nofun, ?_⟩
        rintro ⟨_, ⟨⟨rfl, rfl⟩, yes⟩, -⟩
        rw [← announced] at yes
        cases yes
      | ok peers =>
        constructor
        · rintro ⟨⟩
          exact ⟨left, ⟨⟨rfl, rfl⟩, announced.symm⟩, other⟩
        · rintro ⟨_, ⟨⟨rfl, rfl⟩, -⟩, -⟩
          rfl

theorem dialTarget_isOk_iff (c : Connection PeerMessage) :
    ((dialTarget hmac self).play c).result.isOk = true
      ↔ ∃ id left, AnswersInForm self c left id ∧ ¬ (id.nodeID ≠ [] ∧ id.nodeID = self.nodeID) := by
  simp only [← dialTarget_eq_ok_iff hmac]
  cases ((dialTarget hmac self).play c).result with
  | error error => exact ⟨nofun, nofun⟩
  | ok id => exact ⟨fun _ => ⟨id, rfl⟩, fun _ => rfl⟩

theorem requestSnapshot_play (c : Connection PeerMessage) :
    ((requestSnapshot self).play c).result.isOk = !c.fails 0
      ∧ ((requestSnapshot self).play c).left.inbox = c.inbox := by
  simp only [requestSnapshot, play, Played.after_result, Played.after_left]
  cases c.fails 0 <;> exact ⟨rfl, rfl⟩

theorem openPull_play (c : Connection PeerMessage) :
    let opened := (openPull hmac self).play c
    (opened.result.isOk = true
        ↔ ∃ id left, AnswersInForm self c left id ∧ (afterAnnounce self left).fails 0 = false)
      ∧ ∀ id left, AnswersInForm self c left id →
        opened.left.inbox = (afterAnnounce self left).inbox := by
  have verdict := handshakeOutCaps_verdict hmac self [] c
  simp only [openPull, play_bind, Played.after_result, Played.after_left, AnswersInForm]
  cases decided : handshakeVerdict c with rw [decided] at verdict
  | none =>
    obtain ⟨error, failed⟩ := verdict
    simp [failed, Except.isOk, Except.toBool]
  | some found =>
    obtain ⟨id, left⟩ := found
    obtain ⟨done, rest⟩ := verdict
    obtain ⟨announced, after⟩ := consumeOptionalPeerAnnounce_play self left
    simp only [done, rest, play_bind, Played.after_result, Played.after_left, Option.some_inj,
      Prod.mk.injEq]
    cases answered : ((consumeOptionalPeerAnnounce self).play left).result with
      rw [answered] at announced
    | error error =>
      constructor
      · constructor
        · intro impossible
          cases impossible
        · rintro ⟨_, _, ⟨⟨-, rfl⟩, yes⟩, -⟩
          cases announced.trans yes
      · rintro _ _ ⟨⟨-, rfl⟩, yes⟩
        cases announced.trans yes
    | ok learned =>
      obtain ⟨sent, same⟩ := requestSnapshot_play self (afterAnnounce self left)
      dsimp only
      rw [after, sent, same, Bool.not_eq_true']
      constructor
      · constructor
        · intro yes
          exact ⟨id, left, ⟨⟨rfl, rfl⟩, announced.symm⟩, yes⟩
        · rintro ⟨_, _, ⟨⟨-, rfl⟩, -⟩, yes⟩
          exact yes
      · rintro _ _ ⟨⟨-, rfl⟩, -⟩
        rfl

variable (clock : Nat → Time) (bootstrapQueueDepth : Int)

/-- A pull from a connection: a source that answers in form has its frames applied as
they come, and from any other nothing is. -/
theorem pullSnapshotOnce_inForm (c : Connection PeerMessage) (p : Pulling) :
    (∀ id left, AnswersInForm self c left id → (afterAnnounce self left).fails 0 = false →
      pullSnapshotOnce clock hmac self bootstrapQueueDepth (some c) p
        = pullFrames clock (max 1 bootstrapQueueDepth).toNat (afterAnnounce self left).inbox []
          { p with store := p.store.flushDB })
    ∧ ((¬ ∃ id left, AnswersInForm self c left id ∧ (afterAnnounce self left).fails 0 = false) →
      (pullSnapshotOnce clock hmac self bootstrapQueueDepth (some c) p).1 = p) := by
  obtain ⟨opens, inbox⟩ := openPull_play hmac self c
  unfold pullSnapshotOnce
  dsimp only
  cases opened : ((openPull hmac self).play c).result with rw [opened] at opens
  | error error =>
    refine ⟨fun id left form writes => ?_, fun _ => rfl⟩
    cases opens.mpr ⟨id, left, form, writes⟩
  | ok _ =>
    refine ⟨fun id left form writes => ?_, fun none => absurd (opens.mp rfl) none⟩
    rw [inbox id left form]

end Hash

/-- The dialer trusts whoever answers in form.  The connection is registered exactly when a
challenge and an ACK of the right form have arrived, the node named is not the dialer itself,
and the announce of a gossiping node is one if it can be read; it is then a replication target
unless another dialed link leads to the node that was named; a snapshot is applied exactly
when the same has arrived on the connection it is pulled from; and the shared secret and the
hash make no difference to any of it. -/
theorem dialer_trusts_form (hmac : Bytes → Bytes → Bytes) (self : PeerConfig)
    (c : Connection PeerMessage) (clock : Nat → Time) (bootstrapQueueDepth : Int) (p : Pulling) :
    (((dialTarget hmac self).play c).result.isOk = true
        ↔ ∃ id left, AnswersInForm self c left id ∧ ¬ (id.nodeID ≠ [] ∧ id.nodeID = self.nodeID))
    ∧ (∀ addr linkSeq out, (∀ l ∈ out, l.linkSeq < linkSeq) →
      ∀ id, ((dialTarget hmac self).play c).result = .ok id
        ∧ dialedLink addr linkSeq id ∈ computeReplicationTargets (out ++ [dialedLink addr linkSeq id])
        ↔ (∃ left, AnswersInForm self c left id ∧ ¬ (id.nodeID ≠ [] ∧ id.nodeID = self.nodeID))
          ∧ ∀ l ∈ out, l.usable = true → l.key = (dialedLink addr linkSeq id).key → l.inbound = true)
    ∧ (∀ id left, AnswersInForm self c left id → (afterAnnounce self left).fails 0 = false →
      pullSnapshotOnce clock hmac self bootstrapQueueDepth (some c) p
        = pullFrames clock (max 1 bootstrapQueueDepth).toNat (afterAnnounce self left).inbox []
          { p with store := p.store.flushDB })
    ∧ ((¬ ∃ id left, AnswersInForm self c left id ∧ (afterAnnounce self left).fails 0 = false) →
      (pullSnapshotOnce clock hmac self bootstrapQueueDepth (some c) p).1 = p)
    ∧ ∀ hmac' secret', ((dialTarget hmac' { self with sharedSecret := secret' }).play c).result.isOk
          = ((dialTarget hmac self).play c).result.isOk
        ∧ (pullSnapshotOnce clock hmac' { self with sharedSecret := secret' } bootstrapQueueDepth
            (some c) p).1
          = (pullSnapshotOnce clock hmac self bootstrapQueueDepth (some c) p).1 := by
  obtain ⟨applied, untouched⟩ := pullSnapshotOnce_inForm hmac self clock bootstrapQueueDepth c p
  refine ⟨dialTarget_isOk_iff hmac self c, fun addr linkSeq out later id => ?_, applied, untouched,
    fun hmac' secret' => ⟨?_, ?_⟩⟩
  · exact and_congr (dialTarget_eq_ok_iff hmac self c id) (last_mem_targets_iff rfl rfl later)
  · rw [Bool.eq_iff_iff, dialTarget_isOk_iff, dialTarget_isOk_iff]
    rfl
  · obtain ⟨applied', untouched'⟩ := pullSnapshotOnce_inForm hmac'
      { self with sharedSecret := secret' } clock bootstrapQueueDepth c p
    by_cases form : ∃ id left, AnswersInForm self c left id
        ∧ (afterAnnounce self left).fails 0 = false
    · obtain ⟨id, left, form, writes⟩ := form
      rw [applied id left form writes, applied' id left form writes]
      rfl
    · rw [untouched form, untouched' form]

def impostorRow : SnapshotEntry where
  key := ascii "k"
  value := .string (ascii "v")
  ttlMs := 0

def impostor : Connection PeerMessage :=
  .lossless [
    helloAckMessage {
      op := wireOpHelloAck, ok := true, ver := 2, nonce := ascii "07", err := [],
      nodeID := ascii "evil", advertise := [], caps := [] },
    ackMessage { ok := true, err := [] },
    { type := .bootstrapChunk, nodeID := [], payload := some (encodeSnapshotEntry impostorRow) },
    { type := .bootstrapDone, nodeID := [], payload := none }]

def nodeOfSecret (secret : Bytes) : PeerConfig := { nodeOfA with sharedSecret := secret }

/-- The dial ends with a link that is the node's one replication target. -/
def DialsTarget (hmac : Bytes → Bytes → Bytes) (self : PeerConfig) (c : Connection PeerMessage) : Prop :=
  ∃ id, ((dialTarget hmac self).play c).result = .ok id
    ∧ computeReplicationTargets [dialedLink (ascii "b:1") 1 id] = [dialedLink (ascii "b:1") 1 id]

theorem impostor_accepted (hmac : Bytes → Bytes → Bytes) (secret : Bytes) :
    DialsTarget hmac (nodeOfSecret secret) impostor
      ∧ ((pullSnapshotOnce (fun _ => 1) hmac (nodeOfSecret secret) 0
          (some impostor) ⟨newStore .noeviction 0 sortedOracle, 0⟩).1.store.stored
            (ascii "k")).isSome = true := by
  refine ⟨⟨_, rfl, rfl⟩, ?_⟩
  have unlimited : (newStore .noeviction 0 sortedOracle).maxMem = 0 := rfl
  have pulled := pullSnapshotOnce_spec (fun _ => 1) hmac (nodeOfSecret secret) 0
    (some impostor) (p := ⟨newStore .noeviction 0 sortedOracle, 0⟩) unlimited
  have sent : Source.snapshot hmac (nodeOfSecret secret) (some impostor)
      = some [impostorRow] := rfl
  rw [sent] at pulled
  obtain ⟨q, ended, holding⟩ := pulled
  rw [ended]
  unfold Store.stored
  rw [holding.holds, if_pos rfl]
  rfl

/-- The same frames make the impostor a target, and have its row applied, under two
secrets. -/
theorem impostor_trusted :
    (DialsTarget pairHash (nodeOfSecret (ascii "hush")) impostor
        ∧ ((pullSnapshotOnce (fun _ => 1) pairHash (nodeOfSecret (ascii "hush")) 0 (some impostor)
            ⟨newStore .noeviction 0 sortedOracle, 0⟩).1.store.stored (ascii "k")).isSome = true)
      ∧ DialsTarget pairHash (nodeOfSecret (ascii "other")) impostor
        ∧ ((pullSnapshotOnce (fun _ => 1) pairHash (nodeOfSecret (ascii "other")) 0 (some impostor)
            ⟨newStore .noeviction 0 sortedOracle, 0⟩).1.store.stored (ascii "k")).isSome = true :=
  ⟨impostor_accepted pairHash (ascii "hush"), impostor_accepted pairHash (ascii "other")⟩

theorem impostor_answersInForm :
    ∃ id left, AnswersInForm nodeOfA impostor left id
      ∧ ¬ (id.nodeID ≠ [] ∧ id.nodeID = nodeOfA.nodeID) :=
  (dialer_trusts_form pairHash nodeOfA impostor (fun _ => 1) 0
    ⟨newStore .noeviction 0 sortedOracle, 0⟩).1.mp rfl

end SuperCache
