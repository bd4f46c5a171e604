import SuperCache.Peer.Bootstrap
import SuperCache.Peer.Socket

/-! # Reading the optional announce

With gossip on, a dialer reads one frame under a deadline of 500 ms before its session
begins, and takes any failure of that read for the absence of an announce.  A read
that the deadline ends in the middle of a frame has consumed the beginning of it, and
the session then reads on from there.  Where no deadline intervenes, the frames of a stream
are read back one by one.
-/

namespace SuperCache

open Lib

/-! ## A read that a deadline may end -/

/-- `binary.BigEndian.Uint32`. -/
def getUint32 : Bytes → Nat
  | [a, b, c, d] => ((a.val * 256 + b.val) * 256 + c.val) * 256 + d.val
  | _ => 0

section Unmarshal

variable (unmarshal : Bytes → Option PeerMessage)

/-- `ReadMessage` with what arrives before its deadline: the number of bytes consumed,
and the message if there is no error. -/
def readMessage (available : Bytes) : Nat × Option PeerMessage :=
  if available.length < 8 then (available.length, none)
  else if available.take 4 ≠ peerMagic then (8, none)
  else
    let n := getUint32 ((available.drop 4).take 4)
    if n > maxPeerPayload then (8, none)
    else if available.length < 8 + n then (available.length, none)
    else (8 + n, unmarshal ((available.drop 8).take n))

/-- `consumeOptionalPeerAnnounce` on the bytes that arrive before its deadline. -/
def readAnnounce (dialer : PeerConfig) (available : Bytes) :
    Nat × Except AnnounceError (List Bytes) :=
  if dialer.gossipPeers = false then (0, .ok [])
  else
    let read := readMessage unmarshal available
    (read.1, ((consumeOptionalPeerAnnounce dialer).play ⟨[read.2], fun _ => false⟩).result)

/-! ## What an acceptor sends -/

structure SentFrame where
  body : Bytes
  msg : PeerMessage
  fits : body.length ≤ maxPeerPayload
  parsed : unmarshal body = some msg

variable {unmarshal}

def SentFrame.bytes (f : SentFrame unmarshal) : Bytes :=
  frameHeader f.body.length ++ f.body

def streamOf (frames : List (SentFrame unmarshal)) : Bytes :=
  (frames.map SentFrame.bytes).flatten

/-- The announce of `serveInbound`, with a nil slice for no peers. -/
def announceMessage (self : PeerConfig) (peers : List Bytes) : PeerMessage where
  type := .nodeList
  nodeID := self.nodeID
  payload := some (.obj [(ascii "op", Json.ofString wireOpPeerAnnounce),
    (ascii "peers", if peers = [] then .null else Json.ofStringList peers)])

variable (unmarshal) in
/-- The frames of `serveInbound` after the handshake: the announce of a gossiping node
comes before all others. -/
structure AcceptorFrames where
  acceptor : PeerConfig
  peers : List Bytes
  announce : SentFrame unmarshal
  announces : announce.msg = announceMessage acceptor peers
  later : List (SentFrame unmarshal)

def AcceptorFrames.frames (a : AcceptorFrames unmarshal) : List (SentFrame unmarshal) :=
  if a.acceptor.gossipPeers = true then a.announce :: a.later else a.later

/-- If the dialer goes on, its reader stands before one of the frames, and those before
it are not replication frames. -/
def Harmless (frames : List (SentFrame unmarshal)) (outcome : Nat × Except AnnounceError (List Bytes)) :
    Prop :=
  outcome.2.isOk = true →
    ∃ k, outcome.1 = (streamOf (frames.take k)).length
      ∧ ∀ f ∈ frames.take k, (normalizePeerMessage f.msg).type ≠ .replicate

/-! ## Where the reader stands -/

theorem length_frameHeader (n : Nat) : (frameHeader n).length = 8 :=
  rfl

theorem getUint32_putUint32 {n : Nat} (small : n ≤ maxPeerPayload) : getUint32 (putUint32 n) = n := by
  unfold maxPeerPayload at small
  simp only [putUint32, getUint32, Fin.val_ofNat]
  omega

theorem SentFrame.length_bytes (f : SentFrame unmarshal) : f.bytes.length = 8 + f.body.length := by
  rw [bytes, List.length_append, length_frameHeader]

theorem readMessage_frame (f : SentFrame unmarshal) (rest : Bytes) (arrived : Nat) :
    readMessage unmarshal ((f.bytes ++ rest).take arrived)
      = if arrived < f.bytes.length then (arrived, none) else (f.bytes.length, some f.msg) := by
  have size := f.length_bytes
  have length : ((f.bytes ++ rest).take arrived).length = min arrived (f.bytes.length + rest.length) := by
    rw [List.length_take, List.length_append]
  unfold readMessage
  by_cases short : ((f.bytes ++ rest).take arrived).length < 8
  · rw [if_pos short, if_pos (by omega), length]
    congr 1
    omega
  · -- the header has arrived, and the length in it is the body's
    have whole : (f.bytes ++ rest).take arrived
        = frameHeader f.body.length ++ (f.body ++ rest).take (arrived - 8) := by
      rw [SentFrame.bytes, List.append_assoc, List.take_append, length_frameHeader,
        List.take_of_length_le (by rw [length_frameHeader]; omega)]
    have magic : ((f.bytes ++ rest).take arrived).take 4 = peerMagic := by
      rw [whole]
      rfl
    have number : getUint32 ((((f.bytes ++ rest).take arrived).drop 4).take 4) = f.body.length := by
      rw [whole]
      exact getUint32_putUint32 f.fits
    have body : ((f.bytes ++ rest).take arrived).drop 8 = (f.body ++ rest).take (arrived - 8) := by
      rw [whole]
      rfl
    dsimp only
    rw [if_neg short, if_neg (not_not.mpr magic), number, if_neg (by have := f.fits; omega), body]
    by_cases part : arrived < f.bytes.length
    · rw [if_pos (by omega), if_pos part, length]
      congr 1
      omega
    · rw [if_neg (by omega), if_neg part, List.take_take, List.take_append_of_le_length (by omega),
        List.take_of_length_le (by omega), f.parsed, size]

theorem readMessage_nil : readMessage unmarshal [] = (0, none) :=
  rfl

theorem streamOf_cons (first : SentFrame unmarshal) (rest : List (SentFrame unmarshal)) :
    streamOf (first :: rest) = first.bytes ++ streamOf rest := by
  simp only [streamOf, List.map_cons, List.flatten_cons]

/-! ## Streams read to their end -/

variable (unmarshal) in
/-- `ReadMessage` called so many times on one stream. -/
def readMessages : Nat → Bytes → List (Option PeerMessage)
  | 0, _ => []
  | n + 1, input =>
    let read := readMessage unmarshal input
    read.2 :: readMessages n (input.drop read.1)

def arrivedMessages : Nat → List (SentFrame unmarshal) → List PeerMessage
  | _, [] => []
  | arrived, f :: rest =>
    if arrived < f.bytes.length then [] else f.msg :: arrivedMessages (arrived - f.bytes.length) rest

theorem readMessages_arrived (frames : List (SentFrame unmarshal)) (arrived : Nat) :
    readMessages unmarshal ((arrivedMessages arrived frames).length + 1) ((streamOf frames).take arrived)
      = (arrivedMessages arrived frames).map some ++ [none] := by
  induction frames generalizing arrived with
  | nil => simp [arrivedMessages, readMessages, streamOf, readMessage_nil]
  | cons f rest ih =>
    rw [streamOf_cons, readMessages, readMessage_frame, arrivedMessages]
    by_cases part : arrived < f.bytes.length
    · simp [part, readMessages]
    · -- the next read begins where the frame ends
      have left : ((f.bytes ++ streamOf rest).take arrived).drop f.bytes.length
          = (streamOf rest).take (arrived - f.bytes.length) := by
        rw [List.drop_take, List.drop_left]
      simp only [if_neg part, List.length_cons, left, ih, List.map_cons, List.cons_append]

theorem arrivedMessages_all (frames : List (SentFrame unmarshal)) :
    arrivedMessages (streamOf frames).length frames = frames.map SentFrame.msg := by
  induction frames with
  | nil => rfl
  | cons f rest ih =>
    rw [streamOf_cons, arrivedMessages, List.length_append, if_neg (by omega), Nat.add_sub_cancel_left,
      ih, List.map_cons]

inductive FrameWriter where
  | writeMessage
  | encodeMessage

def FrameWriter.write (marshal : PeerMessage → Bytes) (writer : FrameWriter) (msg : PeerMessage) :
    Option Bytes :=
  if maxPeerPayload < (marshal msg).length then none
  else
    match writer with
    | .writeMessage => some (SuperCache.writeMessage (marshal msg)).flatten
    | .encodeMessage => some (SuperCache.encodeMessage (marshal msg)).flatten

theorem FrameWriter.write_eq (writer : FrameWriter) {marshal : PeerMessage → Bytes} {msg : PeerMessage}
    (small : (marshal msg).length ≤ maxPeerPayload) :
    writer.write marshal msg = some (frameHeader (marshal msg).length ++ marshal msg) := by
  cases writer <;>
    simp [FrameWriter.write, Nat.not_lt.mpr small, SuperCache.writeMessage, SuperCache.encodeMessage]

/-- A stream of frames is read back as its messages and then fails, and so is what has arrived
of it, with the messages whose frames are whole. -/
theorem frames_read_back (marshal : PeerMessage → Bytes) (sent : List (FrameWriter × PeerMessage))
    (inverse : ∀ one ∈ sent, unmarshal (marshal one.2) = some one.2)
    (fits : ∀ one ∈ sent, (marshal one.2).length ≤ maxPeerPayload) :
    ∃ frames : List (SentFrame unmarshal), frames.map SentFrame.msg = sent.map Prod.snd
      ∧ sent.map (fun one => one.1.write marshal one.2) = frames.map (some ∘ SentFrame.bytes)
      ∧ readMessages unmarshal (sent.length + 1) (streamOf frames) = sent.map (some ∘ Prod.snd) ++ [none]
      ∧ ∀ arrived < (streamOf frames).length,
        readMessages unmarshal ((arrivedMessages arrived frames).length + 1) ((streamOf frames).take arrived)
          = (arrivedMessages arrived frames).map some ++ [none] := by
  obtain ⟨frames, messages, written⟩ : ∃ frames : List (SentFrame unmarshal),
      frames.map SentFrame.msg = sent.map Prod.snd
        ∧ sent.map (fun one => one.1.write marshal one.2) = frames.map (some ∘ SentFrame.bytes) := by
    induction sent with
    | nil => exact ⟨[], rfl, rfl⟩
    | cons one rest ih =>
      obtain ⟨parsed, inverse⟩ := List.forall_mem_cons.mp inverse
      obtain ⟨small, fits⟩ := List.forall_mem_cons.mp fits
      obtain ⟨frames, messages, written⟩ := ih inverse fits
      refine ⟨⟨marshal one.2, one.2, small, parsed⟩ :: frames, by simp [messages], ?_⟩
      rw [List.map_cons, List.map_cons, written, one.1.write_eq small]
      rfl
  have whole := readMessages_arrived frames (streamOf frames).length
  rw [List.take_length, arrivedMessages_all, messages, List.length_map, List.map_map] at whole
  exact ⟨frames, messages, written, whole, fun arrived _ => readMessages_arrived frames arrived⟩

theorem announceResult {dialer : PeerConfig} (on : ¬ dialer.gossipPeers = false)
    (got : Option PeerMessage) :
    ((consumeOptionalPeerAnnounce dialer).play ⟨[got], fun _ => false⟩).result
      = match got with
        | none => .ok []
        | some msg => checkAnnounce (normalizePeerMessage msg) := by
  unfold consumeOptionalPeerAnnounce
  rw [if_neg on]
  cases got <;> rfl

theorem type_of_checkAnnounce {msg : PeerMessage} (passed : (checkAnnounce msg).isOk = true) :
    msg.type = .nodeList := by
  by_contra other
  rw [checkAnnounce, if_pos other] at passed
  cases passed

/-- The optional announce is harmless exactly when gossip is off at the dialer, or the
deadline does not pass in the middle of the first frame. -/
theorem announce_harmless_iff (dialer : PeerConfig) (sent : AcceptorFrames unmarshal) (arrived : Nat) :
    Harmless sent.frames (readAnnounce unmarshal dialer ((streamOf sent.frames).take arrived))
      ↔ dialer.gossipPeers = false ∨ arrived = 0
        ∨ ∀ first ∈ sent.frames.head?, first.bytes.length ≤ arrived := by
  unfold readAnnounce
  generalize sent.frames = frames
  by_cases off : dialer.gossipPeers = false
  · rw [if_pos off]
    exact iff_of_true (fun _ => ⟨0, rfl, nofun⟩) (.inl off)
  · rw [if_neg off]
    cases frames with
    | nil =>
      rw [show streamOf ([] : List (SentFrame unmarshal)) = [] from rfl, List.take_nil, readMessage_nil]
      exact iff_of_true (fun _ => ⟨0, rfl, nofun⟩) (.inr (.inr nofun))
    | cons first rest =>
      rw [streamOf_cons, readMessage_frame]
      by_cases part : arrived < first.bytes.length
      · -- the read fails, and the session goes on behind what it has consumed
        simp only [if_pos part, announceResult off]
        have reduced : (dialer.gossipPeers = false ∨ arrived = 0
            ∨ ∀ f ∈ (first :: rest).head?, f.bytes.length ≤ arrived) ↔ arrived = 0 := by
          simp [off, part]
        rw [reduced]
        constructor
        · intro harmless
          obtain ⟨k, stands, -⟩ := harmless rfl
          cases k with
          | zero => exact stands
          | succ k =>
            dsimp only at stands
            rw [List.take_succ_cons, streamOf_cons, List.length_append] at stands
            omega
        · rintro rfl
          exact fun _ => ⟨0, rfl, nofun⟩
      · -- the frame is consumed as a whole, and the session goes on only after an announce
        simp only [if_neg part, announceResult off]
        refine iff_of_true (fun passed => ⟨1, ?_, fun f listed => ?_⟩) (.inr (.inr ?_))
        · simp [streamOf]
        · cases List.mem_singleton.mp listed
          rw [type_of_checkAnnounce passed]
          nofun
        · rintro f ⟨⟩
          omega

end Unmarshal

/-- What `json.Marshal` makes of the announce of a node `a` that has one peer. -/
def announceBody : Bytes :=
  ascii ("\x7b\"v\":1,\"t\":\"NODE_LIST\",\"nid\":\"a\","
    ++ "\"p\":\x7b\"op\":\"PEER_ANNOUNCE\",\"peers\":[\"b:1\"]\x7d\x7d")

def knowsOne (body : Bytes) : Option PeerMessage :=
  if body = announceBody then some (announceMessage nodeOfA [ascii "b:1"]) else none

theorem knowsOne_announceBody : knowsOne announceBody = some (announceMessage nodeOfA [ascii "b:1"]) :=
  if_pos rfl

def oneAnnounce : AcceptorFrames knowsOne where
  acceptor := { nodeOfA with gossipPeers := true }
  peers := [ascii "b:1"]
  announce := {
    body := announceBody
    msg := announceMessage nodeOfA [ascii "b:1"]
    fits := by decide +kernel
    parsed := knowsOne_announceBody }
  announces := rfl
  later := []

/-- The announce twice, written in the two ways. -/
theorem two_announces_read_back :
    let announce := announceMessage nodeOfA [ascii "b:1"]
    let sent := [(FrameWriter.writeMessage, announce), (.encodeMessage, announce)]
    ∃ frames : List (SentFrame knowsOne), frames.map SentFrame.msg = sent.map Prod.snd
      ∧ readMessages knowsOne 3 (streamOf frames) = sent.map (some ∘ Prod.snd) ++ [none] := by
  intro announce sent
  obtain ⟨frames, messages, -, read, -⟩ : ∃ frames : List (SentFrame knowsOne), _ :=
    frames_read_back (fun _ => announceBody) sent
      (List.forall_mem_cons.mpr ⟨knowsOne_announceBody,
        List.forall_mem_cons.mpr ⟨knowsOne_announceBody, List.forall_mem_nil _⟩⟩)
      (fun _ _ => oneAnnounce.announce.fits)
  exact ⟨frames, messages, read⟩

/-- The deadline passes after four of its bytes: the session goes on in the middle of
the announce. -/
theorem late_announce_misreads :
    ¬ Harmless oneAnnounce.frames (readAnnounce knowsOne { nodeOfB with gossipPeers := true }
      ((streamOf oneAnnounce.frames).take 4)) := by
  intro harmless
  obtain ⟨k, stands, -⟩ := harmless rfl
  have consumed : (readAnnounce knowsOne { nodeOfB with gossipPeers := true }
      ((streamOf oneAnnounce.frames).take 4)).1 = 4 := rfl
  rw [consumed] at stands
  rcases k with _ | k
  · cases stands
  · have whole : oneAnnounce.frames.take (k + 1) = oneAnnounce.frames := by
      rw [List.take_of_length_le (Nat.succ_le_succ (Nat.zero_le k))]
    rw [whole] at stands
    exact absurd stands (by decide +kernel)

end SuperCache
