import Mathlib.Data.Fintype.Basic
import SuperCache.Lib.Bytes
import SuperCache.Lib.Machine
import SuperCache.Lib.Stream

/-! # Frames on a peer connection

The replication writer, the heartbeat ticker, the reader of the connection with its
acks, and `AnnounceLeave` share the socket of a link through `link.mu`; a snapshot is
streamed by the reader outside of it, once `stopInboundReplLink` has waited for the
writer, though not longer than two seconds.  Each call of the connection's `Write` is
one step.

A `Write` that fails has sent the beginning of its bytes, and no later one sends
anything.
-/

namespace SuperCache

open Lib

/-! ## Frames -/

def peerMagic : Bytes := ascii "SCPH"

def maxPeerPayload : Nat := 32 * 2 ^ 20

/-- `binary.BigEndian.PutUint32`. -/
def putUint32 (n : Nat) : Bytes :=
  [Fin.ofNat 256 (n / 2 ^ 24), Fin.ofNat 256 (n / 2 ^ 16), Fin.ofNat 256 (n / 2 ^ 8),
    Fin.ofNat 256 n]

def frameHeader (length : Nat) : Bytes :=
  peerMagic ++ putUint32 length

def IsFrame (bytes : Bytes) : Prop :=
  ∃ body : Bytes, body.length ≤ maxPeerPayload ∧ bytes = frameHeader body.length ++ body

/-- The size of the buffer that `bufio.NewWriter` makes. -/
def bufferSize : Nat := 4096

/-- The parts in which a message is handed to its buffered writer: `EncodeMessage` has
it in one, `WriteMessage` in two. -/
def encodeMessage (body : Bytes) : List Bytes :=
  [frameHeader body.length ++ body]

def writeMessage (body : Bytes) : List Bytes :=
  [frameHeader body.length, body]

/-! ## The machine -/

/-- The goroutines that write to a connection, `α` naming the calls of `AnnounceLeave`. -/
inductive Sender (α : Type) where
  | writer
  | ticker
  | reader
  | announcer (a : α)
deriving DecidableEq

/-- A sender waits for `link.mu`, or has writes left to make. -/
inductive SendPhase where
  | idle
  | waiting (parts : List Bytes)
  | writing (left : List Bytes)
deriving DecidableEq

/-- What the reader is at: serving the connection, or in `stopInboundReplLink` on its
way to `serveBootstrapSnapshot`. -/
inductive ReaderMode where
  | serving
  | stopping
  | unregistered
  | cancelled
  | streaming
deriving DecidableEq

/-- `copied`: the link is in the list that this call of `AnnounceLeave` goes through. -/
inductive AnnouncePhase where
  | idle
  | copied
  | done
deriving DecidableEq

/-- A connection and its link; `failed` is a closed connection or one on which a
`Write` has failed. -/
structure Socket (α : Type) where
  sent : Bytes
  failed : Bool
  inbound : Bool
  registered : Bool
  cancelled : Bool
  writerDone : Bool
  mu : Option (Sender α)
  phase : Sender α → SendPhase
  mode : ReaderMode
  announce : α → AnnouncePhase

/-- How a `Write` ends. -/
inductive WriteResult where
  | complete
  | short (n : Nat)
deriving DecidableEq

inductive SocketMove (α : Type) where
  | begin_ (who : Sender α) (body : Bytes)
  | lock (who : Sender α)
  | write (who : Sender α) (result : WriteResult)
  | unlock (who : Sender α)
  | unregister
  | cancel
  | close
  | writerExit
  | announce (a : α)
  | stop
  | stopUnregister
  | stopCancel
  | waited
  | row (body : Bytes)
  | rowDone

namespace Socket

variable {α : Type}

/-- A sender that has something to send: the writer until it is done, the ticker of a
dialled link, the reader while it serves, and an announcer that has the link. -/
def mayBegin (s : Socket α) : Sender α → Bool
  | .writer => !s.writerDone
  | .ticker => !s.inbound
  | .reader => s.mode = .serving
  | .announcer a => s.announce a = .copied

def partsOf (body : Bytes) : Sender α → List Bytes
  | .writer => encodeMessage body
  | _ => writeMessage body

variable [DecidableEq α]

def setPhase (s : Socket α) (who : Sender α) (phase : SendPhase) : Socket α :=
  { s with phase := Function.update s.phase who phase }

/-- A call of the connection's `Write`; the buffered writer makes no more of them once
one has failed. -/
def write (s : Socket α) (who : Sender α) (result : WriteResult) (chunk : Bytes)
    (left : List Bytes) : Socket α :=
  if s.failed then s.setPhase who (.writing [])
  else match result with
    | .complete => { s.setPhase who (.writing left) with sent := s.sent ++ chunk }
    | .short n =>
      { s.setPhase who (.writing []) with sent := s.sent ++ chunk.take n, failed := true }

def unlock (s : Socket α) (who : Sender α) : Socket α :=
  let free := { s.setPhase who .idle with mu := none }
  match who with
  | .announcer a => { free with announce := Function.update s.announce a .done }
  | .writer | .ticker | .reader => free

def step (s : Socket α) : SocketMove α → Option (Socket α)
  | .begin_ who body =>
    -- a longer message is not encoded
    if s.phase who = .idle ∧ s.mayBegin who ∧ body.length ≤ maxPeerPayload then
      some (s.setPhase who (.waiting (partsOf body who)))
    else none
  | .lock who =>
    match s.phase who, s.mu with
    | .waiting parts, none =>
      some { s.setPhase who (.writing (BufWriter.writes bufferSize [] parts)) with mu := some who }
    | _, _ => none
  | .write who result =>
    match s.phase who with
    | .writing (chunk :: left) => some (s.write who result chunk left)
    | _ => none
  | .unlock who => if s.phase who = .writing [] ∧ s.mu = some who then some (s.unlock who) else none
  | .unregister => some { s with registered := false }
  | .cancel => some { s with cancelled := true }
  | .close => some { s with failed := true }
  | .writerExit =>
    if s.cancelled ∧ s.phase .writer = .idle then some { s with writerDone := true } else none
  | .announce a =>
    if s.announce a = .idle then
      some { s with
        announce := Function.update s.announce a (if s.registered then .copied else .done) }
    else none
  | .stop =>
    if s.mode = .serving ∧ s.phase .reader = .idle ∧ s.inbound then some { s with mode := .stopping }
    else none
  | .stopUnregister =>
    if s.mode = .stopping then some { s with mode := .unregistered, registered := false } else none
  | .stopCancel =>
    if s.mode = .unregistered then some { s with mode := .cancelled, cancelled := true } else none
  | .waited => if s.mode = .cancelled then some { s with mode := .streaming } else none
  | .row body =>
    if s.mode = .streaming ∧ s.phase .reader = .idle ∧ body.length ≤ maxPeerPayload then
      some (s.setPhase .reader (.writing (BufWriter.writes bufferSize [] (writeMessage body))))
    else none
  | .rowDone =>
    if s.mode = .streaming ∧ s.phase .reader = .writing [] then some (s.setPhase .reader .idle)
    else none

structure Fresh (s : Socket α) : Prop where
  sent : Whole IsFrame s.sent
  mu : s.mu = none
  phase : ∀ who, s.phase who = .idle
  mode : s.mode = .serving
  announce : ∀ a, s.announce a = .idle

/-- The snapshot begins when the writer is done and no announcement has the link left
to write to. -/
def StreamsAlone (s : Socket α) : SocketMove α → Prop
  | .waited => s.writerDone = true ∧ ∀ a, s.announce a ≠ .copied
  | _ => True

end Socket

end SuperCache
