import SuperCache.Peer.Socket

/-! # Whole frames on a peer connection

Only one goroutine at a time has writes of a frame left to make, as long as a
snapshot is streamed alone, and so the bytes on the connection are whole frames and
the beginning of one at most.
-/

namespace SuperCache

open Lib

namespace Socket

variable {α : Type} {s next : Socket α} {who other : Sender α}

/-! ## Who may write -/

/-- The lock is held by whoever writes, but for the reader that streams, and a stream
has the connection for itself. -/
@[mk_iff]
structure Orderly (s : Socket α) : Prop where
  waits : ∀ who parts, s.phase who = .waiting parts → s.mayBegin who = true
  writes : ∀ who left, s.phase who = .writing left →
    (s.mu = some who ∧ s.mayBegin who = true) ∨ (who = .reader ∧ s.mode = .streaming)
  held : ∀ who, s.mu = some who → (∃ left, s.phase who = .writing left) ∧ s.mayBegin who = true
  stops : s.mode ≠ .serving → s.inbound = true
  unregistered : s.mode ≠ .serving → s.mode ≠ .stopping → s.registered = false
  streams : s.mode = .streaming → s.writerDone = true ∧ ∀ a, s.announce a ≠ .copied

theorem Orderly.alone (orderly : s.Orderly) (streams : s.mode = .streaming) :
    s.mayBegin who = false := by
  obtain ⟨done, announced⟩ := orderly.streams streams
  cases who with
  | writer => simp [mayBegin, done]
  | ticker => simp [mayBegin, orderly.stops (by rw [streams]; nofun)]
  | reader => simp [mayBegin, streams]
  | announcer a => simp [mayBegin, announced a]

variable {body rest : Bytes} {n : Nat} {left : List Bytes} {move : SocketMove α} {first : Byte}

theorem Orderly.one_writer {left' : List Bytes} (orderly : s.Orderly)
    (writes : s.phase who = .writing left) (writes' : s.phase other = .writing left') :
    who = other := by
  rcases orderly.writes who left writes with ⟨mine, may⟩ | ⟨rfl, streams⟩
  · rcases orderly.writes other left' writes' with ⟨theirs, -⟩ | ⟨-, streams⟩
    · rw [mine] at theirs
      cases theirs
      rfl
    · rw [orderly.alone streams] at may
      cases may
  · rcases orderly.writes other left' writes' with ⟨-, may⟩ | ⟨rfl, -⟩
    · rw [orderly.alone streams] at may
      cases may
    · rfl

variable [DecidableEq α]

theorem phase_setPhase (s : Socket α) (who other : Sender α) (phase : SendPhase) :
    (s.setPhase who phase).phase other = if other = who then phase else s.phase other := by
  show Function.update s.phase who phase other = _
  rw [Function.update_apply]

theorem Orderly.step (orderly : s.Orderly) (alone : s.StreamsAlone move)
    (stepped : s.step move = some next) : next.Orderly := by
  have lonely (streams : s.mode = .streaming) (who : Sender α) : s.mayBegin who = false :=
    orderly.alone streams
  obtain ⟨waits, writes, held, stops, unregistered, streams⟩ := orderly
  cases move with
  | unregister | cancel | close =>
    cases stepped
    rw [orderly_iff]
    grind [mayBegin.eq_def]
  -- a mode only ends in which the reader had nothing to send, and an announcer copies a
  -- link that is registered, which it is not any more when the reader streams
  | begin_ | announce | writerExit | stop | stopUnregister | stopCancel | waited | row | rowDone =>
    simp only [Socket.step, Socket.setPhase, Option.ite_none_right_eq_some,
      Option.some.injEq] at stepped
    obtain ⟨ready, rfl⟩ := stepped
    rw [orderly_iff]
    grind [Function.update_apply, mayBegin.eq_def, StreamsAlone]
  | lock who =>
    simp only [Socket.step, Socket.setPhase] at stepped
    split at stepped <;> cases stepped
    constructor <;> grind [Function.update_apply, mayBegin.eq_def]
  | write who result =>
    simp only [Socket.step, Socket.write, Socket.setPhase] at stepped
    split at stepped <;> [skip; cases stepped]
    split at stepped <;> [skip; split at stepped] <;> cases stepped <;> rw [orderly_iff]
      <;> grind [Function.update_apply, mayBegin.eq_def]
  | unlock who =>
    obtain ⟨last, ⟨⟩⟩ := Option.ite_none_right_eq_some.mp stepped
    -- the announcement is over with its sender idle
    cases who <;> simp only [Socket.unlock, Socket.setPhase] <;> rw [orderly_iff]
      <;> grind [Function.update_apply, mayBegin.eq_def]

/-! ## The bytes of a connection -/

/-- Frames have been sent, and of the one that is being written the part that its
sender has not left to write. -/
def Under (s : Socket α) : Prop :=
  ∃ whole part, Whole IsFrame whole ∧ s.sent = whole ++ part
    ∧ (∀ who chunk left, s.phase who = .writing (chunk :: left) →
      IsFrame (part ++ (chunk :: left).flatten))
    ∧ ((∀ who chunk left, s.phase who ≠ .writing (chunk :: left)) → part = [])

structure Framed (s : Socket α) : Prop where
  waiting : ∀ who parts, s.phase who = .waiting parts → IsFrame parts.flatten
  broken : s.failed = true → WholeThenPart IsFrame s.sent
  under : s.failed = false → s.Under

omit [DecidableEq α] in
theorem isFrame_partsOf (fits : body.length ≤ maxPeerPayload) (who : Sender α) :
    IsFrame (partsOf body who).flatten := by
  refine ⟨body, fits, ?_⟩
  cases who <;> simp [partsOf, encodeMessage, writeMessage]

theorem isFrame_empty : IsFrame (frameHeader 0) :=
  ⟨[], Nat.zero_le _, (List.append_nil _).symm⟩

omit [DecidableEq α] in
theorem Framed.whole (framed : s.Framed) : WholeThenPart IsFrame s.sent := by
  cases failed : s.failed with
  | true => exact framed.broken failed
  | false =>
    obtain ⟨whole, part, frames, sent, writing, quiet⟩ := framed.under failed
    rw [sent]
    by_cases busy : ∃ who chunk left, s.phase who = .writing (chunk :: left)
    · obtain ⟨who, chunk, left, phase⟩ := busy
      exact frames.thenPart (writing who chunk left phase) (List.prefix_append _ _)
    · push Not at busy
      rw [quiet busy]
      exact frames.thenPart isFrame_empty List.nil_prefix

omit [DecidableEq α] in
theorem Framed.congr (framed : s.Framed) (sent : next.sent = s.sent)
    (failed : next.failed = s.failed)
    (waiting : ∀ who parts, next.phase who = .waiting parts → IsFrame parts.flatten)
    (writing : ∀ who chunk left,
      next.phase who = .writing (chunk :: left) ↔ s.phase who = .writing (chunk :: left)) :
    next.Framed where
  waiting := waiting
  broken := by
    rw [failed, sent]
    exact framed.broken
  under := by
    rw [failed]
    intro works
    obtain ⟨whole, part, frames, bytes, begun, quiet⟩ := framed.under works
    refine ⟨whole, part, frames, sent.trans bytes, fun who chunk left phase => ?_, fun none => ?_⟩
    · exact begun who chunk left ((writing who chunk left).mp phase)
    · exact quiet fun who chunk left phase => none who chunk left ((writing who chunk left).mpr phase)

theorem Framed.setPhase {phase : SendPhase} (framed : s.Framed)
    (waiting : ∀ parts, phase = .waiting parts → IsFrame parts.flatten)
    (before : ∀ chunk left, s.phase who ≠ .writing (chunk :: left))
    (after : ∀ chunk left, phase ≠ .writing (chunk :: left)) : (s.setPhase who phase).Framed := by
  refine framed.congr rfl rfl (fun other parts theirs => ?_) fun other chunk left => ?_
  · rw [phase_setPhase] at theirs
    split at theirs
    · exact waiting parts theirs
    · exact framed.waiting other parts theirs
  · rw [phase_setPhase]
    split
    · next own =>
      rw [own]
      exact iff_of_false (after chunk left) (before chunk left)
    · exact Iff.rfl

theorem Framed.begin_ (who : Sender α) {parts : List Bytes} (framed : s.Framed) (frame : IsFrame parts.flatten)
    (quiet : ∀ other chunk left, s.phase other ≠ .writing (chunk :: left)) :
    (s.setPhase who (.writing (BufWriter.writes bufferSize [] parts))).Framed where
  waiting other parts theirs := by
    rw [phase_setPhase] at theirs
    split at theirs
    · cases theirs
    · exact framed.waiting other parts theirs
  broken := framed.broken
  under works := by
    obtain ⟨whole, part, frames, bytes, -, none⟩ := framed.under works
    rw [none quiet] at bytes
    refine ⟨whole, [], frames, bytes, fun other chunk left theirs => ?_, fun _ => rfl⟩
    rw [phase_setPhase] at theirs
    split at theirs
    · rw [← SendPhase.writing.inj theirs, BufWriter.writes_flatten]
      exact frame
    · exact absurd theirs (quiet other chunk left)

theorem Framed.write {result : WriteResult} {chunk : Bytes} (framed : s.Framed)
    (orderly : s.Orderly) (writing : s.phase who = .writing (chunk :: left)) :
    (s.write who result chunk left).Framed := by
  have waiting (rest : List Bytes) (other : Sender α) (parts : List Bytes)
      (theirs : (s.setPhase who (.writing rest)).phase other = .waiting parts) :
      IsFrame parts.flatten := by
    rw [phase_setPhase] at theirs
    split at theirs
    · cases theirs
    · exact framed.waiting other parts theirs
  -- whoever is in the midst of a frame after the step is the sender itself
  have only {rest : List Bytes} {other : Sender α} {first : Bytes} {later : List Bytes}
      (theirs : (s.setPhase who (.writing rest)).phase other = .writing (first :: later)) :
      rest = first :: later := by
    rw [phase_setPhase] at theirs
    split at theirs
    · exact SendPhase.writing.inj theirs
    · next different => exact absurd (orderly.one_writer theirs writing) different
  unfold Socket.write
  split
  · next failed =>
    exact ⟨waiting [], framed.broken, fun works => (by cases works.symm.trans failed)⟩
  · next works =>
    have works : s.failed = false := Bool.not_eq_true _ ▸ works
    obtain ⟨whole, part, frames, bytes, begun, -⟩ := framed.under works
    have frame := begun who chunk left writing
    rw [List.flatten_cons, ← List.append_assoc] at frame
    cases result with
    | complete =>
      refine ⟨waiting left, fun failed => (by cases works.symm.trans failed), fun _ => ?_⟩
      cases left with
      | nil =>
        rw [List.flatten_nil, List.append_nil] at frame
        refine ⟨whole ++ (part ++ chunk), [], frames.append frame, ?_, fun other first later theirs =>
          ?_, fun _ => rfl⟩
        · show s.sent ++ chunk = _
          rw [bytes, List.append_nil, List.append_assoc]
        · cases only theirs
      | cons next rest =>
        refine ⟨whole, part ++ chunk, frames, ?_, fun other first later theirs => ?_, fun none => ?_⟩
        · show s.sent ++ chunk = _
          rw [bytes, List.append_assoc]
        · rw [← only theirs]
          exact frame
        · refine absurd ?_ (none who next rest)
          show (s.setPhase who _).phase who = _
          rw [phase_setPhase, if_pos rfl]
    | short n =>
      refine ⟨waiting [], fun _ => ?_, nofun⟩
      show WholeThenPart IsFrame (s.sent ++ chunk.take n)
      rw [bytes, List.append_assoc]
      refine frames.thenPart frame ?_
      rw [List.append_assoc]
      exact (List.prefix_append_right_inj part).mpr
        ((List.take_prefix n chunk).trans (List.prefix_append _ _))

theorem Framed.step (framed : s.Framed) (orderly : s.Orderly) (stepped : s.step move = some next) :
    next.Framed := by
  cases move with
  | begin_ who body =>
    obtain ⟨⟨idle, -, fits⟩, ⟨⟩⟩ := Option.ite_none_right_eq_some.mp stepped
    refine framed.setPhase ?_ (by rw [idle]; nofun) nofun
    rintro parts ⟨⟩
    exact isFrame_partsOf fits who
  | lock who =>
    simp only [Socket.step] at stepped
    split at stepped
    · next parts waiting free =>
      cases stepped
      -- whoever wrote would hold the lock, or stream
      have quiet (other : Sender α) (chunk : Bytes) (left : List Bytes) :
          s.phase other ≠ .writing (chunk :: left) := by
        intro writing
        rcases orderly.writes other _ writing with ⟨locked, -⟩ | ⟨-, streams⟩
        · cases free.symm.trans locked
        · have may := orderly.waits who parts waiting
          rw [orderly.alone streams] at may
          cases may
      have begun := framed.begin_ who (framed.waiting who parts waiting) quiet
      exact ⟨begun.waiting, begun.broken, begun.under⟩
    · cases stepped
  | write who result =>
    simp only [Socket.step] at stepped
    split at stepped
    · next chunk left writing =>
      cases stepped
      exact framed.write orderly writing
    · cases stepped
  | unlock who =>
    obtain ⟨⟨last, -⟩, ⟨⟩⟩ := Option.ite_none_right_eq_some.mp stepped
    have over_ : (s.setPhase who .idle).Framed := framed.setPhase nofun (by rw [last]; nofun) nofun
    cases who <;> exact ⟨over_.waiting, over_.broken, over_.under⟩
  | close =>
    cases stepped
    exact ⟨framed.waiting, fun _ => framed.whole, nofun⟩
  | unregister | cancel =>
    cases stepped
    exact ⟨framed.waiting, framed.broken, framed.under⟩
  | writerExit | announce | stop | stopUnregister | stopCancel | waited =>
    obtain ⟨-, ⟨⟩⟩ := Option.ite_none_right_eq_some.mp stepped
    exact ⟨framed.waiting, framed.broken, framed.under⟩
  | row body =>
    obtain ⟨⟨streaming, idle, fits⟩, ⟨⟩⟩ := Option.ite_none_right_eq_some.mp stepped
    refine framed.begin_ .reader (isFrame_partsOf fits (.reader : Sender α))
      fun other chunk left writing => ?_
    rcases orderly.writes other _ writing with ⟨-, may⟩ | ⟨rfl, -⟩
    · rw [orderly.alone streaming] at may
      cases may
    · cases idle.symm.trans writing
  | rowDone =>
    obtain ⟨⟨-, last⟩, ⟨⟩⟩ := Option.ite_none_right_eq_some.mp stepped
    exact framed.setPhase nofun (by rw [last]; nofun) nofun

omit [DecidableEq α] in
theorem Fresh.orderly (fresh : s.Fresh) : s.Orderly where
  waits who parts waiting := by
    rw [fresh.phase] at waiting
    cases waiting
  writes who left writing := by
    rw [fresh.phase] at writing
    cases writing
  held who locked := by
    rw [fresh.mu] at locked
    cases locked
  stops serving := absurd fresh.mode serving
  unregistered serving := absurd fresh.mode serving
  streams streaming := by
    rw [fresh.mode] at streaming
    cases streaming

omit [DecidableEq α] in
theorem Fresh.framed (fresh : s.Fresh) : s.Framed where
  waiting who parts waiting := by
    rw [fresh.phase] at waiting
    cases waiting
  broken _ := by
    rw [← List.append_nil s.sent]
    exact fresh.sent.thenPart isFrame_empty List.nil_prefix
  under _ := by
    refine ⟨s.sent, [], fresh.sent, (List.append_nil _).symm, fun who chunk left writing => ?_,
      fun _ => rfl⟩
    rw [fresh.phase] at writing
    cases writing

/-- The bytes on a connection are whole frames and then the beginning of one at most,
if a snapshot begins only when nobody else has anything left to send. -/
theorem whole_frames {start final : Socket α} {moves : List (SocketMove α)} (fresh : start.Fresh)
    (guarded : Machine.Guarded step StreamsAlone start moves)
    (ran : Machine.run step start moves = some final) : WholeThenPart IsFrame final.sent := by
  have keeps (s : Socket α) (move : SocketMove α) (next : Socket α)
      (sound : s.Orderly ∧ s.Framed) (alone : s.StreamsAlone move)
      (stepped : s.step move = some next) : next.Orderly ∧ next.Framed :=
    ⟨sound.1.step alone stepped, sound.2.step sound.1 stepped⟩
  exact (Machine.run_invariant keeps ⟨fresh.orderly, fresh.framed⟩ guarded ran).2.whole

instance decidableStreamsAlone [Fintype α] (s : Socket α) (move : SocketMove α) :
    Decidable (s.StreamsAlone move) := by
  unfold StreamsAlone
  split <;> infer_instance

def accepted : Socket Unit where
  sent := []
  failed := false
  inbound := true
  registered := true
  cancelled := false
  writerDone := false
  mu := none
  phase _ := .idle
  mode := .serving
  announce _ := .idle

theorem accepted_fresh : accepted.Fresh :=
  ⟨.nil, rfl, fun _ => rfl, rfl, fun _ => rfl⟩

def stopLink : List (SocketMove Unit) :=
  [.stop, .stopUnregister, .stopCancel]

def streamAlone : List (SocketMove Unit) :=
  [.announce (), .begin_ .writer [1], .begin_ (.announcer ()) [2], .lock .writer,
    .write .writer .complete, .unlock .writer, .lock (.announcer ()),
    .write (.announcer ()) .complete, .unlock (.announcer ())] ++ stopLink
    ++ [.writerExit, .waited, .row [3], .write .reader (.short 5)]

theorem streamAlone_whole : ∃ final, Machine.run step accepted streamAlone = some final
    ∧ final.sent = frameHeader 1 ++ [1] ++ frameHeader 1 ++ [2] ++ [83, 67, 80, 72, 0]
    ∧ WholeThenPart IsFrame final.sent := by
  refine ⟨_, Machine.ran (by decide +kernel), by decide +kernel, ?_⟩
  exact whole_frames accepted_fresh (by decide +kernel) (Machine.ran _)

theorem putUint32_inj {m : Nat} (small : m ≤ maxPeerPayload) (small' : n ≤ maxPeerPayload)
    (same : putUint32 m = putUint32 n) : m = n := by
  unfold maxPeerPayload at small small'
  simp only [putUint32, List.cons.injEq, Fin.ext_iff, Fin.ofNat, and_true] at same
  omega

theorem IsFrame.length_eq {p rest' : Bytes} (frame : IsFrame p) (small : n ≤ maxPeerPayload)
    (same : frameHeader n ++ rest = p ++ rest') : p.length = (frameHeader n).length + n := by
  obtain ⟨body, fits, rfl⟩ := frame
  rw [List.append_assoc] at same
  have header := (List.append_inj same rfl).1
  have number := putUint32_inj small fits (List.append_inj header rfl).2
  rw [List.length_append, number]

theorem head_of_whole (whole : WholeThenPart IsFrame (first :: rest)) : first = 83 := by
  rcases whole.cases with ⟨p, ⟨body, -, rfl⟩, ⟨more, same⟩⟩ | ⟨p, more, ⟨body, -, rfl⟩, same, -⟩
  · exact (List.cons.inj same).1
  · exact (List.cons.inj same).1

theorem head_after_frame (small : n ≤ maxPeerPayload) (length : body.length = n)
    (whole : WholeThenPart IsFrame (frameHeader n ++ (body ++ first :: rest))) : first = 83 := by
  rcases whole.cases with ⟨p, frame, ⟨more, same⟩⟩ | ⟨p, more, frame, same, later⟩
  · rw [List.append_assoc, ← List.append_nil p] at same
    have long := IsFrame.length_eq frame small same
    rw [List.append_nil] at same
    rw [← same] at long
    simp only [List.length_append, List.length_cons] at long
    omega
  · have long := IsFrame.length_eq frame small same
    rw [← List.append_assoc] at same
    have split := List.append_inj same (by rw [List.length_append, long, length])
    rw [← split.2] at later
    exact head_of_whole later

theorem writes_long (long : bufferSize < 8 + body.length) (fits : body.length ≤ bufferSize) :
    BufWriter.writes bufferSize [] (writeMessage body)
      = [frameHeader body.length ++ body.take 4088, body.drop 4088] := by
  unfold bufferSize at *
  -- the header stays in the buffer, and the body fills it up
  have second : BufWriter.write 4096 (frameHeader body.length) body
      = ([frameHeader body.length ++ body.take 4088], body.drop 4088) := by
    unfold BufWriter.write
    rw [if_neg (show ¬ (frameHeader body.length).length + body.length ≤ 4096 from
      Nat.not_le_of_lt long)]
    show (if body.length - 4088 ≤ 4096 then _ else _) = _
    rw [if_pos (by omega)]
    rfl
  obtain ⟨byte, rest, left⟩ : ∃ byte rest, body.drop 4088 = byte :: rest := by
    refine List.exists_cons_of_ne_nil fun none => ?_
    have empty := congrArg List.length none
    rw [List.length_drop, List.length_nil] at empty
    omega
  show (BufWriter.write 4096 (frameHeader body.length) body).1
    ++ BufWriter.writes 4096 (BufWriter.write 4096 (frameHeader body.length) body).2 [] = _
  rw [second, left]
  rfl

/-- The writer, which has not stopped within two seconds, sends a frame between the
two writes of a row. -/
def rowInterrupted (body : Bytes) : List (SocketMove Unit) :=
  ([.begin_ .writer [1]] ++ stopLink ++ [.waited])
    ++ [.row body, .write .reader .complete, .lock .writer, .write .writer .complete,
      .write .reader .complete]

theorem rowInterrupted_sent (body : Bytes) (long : bufferSize < 8 + body.length)
    (fits : body.length ≤ bufferSize) : ∃ final,
    Machine.run step accepted (rowInterrupted body) = some final
      ∧ final.sent = frameHeader body.length ++ body.take 4088 ++ (frameHeader 1 ++ [1])
        ++ body.drop 4088 := by
  obtain ⟨mid, ran, streams, idle, waiting, free, nothing, works⟩ : ∃ mid,
      Machine.run step accepted ([.begin_ .writer [1]] ++ stopLink ++ [.waited]) = some mid
        ∧ mid.mode = .streaming ∧ mid.phase .reader = .idle
        ∧ mid.phase .writer = .waiting (encodeMessage [1]) ∧ mid.mu = none ∧ mid.sent = []
        ∧ mid.failed = false := Machine.exists_run (by decide +kernel)
  have small : body.length ≤ maxPeerPayload := Nat.le_trans fits (by decide)
  have frame : BufWriter.writes bufferSize [] (encodeMessage [1]) = [frameHeader 1 ++ [1]] := rfl
  suffices ∃ final, Machine.run step mid [.row body, .write .reader .complete, .lock .writer,
      .write .writer .complete, .write .reader .complete] = some final ∧ _ by
    obtain ⟨final, later, sent⟩ := this
    exact ⟨final, Machine.run_append.mpr ⟨mid, ran, later⟩, sent⟩
  simp [Machine.run, step, streams, idle, small, writes_long long fits, setPhase, write, waiting,
    free, works, nothing, frame]

/-- The first byte of the writer's frame ends the row as the receiver reads it, and the
second does not begin a frame. -/
theorem rowInterrupted_breaks : accepted.Fresh ∧ ∃ final,
    Machine.run step accepted (rowInterrupted (List.replicate 4089 0)) = some final
      ∧ ¬ WholeThenPart IsFrame final.sent := by
  refine ⟨accepted_fresh, ?_⟩
  have length : (List.replicate 4089 0 : Bytes).length = 4089 := List.length_replicate
  obtain ⟨final, ran, sent⟩ := rowInterrupted_sent (List.replicate 4089 0)
    (by rw [length]; decide) (by rw [length]; decide)
  refine ⟨final, ran, fun whole => ?_⟩
  rw [length, List.take_replicate, List.drop_replicate] at sent
  have split : final.sent = frameHeader 4089 ++ ((List.replicate 4088 0 ++ [83])
      ++ 67 :: [80, 72, 0, 0, 0, 1, 1, 0]) := by
    rw [sent]
    simp only [List.append_assoc]
    rfl
  rw [split] at whole
  have first := head_after_frame (by decide) (by rw [List.length_append, List.length_replicate]; rfl)
    whole
  cases first

end Socket

end SuperCache
