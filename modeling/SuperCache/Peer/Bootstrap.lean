import SuperCache.Peer.HandshakeAgreement
import SuperCache.Store.Evolution

/-! # Pulling a snapshot

`PullSnapshotFailover` and `pullSnapshotOnce`: each source is dialed, asked for its
snapshot and read frame by frame; rows are applied in batches while the stream is
still running, and whatever a failed source has left is flushed.
-/

namespace SuperCache

open Lib

/-! ## The announce after the handshake -/

structure WirePeerAnnounce where
  op : Bytes
  peers : List Bytes

open Json in
def decodeWirePeerAnnounce (json : Json) : Option WirePeerAnnounce := do
  let members ← membersOf json
  let op ← field .string (ascii "op") members
  let peers ← field (.list .string) (ascii "peers") members
  return { op, peers }

inductive AnnounceError where
  | expectedNodeList
  | expectedPeerAnnounce
deriving DecidableEq

def checkAnnounce (msg : PeerMessage) : Except AnnounceError (List Bytes) :=
  if msg.type ≠ .nodeList then .error .expectedNodeList
  else match msg.payload.bind decodeWirePeerAnnounce with
    | none => .error .expectedPeerAnnounce
    | some announce =>
      if equalFold announce.op wireOpPeerAnnounce = false then .error .expectedPeerAnnounce
      else .ok announce.peers

/-- `consumeOptionalPeerAnnounce`, and `tryConsumePeerAnnounceBootstrap` with one text
for both errors: with gossip on, one frame is read, and a read that fails is no error. -/
def consumeOptionalPeerAnnounce (self : PeerConfig) :
    Script PeerMessage (Except AnnounceError (List Bytes)) :=
  if self.gossipPeers = false then .done (.ok [])
  else .recv fun
    | none => .done (.ok [])
    | some msg => .done (checkAnnounce (normalizePeerMessage msg))

/-! ## One source -/

inductive PullError where
  | dial
  | auth (error : OutboundError)
  | announce
  | request
  | apply (failure : StoreErr)
  | read
  | entry
  | unexpectedType (type : MsgType)

def bootstrapRequest (self : PeerConfig) : PeerMessage where
  type := .bootstrapReq
  nodeID := self.nodeID
  payload := some (.obj [(ascii "op", Json.ofString wireOpBootstrap)])

def requestSnapshot (self : PeerConfig) : Script PeerMessage (Except PullError Unit) :=
  .send (bootstrapRequest self) fun
    | false => .done (.error .request)
    | true => .done (.ok ())

section Hash

variable (hmac : Bytes → Bytes → Bytes)

def openPull (self : PeerConfig) : Script PeerMessage (Except PullError Unit) :=
  (handshakeOutCaps hmac self []).bind fun
    | .error error => .done (.error (.auth error))
    | .ok _ => (consumeOptionalPeerAnnounce self).bind fun
      | .error _ => .done (.error .announce)
      | .ok _ => requestSnapshot self

end Hash

structure Pulling where
  store : Store
  reads : Nat

section Clock

variable (clock : Nat → Time)

/-- `flush` of the batch: each row is applied at a reading of the clock of its own, and
the first that fails ends it. -/
def flushBatch (p : Pulling) : List SnapshotEntry → Pulling × Except PullError Unit
  | [] => (p, .ok ())
  | ent :: rest =>
    match p.store.applySnapshotEntry (clock p.reads) ent with
    | (store, .error failure) => (⟨store, p.reads + 1⟩, .error (.apply failure))
    | (store, .ok ()) => flushBatch ⟨store, p.reads + 1⟩ rest

def flushThen (p : Pulling) (batch : List SnapshotEntry)
    (next : Pulling → Pulling × Except PullError Unit) : Pulling × Except PullError Unit :=
  match flushBatch clock p batch with
  | (p, .error error) => (p, .error error)
  | (p, .ok ()) => next p

/-- The loop over the frames of a stream.  What the batch holds when a read fails is
still applied. -/
def pullFrames (depth : Nat) :
    List (Option PeerMessage) → List SnapshotEntry → Pulling → Pulling × Except PullError Unit
  | [], batch, p | none :: _, batch, p => flushThen clock p batch fun p => (p, .error .read)
  | some frame :: rest, batch, p =>
    let msg := normalizePeerMessage frame
    match msg.type with
    | .bootstrapDone => flushBatch clock p batch
    | .bootstrapChunk =>
      match msg.payload.bind decodeSnapshotEntry with
      | none => (p, .error .entry)
      | some ent =>
        if depth ≤ (batch ++ [ent]).length then
          flushThen clock p (batch ++ [ent]) fun p => pullFrames depth rest [] p
        else pullFrames depth rest (batch ++ [ent]) p
    | type => (p, .error (.unexpectedType type))

abbrev Source := Option (Connection PeerMessage)

variable (hmac : Bytes → Bytes → Bytes) (self : PeerConfig) (bootstrapQueueDepth : Int)

def pullSnapshotOnce (source : Source) (p : Pulling) : Pulling × Except PullError Unit :=
  match source with
  | none => (p, .error .dial)
  | some connection =>
    let opened := (openPull hmac self).play connection
    match opened.result with
    | .error error => (p, .error error)
    | .ok () =>
      pullFrames clock (max 1 bootstrapQueueDepth).toNat opened.left.inbox []
        { p with store := p.store.flushDB }

/-- `bootstrap: no sources`, or the error of the last one. -/
inductive FailoverError where
  | noSources
  | allFailed (last : PullError)

def pullSnapshotFailover : List (Bytes × Source) → Option PullError → Pulling →
    Pulling × Except FailoverError Unit
  | [], none, p => (p, .error .noSources)
  | [], some last, p => (p, .error (.allFailed last))
  | (addr, source) :: rest, lastErr, p =>
    if trimSpace addr = [] then pullSnapshotFailover rest lastErr p
    else match pullSnapshotOnce clock hmac self bootstrapQueueDepth source p with
      | (p, .error error) =>
        pullSnapshotFailover rest (some error) { p with store := p.store.flushDB }
      | (p, .ok ()) => (p, .ok ())

end Clock

/-! ## What a source has to send -/

def completeRows : List (Option PeerMessage) → Option (List SnapshotEntry)
  | [] | none :: _ => none
  | some frame :: rest =>
    let msg := normalizePeerMessage frame
    match msg.type with
    | .bootstrapDone => some []
    | .bootstrapChunk =>
      match msg.payload.bind decodeSnapshotEntry with
      | none => none
      | some ent =>
        if (Store.snapshotValue ent.value).isSome then (completeRows rest).map (ent :: ·) else none
    | _ => none

def Source.snapshot (hmac : Bytes → Bytes → Bytes) (self : PeerConfig) (source : Source) :
    Option (List SnapshotEntry) :=
  source.bind fun connection =>
    let opened := (openPull hmac self).play connection
    match opened.result with
    | .error _ => none
    | .ok () => completeRows opened.left.inbox

def triedSources (addrs : List (Bytes × Source)) : List Source :=
  (addrs.filter fun pair => trimSpace pair.1 ≠ []).map Prod.snd

def rowEntry (row : SnapshotEntry × Time) : Option Entry :=
  (Store.snapshotValue row.1.value).map fun value =>
    { value := value, expiresAt := Store.snapshotExpiry row.2 row.1 }

def lastRow (rows : List (SnapshotEntry × Time)) (key : Key) : Option Entry :=
  (rows.reverse.find? fun row => row.1.key = key).bind rowEntry

/-- The rows with the readings of the clock from `first` on. -/
def rowsAt (clock : Nat → Time) (first : Nat) (rows : List SnapshotEntry) :
    List (SnapshotEntry × Time) :=
  (rows.zipIdx first).map fun pair => (pair.1, clock pair.2)

def Store.HoldsRows (s : Store) (rows : List (SnapshotEntry × Time)) : Prop :=
  ∀ si key, (s.shards si).m.lookup key = if s.route key = si then lastRow rows key else none

/-! ## The loops keep that -/

theorem lastRow_append (rows : List (SnapshotEntry × Time)) (row : SnapshotEntry × Time) (key : Key) :
    lastRow (rows ++ [row]) key = if row.1.key = key then rowEntry row else lastRow rows key := by
  unfold lastRow
  rw [List.reverse_append, List.reverse_singleton, List.singleton_append, List.find?_cons]
  by_cases own : row.1.key = key <;> simp [own]

theorem rowsAt_append (clock : Nat → Time) (first : Nat) (rows more : List SnapshotEntry) :
    rowsAt clock first (rows ++ more)
      = rowsAt clock first rows ++ rowsAt clock (first + rows.length) more := by
  simp only [rowsAt, List.zipIdx_append, List.map_append]

theorem holdsRows_flushDB (s : Store) : s.flushDB.HoldsRows [] := by
  intro si key
  rw [Store.flushDB_m, show lastRow [] key = none from rfl, ite_self]

section Clock

variable {clock : Nat → Time} {first : Nat} {depth : Nat}

theorem applySnapshotEntry_holds {s : Store} {rows : List (SnapshotEntry × Time)}
    {ent : SnapshotEntry} (now : Time) (unlimited : s.maxMem = 0) (holds : s.HoldsRows rows)
    (known : (Store.snapshotValue ent.value).isSome = true) :
    ∃ t, s.applySnapshotEntry now ent = (t, .ok ()) ∧ t.maxMem = 0
      ∧ t.HoldsRows (rows ++ [(ent, now)]) := by
  obtain ⟨value, isValue⟩ := Option.isSome_iff_exists.mp known
  unfold Store.applySnapshotEntry Store.ensureMemoryWithRetry
  simp only [isValue, unlimited]
  refine ⟨_, rfl, by rw [Store.replaceEntry_maxMem, unlimited], fun si key => ?_⟩
  have row : rowEntry (ent, now)
      = some { value := value, expiresAt := Store.snapshotExpiry now ent } := by
    rw [rowEntry, isValue, Option.map_some]
  rw [lastRow_append, Store.replaceEntry_route, Store.replaceEntry_m, row]
  by_cases own : ent.key = key
  · subst own
    by_cases here : s.route ent.key = si
    · simp [here]
    · rw [if_neg (Ne.symm here), if_neg here, holds si ent.key, if_neg here]
  · rw [if_neg own, ← holds si key]
    split
    · rw [lookup_insert_eq_ite, if_neg (Ne.symm own)]
    · rfl

/-- A pull in progress: no memory limit, and the store holds the rows applied since
the clock's reading `first`. -/
structure Pulling.Holds (clock : Nat → Time) (first : Nat) (p : Pulling)
    (rows : List SnapshotEntry) : Prop where
  unlimited : p.store.maxMem = 0
  holds : p.store.HoldsRows (rowsAt clock first rows)
  reads : p.reads = first + rows.length

def Known (rows : List SnapshotEntry) : Prop :=
  ∀ ent ∈ rows, (Store.snapshotValue ent.value).isSome = true

variable {p : Pulling} {batch : List SnapshotEntry}

variable {applied : List SnapshotEntry} {frames : List (Option PeerMessage)}

theorem flushBatch_holds (holding : p.Holds clock first applied) (known : Known batch) :
    ∃ q, flushBatch clock p batch = (q, .ok ()) ∧ q.Holds clock first (applied ++ batch) := by
  induction batch generalizing p applied with
  | nil => exact ⟨p, rfl, by rwa [List.append_nil]⟩
  | cons ent rest ih =>
    obtain ⟨here, later⟩ := List.forall_mem_cons.mp known
    obtain ⟨t, did, unlimited, holds⟩ :=
      applySnapshotEntry_holds (clock p.reads) holding.unlimited holding.holds here
    have next : Pulling.Holds clock first ⟨t, p.reads + 1⟩ (applied ++ [ent]) := by
      refine ⟨unlimited, ?_, ?_⟩
      · rw [rowsAt_append, ← holding.reads]
        exact holds
      · rw [List.length_append, holding.reads]
        rfl
    obtain ⟨q, flushed, done⟩ := ih next later
    refine ⟨q, ?_, by rwa [List.append_assoc] at done⟩
    simp only [flushBatch, did, flushed]

variable (clock) in
theorem flushBatch_fails (p : Pulling) (bad : ¬ Known batch) :
    (flushBatch clock p batch).2.isOk = false := by
  induction batch generalizing p with
  | nil => exact absurd nofun bad
  | cons ent rest ih =>
    unfold flushBatch
    split
    · rfl
    · next store did =>
      -- an entry that was applied is not the bad one
      have here : (Store.snapshotValue ent.value).isSome = true := by
        unfold Store.applySnapshotEntry at did
        cases isValue : Store.snapshotValue ent.value with
        | none =>
          rw [isValue] at did
          cases did
        | some value => rfl
      exact ih _ fun later => bad (List.forall_mem_cons.mpr ⟨here, later⟩)

theorem flushThen_fails (bad : ¬ Known batch) (next : Pulling → Pulling × Except PullError Unit) :
    (flushThen clock p batch next).2.isOk = false := by
  have failed := flushBatch_fails clock p bad
  unfold flushThen
  split
  · rfl
  · next flushed =>
    rw [flushed] at failed
    cases failed

theorem pullFrames_fails (bad : ¬ Known batch) :
    (pullFrames clock depth frames batch p).2.isOk = false := by
  induction frames generalizing batch p with
  | nil => exact flushThen_fails bad _
  | cons frame rest ih =>
    cases frame with
    | none => exact flushThen_fails bad _
    | some frame =>
      have more (ent : SnapshotEntry) : ¬ Known (batch ++ [ent]) := fun all =>
        bad fun row listed => all row (List.mem_append_left _ listed)
      unfold pullFrames
      dsimp only
      split
      · exact flushBatch_fails clock p bad
      · split
        · rfl
        · next ent _ =>
          split
          · exact flushThen_fails (more ent) _
          · exact ih (more ent)
      · rfl

/-- What the loop makes of a stream: it succeeds exactly on a complete one, and then
the store holds the rows. -/
def PullsAs (clock : Nat → Time) (first : Nat) (applied : List SnapshotEntry)
    (outcome : Pulling × Except PullError Unit) : Option (List SnapshotEntry) → Prop
  | some rows => ∃ q, outcome = (q, .ok ()) ∧ q.Holds clock first (applied ++ rows)
  | none => outcome.2.isOk = false

theorem pullFrames_spec (holding : p.Holds clock first applied) (known : Known batch) :
    PullsAs clock first (applied ++ batch) (pullFrames clock depth frames batch p)
      (completeRows frames) := by
  -- the rows applied and the rows of the batch are those of the frames read so far
  induction frames generalizing applied batch p with
  | nil =>
    unfold completeRows pullFrames PullsAs flushThen
    dsimp only
    split <;> rfl
  | cons frame rest ih =>
    cases frame with
    | none =>
      unfold completeRows pullFrames PullsAs flushThen
      dsimp only
      split <;> rfl
    | some frame =>
      unfold completeRows pullFrames
      dsimp only
      cases (normalizePeerMessage frame).type with
      | bootstrapDone =>
        unfold PullsAs
        dsimp only
        rw [List.append_nil]
        exact flushBatch_holds holding known
      | bootstrapChunk =>
        dsimp only
        cases (normalizePeerMessage frame).payload.bind decodeSnapshotEntry with
        | none => rfl
        | some ent =>
          dsimp only
          by_cases valid : (Store.snapshotValue ent.value).isSome = true
          · have known' : Known (batch ++ [ent]) :=
              List.forall_mem_append.mpr ⟨known, List.forall_mem_singleton.mpr valid⟩
            rw [if_pos valid]
            have step : PullsAs clock first (applied ++ (batch ++ [ent]))
                (if depth ≤ (batch ++ [ent]).length then
                  flushThen clock p (batch ++ [ent]) fun p => pullFrames clock depth rest [] p
                else pullFrames clock depth rest (batch ++ [ent]) p) (completeRows rest) := by
              split
              · obtain ⟨q, flushed, holding'⟩ := flushBatch_holds holding known'
                simp only [flushThen, flushed]
                have later := ih holding' (show Known [] from nofun)
                rwa [List.append_nil] at later
              · exact ih holding known'
            cases complete : completeRows rest with rw [complete] at step
            | none => exact step
            | some rows =>
              obtain ⟨q, ended, holds⟩ := step
              refine ⟨q, ended, ?_⟩
              simpa only [List.append_assoc, List.singleton_append] using holds
          · have bad : ¬ Known (batch ++ [ent]) := fun all => valid (all ent (by simp))
            rw [if_neg valid]
            show Except.isOk _ = false
            split
            · exact flushThen_fails bad _
            · exact pullFrames_fails bad
      | _ => rfl

variable (clock) in
theorem flushBatch_maxMem (p : Pulling) (batch : List SnapshotEntry) :
    (flushBatch clock p batch).1.store.maxMem = p.store.maxMem := by
  induction batch generalizing p with
  | nil => rfl
  | cons ent rest ih =>
    have step := (p.store.applySnapshotEntry_evolves (clock p.reads) ent).maxMem
    unfold flushBatch
    split
    · next did =>
      rw [did] at step
      exact step
    · next did =>
      rw [did] at step
      rw [ih]
      exact step

theorem flushThen_maxMem (p : Pulling) (batch : List SnapshotEntry)
    (next : Pulling → Pulling × Except PullError Unit)
    (keeps : ∀ p, (next p).1.store.maxMem = p.store.maxMem) :
    (flushThen clock p batch next).1.store.maxMem = p.store.maxMem := by
  have flushed := flushBatch_maxMem clock p batch
  unfold flushThen
  split
  · next did =>
    rw [did] at flushed
    exact flushed
  · next did =>
    rw [did] at flushed
    rw [keeps]
    exact flushed

theorem pullFrames_maxMem (frames : List (Option PeerMessage)) (batch : List SnapshotEntry)
    (p : Pulling) : (pullFrames clock depth frames batch p).1.store.maxMem = p.store.maxMem := by
  induction frames generalizing batch p with
  | nil => exact flushThen_maxMem p batch _ fun _ => rfl
  | cons frame rest ih =>
    cases frame with
    | none => exact flushThen_maxMem p batch _ fun _ => rfl
    | some frame =>
      unfold pullFrames
      dsimp only
      split
      · exact flushBatch_maxMem clock p batch
      · split
        · rfl
        · split
          · exact flushThen_maxMem p _ _ fun p => ih [] p
          · exact ih _ p
      · rfl

/-! ## All or nothing -/

variable {hmac : Bytes → Bytes → Bytes} {self : PeerConfig} {bootstrapQueueDepth : Int}

variable (clock hmac self bootstrapQueueDepth) in
theorem pullSnapshotOnce_maxMem (source : Source) (p : Pulling) :
    (pullSnapshotOnce clock hmac self bootstrapQueueDepth source p).1.store.maxMem
      = p.store.maxMem := by
  cases source with
  | none => rfl
  | some connection =>
    unfold pullSnapshotOnce
    dsimp only
    split
    · rfl
    · rw [pullFrames_maxMem, Store.flushDB_maxMem]

variable (clock hmac self bootstrapQueueDepth) in
theorem pullSnapshotOnce_spec (source : Source) (unlimited : p.store.maxMem = 0) :
    PullsAs clock p.reads [] (pullSnapshotOnce clock hmac self bootstrapQueueDepth source p)
      (source.snapshot hmac self) := by
  cases source with
  | none => rfl
  | some connection =>
    have flushed : Pulling.Holds clock p.reads { p with store := p.store.flushDB } [] :=
      ⟨by rw [Store.flushDB_maxMem, unlimited], holdsRows_flushDB p.store, rfl⟩
    unfold pullSnapshotOnce Source.snapshot
    rw [Option.bind_some]
    dsimp only
    cases ((openPull hmac self).play connection).result with
    | error error => rfl
    | ok _ => exact pullFrames_spec flushed (show Known [] from nofun)

def Store.IsEmpty (s : Store) : Prop :=
  ∀ si, (s.shards si).m = ∅

theorem isEmpty_flushDB (s : Store) : s.flushDB.IsEmpty := fun si =>
  Finmap.ext_lookup fun key => by rw [Store.flushDB_m, Finmap.lookup_empty]

variable (clock hmac self bootstrapQueueDepth) in
theorem pullSnapshotFailover_spec (addrs : List (Bytes × Source)) (lastErr : Option PullError)
    (unlimited : p.store.maxMem = 0) (clean : lastErr.isSome = true → p.store.IsEmpty) :
    let outcome := pullSnapshotFailover clock hmac self bootstrapQueueDepth addrs lastErr p
    match (triedSources addrs).findSome? (Source.snapshot hmac self) with
    | some rows => outcome.2.isOk = true
        ∧ ∃ first, outcome.1.store.HoldsRows (rowsAt clock first rows)
    | none => outcome.2.isOk = false
        ∧ (lastErr.isSome = true ∨ triedSources addrs ≠ [] → outcome.1.store.IsEmpty) := by
  induction addrs generalizing lastErr p with
  | nil =>
    cases lastErr with
    | none => exact ⟨rfl, fun tried => by simp [triedSources] at tried⟩
    | some last => exact ⟨rfl, fun _ => clean rfl⟩
  | cons pair rest ih =>
    obtain ⟨addr, source⟩ := pair
    by_cases blank : trimSpace addr = []
    · have skipped : triedSources ((addr, source) :: rest) = triedSources rest := by
        simp [triedSources, blank]
      simp only [pullSnapshotFailover, blank, if_true, skipped]
      exact ih lastErr unlimited clean
    · have tried : triedSources ((addr, source) :: rest) = source :: triedSources rest := by
        simp [triedSources, blank]
      have once := pullSnapshotOnce_spec clock hmac self bootstrapQueueDepth source unlimited
      have limit := pullSnapshotOnce_maxMem clock hmac self bootstrapQueueDepth source p
      simp only [pullSnapshotFailover, blank, if_false, tried, List.findSome?_cons]
      cases snapshot : source.snapshot hmac self with rw [snapshot] at once
      | some rows =>
        obtain ⟨q, ended, holds⟩ := once
        simp only [ended]
        exact ⟨rfl, p.reads, holds.holds⟩
      | none =>
        rcases outcome : pullSnapshotOnce clock hmac self bootstrapQueueDepth source p
          with ⟨q, error | done⟩
        · -- the next source starts from an empty store, and so ends one that fails
          rw [outcome] at limit
          have unlimited' : q.store.flushDB.maxMem = 0 := by
            rw [Store.flushDB_maxMem, limit, unlimited]
          have next := ih (some error)
            (p := { q with store := q.store.flushDB }) unlimited' fun _ => isEmpty_flushDB q.store
          dsimp only at next ⊢
          cases later : (triedSources rest).findSome? (Source.snapshot hmac self) with
            rw [later] at next
          | some rows => exact next
          | none => exact ⟨next.1, fun _ => next.2 (.inl rfl)⟩
        · rw [outcome] at once
          cases once

variable (clock hmac self bootstrapQueueDepth) in
/-- Pulling a snapshot is all or nothing: it succeeds exactly when some source that is
tried completes its stream; the store then holds the rows of the first such source and
nothing else, and it is empty after a failure. -/
theorem pull_all_or_nothing (addrs : List (Bytes × Source)) {p : Pulling}
    (unlimited : p.store.maxMem = 0) :
    let outcome := pullSnapshotFailover clock hmac self bootstrapQueueDepth addrs none p
    (outcome.2.isOk = true
        ↔ ∃ source ∈ triedSources addrs, (source.snapshot hmac self).isSome = true)
      ∧ (outcome.2.isOk = true → ∃ rows first,
        (triedSources addrs).findSome? (Source.snapshot hmac self) = some rows
          ∧ outcome.1.store.HoldsRows (rowsAt clock first rows))
      ∧ (outcome.2.isOk = false → triedSources addrs ≠ [] → outcome.1.store.IsEmpty) := by
  have spec := pullSnapshotFailover_spec clock hmac self bootstrapQueueDepth addrs none unlimited nofun
  dsimp only at spec ⊢
  have some_iff : (∃ source ∈ triedSources addrs, (source.snapshot hmac self).isSome = true)
      ↔ ((triedSources addrs).findSome? (Source.snapshot hmac self)).isSome = true := by
    rw [List.findSome?_isSome_iff]
  rw [some_iff]
  cases found : (triedSources addrs).findSome? (Source.snapshot hmac self) with rw [found] at spec
  | some rows =>
    obtain ⟨succeeded, first, holds⟩ := spec
    simp only [succeeded, Option.isSome_some]
    exact ⟨trivial, fun _ => ⟨rows, first, rfl, holds⟩, nofun⟩
  | none =>
    obtain ⟨failed, empty⟩ := spec
    simp only [failed, Option.isSome_none]
    exact ⟨by simp, nofun, fun _ tried => empty (.inr tried)⟩

end Clock

def oneRowSource : Source :=
  some (.lossless [
    challengeMessage nodeOfB [7],
    ackMessage { ok := true, err := [] },
    { type := .bootstrapChunk, nodeID := [], payload := some (encodeSnapshotEntry {
        key := ascii "k", value := .string (ascii "v"), ttlMs := 0 }) },
    { type := .bootstrapDone, nodeID := [], payload := none }])

def cutOffSource : Source :=
  oneRowSource.map fun connection => { connection with inbox := connection.inbox.take 3 }

def cutOffFirst : List (Bytes × Source) :=
  [(ascii "h1:7379", cutOffSource), (ascii "h2:7379", oneRowSource)]

theorem triedSources_cutOffFirst : triedSources cutOffFirst = [cutOffSource, oneRowSource] :=
  rfl

/-- After a source that is cut off, the snapshot of the next one. -/
theorem pull_from_second :
    ∃ rows first, oneRowSource.snapshot pairHash nodeOfA = some rows
      ∧ (pullSnapshotFailover (fun _ => 1) pairHash nodeOfA 0 cutOffFirst none
          ⟨newStore .noeviction 0 sortedOracle, 0⟩).1.store.HoldsRows
        (rowsAt (fun _ => 1) first rows) := by
  have cutOff : cutOffSource.snapshot pairHash nodeOfA = none := rfl
  have complete : (oneRowSource.snapshot pairHash nodeOfA).isSome = true := by decide
  have unlimited : (newStore .noeviction 0 sortedOracle).maxMem = 0 := rfl
  obtain ⟨succeeds, holds, -⟩ := pull_all_or_nothing (fun _ => 1) pairHash nodeOfA 0 cutOffFirst
    (p := ⟨newStore .noeviction 0 sortedOracle, 0⟩) unlimited
  obtain ⟨rows, first, found, held⟩ := holds (succeeds.mpr
    ⟨oneRowSource, by rw [triedSources_cutOffFirst]; simp, complete⟩)
  rw [triedSources_cutOffFirst, List.findSome?_cons, cutOff] at found
  dsimp only at found
  rw [List.findSome?_cons_of_isSome complete] at found
  exact ⟨rows, first, found, held⟩

end SuperCache
