import SuperCache.Commands.Reads
import SuperCache.Commands.Registry
import SuperCache.Replication.Replay

/-! # Commands that replicate what they did

A command mirrors itself when replaying the payloads it sent, on the keyspace it
started from, gives the keyspace it left (`Mirrors`).  Most commands do, for
every argument list.  The proofs go through one rule for the handlers that make
a single call (`call_mirrors`) and one for a read before the rest
(`Mirrors.read`); what is left for each command is what its operation makes of
one entry.
-/

namespace SuperCache

open Lib

/-- The condition is that there is no limit, or the command was accepted and there was
room for what it sent. -/
structure Mirrors (now : Time) (s : Store) (o : Outcome) : Prop where
  live : s.maxMem = 0 ∨ o.reply.accepts = true → s.HasRoom (loads now o.sent (s.live now)) →
    o.store.live now = replayAll now o.sent (s.live now)
  maxMem : o.store.maxMem = s.maxMem

/-- The payloads mean what the operation does to its key, and ask for no less room. -/
structure Means {ρ : Type} (now : Time) (view : Keyspace) (sent : List ReplicatePayload) (key : Key)
    (op : KeyOp ρ) : Prop where
  replayed : replayAll now sent view = onKey now key op view
  paid : (op (.ofLive (view key))).growth ≤ loads now sent view

/-- Two operations that do the same to an entry and ask for the same room. -/
def KeyOp.Like {ρ ρ' : Type} (op : KeyOp ρ) (op' : KeyOp ρ') (cur : Option Entry) : Prop :=
  op.after (.ofLive cur) = op'.after (.ofLive cur)
    ∧ (op (.ofLive cur)).growth = (op' (.ofLive cur)).growth

/-- The operation leaves the entry as it is and asks for no room. -/
def KeyOp.Rests {ρ : Type} (op : KeyOp ρ) (cur : Option Entry) : Prop :=
  op.after (.ofLive cur) = cur ∧ (op (.ofLive cur)).growth ≤ 0

section Rules

variable {ρ ρ' : Type} {now : Time} {key : Key} {s t : Store} {o : Outcome} {view : Keyspace}
  {p : ReplicatePayload} {op : KeyOp ρ} {op' : KeyOp ρ'}

theorem Means.one (replayed : replay now p view = onKey now key op view)
    (paid : (op (.ofLive (view key))).growth ≤ p.load view) : Means now view [p] key op :=
  ⟨replayed, paid.trans (add_zero _).ge⟩

theorem Means.done {sent : List ReplicatePayload}
    (decides : ∀ found, KeyOp.Decides false key False found (op found))
    (replayed : replayAll now sent view = onKey now key op view) : Means now view sent key op :=
  ⟨replayed, ((KeyOp.immediate_of_decides decides).growth _).trans_le (loads_nonneg now sent view)⟩

theorem KeyOp.rests_of_decides {cur : Option Entry}
    (decides : ∀ found, KeyOp.Decides false key False found (op found))
    (same : op.after (.ofLive cur) = cur) : op.Rests cur :=
  ⟨same, ((KeyOp.immediate_of_decides decides).growth _).le⟩

theorem Means.like {sent : List ReplicatePayload} (means : Means now view sent key op')
    (like : op.Like op' (view key)) : Means now view sent key op where
  replayed := by
    rw [means.replayed]
    unfold onKey KeyOp.effect
    rw [like.1]
  paid := like.2.trans_le means.paid

theorem KeyOp.Rests.effect {cur : Option Entry} (rests : op.Rests cur) (live : alive now cur = cur) :
    op.effect now cur = cur := by
  unfold KeyOp.effect
  rw [rests.1, live]

theorem Means.rests (live : alive now (view key) = view key) (rests : op.Rests (view key)) :
    Means now view [] key op where
  replayed := by
    unfold onKey
    rw [rests.effect live, Function.update_eq_self]
    rfl
  paid := rests.2

theorem Mirrors.replies (reply : Reply) (sameLive : t.live now = s.live now)
    (sameLimit : t.maxMem = s.maxMem) : Mirrors now s (.replies t reply) :=
  ⟨fun _ _ => sameLive, sameLimit⟩

variable {onError : StoreErr → Reply} {reply : ρ → Reply}

theorem Mirrors.of_reads (reads : Store.Reads now s t) (mirrors : Mirrors now t o) :
    Mirrors now s o := by
  obtain ⟨sameLive, sameLimit⟩ := reads.live
  refine ⟨fun accepted room => ?_, mirrors.maxMem.trans sameLimit⟩
  rw [← sameLive] at room ⊢
  exact mirrors.live (by rwa [sameLimit]) (reads.room room)

variable {failure : StoreErr} {sent : ρ → List ReplicatePayload}

theorem KeyOp.after_of_error {found : Look} (failed : op.answer found = .error failure) :
    op.after found = found.current := by
  unfold KeyOp.answer KeyOp.after at *
  cases decision : op found with rw [decision] at failed
  | done kind commit =>
    cases commit with
    | keep result => rfl
    | purge e result => cases failed
    | replace old ne result => cases failed
  | ensure kind delta old ne result retry => cases failed

theorem KeyOp.effect_of_error {cur : Option Entry} (live : alive now cur = cur)
    (failed : op.outcome cur = .error failure) : op.effect now cur = cur := by
  unfold KeyOp.effect
  rw [KeyOp.after_of_error failed]
  cases cur with
  | none => rfl
  | some e => exact live

theorem call_mirrors (regular : op.Regular) (rejects : ∀ failure, (onError failure).accepts = false)
    (means : ∀ result, op.outcome (s.live now key) = .ok result →
      Means now (s.live now) (sent result) key op) :
    Mirrors now s (.ofCall (s.run now key op) onError sent reply) := by
  have limit := (s.run_frame now key op).1
  have fits := s.run_live_fits now key regular.blind
  have succeeded : ∀ result, (s.run now key op).2 = .ok result → _ := fun result ok =>
    (Store.run_ok regular ok).1
  unfold Outcome.ofCall Outcome.onOk
  rcases equation : s.run now key op with ⟨t, failure | result⟩ <;>
    rw [equation] at limit fits succeeded
  · refine ⟨fun accepted _ => ?_, limit⟩
    obtain ⟨live, failed⟩ :=
      fits (.inr (.inl (accepted.resolve_right (by simp [Outcome.replies, rejects]))))
    rw [KeyOp.effect_of_error (s.alive_live now key) failed.symm, Function.update_eq_self] at live
    exact live
  · obtain ⟨replayed, paid⟩ := means result (succeeded result rfl)
    exact ⟨fun _ room => (fits (room.mono paid)).1.trans replayed.symm, limit⟩

theorem Mirrors.read {next : Store → ρ → Outcome} (readOnly : op.ReadOnly)
    (then_ : ∀ t result, Mirrors now t (next t result)) :
    Mirrors now s (.onOk (s.run now key op) onError next) := by
  have reads : Store.Reads now s (s.run now key op).1 := run_reads readOnly
  unfold Outcome.onOk
  rcases equation : s.run now key op with ⟨t, failure | result⟩ <;> rw [equation] at reads
  · exact .replies _ reads.live.1 reads.live.2
  · exact (then_ t result).of_reads reads

theorem read_mirrors (readOnly : op.ReadOnly) :
    Mirrors now s (.ofCall (s.run now key op) onError (fun _ => []) reply) :=
  .read readOnly fun _ result => .replies (reply result) rfl rfl

theorem reads_mirrors {outcome : Store × Except StoreErr ρ} (reads : Store.Reads now s outcome.1) :
    Mirrors now s (.ofCall outcome onError (fun _ => []) reply) := by
  obtain ⟨t, failure | result⟩ := outcome
  · exact .replies _ reads.live.1 reads.live.2
  · exact .replies _ reads.live.1 reads.live.2

theorem replayAll_sentIf (cond : Bool) (p : ReplicatePayload) (view : Keyspace) :
    replayAll now (sentIf cond p) view = if cond then replay now p view else view := by
  unfold sentIf
  split <;> rfl

theorem sentIf_mirrors {acts : ρ → Bool} {payload : ρ → ReplicatePayload} (regular : op.Regular)
    (rejects : ∀ failure, (onError failure).accepts = false)
    (sends : ∀ result, op.outcome (s.live now key) = .ok result → acts result = true →
      Means now (s.live now) [payload result] key op)
    (rests : ∀ result, op.outcome (s.live now key) = .ok result → acts result = false →
      op.Rests (s.live now key)) :
    Mirrors now s (.ofCall (s.run now key op) onError
      (fun result => sentIf (acts result) (payload result)) reply) := by
  refine call_mirrors regular rejects fun result done => ?_
  unfold sentIf
  split
  · next acted => exact sends result done acted
  · next idle =>
    exact .rests (s.alive_live now key) (rests result done (Bool.eq_false_iff.mpr idle))

end Rules

end SuperCache
