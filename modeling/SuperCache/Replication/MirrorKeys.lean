import SuperCache.Replication.Mirror

/-! # Generic commands mirror themselves

Deadlines, renames, flushes and the readers.  `TTL` and `PTTL` do so unless they
purge an entry at its very deadline.
-/

namespace SuperCache

open Lib

variable {now : Time} {s : Store} (args : List Bytes)

variable {cur : Option Entry} {ok : Bool}

theorem expireAt_rests {instant : Time} (done : (KeyOp.expireAt instant).outcome cur = .ok ok)
    (absent : ok = false) : (KeyOp.expireAt instant).Rests cur := by
  subst absent
  cases cur with
  | none => exact ⟨rfl, le_rfl⟩
  | some e => cases done

theorem expireCommand_mirrors (cmd : String) (kind : ExpiryKind) (args : List Bytes) :
    Mirrors now s (expireCommand cmd kind now s args) := by
  unfold expireCommand
  split
  · next key operand =>
    split
    · exact .replies _ rfl rfl
    · next n parsed =>
      have replayed : replay now (deadlinePayload kind key n) (s.live now)
          = onKey now key (KeyOp.expireAt (kind.instant now n)) (s.live now) := by
        cases kind with
        | ex => exact if_neg (expiryOperand_pos (.inl rfl) parsed)
        | px => exact if_neg (expiryOperand_pos (.inr rfl) parsed)
        | exat => rfl
        | pxat => rfl
      rw [setDeadlineOf_eq parsed]
      exact sentIf_mirrors (KeyOp.expireAt_regular _) (fun _ => rfl)
        (fun _ _ _ => .done (fun _ => KeyOp.expireAt_decides _ _) replayed)
        fun ok done absent => expireAt_rests done absent
  · exact .replies _ rfl rfl

theorem persist_rests (done : KeyOp.persist.outcome cur = .ok ok) (absent : ok = false) :
    KeyOp.persist.Rests cur := by
  subst absent
  refine KeyOp.rests_of_decides (fun _ => KeyOp.persist_decides []) ?_
  cases cur with
  | none => rfl
  | some e =>
    simp only [KeyOp.outcome, KeyOp.answer, KeyOp.after, KeyOp.persist, Look.ofLive] at done ⊢
    by_cases none : e.expiresAt = 0
    · rw [if_pos none]
      rfl
    · rw [if_neg none] at done
      cases done

theorem cmdPersist_mirrors : Mirrors now s (cmdPersist now s args) := by
  unfold cmdPersist
  split
  · exact sentIf_mirrors KeyOp.persist_regular (fun _ => rfl)
      (fun _ _ _ => .done (fun _ => KeyOp.persist_decides _) rfl)
      fun ok done absent => persist_rests done absent
  · exact .replies _ rfl rfl

theorem cmdRename_mirrors : Mirrors now s (cmdRename now s args) := by
  unfold cmdRename
  split
  · next src dst =>
    obtain ⟨live, limit⟩ := s.rename_live now src dst
    have missing : ∀ failure, (s.rename now src dst).2 = .error failure → src ≠ dst ∧
        s.live now src = none := by
      intro failure failed
      unfold Store.rename at failed
      split at failed
      · cases failed
      · next different =>
        refine ⟨different, ?_⟩
        split at failed
        · cases failed
        · next notLive => exact Store.live_eq_none notLive
    unfold Outcome.ofCall Outcome.onOk
    rcases equation : s.rename now src dst with ⟨t, failure | result⟩ <;>
      rw [equation] at live limit missing
    · obtain ⟨different, absent⟩ := missing failure rfl
      refine .replies _ (live.trans ?_) limit
      unfold Keyspace.move
      rw [if_neg different, absent]
    · exact ⟨fun _ _ => live, limit⟩
  · exact .replies _ rfl rfl

theorem exists_reads (keys : List Key) : Store.Reads now s (s.exists' now keys).1 := by
  induction keys generalizing s with
  | nil => exact .refl s
  | cons key rest ih => exact .read KeyOp.exists1_readOnly ih

theorem cmdRenameNX_mirrors : Mirrors now s (cmdRenameNX now s args) := by
  unfold cmdRenameNX
  split
  · next src dst =>
    have reads : Store.Reads now s (s.exists' now [src]).1 := exists_reads [src]
    generalize s.exists' now [src] = checked at reads ⊢
    simp only
    split
    · exact .replies _ reads.live.1 reads.live.2
    · refine Mirrors.of_reads reads ?_
      obtain ⟨moved, answer, live, limit⟩ := checked.1.renameNX_live now src dst
      unfold Outcome.ofCall Outcome.onOk
      rcases equation : checked.1.renameNX now src dst with ⟨t, failure | result⟩ <;>
        rw [equation] at answer live limit <;> cases answer
      refine ⟨fun _ _ => ?_, limit⟩
      simp only [replayAll_sentIf]
      exact live
  · exact .replies _ rfl rfl

theorem flushClusterDB_mirrors (op : ReplOp) (flush : op = .flushdb ∨ op = .flushall) :
    Mirrors now s (flushClusterDB op s) := by
  obtain ⟨live, limit⟩ := s.flushDB_live now
  obtain rfl | rfl := flush <;> exact ⟨fun _ _ => live, limit⟩

theorem cmdExists_mirrors : Mirrors now s (cmdExists now s args) := by
  unfold cmdExists
  split
  · next key keys =>
    have reads : Store.Reads now s (s.exists' now (key :: keys)).1 := exists_reads _
    exact .replies _ reads.live.1 reads.live.2
  · exact .replies _ rfl rfl

theorem ttlIn_rests {unit : Int → Int} (live : alive now cur = cur)
    (early : ∀ e, cur = some e → e.expiresAt ≠ now ∨ e.expiresAt = 0) :
    (KeyOp.ttlIn unit now).Rests cur := by
  refine KeyOp.rests_of_decides (fun _ => KeyOp.ttlIn_decides [] unit now) ?_
  cases cur with
  | none => rfl
  | some e =>
    have before : e.expiresAt = 0 ∨ 0 < untilTime now e.expiresAt := by
      by_cases zero : e.expiresAt = 0
      · exact .inl zero
      · have fresh : ¬ e.expiresAt < now := by
          intro past
          simp [alive_some, isExpired, zero, past] at live
        obtain different | none := early e rfl
        · exact .inr (untilTime_pos (lt_of_le_of_ne (not_lt.mp fresh) different.symm))
        · exact .inl none
    simp only [KeyOp.after, KeyOp.ttlIn, Look.ofLive]
    split
    · rfl
    · next deadline =>
      rw [if_neg (not_le.mpr (before.resolve_left deadline))]
      rfl

theorem remaining_mirrors (cmd : String) (op : Time → KeyOp Int) (unit : Int → Int)
    (isTTL : op = KeyOp.ttlIn unit) (args : List Bytes)
    (early : ∀ name key, args = [name, key] → ∀ e, s.live now key = some e →
      e.expiresAt ≠ now ∨ e.expiresAt = 0) :
    Mirrors now s (remaining cmd op now s args) := by
  subst isTTL
  unfold remaining
  split
  · next name key =>
    have live := s.alive_live now key
    exact call_mirrors (KeyOp.ttlIn_regular unit) (fun _ => rfl)
      fun _ _ => .rests live (ttlIn_rests live (early _ _ rfl))
  · exact .replies _ rfl rfl

end SuperCache
