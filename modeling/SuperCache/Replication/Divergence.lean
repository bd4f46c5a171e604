import SuperCache.Replication.Agreement
import SuperCache.Replication.Foreseen

/-! # What a deviation does to a replica

`Deviation.theirs` is what the replay of the payloads leaves under the key.  The
values come apart exactly when the deviation is not `ValueSafe`, the deadlines
exactly when it is not `DeadlineSafe`.
-/

namespace SuperCache

open Lib

namespace Deviation

/-- What the payloads leave under the key, on a replica that holds `view`. -/
def theirs (now : Time) (view : Keyspace) : Deviation → Option Entry
  | .string key val exp =>
    some { value := .string val, expiresAt := setDeadline now (replicateSet now key val exp).ttlms }
  | .keeps _ val _ => some { value := .string val, expiresAt := 0 }
  | .silent key _ => view key
  | .getex _ val _ exp =>
    alive now (some { value := .string val, expiresAt := timeUnixMilli (unixMilli exp) })

def Fits (view : Keyspace) : Deviation → Prop
  | .silent key mine => mine.isSome ≠ (view key).isSome
  | .getex key val _ _ => (view key).map Entry.value = some (.string val)
  | _ => True

end Deviation

def Pending (now deadline : Time) : Prop :=
  deadline = 0 ∨ now ≤ deadline

instance (now deadline : Time) : Decidable (Pending now deadline) :=
  inferInstanceAs (Decidable (deadline = 0 ∨ now ≤ deadline))

def Close (deadline deadline' : Int) : Prop :=
  (deadline = 0 ↔ deadline' = 0) ∧ |deadline - deadline'| < 1000000

namespace Deviation

def ValueSafe (now : Time) : Deviation → Prop
  | .string _ _ exp => Pending now exp
  | .keeps .. => True
  | .silent .. => False
  | .getex _ _ _ exp => Pending now exp ↔ Pending now (timeUnixMilli (unixMilli exp))

instance (now : Time) (d : Deviation) : Decidable (d.ValueSafe now) := by
  unfold ValueSafe
  split <;> infer_instance

/-- The deviation gives the replica the deadline too, to the millisecond.  A TTL
travels as whole milliseconds, zero standing for none, and saturates at the
longest duration. -/
def DeadlineSafe (now : Time) : Deviation → Prop
  | .string _ _ exp =>
    Pending now exp → exp = 0 ∨ (1000000 ≤ exp - now ∧ exp - now < 9223372036855000000)
  | .keeps _ _ deadline => deadline = 0
  | .silent .. => True
  | .getex _ _ _ exp =>
    Pending now exp → Pending now (timeUnixMilli (unixMilli exp)) →
      Close exp (timeUnixMilli (unixMilli exp))

end Deviation

section Deviations

variable {now : Time} {view : Keyspace} {d : Deviation}

theorem Close.refl (instant : Time) : Close instant instant :=
  ⟨Iff.rfl, by simp⟩

variable {key : Key} {e : Entry} {exp : Time} {args : List Bytes}

theorem isExpired_eq_false_iff : isExpired now e = false ↔ Pending now e.expiresAt := by
  simp only [isExpired, Pending, decide_eq_false_iff_not, not_and_or, not_not, Int.not_lt]

theorem alive_of_pending (pending : Pending now e.expiresAt) : alive now (some e) = some e := by
  rw [alive_some, if_neg]
  rw [isExpired_eq_false_iff.mpr pending]
  exact Bool.false_ne_true

theorem alive_of_not_pending (passed : ¬ Pending now e.expiresAt) : alive now (some e) = none := by
  rw [alive_some, if_pos]
  rw [← isExpired_eq_false_iff, Bool.not_eq_false] at passed
  exact passed

/-! ## The deadline of a replicated `SET` -/

theorem setDeadline_none {val : Bytes} (past : exp = 0 ∨ exp ≤ now) :
    setDeadline now (replicateSet now key val exp).ttlms = 0 := by
  have noTime : (replicateSet now key val exp).ttlms = 0 := by
    unfold replicateSet
    simp only
    split
    · rfl
    · next bounded =>
      have noneLeft := inMilliseconds_nonpos (untilTime_nonpos (past.resolve_left bounded))
      omega
  rw [noTime]
  rfl

theorem setDeadline_gap (now : Time) {gap : Int} (ahead : 0 ≤ gap) :
    setDeadline now (max 0 (min (gap / 1000000) 9223372036854))
      = if 1000000 ≤ gap then now + min (gap / 1000000) 9223372036854 * 1000000 else 0 := by
  unfold setDeadline
  rw [max_eq_right (by omega)]
  split
  · rw [milliseconds_eq (by omega) (by omega), if_pos (by omega)]
  · rw [if_neg (by omega)]

theorem setDeadline_ahead (key : Key) (val : Bytes) (given : exp ≠ 0) (ahead : now ≤ exp) :
    setDeadline now (replicateSet now key val exp).ttlms
      = if 1000000 ≤ exp - now
        then now + min ((exp - now) / 1000000) 9223372036854 * 1000000 else 0 := by
  have left : (replicateSet now key val exp).ttlms
      = max 0 (min ((exp - now) / 1000000) 9223372036854) := by
    unfold replicateSet
    simp only
    rw [if_neg given, inMilliseconds_untilTime ahead]
  rw [left]
  exact setDeadline_gap now (Int.sub_nonneg.mpr ahead)

theorem setDeadline_pending (key : Key) (val : Bytes) (exp : Time) :
    Pending now (setDeadline now (replicateSet now key val exp).ttlms) := by
  by_cases past : exp = 0 ∨ exp ≤ now
  · exact .inl (setDeadline_none past)
  · rw [not_or, not_le] at past
    rw [setDeadline_ahead key val past.1 (le_of_lt past.2)]
    split
    · right
      have gap : (0 : Int) ≤ exp - now := Int.sub_nonneg.mpr (le_of_lt past.2)
      have whole : (0 : Int) ≤ min ((exp - now) / 1000000) 9223372036854 * 1000000 := by omega
      exact Int.le_add_of_nonneg_right whole
    · exact .inl rfl

/-! ## Mine and theirs -/

theorem Deviation.value_iff (fits : d.Fits view) :
    (d.mine now).map Entry.value = (d.theirs now view).map Entry.value ↔ d.ValueSafe now := by
  cases d with
  | string key val exp =>
    by_cases pending : Pending now exp
    · simp [Deviation.mine, Deviation.theirs, Deviation.ValueSafe, alive_of_pending, pending]
    · simp [Deviation.mine, Deviation.theirs, Deviation.ValueSafe, alive_of_not_pending, pending]
  | keeps key val deadline => exact iff_of_true rfl trivial
  | silent key mine =>
    refine iff_of_false (fun same => fits ?_) id
    have both := congrArg Option.isSome same
    rwa [Option.isSome_map, Option.isSome_map] at both
  | getex key val persists exp =>
    by_cases pending : Pending now exp <;>
      by_cases pending' : Pending now (timeUnixMilli (unixMilli exp)) <;>
      simp [Deviation.mine, Deviation.theirs, Deviation.ValueSafe, alive_of_pending,
        alive_of_not_pending, pending, pending']

theorem close_gap {now gap : Int} (clock : 0 < now) (ahead : 0 ≤ gap) :
    Close (now + gap)
        (if 1000000 ≤ gap then now + min (gap / 1000000) 9223372036854 * 1000000 else 0)
      ↔ 1000000 ≤ gap ∧ gap < 9223372036855000000 := by
  unfold Close
  rw [abs_lt]
  split <;> omega

theorem close_arrived (clock : 0 < now) (key : Key) (val : Bytes) (given : exp ≠ 0)
    (ahead : now ≤ exp) :
    Close exp (setDeadline now (replicateSet now key val exp).ttlms)
      ↔ 1000000 ≤ exp - now ∧ exp - now < 9223372036855000000 := by
  have arrived := close_gap clock (Int.sub_nonneg.mpr ahead)
  rw [add_sub_cancel] at arrived
  rw [setDeadline_ahead key val given ahead]
  exact arrived

theorem Deviation.deadline_iff (clock : 0 < now) (fits : d.Fits view) :
    (∀ e e', d.mine now = some e → d.theirs now view = some e' → Close e.expiresAt e'.expiresAt)
      ↔ d.DeadlineSafe now := by
  cases d with
  | string key val exp =>
    by_cases pending : Pending now exp
    · simp only [Deviation.mine, Deviation.theirs, Deviation.DeadlineSafe, alive_of_pending, pending,
        true_imp_iff]
      constructor
      · intro close
        by_cases given : exp = 0
        · exact .inl given
        · exact .inr ((close_arrived clock key val given (pending.resolve_left given)).mp
            (close _ _ rfl rfl))
      · rintro (rfl | bounds) _ _ ⟨⟩ ⟨⟩
        · rw [setDeadline_none (.inl rfl)]
          exact Close.refl 0
        · have ahead : now ≤ exp := Int.sub_nonneg.mp (le_trans (by decide) bounds.1)
          exact (close_arrived clock key val (ne_of_gt (lt_of_lt_of_le clock ahead)) ahead).mpr bounds
    · simp [Deviation.mine, Deviation.theirs, Deviation.DeadlineSafe, alive_of_not_pending, pending]
  | keeps key val deadline =>
    constructor
    · intro close
      exact (close _ _ rfl rfl).1.mpr rfl
    · rintro (rfl : deadline = 0) _ _ ⟨⟩ ⟨⟩
      exact Close.refl 0
  | silent key mine =>
    refine iff_of_true (fun e e' here there => absurd ?_ fits) trivial
    simp only [Deviation.mine, Deviation.theirs] at here there
    rw [here, there]
    rfl
  | getex key val persists exp =>
    by_cases pending : Pending now exp <;>
      by_cases pending' : Pending now (timeUnixMilli (unixMilli exp)) <;>
      simp [Deviation.mine, Deviation.theirs, Deviation.DeadlineSafe, alive_of_pending,
        alive_of_not_pending, pending, pending']

/-! ## The payloads of a deviation -/

theorem Deviation.replay_sent (fits : d.Fits view) (live : AllLive now view) :
    replayAll now (d.sent now) view = Function.update view d.key (d.theirs now view) := by
  cases d with
  | string key val exp =>
    show Function.update view key ((KeyOp.set key val _).effect now (view key)) = _
    rw [set_effect, alive_of_pending (setDeadline_pending key val exp)]
    rfl
  | keeps key val deadline =>
    show Function.update view key ((KeyOp.set key val _).effect now (view key)) = _
    rw [set_effect]
    exact congrArg _ (alive_of_no_deadline _)
  | silent key mine => exact (Function.update_eq_self key view).symm
  | getex key val persists exp =>
    obtain ⟨cur, persisted, value⟩ := replayAll_persists persists (live key)
    obtain ⟨e, rfl, isString⟩ := Option.map_eq_some_iff.mp (value.trans fits)
    have expired : replayAll now [replicatePExpireAtUnixMs key (unixMilli exp)]
        (Function.update view key (some e))
          = Function.update (Function.update view key (some e)) key
            ((KeyOp.expireAt (timeUnixMilli (unixMilli exp))).effect now
              (Function.update view key (some e) key)) := rfl
    simp only [Deviation.sent, replayAll_append, persisted, expired, Function.update_idem,
      Function.update_self]
    refine congrArg _ ?_
    obtain ⟨stored, deadline⟩ := e
    obtain rfl : stored = .string val := isString
    rfl

/-! ## Where deviations come from -/

theorem setDeviation_fits {val : Bytes} {o : SetOptions}
    (deviates : setDeviation now view key val o = some d) : d.Fits view := by
  revert deviates
  fun_cases setDeviation now view key val o <;> rintro ⟨⟩
  · next purges =>
    cases found : view key with
    | none => simp [SetOptions.purges, found] at purges
    | some e => simp [Deviation.Fits, found]
  · trivial

theorem purgeDeviation_fits {doomed : Entry → Bool}
    (deviates : purgeDeviation view key doomed = some d) : d.Fits view := by
  revert deviates
  fun_cases purgeDeviation view key doomed <;> rintro ⟨⟩
  next purges =>
    cases found : view key with
    | none => simp [found] at purges
    | some e => simp [Deviation.Fits, found]

theorem counterDeviation_fits {op : KeyOp Int} (deviates : counterDeviation view key op = some d) :
    d.Fits view := by
  revert deviates
  fun_cases counterDeviation view key op <;> rintro ⟨⟩
  trivial

theorem countByDeviation_fits {op : Key → Int → KeyOp Int}
    (deviates : countByDeviation op view args = some d) : d.Fits view := by
  unfold countByDeviation at deviates
  split at deviates
  · obtain ⟨n, -, counts⟩ := Option.bind_eq_some_iff.mp deviates
    exact counterDeviation_fits counts
  · cases deviates

theorem ttlDeviation_fits {unit : Int → Int} (deviates : ttlDeviation unit now args = some d) :
    d.Fits view := by
  unfold ttlDeviation at deviates
  split at deviates
  · obtain ⟨n, -, rfl⟩ := Option.map_eq_some_iff.mp deviates
    trivial
  · cases deviates

theorem appendDeviation_fits {tail : Bytes} (deviates : appendDeviation view key tail = some d) :
    d.Fits view := by
  revert deviates
  fun_cases appendDeviation view key tail <;> rintro ⟨⟩
  · next absent _ => simp [Deviation.Fits, absent]
  all_goals trivial

theorem getExDeviation_fits {opts : List Bytes}
    (deviates : getExDeviation now view key opts = some d) : d.Fits view := by
  unfold getExDeviation at deviates
  split at deviates
  · next persists exp bytes parsed read =>
    cases deviates
    exact get_outcome_some read
  · cases deviates

theorem Command.deviation_fits {cmd : Command} (deviates : cmd.deviation now view args = some d) :
    d.Fits view := by
  unfold Command.deviation at deviates
  split at deviates
  · cases deviates
  · revert deviates
    fun_cases Command.handlerDeviation now view cmd args <;> intro deviates
    · exact setDeviation_fits deviates
    · cases deviates
    · exact ttlDeviation_fits deviates
    · exact ttlDeviation_fits deviates
    · exact counterDeviation_fits deviates
    · exact counterDeviation_fits deviates
    · exact countByDeviation_fits deviates
    · exact countByDeviation_fits deviates
    · exact appendDeviation_fits deviates
    · exact getExDeviation_fits deviates
    · exact purgeDeviation_fits deviates
    · exact purgeDeviation_fits deviates
    · exact purgeDeviation_fits deviates
    · exact purgeDeviation_fits deviates
    · cases deviates

end Deviations

end SuperCache
