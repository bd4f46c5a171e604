import SuperCache.Replication.ForeseenSet

/-! # What every command does and sends

The other deviating commands, and `dispatch_foreseen`: each command mirrors
itself, or does and sends what its deviation says.
-/

namespace SuperCache

open Lib

variable {now : Time} {s t : Store} {key : Key}

theorem setWithTTL_foreseen (cmd : String) (unit : Int → Int) (args : List Bytes) :
    Foreseen now s (setWithTTL cmd unit now s args) (ttlDeviation unit now args) := by
  match args with
  | [] | [_] | [_, _] | [_, _, _] | _ :: _ :: _ :: _ :: _ :: _ => exact .unchanged rfl rfl rfl
  | [_, key, amount, val] =>
    simp only [setWithTTL, ttlDeviation]
    cases expiryOperand .ex amount with
    | none => exact .unchanged rfl rfl rfl
    | some n => exact set_holds rfl

/-! The counters -/

variable {cur : Option Entry} {n : Int} {tail : Bytes}

theorem incrBy_effect {delta : Int} (live : alive now cur = cur)
    (done : (KeyOp.incrBy key delta).outcome cur = .ok n) :
    (KeyOp.incrBy key delta).effect now cur
      = some { value := .string (formatInt n), expiresAt := liveDeadline cur } := by
  unfold KeyOp.effect KeyOp.after
  unfold KeyOp.outcome KeyOp.answer at done
  unfold KeyOp.incrBy at *
  split at done
  · cases done
  · split at done
    · cases done
    · next next_ added =>
      obtain rfl : next_ = n := by simpa [Action.result] using done
      cases cur with
      | none => exact alive_of_no_deadline _
      | some e => exact alive_same_deadline _ live

theorem incrBy_growth {delta : Int} (done : (KeyOp.incrBy key delta).outcome cur = .ok n) :
    (KeyOp.incrBy key delta (.ofLive cur)).growth ≤ (KeyOp.set key (formatInt n) 0).adds cur := by
  unfold KeyOp.outcome KeyOp.answer at done
  unfold KeyOp.incrBy at *
  split at done
  · cases done
  · split at done
    · cases done
    · next next_ added =>
      obtain rfl : next_ = n := by simpa [Action.result] using done
      exact le_trans (by cases cur <;> exact le_rfl) (le_max_right _ _)

theorem countAndReplicate_foreseen (delta : Int) :
    Foreseen now s (countAndReplicate now s key (KeyOp.incrBy key delta))
      (counterDeviation (s.live now) key (KeyOp.incrBy key delta)) := by
  unfold counterDeviation
  split
  · next n outcome =>
    exact call_holds (d := .keeps key (formatInt n) (liveDeadline (s.live now key)))
      (KeyOp.incrBy_regular delta).blind outcome (incrBy_effect (s.alive_live now key) outcome) rfl
      (incrBy_growth outcome)
  · next failure outcome =>
    refine call_mirrors (KeyOp.incrBy_regular delta) incrReply_rejects fun n succeeded => ?_
    cases outcome.symm.trans succeeded

theorem countBy_foreseen (cmd : String) (op : Key → Int → KeyOp Int) (delta : Int → Int)
    (isIncr : ∀ key n, op key n = KeyOp.incrBy key (delta n)) (args : List Bytes) :
    Foreseen now s (countBy cmd op now s args) (countByDeviation op (s.live now) args) := by
  match args with
  | [] | [_] | [_, _] | _ :: _ :: _ :: _ :: _ => exact .unchanged rfl rfl rfl
  | [_, key, operand] =>
    simp only [countBy, countByDeviation]
    cases parseInt operand with
    | none => exact .unchanged rfl rfl rfl
    | some n =>
      simp only [Option.bind_some, isIncr]
      exact countAndReplicate_foreseen (delta n)

/-! `APPEND` -/

/-- What `APPEND` finds, `old` being the string that it extends. -/
def Extends (cur : Option Entry) (old : Bytes) : Prop :=
  (cur = none ∧ old = []) ∨ cur = some { value := .string old, expiresAt := liveDeadline cur }

theorem append_extends {old : Bytes} (live : alive now cur = cur) (extends_ : Extends cur old) :
    (KeyOp.append key tail).outcome cur = .ok (old ++ tail).length
      ∧ (KeyOp.append key tail).effect now cur
        = some { value := .string (old ++ tail), expiresAt := liveDeadline cur }
      ∧ (KeyOp.append key tail (.ofLive cur)).growth
        = estimateMem key { value := .string (old ++ tail), expiresAt := 0 } - oldBytes key cur := by
  obtain ⟨rfl, rfl⟩ | present := extends_
  · exact ⟨rfl, alive_of_no_deadline _, (sub_zero _).symm⟩
  · rw [present] at live ⊢
    exact ⟨rfl, alive_same_deadline _ live, rfl⟩

theorem cmdAppend_maxMem (s : Store) (now : Time) (name key tail : Bytes) :
    (cmdAppend now s [name, key, tail]).store.maxMem = s.maxMem := by
  have limit := (s.run_frame now key (KeyOp.append key tail)).1
  simp only [cmdAppend, Outcome.onOk]
  rcases ran : s.run now key (KeyOp.append key tail) with ⟨t, failure | n⟩ <;> rw [ran] at limit
  · exact limit
  · have same := (t.run_read now key KeyOp.get_readOnly).2
    rcases read : t.run now key KeyOp.get with ⟨u, failure | _ | bytes⟩ <;> rw [read] at same <;>
      simpa only [read, Outcome.replies] using same.trans limit

theorem cmdAppend_fits (name : Bytes) {old : Bytes} (extends_ : Extends (s.live now key) old)
    (room : s.HasRoom (KeyOp.append key tail (.ofLive (s.live now key))).growth) :
    (cmdAppend now s [name, key, tail]).store.live now = Function.update (s.live now) key
        (some { value := .string (old ++ tail), expiresAt := liveDeadline (s.live now key) })
      ∧ (cmdAppend now s [name, key, tail]).sent
        = if old ++ tail = [] then [] else [replicateSet now key (old ++ tail) 0] := by
  obtain ⟨done, effect, -⟩ := append_extends (s.alive_live now key) extends_
  obtain ⟨live, ok⟩ := s.run_live_fits now key (KeyOp.append_regular tail).blind room
  rw [effect] at live
  rw [done] at ok
  rcases ran : s.run now key (KeyOp.append key tail) with ⟨t, result⟩
  rw [ran] at live ok
  simp only at live ok
  obtain ⟨u, read, sameLive, -⟩ := t.run_read_eq now key KeyOp.get_regular KeyOp.get_readOnly
  have shown : KeyOp.get.outcome (t.live now key) = .ok (nilIfEmpty (old ++ tail)) := by
    rw [live, Function.update_self]
    rfl
  simp only [cmdAppend, Outcome.onOk, ran, ok, read, shown, nilIfEmpty]
  by_cases empty : old ++ tail = []
  · simp only [if_pos empty]
    exact ⟨sameLive.trans live, rfl⟩
  · simp only [if_neg empty]
    exact ⟨sameLive.trans live, trivial⟩

theorem cmdAppend_keeps (name : Bytes) {old : Bytes} (extends_ : Extends (s.live now key) old)
    (nonempty : old ++ tail ≠ []) :
    (Deviation.keeps key (old ++ tail) (liveDeadline (s.live now key))).Holds now s
      (cmdAppend now s [name, key, tail]) := by
  have asked : (KeyOp.append key tail (.ofLive (s.live now key))).growth
      ≤ (KeyOp.set key (old ++ tail) 0).adds (s.live now key) := by
    rw [(append_extends (s.alive_live now key) extends_).2.2]
    exact le_trans (by cases s.live now key <;> exact le_rfl) (le_max_right _ _)
  refine ⟨fun room => ?_, fun room => ?_, cmdAppend_maxMem s now name key tail⟩
  · exact (cmdAppend_fits name extends_ (room.mono asked)).1
  · rw [(cmdAppend_fits name extends_ (room.mono asked)).2, if_neg nonempty]
    rfl

theorem cmdAppend_foreseen (name tail : Bytes) :
    Foreseen now s (cmdAppend now s [name, key, tail]) (appendDeviation (s.live now) key tail) := by
  have limit := cmdAppend_maxMem s now name key tail
  unfold appendDeviation
  rcases found : s.live now key with _ | ⟨value, deadline⟩
  · have extends_ : Extends (s.live now key) [] := .inl ⟨found, rfl⟩
    simp only
    by_cases empty : tail = []
    · subst empty
      rw [if_pos rfl]
      have asked : (KeyOp.append key [] (.ofLive (s.live now key))).growth
          ≤ oldBytes key (some { value := .string [], expiresAt := 0 }) := by
        rw [found]
        exact le_rfl
      refine ⟨fun room => ?_, fun room => ?_, limit⟩
      · rw [(cmdAppend_fits name extends_ (room.mono asked)).1, found]
        rfl
      · exact (cmdAppend_fits name extends_ (room.mono asked)).2
    · rw [if_neg empty]
      have holds := cmdAppend_keeps name extends_ (show [] ++ tail ≠ [] from empty)
      rw [found] at holds
      exact holds
  · cases value with
    | string old =>
      have extends_ : Extends (s.live now key) old := .inr (by rw [found]; rfl)
      simp only
      by_cases empty : old ++ tail = []
      · rw [if_pos empty]
        obtain ⟨rfl, rfl⟩ := List.append_eq_nil_iff.mp empty
        -- nothing changes, and nothing is asked for
        have idle : (KeyOp.append key [] (.ofLive (s.live now key))).growth ≤ 0 := by
          rw [found]
          exact (sub_self _).le
        obtain ⟨live, sent⟩ := cmdAppend_fits name extends_ (.inl idle)
        refine .unchanged sent (live.trans ?_) limit
        rw [found]
        exact (congrArg (Function.update (s.live now) key) found.symm).trans (Function.update_eq_self ..)
      · rw [if_neg empty]
        have holds := cmdAppend_keeps name extends_ empty
        rw [found] at holds
        exact holds
    | _ =>
      -- a value of another type is left alone
      have regular : (KeyOp.append key tail).Regular := KeyOp.append_regular tail
      have fits := s.run_live_fits now key regular.blind (by rw [found]; exact .inl le_rfl)
      rw [found] at fits
      obtain ⟨live, failed⟩ := fits
      rcases ran : s.run now key (KeyOp.append key tail) with ⟨t, result⟩
      rw [ran] at live failed
      simp only at live failed
      have outcome : cmdAppend now s [name, key, tail] = .replies t (typeOrOomReply .wrongType) := by
        simp only [cmdAppend, Outcome.onOk, ran, failed]
        rfl
      rw [outcome] at limit ⊢
      refine .unchanged rfl (live.trans ?_) limit
      rw [KeyOp.effect_of_error (by rw [← found]; exact s.alive_live now key) rfl, ← found,
        Function.update_eq_self]

/-! `GETEX` -/

theorem getExLoop_spec (s : Store) (now : Time) (key : Key) (sent : List ReplicatePayload)
    (exp : Option Time) (opts : List Bytes) :
    ∃ t, getExLoop now key s sent exp opts
        = (t, sent ++ List.replicate (parseGetEx now exp opts).1 (replicatePersist key),
            (parseGetEx now exp opts).2)
      ∧ t.live now = replayAll now
          (List.replicate (parseGetEx now exp opts).1 (replicatePersist key)) (s.live now)
      ∧ t.maxMem = s.maxMem := by
  fun_induction getExLoop now key s sent exp opts with
  | case1 s sent exp => exact ⟨s, by simp [parseGetEx], rfl, rfl⟩
  | case2 s sent exp opt rest isPersist ih =>
    obtain ⟨t, equation, live, limit⟩ := ih
    obtain ⟨stepLive, -⟩ := s.run_immediate now key KeyOp.persist_regular KeyOp.persist_immediate
    refine ⟨t, ?_, ?_, limit.trans (s.run_frame now key KeyOp.persist).1⟩
    · rw [equation]
      simp [parseGetEx, isPersist, List.replicate_succ]
    · rw [live, stepLive]
      simp only [parseGetEx, isPersist, List.replicate_succ]
      rfl
  | case3 s sent exp opt kind isExpiry =>
    exact ⟨s, by simp [parseGetEx, isExpiry], by simp [parseGetEx, isExpiry, replayAll], rfl⟩
  | case4 s sent exp opt kind isExpiry operand rest refused =>
    exact ⟨s, by simp [parseGetEx, isExpiry, refused],
      by simp [parseGetEx, isExpiry, refused, replayAll], rfl⟩
  | case5 s sent exp opt kind isExpiry operand rest n parsed ih =>
    obtain ⟨t, equation, live, limit⟩ := ih
    refine ⟨t, ?_, ?_, limit⟩
    · rw [equation]
      simp [parseGetEx, isExpiry, parsed]
    · rw [live]
      simp [parseGetEx, isExpiry, parsed]
  | case6 s sent exp opt rest isOther =>
    exact ⟨s, by simp [parseGetEx, isOther], by simp [parseGetEx, isOther, replayAll], rfl⟩

theorem replayAll_persists (persists : Nat) {view : Keyspace}
    (live : alive now (view key) = view key) :
    ∃ cur, replayAll now (List.replicate persists (replicatePersist key)) view
        = Function.update view key cur
      ∧ cur.map Entry.value = (view key).map Entry.value := by
  induction persists generalizing view with
  | zero => exact ⟨view key, (Function.update_eq_self key view).symm, rfl⟩
  | succ persists ih =>
    let persisted := Function.update view key (KeyOp.persist.effect now (view key))
    have step : replay now (replicatePersist key) view = persisted := rfl
    have own : persisted key = KeyOp.persist.effect now (view key) := Function.update_self ..
    have stillLive : alive now (persisted key) = persisted key := by
      rw [own]
      exact alive_alive _
    have value : (KeyOp.persist.effect now (view key)).map Entry.value
        = (view key).map Entry.value := by
      cases found : view key with
      | none => rfl
      | some e =>
        rw [found] at live
        by_cases zero : e.expiresAt = 0
        · simp [KeyOp.effect, KeyOp.after, KeyOp.persist, Look.ofLive, zero, Action.post,
            Commit.post, Look.current, live]
        · simp [KeyOp.effect, KeyOp.after, KeyOp.persist, Look.ofLive, zero, Action.post,
            Commit.post, alive_of_no_deadline]
    obtain ⟨cur, equation, same⟩ := ih stillLive
    refine ⟨cur, ?_, ?_⟩
    · rw [List.replicate_succ, replayAll_cons, step, equation, Function.update_idem]
    · rw [same, own, value]

theorem get_outcome_value {cur' : Option Entry} (same : cur.map Entry.value = cur'.map Entry.value) :
    KeyOp.get.outcome cur = KeyOp.get.outcome cur' := by
  rcases cur with _ | ⟨value, deadline⟩ <;> rcases cur' with _ | ⟨value', deadline'⟩
  · rfl
  · cases same
  · cases same
  · obtain rfl : value = value' := by simpa using same
    cases value <;> rfl

theorem get_outcome_some {bytes : Bytes} (read : KeyOp.get.outcome cur = .ok (some bytes)) :
    cur.map Entry.value = some (.string bytes) := by
  rcases cur with _ | ⟨value, deadline⟩
  · cases read
  · cases value with
    | string old =>
      have nonempty : nilIfEmpty old = some bytes := by
        simpa [KeyOp.outcome, KeyOp.answer, KeyOp.get, Look.ofLive, Action.result, Commit.result]
          using read
      unfold nilIfEmpty at nonempty
      split at nonempty
      · cases nonempty
      · cases nonempty
        rfl
    | _ => cases read

theorem Foreseen.persists {o : Outcome} {persists : Nat}
    (sent : o.sent = List.replicate persists (replicatePersist key))
    (live : o.store.live now
      = replayAll now (List.replicate persists (replicatePersist key)) (s.live now))
    (limit : o.store.maxMem = s.maxMem) : Foreseen now s o none :=
  ⟨fun _ _ => by rw [sent]; exact live, limit⟩

theorem cmdGetEx_foreseen (name opt : Bytes) (opts : List Bytes) :
    Foreseen now s (cmdGetEx now s (name :: key :: opt :: opts))
      (getExDeviation now (s.live now) key (opt :: opts)) := by
  obtain ⟨t, equation, live, limit⟩ := getExLoop_spec s now key [] none (opt :: opts)
  obtain ⟨cur, persisted, value⟩ := replayAll_persists (parseGetEx now none (opt :: opts)).1
    (s.alive_live now key)
  have here : t.live now key = cur := by rw [live, persisted, Function.update_self]
  obtain ⟨sameLive, sameLimit⟩ := t.run_read now key KeyOp.get_readOnly
  have outcome := t.run_read_outcome now key KeyOp.get_regular KeyOp.get_readOnly
  rw [here, get_outcome_value value] at outcome
  unfold getExDeviation cmdGetEx
  simp only [equation, List.nil_append]
  rcases parsed : parseGetEx now none (opt :: opts) with ⟨persists, err | exp⟩ <;>
    rw [parsed] at live persisted
  · exact .persists rfl live limit
  · simp only [getExFinish]
    rcases got : t.run now key KeyOp.get with ⟨u, failure | _ | bytes⟩ <;>
      rw [got] at sameLive sameLimit outcome <;> rw [← outcome]
    · cases exp <;> exact .persists rfl (sameLive.trans live) (sameLimit.trans limit)
    · cases exp <;> exact .persists rfl (sameLive.trans live) (sameLimit.trans limit)
    · cases exp with
      | none => exact .persists rfl (sameLive.trans live) (sameLimit.trans limit)
      | some exp =>
        obtain ⟨given, -⟩ := u.run_immediate now key (KeyOp.expireAt_regular exp)
          (KeyOp.expireAt_immediate exp)
        have frame := (u.run_frame now key (KeyOp.expireAt exp)).1
        have string : cur.map Entry.value = some (.string bytes) := by
          rw [value]
          exact get_outcome_some outcome.symm
        obtain ⟨e, rfl, isString⟩ := Option.map_eq_some_iff.mp string
        have effect : (KeyOp.expireAt exp).effect now (u.live now key)
            = alive now (some { value := .string bytes, expiresAt := exp }) := by
          rw [sameLive, here, ← isString]
          rfl
        refine ⟨fun _ => ?_, fun _ => rfl, frame.trans (sameLimit.trans limit)⟩
        simp only
        rw [given, effect, sameLive, live, persisted, Function.update_idem]
        rfl

/-! Purges that are not replicated -/

theorem purge_foreseen {ρ : Type} {op : KeyOp ρ} {onError : StoreErr → Reply}
    {sent : ρ → List ReplicatePayload} {reply : ρ → Reply} {doomed : Entry → Bool}
    (regular : op.Regular) (decides : ∀ found, KeyOp.Decides false key False found (op found))
    (purges : ∀ e, s.live now key = some e → doomed e = true → ∃ result,
      op.outcome (some e) = .ok result ∧ op.effect now (some e) = none ∧ sent result = [])
    (mirrors : (∀ e, s.live now key = some e → doomed e = false) →
      Mirrors now s (.ofCall (s.run now key op) onError sent reply)) :
    Foreseen now s (.ofCall (s.run now key op) onError sent reply)
      (purgeDeviation (s.live now) key doomed) := by
  unfold purgeDeviation
  cases found : s.live now key with
  | none =>
    refine mirrors fun e present => ?_
    rw [found] at present
    cases present
  | some e =>
    simp only [Option.any_some]
    by_cases isDoomed : doomed e = true
    · obtain ⟨result, outcome, effect, quiet⟩ := purges e found isDoomed
      rw [← found] at outcome effect
      rw [if_pos isDoomed]
      exact call_holds (d := .silent key none) regular.blind outcome effect quiet
        ((KeyOp.immediate_of_decides decides).growth _).le
    · rw [if_neg isDoomed]
      refine mirrors fun other present => ?_
      rw [found] at present
      cases present
      exact Bool.eq_false_iff.mpr isDoomed

theorem foldl_erase_empty (fields : List Bytes) :
    fields.foldl (fun h field => h.erase field) (∅ : GoMap Bytes) = ∅ :=
  foldl_erase_of_absent fun _ _ => Finmap.lookup_empty _

theorem hDel_empty (now : Time) (fields : List Bytes) (deadline : Time) :
    (KeyOp.hDel fields).outcome (some { value := .hash ∅, expiresAt := deadline }) = .ok 0
      ∧ (KeyOp.hDel fields).effect now (some { value := .hash ∅, expiresAt := deadline }) = none := by
  constructor
  · simp [KeyOp.outcome, KeyOp.answer, KeyOp.hDel, Look.ofLive, foldl_erase_empty, Action.result,
      Commit.result]
  · simp [KeyOp.effect, KeyOp.after, KeyOp.hDel, Look.ofLive, foldl_erase_empty, Action.post,
      Commit.post]

theorem cmdHDel_foreseen (name field : Bytes) (rest : List Bytes) :
    Foreseen now s (cmdHDel now s (name :: key :: field :: rest))
      (purgeDeviation (s.live now) key fun e => e.value = .hash ∅) := by
  refine purge_foreseen (KeyOp.hDel_regular _) (fun _ => KeyOp.hDel_decides _ _) ?_ ?_
  · rintro ⟨value, deadline⟩ - isEmpty
    obtain rfl : value = .hash ∅ := by simpa using isEmpty
    obtain ⟨outcome, effect⟩ := hDel_empty now (field :: rest) deadline
    exact ⟨0, outcome, effect, rfl⟩
  · intro others
    refine cmdHDel_mirrors (name :: key :: field :: rest) ?_
    rintro _ _ _ ⟨⟩ e found
    simpa using others e found

theorem cmdSRem_foreseen (name member : Bytes) (rest : List Bytes) :
    Foreseen now s (cmdSRem now s (name :: key :: member :: rest))
      (purgeDeviation (s.live now) key fun e => e.value = .set ∅) := by
  refine purge_foreseen (KeyOp.sRem_regular _) (fun _ => KeyOp.sRem_decides _ _) ?_ ?_
  · rintro ⟨value, deadline⟩ - isEmpty
    obtain rfl : value = .set ∅ := by simpa using isEmpty
    refine ⟨0, ?_, ?_, rfl⟩
    · simp [KeyOp.outcome, KeyOp.answer, KeyOp.sRem, Look.ofLive, Action.result, Commit.result]
    · simp [KeyOp.effect, KeyOp.after, KeyOp.sRem, Look.ofLive, Action.post, Commit.post]
  · intro others
    refine cmdSRem_mirrors (name :: key :: member :: rest) ?_
    rintro _ _ _ ⟨⟩ e found
    simpa using others e found

theorem remaining_foreseen (cmd : String) (op : Time → KeyOp Int) (unit : Int → Int)
    (isTTL : op = KeyOp.ttlIn unit) (name : Bytes) :
    Foreseen now s (remaining cmd op now s [name, key])
      (purgeDeviation (s.live now) key (atDeadline now)) := by
  subst isTTL
  refine purge_foreseen (KeyOp.ttlIn_regular unit) (fun _ => KeyOp.ttlIn_decides key unit now) ?_ ?_
  · intro e _ due
    obtain ⟨bounded, reached⟩ : e.expiresAt ≠ 0 ∧ e.expiresAt = now := by
      simpa [atDeadline] using due
    have noTime : untilTime now e.expiresAt ≤ 0 := by
      rw [reached]
      exact untilTime_nonpos (le_refl now)
    refine ⟨-2, ?_, ?_, rfl⟩
    · simp [KeyOp.outcome, KeyOp.answer, KeyOp.ttlIn, Look.ofLive, bounded, noTime, Action.result,
        Commit.result]
    · simp [KeyOp.effect, KeyOp.after, KeyOp.ttlIn, Look.ofLive, bounded, noTime, Action.post,
        Commit.post]
  · intro others
    refine remaining_mirrors cmd _ unit rfl [name, key] ?_
    rintro _ _ ⟨⟩ e found
    have early := others e found
    simp only [atDeadline, decide_eq_false_iff_not, not_and_or, not_not] at early
    exact early.symm

/-! ## Every command -/

theorem handler_foreseen (fl : FloatOps) (cmd : Command) (args : List Bytes) :
    Foreseen now s (cmd.handler fl now s args) (cmd.handlerDeviation now (s.live now) args) := by
  -- the deviating commands by the shape of their arguments, all others mirror
  cases cmd with
  | set =>
    match args with
    | [] | [_] | [_, _] => exact .unchanged rfl rfl rfl
    | _ :: key :: val :: opts =>
      simp only [Command.handler, Command.handlerDeviation, cmdSet]
      cases parseSetOptions {} opts with
      | error err => exact .unchanged rfl rfl rfl
      | ok o => exact setParsed_foreseen val o
  | setex => exact setWithTTL_foreseen "SETEX" seconds args
  | psetex => exact setWithTTL_foreseen "PSETEX" milliseconds args
  | incr =>
    match args with
    | [] | [_] | _ :: _ :: _ :: _ => exact .unchanged rfl rfl rfl
    | [_, key] => exact countAndReplicate_foreseen 1
  | decr =>
    match args with
    | [] | [_] | _ :: _ :: _ :: _ => exact .unchanged rfl rfl rfl
    | [_, key] => exact countAndReplicate_foreseen (-1)
  | incrby => exact countBy_foreseen "INCRBY" KeyOp.incrBy id (fun _ _ => rfl) args
  | decrby => exact countBy_foreseen "DECRBY" KeyOp.decrBy (fun n => wrap64 (-n)) (fun _ _ => rfl) args
  | append =>
    match args with
    | [] | [_] | [_, _] | _ :: _ :: _ :: _ :: _ => exact .unchanged rfl rfl rfl
    | [name, key, tail] => exact cmdAppend_foreseen name tail
  | getex =>
    match args with
    | [] | [_] => exact .unchanged rfl rfl rfl
    | [_, key] => exact read_mirrors KeyOp.get_readOnly
    | name :: key :: opt :: opts => exact cmdGetEx_foreseen name opt opts
  | hdel =>
    match args with
    | [] | [_] | [_, _] => exact .unchanged rfl rfl rfl
    | name :: key :: field :: rest => exact cmdHDel_foreseen name field rest
  | srem =>
    match args with
    | [] | [_] | [_, _] => exact .unchanged rfl rfl rfl
    | name :: key :: member :: rest => exact cmdSRem_foreseen name member rest
  | ttl =>
    match args with
    | [] | [_] | _ :: _ :: _ :: _ => exact .unchanged rfl rfl rfl
    | [name, key] => exact remaining_foreseen "TTL" KeyOp.ttl inSeconds rfl name
  | pttl =>
    match args with
    | [] | [_] | _ :: _ :: _ :: _ => exact .unchanged rfl rfl rfl
    | [name, key] => exact remaining_foreseen "PTTL" KeyOp.ttlMs inMilliseconds rfl name
  | get | strlen | type | llen | smembers | sismember | scard =>
    -- one call that only reads
    simp only [Command.handler, cmdGet, cmdStrLen, cmdType, cmdLLen, cmdSMembers, cmdSIsMember, cmdSCard]
    split
    · apply read_mirrors
      first
      | exact KeyOp.get_readOnly
      | exact KeyOp.typeName_readOnly
      | exact KeyOp.lLen_readOnly
      | exact KeyOp.readLive_readOnly _ _
    · exact Mirrors.replies _ rfl rfl
  | getrange | lindex | lrange =>
    -- the same after an argument is read
    simp only [Command.handler, cmdGetRange, cmdLIndex, cmdLRange]
    split
    · split <;> first
        | exact Mirrors.replies _ rfl rfl
        | exact read_mirrors KeyOp.get_readOnly
        | exact read_mirrors (KeyOp.readLive_readOnly _ _)
    · exact Mirrors.replies _ rfl rfl
  | dbsize | select =>
    simp only [Command.handler, cmdDBSize, cmdSelect]
    (repeat' split) <;> exact Mirrors.replies _ rfl rfl
  | setnx => exact cmdSetNX_mirrors args
  | getset => exact cmdGetSet_mirrors args
  | getdel => exact cmdGetDel_mirrors args
  | mget => exact cmdMGet_mirrors args
  | mset => exact cmdMSet_mirrors args
  | msetnx => exact cmdMSetNX_mirrors args
  | del => exact cmdDel_mirrors args
  | incrbyfloat => exact cmdIncrByFloat_mirrors fl args
  | setrange => exact cmdSetRange_mirrors args
  | hset => exact hashSet_mirrors _ _ args
  | hmset => exact hashSet_mirrors _ _ args
  | hget => exact cmdHGet_mirrors args
  | hmget => exact cmdHMGet_mirrors args
  | hgetall => exact hashListing_mirrors "HGETALL" (fun field val => [field, val]) args
  | hexists => exact cmdHExists_mirrors args
  | hlen => exact cmdHLen_mirrors args
  | hkeys => exact hashListing_mirrors "HKEYS" (fun field _ => [field]) args
  | hvals => exact hashListing_mirrors "HVALS" (fun _ val => [val]) args
  | hincrby => exact cmdHIncrBy_mirrors args
  | hincrbyfloat => exact cmdHIncrByFloat_mirrors fl args
  | hsetnx => exact cmdHSetNX_mirrors args
  | lpush => exact pushList_mirrors _ _ args
  | rpush => exact pushList_mirrors _ _ args
  | lpushx => exact pushListX_mirrors _ _ args
  | rpushx => exact pushListX_mirrors _ _ args
  | lpop => exact cmdLPop_mirrors args
  | rpop => exact cmdRPop_mirrors args
  | lset => exact cmdLSet_mirrors args
  | lrem => exact cmdLRem_mirrors args
  | ltrim => exact cmdLTrim_mirrors args
  | linsert => exact cmdLInsert_mirrors args
  | sadd => exact cmdSAdd_mirrors args
  | sunion => exact combineSets_mirrors _ unionMembers_reads args
  | sunionstore => exact storeSets_mirrors _ unionMembers_reads args
  | sinter => exact combineSets_mirrors _ interMembers_reads args
  | sinterstore => exact storeSets_mirrors _ interMembers_reads args
  | sdiff => exact combineSets_mirrors _ diffMembers_reads args
  | sdiffstore => exact storeSets_mirrors _ diffMembers_reads args
  | exists' => exact cmdExists_mirrors args
  | expire => exact expireCommand_mirrors _ _ args
  | expireat => exact expireCommand_mirrors _ _ args
  | pexpire => exact expireCommand_mirrors _ _ args
  | pexpireat => exact expireCommand_mirrors _ _ args
  | persist => exact cmdPersist_mirrors args
  | rename => exact cmdRename_mirrors args
  | renamenx => exact cmdRenameNX_mirrors args
  | flushdb => exact flushClusterDB_mirrors .flushdb (.inl rfl)
  | flushall => exact flushClusterDB_mirrors .flushall (.inr rfl)
  | session cmd => exact .unchanged rfl rfl rfl

theorem dispatch_foreseen (fl : FloatOps) (cmd : Command) (args : List Bytes) :
    Foreseen now s (cmd.dispatch fl now s args) (cmd.deviation now (s.live now) args) := by
  unfold Command.dispatch Command.deviation
  split
  · exact .unchanged rfl rfl rfl
  · exact handler_foreseen fl cmd args

end SuperCache
