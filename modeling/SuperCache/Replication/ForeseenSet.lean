import SuperCache.Replication.Deviation

/-! # What `SET` does and sends

`SET` first asks for the deadline to keep, which may purge the key, and then
gives up or writes (`SetOptions.stops`).
-/

namespace SuperCache

open Lib

variable {now : Time} {s t : Store} {key : Key}

variable {cur : Option Entry} {nx xx : Bool} {o : SetOptions}

theorem ttlMs_effect (live : alive now cur = cur) (o : SetOptions) (keeps : o.keepttl = true) :
    (KeyOp.ttlMs now).effect now cur = o.found now cur := by
  by_cases purges : o.purges now cur
  · unfold SetOptions.found
    rw [if_pos purges]
    cases cur with
    | none => rfl
    | some e =>
      simp only [SetOptions.purges, keeps, Option.any_some, Bool.true_and, decide_eq_true_eq]
        at purges
      have due : untilTime now e.expiresAt ≤ 0 := by
        rw [purges.2]
        exact untilTime_nonpos (le_refl now)
      simp [KeyOp.effect, KeyOp.after, KeyOp.ttlMs, KeyOp.ttlIn, Look.ofLive, purges.1, due,
        Action.post, Commit.post]
  · have notPurged := purges
    unfold SetOptions.found
    rw [if_neg purges]
    refine (ttlIn_rests live fun e found => ?_).effect live
    subst found
    simp only [SetOptions.purges, keeps, Option.any_some, Bool.true_and, decide_eq_true_eq,
      not_and_or, not_not] at notPurged
    exact notPurged.symm

theorem keptDeadline_spec (o : SetOptions) (s : Store) (now : Time) (key : Key) :
    Follows now s (o.keptDeadline now s key).1 0
        (Function.update (s.live now) key (o.found now (s.live now key)))
      ∧ (o.keptDeadline now s key).2 = o.finalDeadline now (s.live now key) := by
  unfold SetOptions.keptDeadline SetOptions.finalDeadline
  by_cases keeps : o.keepttl = true
  · have regular : (KeyOp.ttlMs now).Regular := KeyOp.ttlIn_regular inMilliseconds
    have outcome := (s.run_immediate now key regular (KeyOp.ttlIn_immediate inMilliseconds)).2
    have follows : Follows now s (s.run now key (KeyOp.ttlMs now)).1 0 _ :=
      run_follows regular fun _ => KeyOp.ttlIn_decides key inMilliseconds now
    rw [if_pos keeps, if_pos keeps, ← ttlMs_effect (s.alive_live now key) o keeps]
    rcases equation : s.run now key (KeyOp.ttlMs now) with ⟨t, failure | ms⟩ <;>
      rw [equation] at follows outcome <;> rw [← outcome]
    · exact ⟨follows, rfl⟩
    · exact ⟨follows, rfl⟩
  · have stays : o.found now (s.live now key) = s.live now key := by
      simp [SetOptions.found, SetOptions.purges, keeps]
    rw [if_neg keeps, if_neg keeps, stays, Function.update_eq_self]
    exact ⟨.refl now s le_rfl, rfl⟩

theorem setCall_blocked (val : Bytes) (exp : Time) (one : (nx && xx) = false)
    (blocked : (nx && (t.live now key).isSome || xx && (t.live now key).isNone) = true) :
    (setCall now t key val exp nx xx).1.live now = t.live now
      ∧ (setCall now t key val exp nx xx).1.maxMem = t.maxMem
      ∧ (setCall now t key val exp nx xx).2 = .ok false := by
  have isLive := t.isLive_lookup now key
  unfold setCall
  cases nx with
  | true =>
    obtain rfl : xx = false := by simpa using one
    have decision : KeyOp.setNX key val exp (t.lookup now key) = .done .none (.keep (.ok false)) := by
      unfold KeyOp.setNX
      rw [if_pos]
      simpa [isLive] using blocked
    exact Store.run_keep decision
  | false =>
    obtain ⟨rfl, absent⟩ : xx = true ∧ (t.lookup now key).isLive = false := by
      simpa [isLive] using blocked
    have decision : KeyOp.setXX key val exp (t.lookup now key) = .done .none (.keep (.ok false)) := by
      cases found : t.lookup now key with
      | live e =>
        rw [found] at absent
        cases absent
      | missing => rfl
      | expired e => rfl
    exact Store.run_keep decision

theorem applySet_blocked (val : Bytes) (exp : Time) (onError : StoreErr → Reply)
    (reply : Bool → Reply) (one : (nx && xx) = false)
    (blocked : (nx && (t.live now key).isSome || xx && (t.live now key).isNone) = true) :
    (applySet now t key val exp nx xx onError reply).sent = []
      ∧ (applySet now t key val exp nx xx onError reply).store.live now = t.live now
      ∧ (applySet now t key val exp nx xx onError reply).store.maxMem = t.maxMem := by
  obtain ⟨sameLive, sameLimit, refused⟩ := setCall_blocked val exp one blocked
  unfold applySet
  rcases equation : setCall now t key val exp nx xx with ⟨u, failure | result⟩ <;>
    rw [equation] at sameLive sameLimit refused <;> cases refused
  exact ⟨rfl, sameLive, sameLimit⟩

theorem applySet_unblocked {val : Bytes} {exp : Time} {onError : StoreErr → Reply}
    {reply : Bool → Reply} (one : (nx && xx) = false)
    (unblocked : (nx && (t.live now key).isSome || xx && (t.live now key).isNone) = false) :
    (Deviation.string key val exp).Holds now t (applySet now t key val exp nx xx onError reply) := by
  have plain : setCall now t key val exp false false
      = ((t.run now key (KeyOp.set key val exp)).1,
          (t.run now key (KeyOp.set key val exp)).2.map fun _ => true) := by
    unfold setCall
    rcases t.run now key (KeyOp.set key val exp) with ⟨u, failure | result⟩ <;> rfl
  have asked := set_growth_le key val exp (t.live now key) (atDeadline now)
  cases nx with
  | true =>
    obtain rfl : xx = false := by simpa using one
    have absent : t.live now key = none := by simpa using unblocked
    have outcome : (KeyOp.setNX key val exp).outcome (t.live now key) = .ok true :=
      congrArg (KeyOp.setNX key val exp).outcome absent
    refine call_holds (d := .string key val exp) (KeyOp.setNX_regular val exp).blind outcome ?_ rfl ?_
    · exact congrArg ((KeyOp.setNX key val exp).effect now) absent
    · refine Eq.trans_le ?_ asked
      show (KeyOp.setNX key val exp (.ofLive (t.live now key))).growth = _
      rw [absent]
      exact (sub_zero _).symm
  | false =>
    cases xx with
    | false =>
      unfold applySet
      rw [plain, ofCall_map]
      exact set_holds rfl
    | true =>
      obtain ⟨e, present⟩ : ∃ e, t.live now key = some e := by
        simpa [Option.isNone_eq_false_iff, Option.isSome_iff_exists] using unblocked
      have outcome : (KeyOp.setXX key val exp).outcome (t.live now key) = .ok true :=
        congrArg (KeyOp.setXX key val exp).outcome present
      refine call_holds (d := .string key val exp) (fun _ => ⟨rfl, rfl, rfl⟩) outcome ?_ rfl ?_
      · exact congrArg ((KeyOp.setXX key val exp).effect now) present
      · refine Eq.trans_le ?_ asked
        show (KeyOp.setXX key val exp (.ofLive (t.live now key))).growth = _
        rw [present]
        rfl

theorem SetOptions.found_of_stays (stays : o.purges now cur = false) : o.found now cur = cur := by
  unfold SetOptions.found
  rw [if_neg (by simp [stays])]

theorem get_outcome_ok {result : Option Bytes} (ok : KeyOp.get.outcome cur = .ok result) :
    (cur.any fun e => !e.isString) = false := by
  rcases cur with _ | ⟨value, deadline⟩
  · rfl
  · cases value with
    | string bytes => rfl
    | _ => cases ok

theorem get_outcome_error {failure : StoreErr} (failed : KeyOp.get.outcome cur = .error failure) :
    (cur.any fun e => !e.isString) = true := by
  rcases cur with _ | ⟨value, deadline⟩
  · cases failed
  · cases value with
    | string bytes => cases failed
    | _ => rfl

theorem setParsed_stops (val : Bytes) (stops : o.stops (o.found now (s.live now key)) = true) :
    (setParsed now s key val o).sent = []
      ∧ (setParsed now s key val o).store.live now
        = Function.update (s.live now) key (o.found now (s.live now key))
      ∧ (setParsed now s key val o).store.maxMem = s.maxMem := by
  obtain ⟨follows, -⟩ := keptDeadline_spec o s now key
  have live := follows.live (.inl le_rfl)
  have limit := follows.maxMem
  have here : (o.keptDeadline now s key).1.live now key = o.found now (s.live now key) := by
    rw [live, Function.update_self]
  rw [← here] at stops
  unfold setParsed
  simp only
  rw [← live, ← limit]
  generalize o.keptDeadline now s key = kept at *
  by_cases both : (o.nx && o.xx) = true
  · rw [if_pos both]
    exact ⟨rfl, rfl, rfl⟩
  · rw [if_neg both]
    rw [Bool.not_eq_true] at both
    by_cases get : o.get = true
    · rw [if_pos get]
      obtain ⟨t, ran, sameLive, sameLimit⟩ :=
        kept.1.run_read_eq now key KeyOp.get_regular KeyOp.get_readOnly
      rw [ran]
      rcases outcome : KeyOp.get.outcome (kept.1.live now key) with failure | prev
      · exact ⟨rfl, sameLive, sameLimit⟩
      · have strings := get_outcome_ok outcome
        simp only [SetOptions.stops, both, strings, Bool.and_false, Bool.false_or] at stops
        rw [← sameLive] at stops
        obtain ⟨quiet, liveAfter, limitAfter⟩ := applySet_blocked val kept.2 .failure _ both stops
        exact ⟨quiet, liveAfter.trans sameLive, limitAfter.trans sameLimit⟩
    · rw [if_neg get]
      rw [Bool.not_eq_true] at get
      simp only [SetOptions.stops, both, get, Bool.false_and, Bool.false_or] at stops
      exact applySet_blocked val kept.2 _ _ both stops

/-- `KEEPTTL` may have purged the key before it is written. -/
theorem Deviation.Holds.of_kept {val : Bytes} {exp : Time} {outcome : Outcome}
    (kept : Follows now s t 0 (Function.update (s.live now) key (o.found now (s.live now key))))
    (holds : (Deviation.string key val exp).Holds now t outcome) :
    (Deviation.string key val exp).Holds now s outcome := by
  have live := kept.live (.inl le_rfl)
  have cost : (Deviation.string key val exp).cost now (t.live now)
      = (Deviation.string key val exp).cost now (s.live now) := by
    unfold Deviation.cost SetOptions.found at *
    rw [live]
    by_cases purges : o.purges now (s.live now key) = true
    · have due : (s.live now key).any (atDeadline now) = true := (Bool.and_eq_true_iff.mp purges).2
      simp only [Function.update_self, if_pos purges, if_pos due, Option.any_none,
        Bool.false_eq_true, if_false]
    · simp only [Function.update_self, if_neg purges]
  have room (given : s.HasRoom ((Deviation.string key val exp).cost now (s.live now))) :
      t.HasRoom ((Deviation.string key val exp).cost now (t.live now)) := by
    rw [cost]
    exact kept.room _ (KeyOp.adds_nonneg _ _) (by rwa [zero_add])
  refine ⟨fun given => ?_, fun given => holds.sent (room given), holds.maxMem.trans kept.maxMem⟩
  rw [holds.live (room given), live]
  exact Function.update_idem ..

theorem setParsed_goes {val : Bytes} (goes : o.stops (o.found now (s.live now key)) = false) :
    (Deviation.string key val (o.finalDeadline now (s.live now key))).Holds now s
      (setParsed now s key val o) := by
  obtain ⟨follows, deadline⟩ := keptDeadline_spec o s now key
  have live := follows.live (.inl le_rfl)
  simp only [SetOptions.stops, Bool.or_eq_false_iff] at goes
  obtain ⟨⟨one, strings⟩, unblocked⟩ := goes
  have conclude (t : Store) (onError : StoreErr → Reply) (reply : Bool → Reply)
      (kept : Follows now s t 0 (Function.update (s.live now) key (o.found now (s.live now key)))) :
      (Deviation.string key val (o.finalDeadline now (s.live now key))).Holds now s
        (applySet now t key val (o.keptDeadline now s key).2 o.nx o.xx onError reply) := by
    rw [deadline]
    refine .of_kept kept (applySet_unblocked one ?_)
    rw [kept.live (.inl le_rfl), Function.update_self, Bool.or_eq_false_iff]
    exact unblocked
  unfold setParsed
  simp only [one, Bool.false_eq_true, if_false]
  by_cases get : o.get = true
  · rw [if_pos get]
    generalize o.keptDeadline now s key = kept at *
    have reads : Store.Reads now kept.1 (kept.1.run now key KeyOp.get).1 := run_reads KeyOp.get_readOnly
    have outcome := kept.1.run_read_outcome now key KeyOp.get_regular KeyOp.get_readOnly
    rw [live, Function.update_self] at outcome
    rcases read : kept.1.run now key KeyOp.get with ⟨t, failure | prev⟩ <;> rw [read] at reads outcome
    · simp [get, get_outcome_error outcome.symm] at strings
    · refine conclude t .failure _ ⟨fun _ => reads.live.1.trans live, fun n nonneg room => ?_,
        reads.live.2.trans follows.maxMem⟩
      exact reads.room (follows.room n nonneg room)
  · rw [if_neg get]
    exact conclude _ oomReply _ follows

theorem setParsed_foreseen (val : Bytes) (o : SetOptions) :
    Foreseen now s (setParsed now s key val o) (setDeviation now (s.live now) key val o) := by
  unfold setDeviation
  by_cases stops : o.stops (o.found now (s.live now key)) = true
  · obtain ⟨quiet, live, limit⟩ := setParsed_stops val stops
    rw [if_pos stops]
    split
    · next purges =>
      unfold SetOptions.found at live
      rw [if_pos purges] at live
      exact .quiet quiet live limit
    · next stays =>
      rw [SetOptions.found_of_stays (Bool.eq_false_iff.mpr stays), Function.update_eq_self] at live
      exact .unchanged quiet live limit
  · rw [if_neg stops]
    exact setParsed_goes (Bool.eq_false_iff.mpr stops)

end SuperCache
