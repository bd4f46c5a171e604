import SuperCache.Replication.Mirror

/-! # String commands mirror themselves

All of them but `SET` and its relatives with a deadline, the counters, `APPEND`
and `GETEX`, which replicate something other than what they did.
-/

namespace SuperCache

open Lib

section Strings

variable {now : Time} {s : Store} (args : List Bytes)

theorem set_effect (key : Key) (val : Bytes) (exp : Time) (cur : Option Entry) :
    (KeyOp.set key val exp).effect now cur
      = alive now (some { value := .string val, expiresAt := exp }) := by
  cases cur <;> rfl

theorem Means.set {view : Keyspace} (key : Key) (val : Bytes) :
    Means now view [replicateSet now key val 0] key (KeyOp.set key val 0) :=
  .one rfl (le_max_right _ _)

theorem setAndReplicate_mirrors (key : Key) (val : Bytes) (reply : Reply) :
    Mirrors now s (setAndReplicate now s key val 0 reply) :=
  call_mirrors (KeyOp.set_regular val 0) oomReply_rejects fun _ _ => .set key val

variable {key : Key} {val : Bytes} {exp : Time} {cur : Option Entry}

theorem setNX_like {ok : Bool} (done : (KeyOp.setNX key val exp).outcome cur = .ok ok) :
    if ok then (KeyOp.setNX key val exp).Like (KeyOp.set key val exp) cur
    else (KeyOp.setNX key val exp).Rests cur := by
  cases cur with
  | none =>
    cases done
    exact ⟨rfl, (sub_zero _).symm⟩
  | some e =>
    cases done
    exact ⟨rfl, le_rfl⟩

theorem cmdSetNX_mirrors : Mirrors now s (cmdSetNX now s args) := by
  unfold cmdSetNX
  split
  · refine sentIf_mirrors (KeyOp.setNX_regular _ 0) oomReply_rejects ?_ ?_
    · rintro ok done rfl
      exact (Means.set _ _).like (setNX_like done)
    · rintro ok done rfl
      exact setNX_like done
  · exact .replies _ rfl rfl

theorem getSet_like {result : Option Bytes} (done : (KeyOp.getSet key val 0).outcome cur = .ok result) :
    (KeyOp.getSet key val 0).Like (KeyOp.set key val 0) cur := by
  cases cur with
  | none => exact ⟨rfl, rfl⟩
  | some e =>
    obtain ⟨value, deadline⟩ := e
    cases value with
    | string prev => exact ⟨rfl, rfl⟩
    | _ => cases done

theorem cmdGetSet_mirrors : Mirrors now s (cmdGetSet now s args) := by
  unfold cmdGetSet
  split
  · exact call_mirrors (KeyOp.getSet_regular _ 0) typeReply_rejects
      fun _ done => (Means.set _ _).like (getSet_like done)
  · exact .replies _ rfl rfl

theorem cmdGetDel_mirrors : Mirrors now s (cmdGetDel now s args) := by
  unfold cmdGetDel
  split
  · next key =>
    refine .read KeyOp.get_readOnly fun t prev => ?_
    cases prev with
    | none => exact .replies _ rfl rfl
    | some bytes =>
      obtain ⟨live, limit⟩ := t.del_live now [key]
      exact ⟨fun _ _ => live, limit⟩
  · exact .replies _ rfl rfl

theorem cmdSetRange_mirrors : Mirrors now s (cmdSetRange now s args) := by
  unfold cmdSetRange
  split
  · split
    · exact .replies _ rfl rfl
    · split
      · exact .replies _ rfl rfl
      · exact .read KeyOp.get_readOnly fun t bytes => setAndReplicate_mirrors _ _ _
  · exact .replies _ rfl rfl

theorem cmdIncrByFloat_mirrors (fl : FloatOps) (args : List Bytes) :
    Mirrors now s (cmdIncrByFloat fl now s args) := by
  unfold cmdIncrByFloat
  split
  · split
    · exact .replies _ rfl rfl
    · refine .read KeyOp.get_readOnly fun t text => ?_
      split
      · exact .replies _ rfl rfl
      · exact setAndReplicate_mirrors _ _ _
  · exact .replies _ rfl rfl

/-! ## Several keys -/

theorem cmdMGet_mirrors : Mirrors now s (cmdMGet now s args) := by
  unfold cmdMGet
  split
  · exact reads_mirrors (mGet_reads _)
  · exact .replies _ rfl rfl

theorem replayAll_pairs (pairs : List (Key × Bytes)) (view : Keyspace) :
    replayAll now (pairs.map fun pair => replicateSet now pair.1 pair.2 0) view
      = Keyspace.putEach view pairs := by
  induction pairs generalizing view with
  | nil => rfl
  | cons pair rest ih =>
    rw [List.map_cons, replayAll_cons, ih]
    refine congrArg (fun view => Keyspace.putEach view rest) ?_
    refine congrArg (Function.update view pair.1) ?_
    rw [set_effect]
    exact alive_of_no_deadline _

theorem loads_pairs {pairs : List (Key × Bytes)} (nodup : (pairs.map Prod.fst).Nodup)
    (view : Keyspace) :
    loads now (pairs.map fun pair => replicateSet now pair.1 pair.2 0) view
      = Keyspace.price view pairs := by
  induction pairs generalizing view with
  | nil => rfl
  | cons pair rest ih =>
    obtain ⟨unlisted, nodupRest⟩ := List.nodup_cons.mp nodup
    rw [List.map_cons, loads, ih nodupRest]
    exact congrArg _ (Keyspace.price_update unlisted _)

theorem replicatePairs_sent (now : Time) (t : Store) (pairs : GoMap Bytes) (reply : Reply)
    (view : Keyspace) :
    loads now (replicatePairs now t pairs reply).sent view
        = Keyspace.price view (Store.pairsIn pairs (sortedElems pairs.keys))
      ∧ replayAll now (replicatePairs now t pairs reply).sent view = Keyspace.putAll pairs view := by
  simp only [replicatePairs, Store.drawRange]
  rw [replayAll_pairs, loads_pairs ((Store.nodup_rangeOrder ..).sublist (Store.pairsIn_keys ..)),
    Store.price_rangeOrder, Keyspace.putEach_all _ _ fun _ => Store.mem_rangeOrder]
  exact ⟨rfl, rfl⟩

theorem cmdMSet_mirrors : Mirrors now s (cmdMSet now s args) := by
  unfold cmdMSet
  split
  · split
    · exact .replies _ rfl rfl
    · next pairs _ =>
      have limit : (s.mSet now pairs).1.maxMem = s.maxMem := Store.mSetList_maxMem s now _
      have fits := s.mSet_fits now pairs
      unfold Outcome.onOk
      rcases equation : s.mSet now pairs with ⟨t, failure | result⟩ <;>
        rw [equation] at limit fits
      · refine ⟨fun accepted _ => ?_, limit⟩
        have unlimited := accepted.resolve_right (by simp [Outcome.replies, oomReply_rejects])
        cases (fits (.inr (.inl unlimited))).2
      · obtain ⟨price, replayed⟩ := replicatePairs_sent now t pairs .ok (s.live now)
        refine ⟨fun _ room => ?_, limit⟩
        rw [price] at room
        rw [replayed]
        exact (fits room).1
  · exact .replies _ rfl rfl

theorem cmdMSetNX_mirrors : Mirrors now s (cmdMSetNX now s args) := by
  unfold cmdMSetNX
  split
  · split
    · exact .replies _ rfl rfl
    · next pairs _ =>
      have limit : (s.mSetNX now pairs).1.maxMem = s.maxMem := Store.mSetNX_maxMem s now pairs
      have fits := s.mSetNX_fits now pairs
      have refused := s.mSetNX_refused now pairs
      unfold Outcome.onOk
      rcases equation : s.mSetNX now pairs with ⟨t, failure | result⟩ <;>
        rw [equation] at limit fits refused
      · refine ⟨fun accepted _ => ?_, limit⟩
        have unlimited := accepted.resolve_right (by simp [Outcome.replies, oomReply_rejects])
        cases (fits (.inr (.inl unlimited))).2
      · cases result with
        | false => exact .replies _ (refused rfl) limit
        | true =>
          obtain ⟨price, replayed⟩ := replicatePairs_sent now t pairs (.int 1) (s.live now)
          refine ⟨fun _ room => ?_, limit⟩
          simp only [if_true] at room ⊢
          rw [price] at room
          rw [replayed]
          obtain ⟨live, done⟩ := fits room
          rw [if_pos (of_decide_eq_true (Except.ok.inj done).symm)] at live
          exact live
  · exact .replies _ rfl rfl

theorem exists_one (s : Store) (now : Time) (key : Key) :
    (s.exists' now [key]).2 = if (s.live now key).isSome then 1 else 0 := by
  obtain ⟨-, answer⟩ := s.run_immediate now key KeyOp.exists1_regular fun found => by
    cases found <;> exact ⟨_, _, rfl⟩
  simp only [Store.exists', Store.countKeys, answer]
  cases s.live now key <;> rfl

theorem existingKeys_spec (s : Store) (now : Time) (keys : List Key) :
    (existingKeys now s keys).1.live now = s.live now
      ∧ (existingKeys now s keys).1.maxMem = s.maxMem
      ∧ ∀ key, key ∈ (existingKeys now s keys).2 ↔ key ∈ keys ∧ (s.live now key).isSome := by
  induction keys generalizing s with
  | nil => exact ⟨rfl, rfl, by simp [existingKeys]⟩
  | cons first rest ih =>
    obtain ⟨sameLive, sameLimit⟩ := s.exists_live now [first]
    obtain ⟨restLive, restLimit, members⟩ := ih (s.exists' now [first]).1
    refine ⟨restLive.trans sameLive, restLimit.trans sameLimit, fun key => ?_⟩
    rw [sameLive] at members
    simp only [existingKeys, exists_one]
    by_cases there : (s.live now first).isSome
    · rw [if_pos there, if_pos (by decide), Finset.mem_insert, members, List.mem_cons]
      constructor
      · rintro (rfl | ⟨later, live⟩)
        · exact ⟨.inl rfl, there⟩
        · exact ⟨.inr later, live⟩
      · rintro ⟨rfl | later, live⟩
        · exact .inl rfl
        · exact .inr ⟨later, live⟩
    · rw [if_neg there, if_neg (by decide), members, List.mem_cons]
      constructor
      · exact fun ⟨later, live⟩ => ⟨.inr later, live⟩
      · rintro ⟨rfl | later, live⟩
        · exact absurd live there
        · exact ⟨later, live⟩

theorem replayAll_dels (keys : List Key) (view : Keyspace) :
    replayAll now (keys.map replicateDel) view = Keyspace.remove keys view := by
  induction keys generalizing view with
  | nil => funext key; simp [Keyspace.remove]
  | cons first rest ih =>
    rw [List.map_cons, replayAll_cons, ih]
    funext key
    simp only [Keyspace.remove, replay, replicateDel, List.mem_cons, List.not_mem_nil, or_false]
    by_cases later : key ∈ rest <;> simp [later]

theorem cmdDel_mirrors : Mirrors now s (cmdDel now s args) := by
  unfold cmdDel
  split
  · next key rest =>
    obtain ⟨sameLive, sameLimit, members⟩ := existingKeys_spec s now (key :: rest)
    generalize existingKeys now s (key :: rest) = checked at sameLive sameLimit members ⊢
    obtain ⟨live, limit⟩ := checked.1.del_live now (key :: rest)
    refine ⟨fun _ _ => ?_, limit.trans sameLimit⟩
    simp only [Store.drawRange]
    rw [replayAll_dels]
    refine Eq.trans live ?_
    rw [sameLive]
    funext other
    simp only [Keyspace.remove, Store.mem_rangeOrder, members]
    -- A key that is deleted but not replicated was not there.
    by_cases listed : other ∈ key :: rest
    · rw [if_pos listed]
      cases found : s.live now other with
      | none => simp
      | some e => simp [listed]
    · rw [if_neg listed, if_neg fun both => listed both.1]
  · exact .replies _ rfl rfl

end Strings

end SuperCache
