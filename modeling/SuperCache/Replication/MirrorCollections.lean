import SuperCache.Replication.Mirror

/-! # Hash, list and set commands mirror themselves

`HDEL` and `SREM` do so unless they meet an empty hash or an empty set: they
purge it and report nothing.
-/

namespace SuperCache

open Lib

/-! ## Hashes -/

section Hashes

variable {now : Time} {s : Store} (args : List Bytes)

theorem Means.hash {view : Keyspace} (key : Key) {pairs : GoMap Bytes} (nonempty : pairs ≠ ∅) :
    Means now view [replicateHash key pairs] key (KeyOp.hSet key pairs) := by
  refine .one ?_ (le_max_right _ _)
  show (if pairs = ∅ then view else onKey now key (KeyOp.hSet key pairs) view) = _
  rw [if_neg nonempty]

theorem hSet_mirrors (key : Key) (pairs : GoMap Bytes) {reply : Int → Reply} :
    Mirrors now s (.ofCall (s.hSet now key pairs) typeOrOomReply
      (fun _ => [replicateHash key pairs]) reply) := by
  unfold Store.hSet
  by_cases empty : pairs = ∅
  · rw [if_pos empty]
    refine ⟨fun _ _ => ?_, rfl⟩
    simp only [Outcome.ofCall, Outcome.onOk, replayAll_cons, replayAll_nil, replay, replicateHash]
    rw [if_pos empty]
  · rw [if_neg empty]
    exact call_mirrors (KeyOp.hSet_regular pairs) typeOrOomReply_rejects fun _ _ => .hash key empty

theorem hashSet_mirrors (cmd : String) (reply : Int → Reply) (args : List Bytes) :
    Mirrors now s (hashSet cmd reply now s args) := by
  unfold hashSet
  split
  · split
    · exact .replies _ rfl rfl
    · exact hSet_mirrors _ _
  · exact .replies _ rfl rfl

theorem oneField_ne (field val : Bytes) : oneField field val ≠ ∅ := by
  intro empty
  have found : (oneField field val).lookup field = some val := Finmap.lookup_insert _
  rw [empty] at found
  cases found

theorem oneField_union (field val : Bytes) (old : GoMap Bytes) :
    oneField field val ∪ old = old.insert field val := by
  unfold oneField
  rw [← Finmap.insert_union, Finmap.empty_union]

variable {cur : Option Entry} {key : Key} {field : Bytes} {n : Int}

theorem hIncrBy_like {delta : Int} (done : (KeyOp.hIncrBy key field delta).outcome cur = .ok n) :
    (KeyOp.hIncrBy key field delta).Like (KeyOp.hSet key (oneField field (formatInt n))) cur := by
  unfold KeyOp.Like
  unfold KeyOp.outcome KeyOp.answer at done
  unfold KeyOp.after KeyOp.hIncrBy KeyOp.hSet at *
  cases hash : KeyOp.hashOf (.ofLive cur) with
  | error failure => simp [hash, Action.result, Commit.result] at done
  | ok old =>
    simp only [hash] at done ⊢
    split at done
    · cases done
    · split at done
      · cases done
      · cases done
        simp only [oneField_union]
        exact ⟨rfl, rfl⟩

theorem cmdHIncrBy_mirrors : Mirrors now s (cmdHIncrBy now s args) := by
  unfold cmdHIncrBy
  split
  · split
    · exact .replies _ rfl rfl
    · exact call_mirrors (KeyOp.hIncrBy_regular _ _) hIncrReply_rejects
        fun n done => (Means.hash _ (oneField_ne _ _)).like (hIncrBy_like done)
  · exact .replies _ rfl rfl

theorem hIncrByFloat_like {fl : FloatOps} {delta f : fl.F}
    (done : (KeyOp.hIncrByFloat fl key field delta).outcome cur = .ok f) :
    (KeyOp.hIncrByFloat fl key field delta).Like
      (KeyOp.hSet key (oneField field (fl.format f))) cur := by
  unfold KeyOp.Like
  unfold KeyOp.outcome KeyOp.answer at done
  unfold KeyOp.after KeyOp.hIncrByFloat KeyOp.hSet at *
  cases hash : KeyOp.hashOf (.ofLive cur) with
  | error failure => simp [hash, Action.result, Commit.result] at done
  | ok old =>
    simp only [hash] at done ⊢
    split at done
    · cases done
    · cases done
      simp only [oneField_union]
      exact ⟨rfl, rfl⟩

theorem cmdHIncrByFloat_mirrors (fl : FloatOps) (args : List Bytes) :
    Mirrors now s (cmdHIncrByFloat fl now s args) := by
  unfold cmdHIncrByFloat
  split
  · split
    · exact .replies _ rfl rfl
    · exact call_mirrors (KeyOp.hIncrByFloat_regular fl _ _) hIncrFloatReply_rejects
        fun f done => (Means.hash _ (oneField_ne _ _)).like (hIncrByFloat_like done)
  · exact .replies _ rfl rfl

theorem hSetNX_like {val : Bytes} (done : (KeyOp.hSetNX key field val).outcome cur = .ok n) :
    if n = 1 then (KeyOp.hSetNX key field val).Like (KeyOp.hSet key (oneField field val)) cur
    else (KeyOp.hSetNX key field val).Rests cur := by
  unfold KeyOp.Like KeyOp.Rests
  unfold KeyOp.outcome KeyOp.answer at done
  unfold KeyOp.after KeyOp.hSetNX KeyOp.hSet at *
  cases hash : KeyOp.hashOf (.ofLive cur) with
  | error failure => simp [hash, Action.result, Commit.result] at done
  | ok old =>
    simp only [hash] at done ⊢
    by_cases there : (old.lookup field).isSome
    · rw [if_pos there] at done ⊢
      cases done
      rw [if_neg (by decide)]
      cases cur <;> exact ⟨rfl, le_rfl⟩
    · rw [if_neg there] at done ⊢
      cases done
      rw [if_pos rfl, oneField_union]
      exact ⟨rfl, rfl⟩

theorem cmdHSetNX_mirrors : Mirrors now s (cmdHSetNX now s args) := by
  unfold cmdHSetNX
  split
  · refine sentIf_mirrors (KeyOp.hSetNX_regular _ _) typeOrOomReply_rejects (fun n done set => ?_)
      fun n done unset => ?_
    · have like := hSetNX_like done
      rw [if_pos (of_decide_eq_true set)] at like
      exact (Means.hash _ (oneField_ne _ _)).like like
    · have rests := hSetNX_like done
      rwa [if_neg (of_decide_eq_false unset)] at rests
  · exact .replies _ rfl rfl

variable {fields : List Bytes}

theorem foldl_erase_of_absent {old : GoMap Bytes}
    (absent : ∀ field ∈ fields, old.lookup field = none) :
    fields.foldl (fun h field => h.erase field) old = old := by
  induction fields with
  | nil => rfl
  | cons field rest ih =>
    rw [List.foldl_cons, erase_of_lookup_none (absent field List.mem_cons_self)]
    exact ih fun other member => absent other (List.mem_cons_of_mem _ member)

theorem eq_empty_of_keys {map : GoMap Bytes} (noKeys : map.keys = ∅) : map = ∅ := by
  apply Finmap.ext_lookup
  intro key
  rw [Finmap.lookup_empty, Finmap.lookup_eq_none, ← Finmap.mem_keys, noKeys]
  exact Finset.notMem_empty key

theorem hDel_rests (nonempty : ∀ e, cur = some e → e.value ≠ .hash ∅)
    (done : (KeyOp.hDel fields).outcome cur = .ok n) (nothing : ¬ 0 < n) :
    (KeyOp.hDel fields).Rests cur := by
  refine KeyOp.rests_of_decides (fun _ => KeyOp.hDel_decides [] fields) ?_
  cases cur with
  | none => rfl
  | some e =>
    obtain ⟨value, deadline⟩ := e
    cases value with
    | hash old =>
      simp only [KeyOp.outcome, KeyOp.answer, KeyOp.after, KeyOp.hDel, Look.ofLive] at done ⊢
      have absent : ∀ field ∈ fields, old.lookup field = none := by
        have disjoint : old.keys ∩ fields.toFinset = ∅ := by
          rw [← Finset.card_eq_zero]
          split at done <;> cases done <;> omega
        intro field member
        rw [Finmap.lookup_eq_none, ← Finmap.mem_keys]
        intro present
        have both : field ∈ old.keys ∩ fields.toFinset :=
          Finset.mem_inter.mpr ⟨present, List.mem_toFinset.mpr member⟩
        rw [disjoint] at both
        exact Finset.notMem_empty _ both
      rw [foldl_erase_of_absent absent]
      split
      · next noKeys => exact absurd (congrArg _ (eq_empty_of_keys noKeys)) (nonempty _ rfl)
      · rfl
    | _ => cases done

theorem cmdHDel_mirrors (args : List Bytes)
    (nonempty : ∀ name key rest, args = name :: key :: rest → ∀ e, s.live now key = some e →
      e.value ≠ .hash ∅) :
    Mirrors now s (cmdHDel now s args) := by
  unfold cmdHDel
  split
  · next name key field rest =>
    exact sentIf_mirrors (KeyOp.hDel_regular _) typeReply_rejects
      (fun _ _ _ => .done (fun _ => KeyOp.hDel_decides _ _) rfl)
      fun n done kept => hDel_rests (nonempty _ _ _ rfl) done (of_decide_eq_false kept)
  · exact .replies _ rfl rfl

/-! Readers -/

theorem cmdHGet_mirrors : Mirrors now s (cmdHGet now s args) := by
  unfold cmdHGet
  split
  · next key field =>
    refine .read (KeyOp.readLive_readOnly _ _) fun t value => ?_
    split
    · obtain ⟨sameLive, sameLimit⟩ := t.run_read now key KeyOp.typeName_readOnly
      exact .replies _ sameLive sameLimit
    · exact .replies _ rfl rfl
  · exact .replies _ rfl rfl

theorem cmdHMGet_mirrors : Mirrors now s (cmdHMGet now s args) := by
  unfold cmdHMGet
  split
  · refine .read KeyOp.typeName_readOnly fun t kind => ?_
    split
    · exact .replies _ rfl rfl
    · exact reads_mirrors (hGetEach_reads _ _)
    · exact .replies _ rfl rfl
  · exact .replies _ rfl rfl

theorem hashListing_mirrors (cmd : String) (row : Bytes → Bytes → List Bytes) (args : List Bytes) :
    Mirrors now s (hashListing cmd row now s args) := by
  unfold hashListing
  split
  · exact read_mirrors (KeyOp.readLive_readOnly _ _)
  · exact .replies _ rfl rfl

theorem cmdHExists_mirrors : Mirrors now s (cmdHExists now s args) := by
  unfold cmdHExists
  split
  · next key field =>
    refine .read (KeyOp.readLive_readOnly _ _) fun t there => ?_
    split
    · exact .replies _ rfl rfl
    · obtain ⟨sameLive, sameLimit⟩ := t.run_read now key KeyOp.typeName_readOnly
      exact .replies _ sameLive sameLimit
  · exact .replies _ rfl rfl

theorem cmdHLen_mirrors : Mirrors now s (cmdHLen now s args) := by
  unfold cmdHLen
  split
  · next key =>
    refine .read (KeyOp.readLive_readOnly _ _) fun t n => ?_
    obtain ⟨sameLive, sameLimit⟩ := t.run_read now key KeyOp.typeName_readOnly
    exact .replies _ sameLive sameLimit
  · exact .replies _ rfl rfl

end Hashes

/-! ## Lists -/

section Lists

variable {now : Time} {s : Store} (args : List Bytes)

theorem Means.push {view : Keyspace} (key : Key) (left : Bool) (val : Bytes) (rest : List Bytes) :
    Means now view [replicateListPush key left (val :: rest)] key
      (KeyOp.listPush key (val :: rest) left) := by
  cases left <;> exact .one rfl (le_max_right _ _)

theorem pushList_mirrors (cmd : String) (left : Bool) (args : List Bytes) :
    Mirrors now s (pushList cmd left now s args) := by
  unfold pushList
  split
  · exact call_mirrors (KeyOp.listPush_regular _ _) typeOrOomReply_rejects
      fun _ _ => .push _ _ _ _
  · exact .replies _ rfl rfl

theorem length_pushAll (left : Bool) (elements vals : List Bytes) :
    (KeyOp.pushAll left elements vals).length = elements.length + vals.length := by
  cases left with
  | false => simp [KeyOp.pushAll]
  | true =>
    simp only [KeyOp.pushAll, if_true]
    induction vals generalizing elements with
    | nil => rfl
    | cons val rest ih =>
      rw [List.foldl_cons, ih]
      simp only [List.length_cons]
      omega

variable {n : Int} {cur : Option Entry}

variable {key : Key}

theorem listPushX_like {val : Bytes} {rest : List Bytes} {left : Bool}
    (done : (KeyOp.listPushX key (val :: rest) left).outcome cur = .ok n) :
    if 0 < n then (KeyOp.listPushX key (val :: rest) left).Like (KeyOp.listPush key (val :: rest) left) cur
    else (KeyOp.listPushX key (val :: rest) left).Rests cur := by
  cases cur with
  | none =>
    cases done
    exact ⟨rfl, le_rfl⟩
  | some e =>
    obtain ⟨value, deadline⟩ := e
    cases value with
    | list old =>
      have pushed : n = (KeyOp.pushAll left old (val :: rest)).length := by
        cases done
        rfl
      rw [if_pos]
      · exact ⟨rfl, rfl⟩
      · rw [pushed, length_pushAll]
        simp only [List.length_cons]
        omega
    | _ => cases done

theorem pushListX_mirrors (cmd : String) (left : Bool) (args : List Bytes) :
    Mirrors now s (pushListX cmd left now s args) := by
  unfold pushListX
  split
  · refine sentIf_mirrors (KeyOp.listPushX_regular _ _) typeOrOomReply_rejects
      (fun n done pushed => ?_) fun n done absent => ?_
    · have like := listPushX_like done
      rw [if_pos (of_decide_eq_true pushed)] at like
      exact (Means.push _ _ _ _).like like
    · have rests := listPushX_like done
      rwa [if_neg (of_decide_eq_false absent)] at rests
  · exact .replies _ rfl rfl

/-- A pop that takes something is replayed by its length: popping that many again
splits the list at the same place. -/
structure Pops (op : Int → KeyOp (List Bytes)) : Prop where
  regular : ∀ count, (op count).Regular
  immediate : ∀ count, (op count).Immediate
  nothing : ∀ {count cur}, (op count).outcome cur = .ok [] → (op count).Rests cur
  again : ∀ {count cur out}, (op count).outcome cur = .ok out → out ≠ [] →
    (op count).Like (op (popCnt out.length)) cur

theorem popCount_popCnt {n : Nat} (positive : 0 < n) : KeyOp.popCount (popCnt n) = n := by
  unfold popCnt KeyOp.popCount
  rw [if_neg (by omega), if_neg (by omega)]
  rfl

theorem popCount_pos (count : Int) : 0 < KeyOp.popCount count := by
  unfold KeyOp.popCount
  split <;> omega

theorem drop_length_take (elements : List Bytes) (count : Nat) :
    elements.drop (elements.take count).length = elements.drop count := by
  rw [List.length_take]
  by_cases short : count ≤ elements.length
  · rw [Nat.min_eq_left short]
  · rw [Nat.min_eq_right (by omega), List.drop_of_length_le (le_refl _),
      List.drop_of_length_le (by omega)]

theorem commitMutated_post {ρ : Type} (e : Entry) (rest : List Bytes) (result : ρ)
    (cur : Option Entry) :
    (KeyOp.commitMutated e rest result).post cur
      = if rest = [] then none else some { value := .list rest, expiresAt := e.expiresAt } := by
  simp only [KeyOp.commitMutated]
  split <;> rfl

theorem pops_of_take (take : Nat → List Bytes → List Bytes × List Bytes)
    (takes : ∀ {n elements}, 0 < n → elements ≠ [] → (take n elements).1 ≠ [])
    (splits : ∀ n elements, (take (take n elements).1.length elements).2 = (take n elements).2) :
    Pops fun count => KeyOp.listPop (take (KeyOp.popCount count)) where
  regular _ := KeyOp.listPop_regular _
  immediate _ := KeyOp.listPop_immediate _
  nothing {count cur} done := by
    refine ⟨?_, ((KeyOp.listPop_immediate _).growth _).le⟩
    cases cur with
    | none => rfl
    | some e =>
      obtain ⟨value, deadline⟩ := e
      cases value with
      | list elements =>
        cases elements with
        | nil => rfl
        | cons first rest =>
          have answer := (KeyOp.commitMutated_ok _ _ _).symm.trans done
          simp only [Except.ok.injEq] at answer
          exact absurd answer (takes (popCount_pos count) (List.cons_ne_nil _ _))
      | _ => cases done
  again {count cur out} done nonempty := by
    have growth (n : Nat) := (KeyOp.listPop_immediate (take n)).growth (.ofLive cur)
    refine ⟨?_, (growth _).trans (growth _).symm⟩
    cases cur with
    | none => rfl
    | some e =>
      obtain ⟨value, deadline⟩ := e
      cases value with
      | list elements =>
        cases elements with
        | nil => rfl
        | cons first rest =>
          have answer := (KeyOp.commitMutated_ok _ _ _).symm.trans done
          simp only [Except.ok.injEq] at answer
          subst answer
          simp only [KeyOp.after, KeyOp.listPop, Look.ofLive, Action.post, commitMutated_post]
          rw [popCount_popCnt (List.length_pos_of_ne_nil nonempty), splits]
      | _ => rfl

theorem lPop_pops : Pops KeyOp.lPop :=
  pops_of_take (fun n elements => (elements.take n, elements.drop n))
    (fun positive nonempty => by simp [nonempty]; omega) fun n elements => drop_length_take elements n

theorem rPop_pops : Pops KeyOp.rPop :=
  pops_of_take
    (fun n elements => (elements.reverse.take n, (elements.reverse.drop n).reverse))
    (fun positive nonempty => by simp [nonempty]; omega)
    fun n elements => congrArg List.reverse (drop_length_take elements.reverse n)

theorem popList_mirrors {op : Int → KeyOp (List Bytes)} {replOp : ReplOp} (cmd : String)
    (pops : Pops op)
    (replays : ∀ (key : Key) (n : Int) (view : Keyspace), replay now (replicatePop replOp key n) view
      = onKey now key (op (popCnt n)) view) (args : List Bytes) :
    Mirrors now s (popList cmd op replOp now s args) := by
  have pop (key : Key) (count : Int) (reply : List Bytes → Reply) :
      Mirrors now s (.ofCall (s.run now key (op count)) typeReply
        (fun out => sentIf (out ≠ []) (replicatePop replOp key out.length)) reply) := by
    refine sentIf_mirrors (pops.regular count) typeReply_rejects (fun out done popped => ?_)
      fun out done nothing => ?_
    · refine Means.like ⟨replays _ _ _, ?_⟩ (pops.again done (of_decide_eq_true popped))
      exact ((pops.immediate _).growth _).trans_le (loads_nonneg _ _ _)
    · rw [not_not.mp (of_decide_eq_false nothing)] at done
      exact pops.nothing done
  unfold popList
  split
  · exact pop _ _ _
  · split
    · exact .replies _ rfl rfl
    · split
      · exact .replies _ rfl rfl
      · exact pop _ _ _
  · exact .replies _ rfl rfl

theorem cmdLPop_mirrors : Mirrors now s (cmdLPop now s args) :=
  popList_mirrors "LPOP" lPop_pops (fun _ _ _ => rfl) args

theorem cmdRPop_mirrors : Mirrors now s (cmdRPop now s args) :=
  popList_mirrors "RPOP" rPop_pops (fun _ _ _ => rfl) args

theorem cmdLSet_mirrors : Mirrors now s (cmdLSet now s args) := by
  unfold cmdLSet
  split
  · split
    · exact .replies _ rfl rfl
    · exact call_mirrors (KeyOp.lSet_regular _ _) lSetReply_rejects
        fun _ _ => .done (fun _ => KeyOp.lSet_decides _ _ _) rfl
  · exact .replies _ rfl rfl

theorem lRem_done (key : Key) (count : Int) (value : Bytes) (found : Look) :
    KeyOp.Decides false key False found (KeyOp.lRem count value found) :=
  KeyOp.lRem_decides key count value fun inexact => absurd inexact Bool.false_ne_true

theorem lRem_rests {count : Int} {value : Bytes}
    (done : (KeyOp.lRem count value).outcome cur = .ok n) (nothing : ¬ 0 < n) :
    (KeyOp.lRem count value).Rests cur := by
  refine KeyOp.rests_of_decides (lRem_done [] count value) ?_
  cases cur with
  | none => rfl
  | some e =>
    obtain ⟨held, deadline⟩ := e
    cases held with
    | list elements =>
      cases elements with
      | nil => rfl
      | cons first rest =>
        have answer := (KeyOp.commitMutated_ok _ _ _).symm.trans done
        simp only [Except.ok.injEq] at answer
        have same : KeyOp.lRemOf count value (first :: rest) = first :: rest :=
          (KeyOp.sublist_lRemOf count value _).eq_of_length_le (by omega)
        simp only [KeyOp.after, KeyOp.lRem, Look.ofLive, Action.post, commitMutated_post, same]
        rfl
    | _ => cases done

theorem cmdLRem_mirrors : Mirrors now s (cmdLRem now s args) := by
  unfold cmdLRem
  split
  · next key count elem =>
    split
    · exact .replies _ rfl rfl
    · exact sentIf_mirrors (KeyOp.lRem_regular _ _) typeReply_rejects
        (fun _ _ _ => .done (lRem_done _ _ _) rfl)
        fun n done kept => lRem_rests done (of_decide_eq_false kept)
  · exact .replies _ rfl rfl

theorem cmdLTrim_mirrors : Mirrors now s (cmdLTrim now s args) := by
  unfold cmdLTrim
  split
  · split
    · next start stop goodStart goodStop =>
      refine call_mirrors (KeyOp.lTrim_regular _ _) typeReply_rejects
        fun _ _ => .done (fun _ => KeyOp.lTrim_decides _ _ _) ?_
      -- The bounds travel as decimal text and come back as they were.
      simp only [replayAll_cons, replayAll_nil, replay, replicateLTrim, replayLTrim,
        parseInt_formatInt (parseInt_isInt64 goodStart), parseInt_formatInt (parseInt_isInt64 goodStop)]
    · exact .replies _ rfl rfl
  · exact .replies _ rfl rfl

theorem Means.insert {view : Keyspace} (key : Key) (before : Bool) (pivot elem : Bytes) :
    Means now view [replicateLInsert key before pivot elem] key
      (KeyOp.lInsert key before pivot elem) := by
  cases before <;> exact .one rfl (le_max_right _ _)

theorem lInsert_rests {before : Bool} {pivot elem : Bytes}
    (done : (KeyOp.lInsert key before pivot elem).outcome cur = .ok n) (nothing : ¬ 0 ≤ n) :
    (KeyOp.lInsert key before pivot elem).Rests cur := by
  unfold KeyOp.Rests
  cases cur with
  | none => exact ⟨rfl, le_rfl⟩
  | some e =>
    obtain ⟨held, deadline⟩ := e
    cases held with
    | list elements =>
      simp only [KeyOp.outcome, KeyOp.answer, KeyOp.after, KeyOp.lInsert, Look.ofLive] at done ⊢
      split at done
      · exact ⟨rfl, le_rfl⟩
      · cases done
        omega
    | _ => cases done

theorem cmdLInsert_mirrors : Mirrors now s (cmdLInsert now s args) := by
  unfold cmdLInsert
  split
  · next key place pivot elem =>
    split
    · exact .replies _ rfl rfl
    · exact sentIf_mirrors (KeyOp.lInsert_regular _ _ _) typeReply_rejects
        (fun _ _ _ => .insert _ _ _ _)
        fun n done absent => lInsert_rests done (of_decide_eq_false absent)
  · exact .replies _ rfl rfl

end Lists

/-! ## Sets -/

section Sets

variable {now : Time} {s : Store} (args : List Bytes)

variable {n : Int} {cur : Option Entry}
  {members : Time → Store → List Key → Store × Except StoreErr (Finset Bytes)}

theorem sAdd_rests {key : Key} {member : Bytes} {rest : List Bytes}
    (done : (KeyOp.sAdd key (member :: rest)).outcome cur = .ok n) (nothing : ¬ 0 < n) :
    (KeyOp.sAdd key (member :: rest)).Rests cur := by
  cases cur with
  | none =>
    have count : n = ((member :: rest).toFinset \ ∅).card := by
      cases done
      rfl
    rw [Finset.sdiff_empty] at count
    have positive : 0 < (member :: rest).toFinset.card :=
      Finset.card_pos.mpr ⟨member, by simp⟩
    omega
  | some e =>
    obtain ⟨held, deadline⟩ := e
    cases held with
    | set old =>
      have count : n = ((member :: rest).toFinset \ old).card := by
        cases done
        rfl
      have known : (member :: rest).toFinset ⊆ old := by
        rw [← Finset.sdiff_eq_empty_iff_subset, ← Finset.card_eq_zero]
        omega
      have same : old ∪ (member :: rest).toFinset = old := Finset.union_eq_left.mpr known
      constructor
      · show some (Entry.mk (.set (old ∪ (member :: rest).toFinset)) deadline) = _
        rw [same]
      · show estimateMem key (Entry.mk (.set (old ∪ (member :: rest).toFinset)) deadline)
          - estimateMem key (Entry.mk (.set old) deadline) ≤ 0
        rw [same, sub_self]
    | _ => cases done

theorem cmdSAdd_mirrors : Mirrors now s (cmdSAdd now s args) := by
  unfold cmdSAdd
  split
  · next key member rest =>
    exact sentIf_mirrors (KeyOp.sAdd_regular _) typeOrOomReply_rejects
      (fun _ _ _ => .one rfl (le_max_right _ _))
      fun n done known => sAdd_rests done (of_decide_eq_false known)
  · exact .replies _ rfl rfl

theorem sRem_rests {members : List Bytes} (nonempty : ∀ e, cur = some e → e.value ≠ .set ∅)
    (done : (KeyOp.sRem members).outcome cur = .ok n) (nothing : ¬ 0 < n) :
    (KeyOp.sRem members).Rests cur := by
  refine KeyOp.rests_of_decides (fun _ => KeyOp.sRem_decides [] members) ?_
  cases cur with
  | none => rfl
  | some e =>
    obtain ⟨held, deadline⟩ := e
    cases held with
    | set old =>
      simp only [KeyOp.outcome, KeyOp.answer, KeyOp.after, KeyOp.sRem, Look.ofLive] at done ⊢
      have same : old \ members.toFinset = old := by
        have disjoint : old ∩ members.toFinset = ∅ := by
          rw [← Finset.card_eq_zero]
          split at done <;> cases done <;> omega
        exact Finset.sdiff_eq_self_iff_disjoint.mpr (Finset.disjoint_iff_inter_eq_empty.mpr disjoint)
      rw [same]
      split
      · next empty => exact absurd (congrArg _ empty) (nonempty _ rfl)
      · rfl
    | _ => cases done

theorem cmdSRem_mirrors (args : List Bytes)
    (nonempty : ∀ name key rest, args = name :: key :: rest → ∀ e, s.live now key = some e →
      e.value ≠ .set ∅) :
    Mirrors now s (cmdSRem now s args) := by
  unfold cmdSRem
  split
  · next name key member rest =>
    exact sentIf_mirrors (KeyOp.sRem_regular _) typeReply_rejects
      (fun _ _ _ => .done (fun _ => KeyOp.sRem_decides _ _) rfl)
      fun n done kept => sRem_rests (nonempty _ _ _ rfl) done (of_decide_eq_false kept)
  · exact .replies _ rfl rfl

theorem combineSets_mirrors (cmd : String)
    (reads : ∀ s keys, Store.Reads now s (members now s keys).1) (args : List Bytes) :
    Mirrors now s (combineSets cmd members now s args) := by
  unfold combineSets
  split
  · exact reads_mirrors (reads s _)
  · exact .replies _ rfl rfl

theorem storeSets_mirrors (cmd : String)
    (reads : ∀ s keys, Store.Reads now s (members now s keys).1) (args : List Bytes) :
    Mirrors now s (storeSets cmd members now s args) := by
  unfold storeSets
  split
  · next dest key keys =>
    have read := reads s (key :: keys)
    unfold Outcome.onOk
    rcases equation : members now s (key :: keys) with ⟨t, failure | found⟩ <;>
      rw [equation] at read
    · exact .replies _ read.live.1 read.live.2
    · exact (call_mirrors (KeyOp.replaceSet_regular _) oomReply_rejects
        fun _ _ => .one rfl (le_max_right _ _)).of_reads read
  · exact .replies _ rfl rfl

end Sets

end SuperCache
