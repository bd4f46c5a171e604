import SuperCache.Store.Accounting

/-! # What each operation decides

An operation keeps what it found, refuses, takes a live entry away or replaces it by one
that is no larger, or asks for room for a new entry.  `Decides` says so of a decision, and
with it what it pays for.  Those that clone the old value pay exactly for it.  `LPop`,
`RPop` and `LRem` have already shortened the list when they pay, so they pay too little for
what they take away; `incrBy` on an expired entry pays for it a second time.
-/

namespace SuperCache

open Lib

namespace KeyOp

/-! ## Decisions -/

/-- What an operation on the key may decide on what it found, where `room` says whether it may
ask for room.  It pays for the live entry it takes away, to the byte if `exact`. -/
inductive Decides {ρ : Type} (exact : Bool) (key : Key) (room : Prop) (found : Look) :
    Action ρ → Prop
  | keep (kind : Touch) (result : Except StoreErr ρ) :
      Decides exact key room found (.done kind (.keep result))
  | purge (kind : Touch) {e old : Entry} (result : ρ) (live : found = .live e)
      (paid : Covers exact (estimateMem key e) (estimateMem key old)) :
      Decides exact key room found (.done kind (.purge old result))
  | replace (kind : Touch) {e old ne : Entry} (result : ρ) (live : found = .live e)
      (paid : Covers exact (estimateMem key e) (estimateMem key old))
      (smaller : estimateMem key ne ≤ estimateMem key old) :
      Decides exact key room found (.done kind (.replace (some old) ne result))
  | put (kind : Touch) (ne : Entry) (result : ρ) (asks : room) :
      Decides exact key room found (.ensure kind
        (estimateMem key ne - oldBytes key found.current) found.current ne result .stored)

variable {exact : Bool} {found : Look} {room : Prop}

theorem keep_accounts {ρ : Type} {key : Key} (kind : Touch) (result : Except StoreErr ρ) :
    (Action.done kind (.keep result)).Accounts exact key found :=
  ⟨trivial, trivial⟩

theorem ensure_accounts {ρ : Type} {key : Key} (found : Look) (kind : Touch) (ne : Entry)
    (result : ρ) : (Action.ensure kind (estimateMem key ne - oldBytes key found.current)
      found.current ne result .stored).Accounts exact key found :=
  ⟨.refl _ _, rfl, trivial⟩

theorem Decides.accounts {ρ : Type} {key : Key} {action : Action ρ}
    (decides : Decides exact key room found action) : action.Accounts exact key found := by
  cases decides with
  | keep kind result => exact keep_accounts _ _
  | purge kind result live paid =>
    subst live
    exact ⟨⟨_, rfl, paid⟩, trivial⟩
  | replace kind result live paid smaller =>
    subst live
    exact ⟨paid, smaller⟩
  | put kind ne result asks => exact ensure_accounts _ _ _ _

/-! ## Strings -/

theorem get_decides (key : Key) : Decides exact key False found (get found) := by
  unfold get
  split
  · split <;> exact .keep _ _
  · exact .keep _ _

section Keyed

variable {key : Key}

theorem setLocked_accounts (val : Bytes) (expiresAt : Time) (nx xx : Bool) :
    (setLocked key val expiresAt nx xx found).Accounts exact key found := by
  simp only [setLocked]
  split
  · exact keep_accounts _ _
  · refine ⟨.refl _ _, rfl, fun again _ => ?_⟩
    simp only
    split
    · exact ⟨trivial, trivial⟩
    · exact ⟨.refl _ _, rfl⟩

theorem setNX_accounts (val : Bytes) (expiresAt : Time) :
    (setNX key val expiresAt found).Accounts exact key found := by
  have absent {other : Look} (notLive : ¬ other.isLive = true) : other.current = none := by
    cases other with
    | missing => rfl
    | expired e => rfl
    | live e => exact absurd rfl notLive
  simp only [setNX]
  split
  · exact keep_accounts _ _
  · next notLive =>
    refine ⟨by rw [absent notLive]; exact .refl _ _, by simp [absent notLive, oldBytes], ?_⟩
    intro again _
    simp only
    split
    · exact ⟨trivial, trivial⟩
    · next stillNotLive => exact ⟨by rw [absent stillNotLive]; exact .refl _ _, rfl⟩

theorem setXX_accounts (val : Bytes) (expiresAt : Time) :
    (setXX key val expiresAt found).Accounts exact key found := by
  cases found with
  | missing => exact keep_accounts _ _
  | expired e => exact keep_accounts _ _
  | live e =>
    refine ⟨.refl _ _, rfl, fun again _ => ?_⟩
    cases again with
    | missing => exact ⟨trivial, trivial⟩
    | expired e => exact ⟨trivial, trivial⟩
    | live e => exact ⟨.refl _ _, rfl⟩

theorem getSet_decides (val : Bytes) (expiresAt : Time) :
    Decides exact key True found (getSet key val expiresAt found) := by
  unfold getSet
  simp only
  split
  · next nothing =>
    rw [Option.map_eq_none_iff] at nothing
    rw [← nothing]
    exact .put _ _ _ trivial
  · exact .put _ _ _ trivial
  · exact .keep _ _

theorem append_accounts (tail : Bytes) :
    (append key tail found).Accounts exact key found := by
  -- The branch for a key that appears meanwhile is not reached in a sequential run.
  have creating {other : Look} (absent : other.current = none) (notLive : other.isLive = false) :
      (append key tail .missing).Accounts exact key other := by
    refine ⟨by rw [absent]; exact .refl _ _, by simp [absent, oldBytes], ?_⟩
    rintro again (rfl | ⟨rfl, live⟩)
    · exact ⟨.refl _ _, rfl⟩
    · rw [notLive] at live
      cases live
  cases found with
  | missing => exact creating rfl rfl
  | expired e => exact creating rfl rfl
  | live e =>
    simp only [append]
    split
    · exact ensure_accounts (.live e) _ _ _
    · exact keep_accounts _ _

theorem incrBy_accounts (delta : Int) (fresh : ∀ e, found ≠ .expired e) :
    (incrBy key delta found).Accounts exact key found := by
  have old : incrOld found = found.current := by
    cases found with
    | missing => rfl
    | expired e => exact absurd rfl (fresh e)
    | live e => rfl
  simp only [incrBy]
  split
  · exact keep_accounts _ _
  · split
    · exact keep_accounts _ _
    · rw [old]
      exact ensure_accounts _ _ _ _

theorem incrBy_sized (delta : Int) : (incrBy key delta found).Sized key found := by
  simp only [incrBy]
  split
  · exact ⟨trivial, trivial⟩
  · split
    · exact ⟨trivial, trivial⟩
    · exact ⟨rfl, trivial⟩

/-! ## Hashes -/

theorem hSet_decides (pairs : GoMap Bytes) :
    Decides exact key True found (hSet key pairs found) := by
  unfold hSet
  split
  · exact .keep _ _
  · exact .put _ _ _ trivial

theorem hSetNX_decides (field val : Bytes) :
    Decides exact key True found (hSetNX key field val found) := by
  unfold hSetNX
  split
  · exact .keep _ _
  · split
    · exact .keep _ _
    · exact .put _ _ _ trivial

theorem hIncrBy_decides (field : Bytes) (delta : Int) :
    Decides exact key True found (hIncrBy key field delta found) := by
  unfold hIncrBy
  split
  · exact .keep _ _
  · split
    · exact .keep _ _
    · split
      · exact .keep _ _
      · exact .put _ _ _ trivial

theorem hIncrByFloat_decides (fl : FloatOps) (field : Bytes) (delta : fl.F) :
    Decides exact key True found (hIncrByFloat fl key field delta found) := by
  unfold hIncrByFloat
  split
  · exact .keep _ _
  · split
    · exact .keep _ _
    · exact .put _ _ _ trivial

end Keyed

theorem readLive_decides {ρ : Type} (key : Key) (absent : ρ) (read : Value → Option ρ) :
    Decides exact key False found (readLive absent read found) := by
  unfold readLive
  split
  · split <;> exact .keep _ _
  · exact .keep _ _

theorem size_erase_le (fields : GoMap Bytes) (field : Bytes) :
    (Value.hash (fields.erase field)).size ≤ (Value.hash fields).size := by
  simp only [Value.size]
  cases present : fields.lookup field with
  | none => rw [erase_of_lookup_none present]
  | some value =>
    rw [weight_erase _ present]
    omega

theorem size_foldl_erase_le (names : List Bytes) (fields : GoMap Bytes) :
    (Value.hash (names.foldl (fun h field => h.erase field) fields)).size
      ≤ (Value.hash fields).size := by
  induction names generalizing fields with
  | nil => exact le_refl _
  | cons name rest ih =>
    exact (ih (fields.erase name)).trans (size_erase_le fields name)

theorem hDel_decides (key : Key) (fields : List Bytes) :
    Decides exact key False found (hDel fields found) := by
  unfold hDel
  split
  · split
    · next old isHash =>
      simp only
      split
      · exact .purge _ _ rfl (.refl _ _)
      · apply Decides.replace _ _ rfl (.refl _ _)
        have smaller := size_foldl_erase_le fields old
        simp only [estimateMem, isHash]
        omega
    · exact .keep _ _
  · exact .keep _ _

/-! ## Lists -/

theorem lLen_decides (key : Key) :
    Decides exact key room found (lLen found) := by
  unfold lLen
  split
  · split <;> exact .keep _ _
  · exact .keep _ _

theorem listPush_decides {key : Key} (vals : List Bytes) (left : Bool) :
    Decides exact key True found (listPush key vals left found) := by
  unfold listPush
  split
  · exact lLen_decides key
  · simp only
    split
    · exact .put _ _ _ trivial
    · exact .put _ _ _ trivial
    · exact .keep _ _

theorem listPushX_decides {key : Key} (vals : List Bytes) (left : Bool) :
    Decides exact key True found (listPushX key vals left found) := by
  unfold listPushX
  split
  · exact lLen_decides key
  · simp only
    split
    · split
      · exact .put _ _ _ trivial
      · exact .keep _ _
    · exact .keep _ _

theorem commitMutated_decides {ρ : Type} (key : Key) (kind : Touch) {e : Entry}
    {elements rest : List Bytes} (result : ρ) (isList : e.value = .list elements)
    (payment : Covers exact elements.length rest.length) :
    Decides exact key room (.live e) (.done kind (commitMutated e rest result)) := by
  have paid : Covers exact (estimateMem key e)
      (estimateMem key { value := .list rest, expiresAt := e.expiresAt }) := by
    obtain ⟨fair, fairly⟩ := payment
    simp only [estimateMem, isList, Value.size]
    refine ⟨by omega, fun isExact => ?_⟩
    have := fairly isExact
    omega
  simp only [commitMutated]
  split
  · exact .purge _ _ rfl paid
  · exact .replace _ _ rfl paid le_rfl

theorem listPop_decides (key : Key) {take : List Bytes → List Bytes × List Bytes}
    (shortens : ∀ elements, (take elements).2.length ≤ elements.length)
    (unpopped : exact = true → ∀ e first rest, found = .live e → e.value ≠ .list (first :: rest)) :
    Decides exact key False found (listPop take found) := by
  unfold listPop
  split
  · next e =>
    split
    · exact .keep _ _
    · next elements nonempty isList =>
      apply commitMutated_decides _ _ _ isList
      refine ⟨by exact_mod_cast shortens elements, fun isExact => ?_⟩
      cases elements with
      | nil => exact absurd rfl nonempty
      | cons first rest => exact absurd isList (unpopped isExact e first rest rfl)
    · exact .keep _ _
  · exact .keep _ _

theorem lPop_decides (key : Key) (count : Int)
    (unpopped : exact = true → ∀ e first rest, found = .live e → e.value ≠ .list (first :: rest)) :
    Decides exact key False found (lPop count found) := by
  apply listPop_decides key _ unpopped
  intro elements
  simp only [List.length_drop]
  omega

theorem rPop_decides (key : Key) (count : Int)
    (unpopped : exact = true → ∀ e first rest, found = .live e → e.value ≠ .list (first :: rest)) :
    Decides exact key False found (rPop count found) := by
  apply listPop_decides key _ unpopped
  intro elements
  simp only [List.length_reverse, List.length_drop]
  omega

theorem sublist_dropMatches (value : Bytes) (limit : Nat) (elements : List Bytes) :
    (dropMatches value limit elements).Sublist elements := by
  induction elements generalizing limit with
  | nil => exact List.Sublist.refl _
  | cons element rest ih =>
    simp only [dropMatches]
    split
    · exact (ih _).cons _
    · exact (ih _).cons_cons _

theorem sublist_lRemOf (count : Int) (value : Bytes) (elements : List Bytes) :
    (lRemOf count value elements).Sublist elements := by
  unfold lRemOf
  split
  · exact List.filter_sublist
  · split
    · exact sublist_dropMatches _ _ _
    · have reversed := (sublist_dropMatches value (wrap64 (-count)).toNat elements.reverse).reverse
      rwa [List.reverse_reverse] at reversed

theorem lRem_decides (key : Key) (count : Int) (value : Bytes)
    (unremoved : exact = true → ∀ e elements, found = .live e → e.value = .list elements →
      lRemOf count value elements = elements) :
    Decides exact key False found (lRem count value found) := by
  unfold lRem
  split
  · next e =>
    split
    · exact .keep _ _
    · next elements _ isList =>
      apply commitMutated_decides _ _ _ isList
      refine ⟨by exact_mod_cast (sublist_lRemOf count value elements).length_le, fun isExact => ?_⟩
      rw [unremoved isExact e elements rfl isList]
    · exact .keep _ _
  · exact .keep _ _

theorem lSet_decides (key : Key) (index : Int) (val : Bytes) :
    Decides exact key False found (lSet index val found) := by
  unfold lSet
  split
  · next e =>
    split
    · next elements isList =>
      simp only
      split
      · exact .keep _ _
      · have sameSize (idx : Nat) : estimateMem key e
            = estimateMem key { value := .list (elements.set idx val), expiresAt := e.expiresAt } := by
          simp only [estimateMem, isList, Value.size, List.length_set]
        refine .replace _ _ rfl ?_ le_rfl
        rw [sameSize]
        exact .refl _ _
    · exact .keep _ _
  · exact .keep _ _

theorem length_slice_le (elements : List Bytes) (st en : Int) :
    (slice elements st en).length ≤ elements.length := by
  simp only [slice, List.length_take, List.length_drop]
  omega

theorem lTrim_decides (key : Key) (start stop : Int) :
    Decides exact key False found (lTrim start stop found) := by
  unfold lTrim
  split
  · split
    · next elements isList =>
      simp only
      split
      · exact .keep _ _
      · split
        · exact .purge _ _ rfl (.refl _ _)
        · split
          · exact .purge _ _ rfl (.refl _ _)
          · apply Decides.replace _ _ rfl (.refl _ _)
            have shorter := length_slice_le elements
              (max 0 (normalizeListIndex start elements.length))
              (min (elements.length - 1 : Int) (normalizeListIndex stop elements.length))
            simp only [estimateMem, isList, Value.size]
            omega
    · exact .keep _ _
  · exact .keep _ _

theorem lInsert_decides {key : Key} (before : Bool) (pivot insert : Bytes) :
    Decides exact key True found (lInsert key before pivot insert found) := by
  unfold lInsert
  split
  · split
    · split
      · exact .keep _ _
      · exact .put _ _ _ trivial
    · exact .keep _ _
  · exact .keep _ _

/-! ## Sets -/

theorem sAdd_decides {key : Key} (members : List Bytes) :
    Decides exact key True found (sAdd key members found) := by
  simp only [sAdd]
  split
  · exact .put _ _ _ trivial
  · exact .put _ _ _ trivial
  · exact .keep _ _

theorem sRem_decides (key : Key) (members : List Bytes) :
    Decides exact key False found (sRem members found) := by
  unfold sRem
  split
  · split
    · next old isSet =>
      simp only
      split
      · exact .purge _ _ rfl (.refl _ _)
      · apply Decides.replace _ _ rfl (.refl _ _)
        have smaller : (Value.set (old \ members.toFinset)).size ≤ (Value.set old).size :=
          Finset.sum_le_sum_of_subset_of_nonneg Finset.sdiff_subset
            fun member _ _ => Int.natCast_nonneg member.length
        simp only [estimateMem, isSet]
        omega
    · exact .keep _ _
  · exact .keep _ _

theorem replaceSet_decides {key : Key} (members : List Bytes) :
    Decides exact key True found (replaceSet key members found) :=
  .put _ _ _ trivial

/-! ## Keys -/

theorem del_decides (key : Key) : Decides exact key False found (del found) := by
  cases found with
  | missing => exact .keep _ _
  | expired e => exact .keep _ _
  | live e => exact .purge _ _ rfl (.refl _ _)

theorem exists1_decides (key : Key) : Decides exact key False found (exists1 found) := by
  cases found <;> exact .keep _ _

theorem typeName_decides (key : Key) : Decides exact key False found (typeName found) := by
  cases found <;> exact .keep _ _

theorem expireAt_decides (key : Key) (instant : Time) :
    Decides exact key False found (expireAt instant found) := by
  cases found with
  | missing => exact .keep _ _
  | expired e => exact .keep _ _
  | live e => exact .replace _ _ rfl (.refl _ _) (estimateMem_congr key rfl).le

theorem persist_decides (key : Key) : Decides exact key False found (persist found) := by
  unfold persist
  split
  · split
    · exact .keep _ _
    · exact .replace _ _ rfl (.refl _ _) (estimateMem_congr key rfl).le
  · exact .keep _ _

theorem ttlIn_decides (key : Key) (unit : Int → Int) (now : Time) :
    Decides exact key False found (ttlIn unit now found) := by
  unfold ttlIn
  split
  · split
    · exact .keep _ _
    · split
      · exact .purge _ _ rfl (.refl _ _)
      · exact .keep _ _
  · exact .keep _ _

end KeyOp

end SuperCache
