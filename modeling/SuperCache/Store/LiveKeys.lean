import SuperCache.Store.Runs

/-! # The live keyspace

What clients see of a store at an instant: the entries that are not expired.
An operation acts on this view as a function of one entry (`KeyOp.effect`,
`KeyOp.outcome`), exactly so when there is no limit and, when there is one, up
to keys that eviction took away (`Within`).
-/

namespace SuperCache

open Lib

abbrev Keyspace := Key → Option Entry

def alive (now : Time) (stored : Option Entry) : Option Entry :=
  (look now stored).current

def Look.ofLive : Option Entry → Look
  | none => .missing
  | some e => .live e

def Store.live (s : Store) (now : Time) : Keyspace :=
  fun key => alive now (s.stored key)

/-- `actual` is `ideal`, but for keys that are gone if there is a limit. -/
def Within (limit : Nat) (actual ideal : Keyspace) : Prop :=
  ∀ key, actual key = ideal key ∨ (limit ≠ 0 ∧ actual key = none)

variable {limit : Nat} {actual ideal : Keyspace}

section Alive

variable {now : Time} {e : Entry}

@[simp] theorem alive_none : alive now none = none :=
  rfl

theorem alive_some : alive now (some e) = if isExpired now e then none else some e := by
  simp only [alive, look]
  split <;> rfl

@[simp] theorem alive_alive (stored : Option Entry) : alive now (alive now stored) = alive now stored := by
  cases stored with
  | none => rfl
  | some e =>
    rw [alive_some]
    split
    · rfl
    · next fresh => rw [alive_some, if_neg fresh]

theorem alive_same_deadline (value : Value) (live : alive now (some e) = some e) :
    alive now (some { value := value, expiresAt := e.expiresAt })
      = some { value := value, expiresAt := e.expiresAt } := by
  rw [alive_some] at live
  split at live
  · cases live
  · next fresh =>
    rw [alive_some, if_neg]
    simpa [isExpired] using fresh

theorem alive_of_no_deadline (value : Value) :
    alive now (some { value := value, expiresAt := 0 }) = some { value := value, expiresAt := 0 } := by
  rw [alive_some, if_neg]
  simp [isExpired]

theorem alive_eq_some_iff {stored : Option Entry} :
    alive now stored = some e ↔ stored = some e ∧ isExpired now e = false := by
  cases stored with
  | none => simp
  | some other =>
    rw [alive_some]
    constructor
    · intro live
      split at live
      · cases live
      · next fresh =>
        cases live
        exact ⟨rfl, by simpa using fresh⟩
    · rintro ⟨⟨⟩, fresh⟩
      rw [if_neg (by simp [fresh])]

theorem alive_later {now later : Time} (passed : now ≤ later) (stored : Option Entry) :
    alive later (alive now stored) = alive later stored := by
  cases stored with
  | none => rfl
  | some e =>
    rw [alive_some]
    split
    · next expired =>
      have still : isExpired later e = true := by
        simp only [isExpired, decide_eq_true_eq] at expired ⊢
        exact ⟨expired.1, lt_of_lt_of_le expired.2 passed⟩
      rw [alive_some, if_pos still]
      rfl
    · rfl

end Alive

namespace Store

theorem live_congr {s t : Store} (now : Time) (same : ∀ key, t.stored key = s.stored key) :
    t.live now = s.live now := by
  funext key
  unfold live
  rw [same]

variable (s : Store) (now : Time) (key : Key)

@[simp] theorem alive_live : alive now (s.live now key) = s.live now key :=
  alive_alive _

theorem lookup_current : (s.lookup now key).current = s.live now key :=
  rfl

theorem lookup_eq :
    s.lookup now key = .ofLive (s.live now key)
      ∨ ∃ e, s.lookup now key = .expired e ∧ s.live now key = none := by
  have current := s.lookup_current now key
  obtain ⟨found, -⟩ | ⟨e, found, -⟩ | ⟨e, found, -⟩ := s.lookup_cases now key
  · rw [found] at current ⊢
    rw [← current]
    exact .inl rfl
  · rw [found] at current ⊢
    exact .inr ⟨e, rfl, current.symm⟩
  · rw [found] at current ⊢
    rw [← current]
    exact .inl rfl

theorem isLive_lookup : (s.lookup now key).isLive = (s.live now key).isSome := by
  rw [← s.lookup_current now key]
  cases s.lookup now key <;> rfl

end Store

/-! ## Operations on the live keyspace -/

section Effects

variable {ρ : Type}

def KeyOp.effect (op : KeyOp ρ) (now : Time) (cur : Option Entry) : Option Entry :=
  alive now (op.after (.ofLive cur))

def KeyOp.outcome (op : KeyOp ρ) (cur : Option Entry) : Except StoreErr ρ :=
  op.answer (.ofLive cur)

/-- What a write does when it comes back from making room is what it meant to do
before, if its key holds the same or nothing. -/
def Action.Steady (found : Look) : Action ρ → Prop
  | .ensure _ _ _ ne result (.recheck _ decide) =>
    ∀ again, again = .missing ∨ (again = found ∧ again.isLive = true) →
      ∃ old, decide again = .replace old ne result
  | _ => True

/-- An expired entry is the same to the operation as none. -/
def KeyOp.Blind (op : KeyOp ρ) : Prop :=
  ∀ e, op.after (.expired e) = op.after .missing ∧ op.answer (.expired e) = op.answer .missing
    ∧ (op (.expired e)).growth = (op .missing).growth

structure KeyOp.Regular (op : KeyOp ρ) : Prop where
  blind : op.Blind
  steady : ∀ found, (op found).Steady found

def KeyOp.ReadOnly (op : KeyOp ρ) : Prop :=
  ∀ found, ∃ kind result, op found = .done kind (.keep result)

def KeyOp.Immediate (op : KeyOp ρ) : Prop :=
  ∀ found, ∃ kind commit, op found = .done kind commit

/-- The bytes an operation asks room for. -/
def KeyOp.adds (op : KeyOp ρ) (cur : Option Entry) : Int :=
  max 0 (op (.ofLive cur)).growth

theorem KeyOp.adds_nonneg (op : KeyOp ρ) (cur : Option Entry) : 0 ≤ op.adds cur :=
  le_max_left _ _

theorem KeyOp.Immediate.growth {op : KeyOp ρ} (immediate : op.Immediate) (found : Look) :
    (op found).growth = 0 := by
  obtain ⟨kind, commit, decision⟩ := immediate found
  rw [decision]
  rfl

theorem KeyOp.Blind.current {op : KeyOp ρ} (blind : op.Blind) (found : Look) :
    op.after found = op.after (.ofLive found.current)
      ∧ op.answer found = op.answer (.ofLive found.current)
      ∧ (op found).growth = (op (.ofLive found.current)).growth := by
  cases found with
  | missing => exact ⟨rfl, rfl, rfl⟩
  | live e => exact ⟨rfl, rfl, rfl⟩
  | expired e => exact blind e

theorem KeyOp.Blind.lookup {op : KeyOp ρ} (blind : op.Blind) (s : Store) (now : Time) (key : Key) :
    op.after (s.lookup now key) = op.after (.ofLive (s.live now key))
      ∧ op.answer (s.lookup now key) = op.answer (.ofLive (s.live now key))
      ∧ (op (s.lookup now key)).growth = (op (.ofLive (s.live now key))).growth :=
  blind.current _

namespace Store

variable {s : Store} {now : Time} {key : Key} {op : KeyOp ρ}

theorem live_eq_none (notLive : ∀ e, s.lookup now key ≠ .live e) : s.live now key = none := by
  rw [← s.lookup_current now key]
  cases lookup : s.lookup now key with
  | missing => rfl
  | expired e => rfl
  | live e => exact absurd lookup (notLive e)

theorem run_live_fits (s : Store) (now : Time) (key : Key) (blind : op.Blind)
    (room : s.HasRoom (op (.ofLive (s.live now key))).growth) :
    (s.run now key op).1.live now
        = Function.update (s.live now) key (op.effect now (s.live now key))
      ∧ (s.run now key op).2 = op.outcome (s.live now key) := by
  obtain ⟨sameAfter, sameAnswer, growth⟩ := blind.lookup s now key
  obtain ⟨stored, answer⟩ := run_fits s now key op (growth.symm ▸ room)
  refine ⟨?_, answer.trans sameAnswer⟩
  funext other
  unfold live
  rw [stored]
  by_cases same : other = key
  · rw [if_pos same, same, Function.update_self, sameAfter]
    rfl
  · rw [if_neg same, Function.update_of_ne same]

theorem HasRoom.run_adds {n : Int} (blind : op.Blind)
    (pays : ∀ found, (op found).Accounts false key found ∧ (op found).Current found)
    (nonneg : 0 ≤ n) (room : s.HasRoom (op.adds (s.live now key) + n)) :
    (s.run now key op).1.HasRoom n := by
  rw [KeyOp.adds, ← (blind.lookup s now key).2.2] at room
  exact room.run nonneg (pays _).1 (pays _).2

variable {result : ρ} {kind : Touch}

theorem run_keep {result : Except StoreErr ρ}
    (decision : op (s.lookup now key) = .done kind (.keep result)) :
    (s.run now key op).1.live now = s.live now ∧ (s.run now key op).1.maxMem = s.maxMem
      ∧ (s.run now key op).2 = result := by
  refine ⟨?_, (run_frame s now key op).1, ?_⟩
  · funext other
    unfold live run
    simp only [decision, Store.commit, stored_touch, stored_purgeExpired]
    split
    · next same =>
      subst same
      exact s.alive_live now other
    · rfl
  · unfold run
    simp only [decision, Store.commit]

theorem run_done {commit : Commit ρ} (blind : op.Blind)
    (decision : op (s.lookup now key) = .done kind commit) :
    (s.run now key op).1.live now
        = Function.update (s.live now) key (op.effect now (s.live now key))
      ∧ (s.run now key op).2 = op.outcome (s.live now key) := by
  refine s.run_live_fits now key blind ?_
  rw [← (blind.lookup s now key).2.2, decision]
  exact .inl le_rfl

variable (s now key)

theorem run_live (unlimited : s.maxMem = 0) (regular : op.Regular) :
    (s.run now key op).1.live now
      = Function.update (s.live now) key (op.effect now (s.live now key)) :=
  (s.run_live_fits now key regular.blind (.inr (.inl unlimited))).1

theorem run_outcome (unlimited : s.maxMem = 0)
    (regular : op.Regular) : (s.run now key op).2 = op.outcome (s.live now key) :=
  (s.run_live_fits now key regular.blind (.inr (.inl unlimited))).2

theorem run_read (readOnly : op.ReadOnly) :
    (s.run now key op).1.live now = s.live now ∧ (s.run now key op).1.maxMem = s.maxMem := by
  obtain ⟨kind, result, decision⟩ := readOnly (s.lookup now key)
  obtain ⟨live, limit, -⟩ := run_keep decision
  exact ⟨live, limit⟩

theorem run_immediate (regular : op.Regular) (immediate : op.Immediate) :
    (s.run now key op).1.live now
        = Function.update (s.live now) key (op.effect now (s.live now key))
      ∧ (s.run now key op).2 = op.outcome (s.live now key) := by
  obtain ⟨kind, commit, decision⟩ := immediate (s.lookup now key)
  exact run_done regular.blind decision

theorem run_read_outcome (regular : op.Regular)
    (readOnly : op.ReadOnly) : (s.run now key op).2 = op.outcome (s.live now key) := by
  refine (s.run_immediate now key regular fun found => ?_).2
  obtain ⟨kind, result, decision⟩ := readOnly found
  exact ⟨kind, _, decision⟩

theorem run_read_eq (regular : op.Regular)
    (readOnly : op.ReadOnly) : ∃ t, s.run now key op = (t, op.outcome (s.live now key))
      ∧ t.live now = s.live now ∧ t.maxMem = s.maxMem :=
  ⟨_, Prod.ext rfl (s.run_read_outcome now key regular readOnly), s.run_read now key readOnly⟩

variable {s now key}

theorem resume_steady {t u : Store} {found : Look} {delta : Int} {old : Option Entry} {ne : Entry}
    {retry : Retry ρ} (evicted : Bool)
    (steady : (Action.ensure kind delta old ne result retry).Steady found)
    (before : t.stored key = found.current) (live : ∀ e, found = .live e → isExpired now e = false)
    (evictions : Evictions key t u) :
    ∃ old', u.resume now key evicted old ne result retry
      = u.commit key (.replace old' ne result) := by
  cases evicted with
  | false => exact ⟨old, rfl⟩
  | true =>
    cases retry with
    | stored => exact ⟨_, rfl⟩
    | recheck purge decide =>
      have cases := again_cases now before live evictions
      obtain ⟨unpurged, -⟩ := purgeExpired_again cases purge
      obtain ⟨old', decision⟩ := steady _ cases
      refine ⟨old', ?_⟩
      simp only [Store.resume, if_true, unpurged, decision]

theorem run_ok_cases (regular : op.Regular) (succeeded : (s.run now key op).2 = .ok result) :
    op.outcome (s.live now key) = .ok result
      ∧ ∀ other, (s.run now key op).1.live now other
          = Function.update (s.live now) key (op.effect now (s.live now key)) other
        ∨ (other ≠ key ∧ s.maxMem ≠ 0 ∧ (s.run now key op).1.live now other = none) := by
  cases decision : op (s.lookup now key) with
  | done kind commit =>
    obtain ⟨live, outcome⟩ := run_done regular.blind decision
    exact ⟨outcome.symm.trans succeeded, fun other => .inl (by rw [live])⟩
  | ensure kind delta old ne planned retry =>
    obtain ⟨sameAfter, sameAnswer, -⟩ := regular.blind.lookup s now key
    have steady := regular.steady (s.lookup now key)
    have entered := stored_purgeExpired s now key
    unfold KeyOp.outcome KeyOp.effect
    rw [← sameAfter, ← sameAnswer]
    unfold run KeyOp.after KeyOp.answer at *
    simp only at succeeded ⊢
    rw [decision] at succeeded steady ⊢
    have sameLimit : ((s.purgeExpired key (s.lookup now key)).touch key kind
        (s.lookup now key)).maxMem = s.maxMem := by
      rw [(touch_frame _ key kind _).2.2.1, purgeExpired_maxMem]
    simp only at succeeded ⊢
    split at succeeded
    · cases succeeded
    · next u evicted made =>
      have room := ensureMemoryWithRetry_ok made
      obtain ⟨old', commits⟩ := resume_steady evicted steady
        (by rw [stored_touch, entered, if_pos rfl])
        (fun e found => (lookup_live found).2) room.evictions
      rw [commits] at succeeded ⊢
      rw [result_commit] at succeeded
      refine ⟨succeeded, ?_⟩
      intro other
      unfold live
      rw [stored_commit]
      by_cases same : other = key
      · rw [if_pos same, same, Function.update_self]
        exact .inl rfl
      · rw [if_neg same, Function.update_of_ne same]
        cases evicted with
        | false =>
          rw [room.unchanged rfl, stored_touch, entered, if_neg same]
          exact .inl rfl
        | true =>
          have limited := room.limited rfl
          rw [sameLimit] at limited
          obtain kept | gone := room.evictions.stored other
          · rw [kept, stored_touch, entered, if_neg same]
            exact .inl rfl
          · rw [gone]
            exact .inr ⟨same, limited, rfl⟩

theorem run_ok (regular : op.Regular) (succeeded : (s.run now key op).2 = .ok result) :
    op.outcome (s.live now key) = .ok result
      ∧ Within s.maxMem ((s.run now key op).1.live now)
          (Function.update (s.live now) key (op.effect now (s.live now key))) := by
  obtain ⟨outcome, others⟩ := run_ok_cases regular succeeded
  exact ⟨outcome, fun other => (others other).imp_right fun gone => gone.2⟩

theorem run_ok_own (regular : op.Regular) (succeeded : (s.run now key op).2 = .ok result) :
    (s.run now key op).1.live now key = op.effect now (s.live now key) := by
  obtain same | ⟨different, -⟩ := (run_ok_cases regular succeeded).2 key
  · rw [same, Function.update_self]
  · exact absurd rfl different

end Store

end Effects

/-! ## The operations are regular -/

namespace KeyOp

variable {key : Key} {now : Time}

variable {ρ : Type}

theorem Decides.steady {room : Prop} {found : Look} {action : Action ρ}
    (decides : Decides false key room found action) : action.Steady found := by
  cases decides <;> trivial

theorem Decides.current {room : Prop} {found : Look} {action : Action ρ}
    (decides : Decides false key room found action) : action.Current found := by
  cases decides <;> trivial

theorem immediate_of_decides {op : KeyOp ρ}
    (decides : ∀ found, Decides false key False found (op found)) : op.Immediate := by
  intro found
  have decision := decides found
  generalize op found = action at decision
  cases decision with
  | put kind ne result asks => exact asks.elim
  | _ => exact ⟨_, _, rfl⟩

theorem get_regular : KeyOp.get.Regular where
  blind _ := ⟨rfl, rfl, rfl⟩
  steady _ := (get_decides []).steady

theorem set_regular (val : Bytes) (expiresAt : Time) : (KeyOp.set key val expiresAt).Regular where
  blind _ := ⟨rfl, rfl, rfl⟩
  steady _ := fun again _ => ⟨again.current, rfl⟩

theorem set_pays (val : Bytes) (expiresAt : Time) (found : Look) :
    (KeyOp.set key val expiresAt found).Accounts false key found
      ∧ (KeyOp.set key val expiresAt found).Current found :=
  ⟨setLocked_accounts val expiresAt false false, rfl⟩

theorem setNX_regular (val : Bytes) (expiresAt : Time) :
    (KeyOp.setNX key val expiresAt).Regular where
  blind _ := ⟨rfl, rfl, rfl⟩
  steady found := by
    unfold KeyOp.setNX
    split
    · trivial
    · next absent =>
      rintro again (rfl | ⟨rfl, live⟩)
      · exact ⟨none, rfl⟩
      · exact absurd live absent

theorem getSet_regular (val : Bytes) (expiresAt : Time) :
    (KeyOp.getSet key val expiresAt).Regular where
  blind _ := ⟨rfl, rfl, rfl⟩
  steady _ := (getSet_decides val expiresAt).steady

@[simp] theorem append_regular (tail : Bytes) : (KeyOp.append key tail).Regular where
  blind _ := ⟨rfl, rfl, rfl⟩
  steady found := by
    unfold KeyOp.append
    split
    · split <;> trivial
    · next notLive =>
      rintro again (rfl | ⟨rfl, live⟩)
      · exact ⟨none, rfl⟩
      · cases again with
        | live e => exact absurd rfl (notLive e)
        | missing => exact ⟨none, rfl⟩
        | expired e => exact ⟨none, rfl⟩

@[simp] theorem incrBy_regular (delta : Int) : (KeyOp.incrBy key delta).Regular where
  blind _ := by
    simp only [KeyOp.after, KeyOp.answer, KeyOp.incrBy, incrStart]
    split <;> exact ⟨rfl, rfl, rfl⟩
  steady found := by
    unfold KeyOp.incrBy
    split
    · trivial
    · split <;> trivial

@[simp] theorem hSet_regular (pairs : GoMap Bytes) : (KeyOp.hSet key pairs).Regular where
  blind _ := ⟨rfl, rfl, rfl⟩
  steady _ := (hSet_decides pairs).steady

theorem readLive_readOnly (absent : ρ) (read : Value → Option ρ) :
    (readLive absent read).ReadOnly := by
  intro found
  unfold readLive
  split
  · split
    · exact ⟨_, _, rfl⟩
    · exact ⟨_, _, rfl⟩
  · exact ⟨_, _, rfl⟩

theorem readLive_regular (absent : ρ) (read : Value → Option ρ) :
    (readLive absent read).Regular where
  blind _ := ⟨rfl, rfl, rfl⟩
  steady _ := (readLive_decides [] absent read).steady

@[simp] theorem hDel_regular (fields : List Bytes) : (hDel fields).Regular where
  blind _ := ⟨rfl, rfl, rfl⟩
  steady _ := (hDel_decides [] fields).steady

@[simp] theorem hSetNX_regular (field val : Bytes) : (hSetNX key field val).Regular where
  blind _ := by
    simp only [after, answer, hSetNX, hashOf]
    split <;> exact ⟨rfl, rfl, rfl⟩
  steady _ := (hSetNX_decides field val).steady

@[simp] theorem hIncrBy_regular (field : Bytes) (delta : Int) : (hIncrBy key field delta).Regular where
  blind _ := by
    simp only [after, answer, hIncrBy, hashOf]
    split
    · exact ⟨rfl, rfl, rfl⟩
    · split <;> exact ⟨rfl, rfl, rfl⟩
  steady _ := (hIncrBy_decides field delta).steady

@[simp] theorem hIncrByFloat_regular (fl : FloatOps) (field : Bytes) (delta : fl.F) :
    (hIncrByFloat fl key field delta).Regular where
  blind _ := by
    simp only [after, answer, hIncrByFloat, hashOf]
    split <;> exact ⟨rfl, rfl, rfl⟩
  steady _ := (hIncrByFloat_decides fl field delta).steady

theorem lLen_readOnly : lLen.ReadOnly := by
  intro found
  unfold lLen
  split
  · split <;> exact ⟨_, _, rfl⟩
  · exact ⟨_, _, rfl⟩

@[simp] theorem listPush_regular (vals : List Bytes) (left : Bool) : (listPush key vals left).Regular where
  blind _ := by
    unfold listPush
    split <;> exact ⟨rfl, rfl, rfl⟩
  steady _ := (listPush_decides vals left).steady

@[simp] theorem listPushX_regular (vals : List Bytes) (left : Bool) :
    (listPushX key vals left).Regular where
  blind _ := by
    unfold listPushX
    split <;> exact ⟨rfl, rfl, rfl⟩
  steady _ := (listPushX_decides vals left).steady

theorem commitMutated_ok (e : Entry) (rest : List Bytes) (result : ρ) :
    (commitMutated e rest result).result = .ok result := by
  simp only [commitMutated]
  split <;> rfl

@[simp] theorem listPop_regular (take : List Bytes → List Bytes × List Bytes) : (listPop take).Regular where
  blind _ := ⟨rfl, rfl, rfl⟩
  steady found := by
    unfold listPop
    split
    · split <;> trivial
    · trivial

theorem listPop_immediate (take : List Bytes → List Bytes × List Bytes) :
    (listPop take).Immediate := by
  intro found
  unfold listPop
  split
  · split
    · exact ⟨_, _, rfl⟩
    · exact ⟨_, _, rfl⟩
    · exact ⟨_, _, rfl⟩
  · exact ⟨_, _, rfl⟩

@[simp] theorem lSet_regular (index : Int) (val : Bytes) : (lSet index val).Regular where
  blind _ := ⟨rfl, rfl, rfl⟩
  steady _ := (lSet_decides [] index val).steady

@[simp] theorem lRem_regular (count : Int) (value : Bytes) : (lRem count value).Regular where
  blind _ := ⟨rfl, rfl, rfl⟩
  steady _ := (lRem_decides [] count value fun inexact => absurd inexact Bool.false_ne_true).steady

@[simp] theorem lTrim_regular (start stop : Int) : (lTrim start stop).Regular where
  blind _ := ⟨rfl, rfl, rfl⟩
  steady _ := (lTrim_decides [] start stop).steady

@[simp] theorem lInsert_regular (before : Bool) (pivot insert : Bytes) :
    (lInsert key before pivot insert).Regular where
  blind _ := ⟨rfl, rfl, rfl⟩
  steady _ := (lInsert_decides before pivot insert).steady

@[simp] theorem sAdd_regular (members : List Bytes) : (sAdd key members).Regular where
  blind _ := ⟨rfl, rfl, rfl⟩
  steady _ := (sAdd_decides members).steady

@[simp] theorem sRem_regular (members : List Bytes) : (sRem members).Regular where
  blind _ := ⟨rfl, rfl, rfl⟩
  steady _ := (sRem_decides [] members).steady

theorem replaceSet_regular (members : List Bytes) : (replaceSet key members).Regular where
  blind _ := ⟨rfl, rfl, rfl⟩
  steady _ := (replaceSet_decides members).steady

theorem del_regular : del.Regular where
  blind _ := ⟨rfl, rfl, rfl⟩
  steady _ := (del_decides []).steady

theorem del_immediate : del.Immediate :=
  immediate_of_decides fun _ => del_decides []

theorem expireAt_regular (instant : Time) : (expireAt instant).Regular where
  blind _ := ⟨rfl, rfl, rfl⟩
  steady _ := (expireAt_decides [] instant).steady

theorem persist_regular : persist.Regular where
  blind _ := ⟨rfl, rfl, rfl⟩
  steady _ := (persist_decides []).steady

theorem persist_immediate : persist.Immediate :=
  immediate_of_decides fun _ => persist_decides []

theorem expireAt_immediate (instant : Time) : (expireAt instant).Immediate :=
  immediate_of_decides fun _ => expireAt_decides [] instant

theorem ttlIn_regular (unit : Int → Int) : (ttlIn unit now).Regular where
  blind _ := ⟨rfl, rfl, rfl⟩
  steady _ := (ttlIn_decides [] unit now).steady

theorem ttlIn_immediate (unit : Int → Int) : (ttlIn unit now).Immediate :=
  immediate_of_decides fun _ => ttlIn_decides [] unit now

theorem exists1_readOnly : exists1.ReadOnly := by
  intro found
  cases found <;> exact ⟨_, _, rfl⟩

theorem exists1_regular : exists1.Regular where
  blind _ := ⟨rfl, rfl, rfl⟩
  steady _ := (exists1_decides []).steady

theorem typeName_readOnly : typeName.ReadOnly := by
  intro found
  cases found <;> exact ⟨_, _, rfl⟩

theorem typeName_regular : typeName.Regular where
  blind _ := ⟨rfl, rfl, rfl⟩
  steady found := by cases found <;> trivial

theorem get_readOnly : get.ReadOnly := by
  intro found
  unfold get
  split
  · split <;> exact ⟨_, _, rfl⟩
  · exact ⟨_, _, rfl⟩

end KeyOp

end SuperCache
