import SuperCache.Store.Concurrent

/-! # Critical sections

What each critical section of an operation does to the live keyspace.  An
operation that released its lock acts, when it comes back, as if it came only
then, if it decides again (`Action.Exact`) or finds its key as it was.
-/

namespace SuperCache

open Lib

/-! ## What an operation does after it made room -/

def Action.Once {ρ : Type} : Action ρ → Prop
  | .ensure _ _ _ _ _ (.recheck _ _) => False
  | _ => True

def Action.Exact {ρ : Type} (op : KeyOp ρ) : Action ρ → Prop
  | .ensure _ _ _ _ _ (.recheck _ decide) =>
    ∀ again, (decide again).result = op.answer again
      ∧ (decide again).post again.current = op.after again
  | _ => True

theorem Action.Once.exact {ρ : Type} {action : Action ρ} (once : action.Once)
    (op : KeyOp ρ) : action.Exact op := by
  cases action with
  | done kind commit => trivial
  | ensure kind delta old ne result retry =>
    cases retry with
    | stored => trivial
    | recheck purge decide => exact once.elim

namespace KeyOp

variable {ρ : Type} {key : Key}

theorem ReadOnly.once {op : KeyOp ρ} (readOnly : op.ReadOnly) (found : Look) : (op found).Once := by
  obtain ⟨kind, result, decision⟩ := readOnly found
  rw [decision]
  trivial

theorem listPush_once (vals : List Bytes) (left : Bool) (found : Look) :
    (listPush key vals left found).Once := by
  unfold listPush
  split
  · exact lLen_readOnly.once found
  · simp only
    split <;> trivial

theorem listPushX_once (vals : List Bytes) (left : Bool) (found : Look) :
    (listPushX key vals left found).Once := by
  unfold listPushX
  split
  · exact lLen_readOnly.once found
  · simp only
    split
    · split <;> trivial
    · trivial

theorem set_exact (val : Bytes) (expiresAt : Time) (found : Look) :
    (set key val expiresAt found).Exact (set key val expiresAt) :=
  fun _ => ⟨rfl, rfl⟩

theorem setNX_exact (val : Bytes) (expiresAt : Time) (found : Look) :
    (setNX key val expiresAt found).Exact (setNX key val expiresAt) := by
  unfold setNX
  split
  · trivial
  · intro again
    cases again <;> exact ⟨rfl, rfl⟩

theorem setXX_exact (val : Bytes) (expiresAt : Time) (found : Look) :
    (setXX key val expiresAt found).Exact (setXX key val expiresAt) := by
  cases found with
  | live old =>
    intro again
    cases again <;> exact ⟨rfl, rfl⟩
  | missing => trivial
  | expired e => trivial

/-- The branch of `Append` that creates the key looks again and appends if the key
has appeared; the other one does not. -/
theorem append_exact (tail : Bytes) (found : Look) :
    (append key tail found).Exact (append key tail) := by
  have creating : (append key tail .missing).Exact (append key tail) := by
    intro again
    cases again with
    | live cur =>
      obtain ⟨value, deadline⟩ := cur
      cases value <;> exact ⟨rfl, rfl⟩
    | missing => exact ⟨rfl, rfl⟩
    | expired e => exact ⟨rfl, rfl⟩
  cases found with
  | live e =>
    unfold append
    simp only
    split <;> trivial
  | missing => exact creating
  | expired e => exact creating

end KeyOp

namespace SingleOp

variable {fl : FloatOps} {now : Time} {key : Key}

theorem keyOp_blind (op : SingleOp fl) (now : Time) (key : Key) : (op.keyOp now key).Blind := by
  cases op with
  | incrBy delta => exact (KeyOp.incrBy_regular delta).blind
  | decrBy delta => exact (KeyOp.incrBy_regular _).blind
  | lPush vals => exact (KeyOp.listPush_regular vals true).blind
  | rPush vals => exact (KeyOp.listPush_regular vals false).blind
  | lPushX vals => exact (KeyOp.listPushX_regular vals true).blind
  | rPushX vals => exact (KeyOp.listPushX_regular vals false).blind
  | _ => exact fun e => ⟨rfl, rfl, rfl⟩

theorem keyOp_exact (op : SingleOp fl) (found : Look) :
    (op.keyOp now key found).Exact (op.keyOp now key) := by
  cases op with
  | set val expiresAt => exact KeyOp.set_exact val expiresAt found
  | setNX val expiresAt => exact KeyOp.setNX_exact val expiresAt found
  | setXX val expiresAt => exact KeyOp.setXX_exact val expiresAt found
  | append tail => exact KeyOp.append_exact tail found
  | lPush vals => exact (KeyOp.listPush_once vals true found).exact _
  | rPush vals => exact (KeyOp.listPush_once vals false found).exact _
  | lPushX vals => exact (KeyOp.listPushX_once vals true found).exact _
  | rPushX vals => exact (KeyOp.listPushX_once vals false found).exact _
  | _ =>
    simp only [keyOp, KeyOp.get, KeyOp.getSet, KeyOp.incrBy, KeyOp.decrBy, KeyOp.hSet, KeyOp.hDel,
      KeyOp.hSetNX, KeyOp.hIncrBy, KeyOp.hIncrByFloat, KeyOp.lPop, KeyOp.rPop, KeyOp.listPop,
      KeyOp.lLen, KeyOp.lSet, KeyOp.lRem, KeyOp.lTrim, KeyOp.lInsert, KeyOp.sAdd, KeyOp.sRem,
      KeyOp.replaceSet, KeyOp.typeName, KeyOp.expireAt, KeyOp.persist, KeyOp.ttl, KeyOp.ttlMs,
      KeyOp.ttlIn, KeyOp.hGet, KeyOp.hGetAll, KeyOp.hExists, KeyOp.hLen, KeyOp.lRange,
      KeyOp.lIndex, KeyOp.sMembers, KeyOp.sIsMember, KeyOp.sCard, KeyOp.readLive]
    repeat' split
    all_goals trivial

theorem keyOp_now (op : SingleOp fl) {found : Look} {kind : Touch} {delta : Int}
    {old : Option Entry} {ne : Entry} {result : op.Result} {retry : Retry op.Result}
    (decision : op.keyOp now key found = .ensure kind delta old ne result retry) (later : Time) :
    op.keyOp later key = op.keyOp now key := by
  cases op with
  | ttl =>
    obtain ⟨kind', commit, done⟩ := KeyOp.ttlIn_immediate inSeconds found
    cases decision.symm.trans done
  | ttlMs =>
    obtain ⟨kind', commit, done⟩ := KeyOp.ttlIn_immediate inMilliseconds found
    cases decision.symm.trans done
  | _ => rfl

end SingleOp

/-! ## The critical sections on the live keyspace -/

section Sections

variable {ρ : Type} {s t : Store} {now : Time} {key : Key} {op : KeyOp ρ}

theorem Store.live_commit (commit : Commit ρ) {cur : Option Entry}
    (live : t.live now = s.live now) (own : s.live now key = alive now cur) :
    (t.commit key commit).1.live now
      = Function.update (s.live now) key (alive now (commit.post cur)) := by
  rw [← live] at own ⊢
  funext other
  unfold Store.live at own ⊢
  rw [Store.stored_commit]
  by_cases same : other = key
  · rw [if_pos same, same, Function.update_self]
    cases commit with
    | keep result => exact own
    | purge e result => rfl
    | replace old ne result => rfl
  · rw [if_neg same, Function.update_of_ne same]

theorem Store.live_touch (s : Store) (now : Time) (key : Key) (kind : Touch) (found : Look) :
    (s.touch key kind found).live now = s.live now :=
  Store.live_congr now fun other => Store.stored_touch s key other kind found

theorem Store.start_fits (blind : op.Blind) :
    ∃ t, s.start now key op true = some (t, .returned (op.outcome (s.live now key)))
      ∧ t.live now = Function.update (s.live now) key (op.effect now (s.live now key)) := by
  obtain ⟨sameAfter, sameAnswer, -⟩ := blind.current (s.lookup now key)
  have entered (kind : Touch) :
      ((s.purgeExpired key (s.lookup now key)).touch key kind (s.lookup now key)).live now
        = s.live now := by
    rw [Store.live_touch, Store.live_purgeExpired]
  have own : s.live now key = alive now (s.lookup now key).current := by
    rw [Store.lookup_current, Store.alive_live]
  unfold KeyOp.outcome KeyOp.effect
  rw [← s.lookup_current now key, ← sameAfter, ← sameAnswer]
  unfold Store.start KeyOp.after KeyOp.answer
  simp only
  cases decision : op (s.lookup now key) with
  | done kind commit =>
    refine ⟨_, ?_, Store.live_commit commit (entered kind) own⟩
    simp only [if_true, Store.result_commit, Action.result]
  | ensure kind delta old ne result retry =>
    exact ⟨_, rfl, Store.live_commit (.replace old ne result) (entered kind) own⟩

theorem Store.start_parks {phase : Phase ρ} (parks : s.start now key op false = some (t, phase)) :
    t.live now = s.live now ∧ ∃ plan kind delta, phase = .evicting plan false ∧ 0 < delta
      ∧ plan.found = s.lookup now key
      ∧ op plan.found = .ensure kind delta plan.old plan.ne plan.result plan.retry := by
  unfold Store.start at parks
  simp only at parks
  cases decision : op (s.lookup now key) with rw [decision] at parks
  | done kind commit => cases parks
  | ensure kind delta old ne result retry =>
    simp only [Bool.false_eq_true, if_false] at parks
    split at parks
    · next limited =>
      obtain ⟨rfl, rfl⟩ : _ = t ∧ _ = phase := by simpa using parks
      refine ⟨by rw [Store.live_touch, Store.live_purgeExpired], _, kind, delta, rfl, limited.2,
        rfl, decision⟩
    · cases parks

theorem Store.finish_live {plan : Plan ρ} {kind : Touch} {delta : Int} (blind : op.Blind)
    (decision : op plan.found = .ensure kind delta plan.old plan.ne plan.result plan.retry)
    (exact : (op plan.found).Exact op)
    (undisturbed : plan.retry = .stored → (s.lookup now key).current = plan.found.current) :
    ∃ t, s.finish now key plan = (t, .returned (op.outcome (s.live now key)))
      ∧ t.live now = Function.update (s.live now) key (op.effect now (s.live now key)) := by
  have own : s.live now key = alive now (s.lookup now key).current := by
    rw [Store.lookup_current, Store.alive_live]
  obtain ⟨sameAfter, sameAnswer, -⟩ := blind.current (s.lookup now key)
  unfold KeyOp.outcome KeyOp.effect
  rw [← s.lookup_current now key, ← sameAfter, ← sameAnswer]
  unfold Store.finish Store.resume
  rw [decision] at exact
  cases retries : plan.retry with rw [retries] at exact
  | stored =>
    obtain ⟨planAfter, planAnswer, -⟩ := blind.current plan.found
    rw [sameAfter, sameAnswer, undisturbed retries, ← planAfter, ← planAnswer]
    unfold KeyOp.after KeyOp.answer
    rw [decision]
    exact ⟨_, rfl, Store.live_commit (.replace _ plan.ne plan.result) rfl own⟩
  | recheck purge decide =>
    obtain ⟨result, post⟩ := exact (s.lookup now key)
    have same : (if purge then s.purgeExpired key (s.lookup now key) else s).live now
        = s.live now := by
      cases purge with
      | false => rfl
      | true => exact s.live_purgeExpired now key
    rw [← result, ← post]
    refine ⟨_, ?_, Store.live_commit (decide (s.lookup now key)) same own⟩
    simp only [if_true, Store.result_commit]

theorem Store.evictOne_live (now : Time) {avoidKey victim : Key} (evicts : s.evictOne avoidKey victim = some t) :
    t.live now = Function.update (s.live now) victim none := by
  unfold Store.evictOne at evicts
  split at evicts
  · split at evicts
    · cases evicts
      funext other
      unfold Store.live
      rw [Store.stored_purgeOwn]
      by_cases same : other = victim
      · rw [if_pos same, same, Function.update_self]
        rfl
      · rw [if_neg same, Function.update_of_ne same]
    · cases evicts
  · cases evicts

end Sections

end SuperCache
