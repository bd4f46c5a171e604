import SuperCache.Store.LiveMulti

/-! # What the store refuses

An operation that returns an error has changed nothing, apart from what was evicted or due.
-/

namespace SuperCache

open Lib

namespace Store

variable {s t : Store} {now : Time} {key : Key} {ρ : Type} {op : KeyOp ρ}

theorem evictLoop_same (noeviction : s.policy = .noeviction) (avoidKey : Key) (delta : Int)
    (fuel : Nat) (evicted : Bool) : (evictLoop avoidKey delta fuel evicted s).1 = s := by
  cases fuel with
  | zero => rfl
  | succ fuel =>
    simp only [Store.evictLoop, evictFromStore, noeviction]
    split <;> rfl

theorem ensureMemoryWithRetry_same (noeviction : s.policy = .noeviction) (key : Key) (delta : Int) :
    (s.ensureMemoryWithRetry key delta).1 = s := by
  unfold ensureMemoryWithRetry
  split
  · rfl
  · exact evictLoop_same noeviction _ _ _ _

theorem commit_error_same {commit : Commit ρ} {err : StoreErr} (failed : commit.result = .error err) :
    (s.commit key commit).1 = s := by
  cases commit with
  | keep result => rfl
  | purge e result => cases failed
  | replace old ne result => cases failed

/-- The entries left are unchanged.  Eviction takes some only under a limit, and none without a
policy for it. -/
def Spared (s : Store) (now : Time) (t : Store) : Prop :=
  Within s.maxMem (t.live now) (s.live now) ∧ (s.policy = .noeviction → t.live now = s.live now)

theorem Spared.of_live (same : t.live now = s.live now) : Spared s now t :=
  ⟨fun _ => .inl (congrFun same _), fun _ => same⟩

theorem run_failed {failure : StoreErr} (regular : op.Regular)
    (failed : (s.run now key op).2 = .error failure) :
    (op.outcome (s.live now key) = .error failure ∨ failure = .oom) ∧ Spared s now (s.run now key op).1 := by
  have entered (kind : Touch) : ((s.purgeExpired key (s.lookup now key)).touch key kind
      (s.lookup now key)).live now = s.live now :=
    (live_congr now fun other => stored_touch ..).trans (live_purgeExpired s now key)
  cases decision : op (s.lookup now key) with
  | done kind commit =>
    refine ⟨.inl ((run_done regular.blind decision).2.symm.trans failed), .of_live ?_⟩
    unfold run at failed ⊢
    simp only [decision] at failed ⊢
    rw [result_commit] at failed
    rw [commit_error_same failed, entered]
  | ensure kind delta old ne result retry =>
    have steady := regular.steady (s.lookup now key)
    have before := entered kind
    have frame := touch_frame (s.purgeExpired key (s.lookup now key)) key kind (s.lookup now key)
    have held := (stored_touch _ key key kind (s.lookup now key)).trans (s.stored_purgeExpired_self now key)
    unfold run at failed ⊢
    simp only [decision] at failed steady ⊢
    generalize (s.purgeExpired key (s.lookup now key)).touch key kind (s.lookup now key) = t at *
    have unchanged (noeviction : t.policy = .noeviction) :=
      ensureMemoryWithRetry_same noeviction key delta
    rcases made : t.ensureMemoryWithRetry key delta with ⟨u, refused | evicted⟩
    · rw [made] at failed unchanged
      obtain ⟨oom, limited, -, evictions⟩ := ensureMemoryWithRetry_error made
      cases failed
      refine ⟨.inr oom, ?_, ?_⟩
      · have within := evictions.live now limited
        rwa [before, frame.2.2.1, purgeExpired_maxMem] at within
      · intro noeviction
        rw [frame.2.2.2, purgeExpired_policy] at unchanged
        exact (congrArg (Store.live · now) (unchanged noeviction)).trans before
    · -- a steady write that found room succeeds
      obtain ⟨old', commits⟩ := resume_steady evicted steady held
        (fun e found => (lookup_live found).2) (ensureMemoryWithRetry_ok made).evictions
      rw [made] at failed
      simp only [commits] at failed
      cases failed

end Store

end SuperCache
