import SuperCache.Store.Operations

/-! # What an operation does to the keyspace

The meaning of a decision without memory pressure is a function of what the
lookup found: the entry the key holds afterwards (`KeyOp.after`) and the result
(`KeyOp.answer`).  `run_fits` says that `Store.run` computes just that when there is
room; `run_ok` says what a limit can add, namely that other keys disappear.
-/

namespace SuperCache

open Lib

section Meaning

variable {ρ : Type}

def Commit.post (cur : Option Entry) : Commit ρ → Option Entry
  | .keep _ => cur
  | .purge _ _ => none
  | .replace _ ne _ => some ne

def Commit.result : Commit ρ → Except StoreErr ρ
  | .keep result => result
  | .purge _ result => .ok result
  | .replace _ _ result => .ok result

def Action.post (cur : Option Entry) : Action ρ → Option Entry
  | .done _ commit => commit.post cur
  | .ensure _ _ _ ne _ _ => some ne

def Action.result : Action ρ → Except StoreErr ρ
  | .done _ commit => commit.result
  | .ensure _ _ _ _ result _ => .ok result

def Action.growth : Action ρ → Int
  | .done .. => 0
  | .ensure _ delta .. => delta

/-- A write that asks for room replaces the entry it found. -/
def Action.Current (found : Look) : Action ρ → Prop
  | .done .. => True
  | .ensure _ _ old .. => old = found.current

def KeyOp.after (op : KeyOp ρ) (found : Look) : Option Entry :=
  (op found).post found.current

def KeyOp.answer (op : KeyOp ρ) (found : Look) : Except StoreErr ρ :=
  (op found).result

end Meaning

namespace Store

variable {ρ : Type}

theorem stored_commit (s : Store) (key other : Key) (commit : Commit ρ) :
    (s.commit key commit).1.stored other
      = if other = key then commit.post (s.stored key) else s.stored other := by
  cases commit with
  | keep result =>
    simp only [Store.commit, Commit.post]
    split
    · next same => rw [same]
    · rfl
  | purge e result => exact stored_purgeOwn s key other e
  | replace old ne result => exact stored_replaceEntry s key other old ne

theorem result_commit (s : Store) (key : Key) (commit : Commit ρ) :
    (s.commit key commit).2 = commit.result := by
  cases commit <;> rfl

/-! ## Room -/

/-- Nothing is asked for or there is no limit, or the counter covers what is stored and
`n` more bytes stay within the limit. -/
def HasRoom (s : Store) (n : Int) : Prop :=
  n ≤ 0 ∨ s.maxMem = 0 ∨ (s.total ≤ s.mem ∧ s.mem + n ≤ wrap64 s.maxMem)

variable {s t : Store} {n m : Int} {key : Key} {op : KeyOp ρ}

theorem HasRoom.of_le (room : s.HasRoom m) (less : n ≤ m) (sameLimit : t.maxMem = s.maxMem)
    (kept : s.total ≤ s.mem → t.total ≤ t.mem ∧ t.mem + n ≤ s.mem + m) : t.HasRoom n := by
  obtain nothing | unlimited | ⟨covered, fits⟩ := room
  · exact .inl (less.trans nothing)
  · exact .inr (.inl (sameLimit.trans unlimited))
  · obtain ⟨covered', fewer⟩ := kept covered
    exact .inr (.inr ⟨covered', by rw [sameLimit]; exact fewer.trans fits⟩)

theorem HasRoom.mono (room : s.HasRoom m) (less : n ≤ m) : s.HasRoom n :=
  room.of_le less rfl fun covered => ⟨covered, by omega⟩

theorem hasRoom_purgeable (n : Int) : Purgeable (HasRoom · n) where
  quiet {s t} room shards _ _ mem maxMem _ := room.of_le le_rfl maxMem fun covered => by
    have same : t.total = s.total := total_congr fun si => by rw [shards]
    rw [mem, same]
    exact ⟨covered, le_rfl⟩
  purge {s si key e} room found := room.of_le le_rfl (purgeEntryLocked_maxMem ..) fun covered => by
    have nonneg := s.total_nonneg
    have positive := estimateMem_pos key e
    rw [mem_purgeEntryLocked, total_purgeEntryLocked found]
    omega

theorem HasRoom.entered (room : s.HasRoom n) (now : Time) (key : Key) (kind : Touch) :
    ((s.purgeExpired key (s.lookup now key)).touch key kind (s.lookup now key)).HasRoom n := by
  obtain ⟨shards, mem, limit, -⟩ :=
    touch_frame (s.purgeExpired key (s.lookup now key)) key kind (s.lookup now key)
  refine ((hasRoom_purgeable n).purgeExpired room now key).of_le le_rfl limit fun covered => ?_
  rw [mem, total_congr shards]
  exact ⟨covered, le_rfl⟩

theorem ensureMemoryWithRetry_fits {delta : Int} (room : s.HasRoom delta) (key : Key) :
    s.ensureMemoryWithRetry key delta = (s, .ok false) := by
  unfold ensureMemoryWithRetry
  split
  · rfl
  · next needed =>
    obtain nothing | unlimited | ⟨-, fits⟩ := room
    · exact absurd (.inr nothing) needed
    · exact absurd (.inl unlimited) needed
    · have within : s.overLimit delta = false := decide_eq_false (not_lt.mpr fits)
      simp only [evictLoop, within, Bool.false_eq_true, if_false]

theorem run_fits (s : Store) (now : Time) (key : Key) (op : KeyOp ρ)
    (room : s.HasRoom (op (s.lookup now key)).growth) :
    (∀ other, (s.run now key op).1.stored other
      = if other = key then op.after (s.lookup now key) else s.stored other)
      ∧ (s.run now key op).2 = op.answer (s.lookup now key) := by
  have before := stored_purgeExpired s now key
  unfold run KeyOp.after KeyOp.answer
  simp only
  cases decision : op (s.lookup now key) with rw [decision] at room
  | done kind commit =>
    refine ⟨fun other => ?_, result_commit _ key commit⟩
    rw [stored_commit]
    simp only [stored_touch, before, if_true, Action.post]
    split <;> rfl
  | ensure kind delta old ne result retry =>
    have entered : Store.HasRoom _ delta := room.entered now key kind
    simp only [ensureMemoryWithRetry_fits entered, Store.resume, Bool.false_eq_true, if_false]
    refine ⟨fun other => ?_, rfl⟩
    rw [stored_commit]
    simp only [stored_touch, before, Commit.post, Action.post]
    split <;> rfl

theorem HasRoom.replaceEntry {old : Option Entry} {ne : Entry} (room : s.HasRoom m) (less : n ≤ m)
    (paid : oldBytes key old ≤ oldBytes key (s.stored key))
    (grows : estimateMem key ne + n ≤ oldBytes key old + m) :
    (s.replaceEntry key old ne).HasRoom n := by
  refine room.of_le less (replaceEntry_maxMem ..) fun covered => ?_
  have nonneg := s.total_nonneg
  have held := s.oldBytes_le_total key
  rw [mem_replaceEntry (by omega), total_replaceEntry]
  omega

theorem HasRoom.commit {commit : Commit ρ} (room : s.HasRoom n)
    (accounts : commit.Accounts false key (s.stored key)) (shrinks : commit.Shrinks key) :
    (s.commit key commit).1.HasRoom n := by
  cases commit with
  | keep result => exact room
  | purge e result =>
    obtain ⟨held, stored, paid, -⟩ := accounts
    refine room.of_le le_rfl (purgeEntryLocked_maxMem ..) fun covered => ?_
    have nonneg := s.total_nonneg
    have positive := estimateMem_pos key e
    simp only [Store.commit]
    rw [mem_purgeEntryLocked, total_purgeEntryLocked stored]
    omega
  | replace old ne result =>
    exact room.replaceEntry le_rfl accounts.1 (by simpa [Commit.Shrinks] using shrinks)

/-- An operation that finds room leaves all of it but what it asked for. -/
theorem HasRoom.run {now : Time} (nonneg : 0 ≤ n)
    (accounts : (op (s.lookup now key)).Accounts false key (s.lookup now key))
    (current : (op (s.lookup now key)).Current (s.lookup now key))
    (room : s.HasRoom (max 0 (op (s.lookup now key)).growth + n)) :
    (s.run now key op).1.HasRoom n := by
  have held := s.stored_purgeExpired_self now key
  unfold Store.run
  simp only
  cases decision : op (s.lookup now key) with rw [decision] at accounts current room
  | done kind commit =>
    have entered := room.entered now key kind
    simp only [Action.growth, max_self, zero_add] at entered
    refine entered.commit ?_ accounts.2
    rw [stored_touch, held]
    exact accounts.1
  | ensure kind delta old ne result retry =>
    obtain ⟨-, asked, -⟩ := accounts
    cases (current : old = (s.lookup now key).current)
    have entered := room.entered now key kind
    simp only [Action.growth] at entered
    have asks : delta ≤ max 0 delta + n := by omega
    simp only [ensureMemoryWithRetry_fits (entered.mono asks), Store.resume, Bool.false_eq_true,
      if_false, Store.commit]
    refine entered.replaceEntry (by omega) ?_ (by omega)
    rw [stored_touch, held]

theorem maxMem_commit (s : Store) (key : Key) (commit : Commit ρ) :
    (s.commit key commit).1.maxMem = s.maxMem := by
  cases commit with
  | keep result => rfl
  | purge e result => exact purgeEntryLocked_maxMem s _ key e
  | replace old ne result => exact replaceEntry_maxMem s key old ne

theorem policy_commit (s : Store) (key : Key) (commit : Commit ρ) :
    (s.commit key commit).1.policy = s.policy := by
  cases commit with
  | keep result => rfl
  | purge e result => exact purgeEntryLocked_policy s _ key e
  | replace old ne result => exact replaceEntry_policy s key old ne

theorem resume_eq_commit (s : Store) (now : Time) (key : Key) (evicted : Bool)
    (old : Option Entry) (ne : Entry) (result : ρ) (retry : Retry ρ) :
    ∃ (t : Store) (commit : Commit ρ),
      s.resume now key evicted old ne result retry = t.commit key commit
      ∧ t.maxMem = s.maxMem ∧ t.policy = s.policy
      ∧ ∀ other, other ≠ key → t.stored other = s.stored other := by
  unfold resume
  split
  · split
    · exact ⟨s, _, rfl, rfl, rfl, fun _ _ => rfl⟩
    · next purge decide =>
      cases purge with
      | false => exact ⟨s, _, rfl, rfl, rfl, fun _ _ => rfl⟩
      | true =>
        refine ⟨_, _, rfl, purgeExpired_maxMem _ _ _, purgeExpired_policy _ _ _, ?_⟩
        intro other different
        simp only [if_true]
        rw [stored_purgeExpired, if_neg different]
  · exact ⟨s, _, rfl, rfl, rfl, fun _ _ => rfl⟩

theorem run_frame (s : Store) (now : Time) (key : Key) (op : KeyOp ρ) :
    (s.run now key op).1.maxMem = s.maxMem ∧ (s.run now key op).1.policy = s.policy ∧
      ∀ other, other ≠ key → (s.run now key op).1.stored other = s.stored other
        ∨ (s.run now key op).1.stored other = none := by
  have entered (other : Key) (different : other ≠ key) :
      (s.purgeExpired key (s.lookup now key)).stored other = s.stored other := by
    rw [stored_purgeExpired, if_neg different]
  unfold run
  simp only
  cases op (s.lookup now key) with
  | done kind commit =>
    obtain ⟨-, -, sameLimit, samePolicy⟩ :=
      touch_frame (s.purgeExpired key (s.lookup now key)) key kind (s.lookup now key)
    refine ⟨?_, ?_, fun other different => .inl ?_⟩
    · rw [maxMem_commit, sameLimit, purgeExpired_maxMem]
    · rw [policy_commit, samePolicy, purgeExpired_policy]
    · rw [stored_commit, if_neg different, stored_touch, entered other different]
  | ensure kind delta old ne result retry =>
    obtain ⟨-, -, sameLimit, samePolicy⟩ :=
      touch_frame (s.purgeExpired key (s.lookup now key)) key kind (s.lookup now key)
    rw [purgeExpired_maxMem] at sameLimit
    rw [purgeExpired_policy] at samePolicy
    simp only
    split
    · next failed =>
      have evictions := (ensureMemoryWithRetry_error failed).2.2.2
      refine ⟨by rw [evictions.maxMem, sameLimit], by rw [evictions.policy, samePolicy], ?_⟩
      intro other different
      have kept := evictions.stored other
      rwa [stored_touch, entered other different] at kept
    · next t evicted succeeded =>
      have evictions := (ensureMemoryWithRetry_ok succeeded).evictions
      obtain ⟨u, commit, equation, limit, policy, others⟩ :=
        t.resume_eq_commit now key evicted old ne result retry
      rw [equation]
      refine ⟨?_, ?_, fun other different => ?_⟩
      · rw [maxMem_commit, limit, evictions.maxMem, sameLimit]
      · rw [policy_commit, policy, evictions.policy, samePolicy]
      · have kept := evictions.stored other
        rw [stored_commit, if_neg different, others other different]
        rwa [stored_touch, entered other different] at kept

end Store

end SuperCache
