import SuperCache.Lib.LockOrder
import SuperCache.Store.Basic

/-! # The locks of the store

Every shard has a lock, and the watch versions have one.  What an operation does with
them is a script: most take the lock of one shard, some release it in between to make
room, `MSetNX` and the renames take the locks of several shards at once, in the order
`acquireShardsInOrderKeys` gives, and the watch lock is taken for a moment at every change
of a key.  All scripts are in the order of the shard indices with the watch lock last, so
no operations ever wait for one another in a circle.
-/

namespace SuperCache

open Lib

/-! ## The order of the shards -/

/-- The inner loop of `sortShardIndices` at a position: its element is exchanged with every
later one that is less. -/
def exchangePass : Fin 256 → List (Fin 256) → Fin 256 × List (Fin 256)
  | here, [] => (here, [])
  | here, later :: rest =>
    if later < here then
      let after := exchangePass later rest
      (after.1, here :: after.2)
    else
      let after := exchangePass here rest
      (after.1, later :: after.2)

def exchangeFrom : Nat → List (Fin 256) → List (Fin 256)
  | left + 1, here :: rest =>
    let after := exchangePass here rest
    after.1 :: exchangeFrom left after.2
  | _, idx => idx

def sortShardIndices (idx : List (Fin 256)) : List (Fin 256) :=
  exchangeFrom idx.length idx

/-- The shards of the keys, each at its first occurrence; `idx` also stands for the map
`seen`. -/
def distinctShards (route : Key → Fin 256) (idx : List (Fin 256)) : List Key → List (Fin 256)
  | [] => idx
  | key :: rest =>
    if route key ∈ idx then distinctShards route idx rest
    else distinctShards route (idx ++ [route key]) rest

/-- The shards whose locks are taken, in the order in which they are.  The keys of a map
come in any order. -/
def acquireShardsInOrderKeys (route : Key → Fin 256) (keys : List Key) : List (Fin 256) :=
  sortShardIndices (distinctShards route [] keys)

theorem exchangePass_perm (here : Fin 256) (rest : List (Fin 256)) :
    ((exchangePass here rest).1 :: (exchangePass here rest).2).Perm (here :: rest) := by
  induction rest generalizing here with
  | nil => exact .refl _
  | cons later rest ih =>
    simp only [exchangePass]
    split
    · calc (exchangePass later rest).1 :: here :: (exchangePass later rest).2
          |>.Perm (here :: (exchangePass later rest).1 :: (exchangePass later rest).2) := .swap ..
        _ |>.Perm (here :: later :: rest) := (ih later).cons here
    · calc (exchangePass here rest).1 :: later :: (exchangePass here rest).2
          |>.Perm (later :: (exchangePass here rest).1 :: (exchangePass here rest).2) := .swap ..
        _ |>.Perm (later :: here :: rest) := (ih here).cons later
        _ |>.Perm (here :: later :: rest) := .swap ..

theorem exchangePass_least (here : Fin 256) (rest : List (Fin 256)) :
    (exchangePass here rest).1 ≤ here
      ∧ ∀ x ∈ (exchangePass here rest).2, (exchangePass here rest).1 ≤ x := by
  induction rest generalizing here with
  | nil => exact ⟨le_refl _, List.forall_mem_nil _⟩
  | cons later rest ih =>
    simp only [exchangePass]
    split
    · next less =>
      obtain ⟨below, least⟩ := ih later
      exact ⟨below.trans less.le, List.forall_mem_cons.mpr ⟨below.trans less.le, least⟩⟩
    · next notLess =>
      obtain ⟨below, least⟩ := ih here
      exact ⟨below, List.forall_mem_cons.mpr ⟨below.trans (not_lt.mp notLess), least⟩⟩

theorem exchangePass_length (here : Fin 256) (rest : List (Fin 256)) :
    (exchangePass here rest).2.length = rest.length :=
  Nat.succ.inj (exchangePass_perm here rest).length_eq

theorem exchangeFrom_perm (left : Nat) (idx : List (Fin 256)) : (exchangeFrom left idx).Perm idx := by
  induction left generalizing idx with
  | zero => exact .refl _
  | succ left ih =>
    cases idx with
    | nil => exact .refl _
    | cons here rest =>
      exact ((ih _).cons _).trans (exchangePass_perm here rest)

theorem exchangeFrom_sorted (left : Nat) (idx : List (Fin 256)) (all : idx.length ≤ left) :
    (exchangeFrom left idx).Pairwise (· ≤ ·) := by
  induction left generalizing idx with
  | zero =>
    obtain rfl := List.length_eq_zero_iff.mp (Nat.le_zero.mp all)
    exact .nil
  | succ left ih =>
    cases idx with
    | nil => exact .nil
    | cons here rest =>
      have shorter : (exchangePass here rest).2.length ≤ left := by
        rw [exchangePass_length]
        exact Nat.le_of_succ_le_succ all
      refine List.pairwise_cons.mpr ⟨fun x listed => ?_, ih _ shorter⟩
      exact (exchangePass_least here rest).2 x ((exchangeFrom_perm left _).subset listed)

variable {route : Key → Fin 256}

variable {idx locks : List (Fin 256)}

theorem distinctShards_nodup (nodup : idx.Nodup) (keys : List Key) :
    (distinctShards route idx keys).Nodup := by
  induction keys generalizing idx with
  | nil => exact nodup
  | cons key rest ih =>
    simp only [distinctShards]
    split
    · exact ih nodup
    · next unseen =>
      refine ih (List.nodup_append.mpr ⟨nodup, List.nodup_singleton _, ?_⟩)
      rintro a listed b last rfl
      exact unseen (List.mem_singleton.mp last ▸ listed)

theorem mem_distinctShards (keys : List Key) {si : Fin 256} :
    si ∈ distinctShards route idx keys ↔ si ∈ idx ∨ ∃ key ∈ keys, route key = si := by
  induction keys generalizing idx with
  | nil => simp [distinctShards]
  | cons key rest ih =>
    simp only [distinctShards, List.mem_cons, exists_eq_or_imp]
    split
    · next seen =>
      rw [ih]
      refine ⟨fun either => either.imp_right .inr, fun either => ?_⟩
      rcases either with listed | rfl | later
      · exact .inl listed
      · exact .inl seen
      · exact .inr later
    · rw [ih, List.mem_append, List.mem_singleton, or_assoc, eq_comm]

theorem acquireShardsInOrderKeys_spec (route : Key → Fin 256) (keys : List Key) :
    (acquireShardsInOrderKeys route keys).Pairwise (· < ·)
      ∧ ∀ si, si ∈ acquireShardsInOrderKeys route keys ↔ ∃ key ∈ keys, route key = si := by
  have perm := exchangeFrom_perm (distinctShards route [] keys).length (distinctShards route [] keys)
  refine ⟨?_, fun si => ?_⟩
  · have sorted := exchangeFrom_sorted _ (distinctShards route [] keys) (le_refl _)
    have nodup := perm.nodup_iff.mpr (distinctShards_nodup List.nodup_nil keys)
    exact sorted.imp₂ (fun _ _ le ne => lt_of_le_of_ne le ne) nodup
  · rw [acquireShardsInOrderKeys, sortShardIndices, perm.mem_iff, mem_distinctShards]
    simp only [List.not_mem_nil, false_or]

/-! ## Scripts -/

inductive StoreLock where
  | shard (si : Fin 256)
  | watch
deriving DecidableEq

def StoreLock.rank : StoreLock → Nat
  | .shard si => si.val
  | .watch => 256

abbrev LockScript := List (LockAct StoreLock)

/-- `bumpWatchKey`, `WatchVersion` and the other moments under the watch lock. -/
def underWatch : LockScript :=
  [.take .write .watch, .drop .write .watch]

def changes (n : Nat) : LockScript :=
  (List.replicate n underWatch).flatten

def underShard (si : Fin 256) (changed : Nat) : LockScript :=
  .take .write (.shard si) :: changes changed ++ [.drop .write (.shard si)]

/-- One call of `evictFromStore`: with no eviction; with shards that were tried in vain and
the one in which a victim was found; or with a look at all shards and then at that of the
soonest deadline, whose key may be gone. -/
inductive EvictCall where
  | noeviction
  | probing (tried : List (Fin 256)) (victim : Option (Fin 256))
  | volatileTTL (best : Option (Fin 256 × Bool))

def EvictCall.script : EvictCall → LockScript
  | .noeviction => []
  | .probing tried victim =>
    tried.flatMap (underShard · 0) ++ victim.toList.flatMap (underShard · 1)
  | .volatileTTL best =>
    (List.finRange 256).flatMap (underShard · 0)
      ++ best.toList.flatMap fun found => underShard found.1 found.2.toNat

/-- One round of `ensureMemoryWithRetry`, called with the lock of the shard. -/
def retryRound (si : Fin 256) (call : EvictCall) : LockScript :=
  .drop .write (.shard si) :: call.script ++ [.take .write (.shard si)]

/-- A call of a single-key operation: so many changes, the rounds to make room, and the
changes after them. -/
def singleKey (si : Fin 256) (before : Nat) (rounds : List EvictCall) (after : Nat) : LockScript :=
  .take .write (.shard si) :: changes before ++ rounds.flatMap (retryRound si)
    ++ changes after ++ [.drop .write (.shard si)]

def underShards (locks : List (Fin 256)) (changed : Nat) : LockScript :=
  (locks.map StoreLock.shard).map (.take .write) ++ changes changed
    ++ (locks.map StoreLock.shard).map (.drop .write)

/-- How a call of `MSetNX` goes: a key is found; nothing can be evicted; a key is found at
the second look; or the pairs are stored. -/
inductive MSetNXCourse where
  | found
  | refused (purged : Nat) (evictions : List EvictCall)
  | foundAgain (purged : Nat) (evictions : List EvictCall)
  | stored (purged : Nat) (evictions : List EvictCall) (changed : Nat)

def MSetNXCourse.script (locks : List (Fin 256)) : MSetNXCourse → LockScript
  | .found => underShards locks 0
  | .refused purged evictions => underShards locks purged ++ evictions.flatMap EvictCall.script
  | .foundAgain purged evictions =>
    underShards locks purged ++ evictions.flatMap EvictCall.script ++ underShards locks 0
  | .stored purged evictions changed =>
    underShards locks purged ++ evictions.flatMap EvictCall.script ++ underShards locks changed

/-- The operations, with what their data makes them do.  `Del`, `Exists`, `MGet`, `MSet`,
`Scan`, `SampleKeysForDebug` and `ApplySnapshot` are sequences of these. -/
inductive StoreTask where
  | single (key : Key) (before : Nat) (rounds : List EvictCall) (after : Nat)
  | mSetNX (keys : List Key) (course : MSetNXCourse)
  /-- `Rename` and `RenameNX`. -/
  | rename (src dst : Key) (changed : Nat)
  /-- `Keys`, `DBSize`, `ExpireKeyCount`, and `SnapshotCtx` up to its cancellation; entries
  are sent after the lock is released. -/
  | eachShard (visited : Nat)
  | storeStats
  | flushDB (purged : Fin 256 → Nat)
  /-- `sampleAllShards`: for every shard what each of its samples has purged. -/
  | sample (purged : Fin 256 → List Nat)
  | pruneWatch (keys : List Key) (anyDead : Bool)
  | watchVersion

def StoreTask.script (route : Key → Fin 256) : StoreTask → LockScript
  | .single key before rounds after => singleKey (route key) before rounds after
  | .mSetNX keys course => course.script (acquireShardsInOrderKeys route keys)
  | .rename src dst changed =>
    if src = dst then [] else underShards (acquireShardsInOrderKeys route [src, dst]) changed
  | .eachShard visited => ((List.finRange 256).take visited).flatMap (underShard · 0)
  | .storeStats =>
    (List.finRange 256).flatMap fun si => [.take .read (.shard si), .drop .read (.shard si)]
  | .flushDB purged => (List.finRange 256).flatMap (fun si => underShard si (purged si)) ++ underWatch
  | .sample purged => (List.finRange 256).flatMap fun si => (purged si).flatMap (underShard si)
  | .pruneWatch keys anyDead =>
    underWatch
      ++ keys.flatMap (fun key => [.take .read (.shard (route key)), .drop .read (.shard (route key))])
      ++ if anyDead then underWatch else []
  | .watchVersion => underWatch

/-! ## The scripts are in order -/

variable {held : List (LockMode × StoreLock)}

def NoWatch (held : List (LockMode × StoreLock)) : Prop :=
  ∀ has ∈ held, has.2.rank < StoreLock.watch.rank

theorem StoreLock.rank_le (lock : StoreLock) : lock.rank ≤ 256 := by
  cases lock with
  | shard si => exact si.isLt.le
  | watch => exact le_refl 256

theorem noWatch_shard (mode : LockMode) (si : Fin 256) : NoWatch [(mode, .shard si)] := by
  intro has listed
  obtain rfl := List.mem_singleton.mp listed
  exact si.isLt

theorem heldAfter_underWatch (noWatch : NoWatch held) :
    heldAfter StoreLock.rank held underWatch = some held := by
  simp only [underWatch, heldAfter]
  unfold NoWatch at noWatch
  rw [if_pos noWatch, if_pos List.mem_cons_self, List.erase_cons_head]

theorem heldAfter_changes (noWatch : NoWatch held) (n : Nat) :
    heldAfter StoreLock.rank held (changes n) = some held := by
  induction n with
  | zero => rfl
  | succ n ih =>
    rw [changes, List.replicate_succ, List.flatten_cons, heldAfter_trans (heldAfter_underWatch noWatch)]
    exact ih

theorem inOrder_within (mode : LockMode) (si : Fin 256) (body : LockScript)
    (keeps : heldAfter StoreLock.rank [(mode, .shard si)] body = some [(mode, .shard si)]) :
    InOrder StoreLock.rank (.take mode (.shard si) :: body ++ [.drop mode (.shard si)]) := by
  rw [InOrder, List.cons_append, heldAfter, if_pos (List.forall_mem_nil _), heldAfter_trans keeps]
  simp [heldAfter]

theorem inOrder_underWatch : InOrder StoreLock.rank underWatch :=
  heldAfter_underWatch (List.forall_mem_nil _)

theorem inOrder_underShard (si : Fin 256) (changed : Nat) : InOrder StoreLock.rank (underShard si changed) :=
  inOrder_within .write si _ (heldAfter_changes (noWatch_shard .write si) changed)

theorem inOrder_flatMap {α : Type} {part : α → LockScript} (parts : List α)
    (each : ∀ a, InOrder StoreLock.rank (part a)) : InOrder StoreLock.rank (parts.flatMap part) :=
  heldAfter_flatMap part parts fun a _ => each a

theorem inOrder_evictCall (call : EvictCall) : InOrder StoreLock.rank call.script := by
  cases call with
  | noeviction => rfl
  | probing tried victim =>
    exact (inOrder_flatMap tried fun si => inOrder_underShard si 0).append
      (inOrder_flatMap _ fun si => inOrder_underShard si 1)
  | volatileTTL best =>
    exact (inOrder_flatMap _ fun si => inOrder_underShard si 0).append
      (inOrder_flatMap _ fun found => inOrder_underShard found.1 _)

theorem heldAfter_retryRound (si : Fin 256) (call : EvictCall) :
    heldAfter StoreLock.rank [(.write, .shard si)] (retryRound si call) = some [(.write, .shard si)] := by
  rw [retryRound, List.cons_append, heldAfter, if_pos List.mem_cons_self, List.erase_cons_head,
    heldAfter_trans (inOrder_evictCall call)]
  simp [heldAfter]

theorem inOrder_singleKey (si : Fin 256) (before : Nat) (rounds : List EvictCall) (after : Nat) :
    InOrder StoreLock.rank (singleKey si before rounds after) := by
  have noWatch := noWatch_shard .write si
  have script : singleKey si before rounds after
      = .take .write (.shard si) :: (changes before ++ (rounds.flatMap (retryRound si)
        ++ changes after)) ++ [.drop .write (.shard si)] := by
    simp only [singleKey, List.cons_append, List.append_assoc]
  rw [script]
  refine inOrder_within .write si _ ?_
  rw [heldAfter_trans (heldAfter_changes noWatch before),
    heldAfter_trans (heldAfter_flatMap _ _ fun call _ => heldAfter_retryRound si call),
    heldAfter_changes noWatch after]

theorem inOrder_underShards (rising : locks.Pairwise (· < ·)) (changed : Nat) :
    InOrder StoreLock.rank (underShards locks changed) := by
  have ranks : (locks.map StoreLock.shard).Pairwise fun a b => a.rank < b.rank :=
    List.pairwise_map.mpr rising
  rw [InOrder, underShards, List.append_assoc,
    heldAfter_trans (heldAfter_takeEach .write _ ranks fun _ _ => List.forall_mem_nil _),
    List.append_nil, heldAfter_trans (heldAfter_changes ?noWatch changed)]
  case noWatch =>
    intro has listed
    simp only [List.mem_reverse, List.mem_map] at listed
    obtain ⟨_, ⟨si, -, rfl⟩, rfl⟩ := listed
    exact si.isLt
  exact heldAfter_dropEach .write _ (List.reverse_perm _)

theorem inOrder_course (rising : locks.Pairwise (· < ·)) (course : MSetNXCourse) :
    InOrder StoreLock.rank (course.script locks) := by
  cases course with
  | found => exact inOrder_underShards rising 0
  | refused purged evictions =>
    exact (inOrder_underShards rising purged).append (inOrder_flatMap evictions inOrder_evictCall)
  | foundAgain purged evictions =>
    exact ((inOrder_underShards rising purged).append
      (inOrder_flatMap evictions inOrder_evictCall)).append (inOrder_underShards rising 0)
  | stored purged evictions changed =>
    exact ((inOrder_underShards rising purged).append
      (inOrder_flatMap evictions inOrder_evictCall)).append (inOrder_underShards rising changed)

theorem StoreTask.inOrder (task : StoreTask) (route : Key → Fin 256) :
    InOrder StoreLock.rank (task.script route) := by
  have reading (si : Fin 256) :
      InOrder StoreLock.rank [.take .read (.shard si), .drop .read (.shard si)] :=
    inOrder_within .read si [] rfl
  cases task with
  | single key before rounds after => exact inOrder_singleKey (route key) before rounds after
  | mSetNX keys course => exact inOrder_course (acquireShardsInOrderKeys_spec route keys).1 course
  | rename src dst changed =>
    simp only [StoreTask.script]
    split
    · rfl
    · exact inOrder_underShards (acquireShardsInOrderKeys_spec route [src, dst]).1 changed
  | eachShard visited => exact inOrder_flatMap _ fun si => inOrder_underShard si 0
  | storeStats => exact inOrder_flatMap _ reading
  | flushDB purged =>
    exact (inOrder_flatMap _ fun si => inOrder_underShard si (purged si)).append inOrder_underWatch
  | sample purged =>
    exact inOrder_flatMap _ fun si => inOrder_flatMap _ fun n => inOrder_underShard si n
  | pruneWatch keys anyDead =>
    refine (inOrder_underWatch.append (inOrder_flatMap keys fun key => reading (route key))).append ?_
    cases anyDead with
    | false => rfl
    | true => exact inOrder_underWatch
  | watchVersion => exact inOrder_underWatch

/-! ## No deadlock -/

def tasksScript (route : Key → Fin 256) (tasks : List StoreTask) : LockScript :=
  tasks.flatMap (StoreTask.script route)

/-- Any number of goroutines with any calls: the locks of several shards are those of the
keys, each once and in rising order; every lock is taken above those that are held, the
watch lock being the highest; nobody waits through others for itself, and whoever cannot
go on waits for another. -/
theorem store_never_deadlocks {ι : Type} [DecidableEq ι] (route : Key → Fin 256)
    (tasks : ι → List StoreTask) (turns : List ι) (m : Locking ι StoreLock)
    (ran : Machine.run Locking.step (.start fun i => tasksScript route (tasks i)) turns = some m) :
    (∀ keys, (acquireShardsInOrderKeys route keys).Pairwise (· < ·)
      ∧ ∀ si, si ∈ acquireShardsInOrderKeys route keys ↔ ∃ key ∈ keys, route key = si)
    ∧ (∀ i, InOrder StoreLock.rank (tasksScript route (tasks i)))
    ∧ (∀ i, ¬ Relation.TransGen m.Waits i i)
    ∧ ∀ i, m.script i ≠ [] → m.step i = none → ∃ j, m.Waits i j := by
  have inOrder (i : ι) : InOrder StoreLock.rank (tasksScript route (tasks i)) :=
    inOrder_flatMap (tasks i) fun task => task.inOrder route
  exact ⟨acquireShardsInOrderKeys_spec route, inOrder,
    fun i => Locking.no_cycle inOrder StoreLock.rank_le ran i,
    fun i unfinished stuck => Locking.stuck_waits inOrder ran unfinished stuck⟩

def crossing : Bool → List StoreTask
  | false => [.rename (ascii "a") (ascii "b") 2]
  | true => [.rename (ascii "b") (ascii "a") 2]

theorem crossing_never_deadlocks :
    ∃ m, Machine.run Locking.step (.start fun i => tasksScript shardIndex (crossing i))
        [false, false, false, false] = some m
      ∧ (m.locks (.shard (shardIndex (ascii "b")))).turn = some false
      ∧ m.step true = none
      ∧ (∃ j, m.Waits true j) ∧ ¬ Relation.TransGen m.Waits true true := by
  refine ⟨_, Machine.ran (by decide +kernel), by decide +kernel,
    Option.isNone_iff_eq_none.mp (by decide +kernel), ?_⟩
  obtain ⟨-, -, noCycle, waits⟩ := store_never_deadlocks shardIndex crossing _ _ (Machine.ran _)
  exact ⟨waits true (by decide +kernel) (Option.isNone_iff_eq_none.mp (by decide +kernel)),
    noCycle true⟩

end SuperCache
