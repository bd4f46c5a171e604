import SuperCache.Store.Unsharded

/-! # Watch versions

`WatchVersion` against the entry it stands for.  A purge or a write of a key raises its
version; what may bring an old version back, or change the entry without raising it, is
named by the condition of the main theorem.
-/

namespace SuperCache

open Lib

namespace Store

/-- `PruneWatch`: the versions of keys that are not stored are deleted. -/
def pruneWatch (s : Store) : Store :=
  let keys := sortedElems s.watch.keys
  let dead := keys.filter fun key => (s.stored key).isNone
  { s with watch := dead.foldl (fun watch key => watch.erase key) s.watch }

variable {may : Mutation → Prop} {keys : List Key} {s t : Store}

/-! ## One change -/

theorem watchVersion_bumpWatchKey (s : Store) (key other : Key) :
    (s.bumpWatchKey key).watchVersion other
      = if other = key then (s.watchVersion key + 1) % 2 ^ 64 else s.watchVersion other := by
  unfold watchVersion bumpWatchKey
  split
  · next same => rw [same, Finmap.lookup_insert, Option.getD_some]
  · next different => rw [Finmap.lookup_insert_of_ne _ different]

theorem addMem_watch (s : Store) (delta : Int) : (s.addMem delta).watch = s.watch := by
  unfold addMem
  split <;> rfl

theorem watchVersion_purge (s : Store) (si : Fin 256) (key other : Key) (e : Entry) :
    (s.purgeEntryLocked si key e).watchVersion other
      = if other = key then (s.watchVersion key + 1) % 2 ^ 64 else s.watchVersion other := by
  rw [purgeEntryLocked, watchVersion_bumpWatchKey]
  simp only [watchVersion, addMem_watch, modifyShard]

theorem watchVersion_replace (s : Store) (key other : Key) (old : Option Entry) (ne : Entry) :
    (s.replaceEntry key old ne).watchVersion other
      = if other = key then (s.watchVersion key + 1) % 2 ^ 64 else s.watchVersion other := by
  have released : (s.releaseOld key old).watch = s.watch := by
    cases old with
    | none => rfl
    | some e => exact addMem_watch s _
  rw [replaceEntry, watchVersion_bumpWatchKey]
  simp only [watchVersion, addMem_watch, install, modifyShard, released]

theorem watchVersion_dropSource (s : Store) (src other : Key) (e : Entry) :
    (s.dropSource src e).watchVersion other = s.watchVersion other := by
  simp only [watchVersion, dropSource, addMem_watch, modifyShard]

/-! ## Changes -/

def occupancy (s : Store) (key : Key) : Nat :=
  if (s.stored key).isSome then 1 else 0

theorem occupancy_le (s : Store) (key : Key) : s.occupancy key ≤ 1 := by
  unfold occupancy
  split <;> decide

def Grows (key : Key) (s t : Store) : Prop :=
  s.watchVersion key ≤ t.watchVersion key
    ∧ (t.watchVersion key = s.watchVersion key → t.stored key = s.stored key)

theorem Grows.refl (key : Key) (s : Store) : Grows key s s :=
  ⟨le_rfl, fun _ => rfl⟩

variable {key : Key} {mid : Store}

theorem Grows.trans {u : Store} (first : Grows key s t) (next : Grows key t u) : Grows key s u := by
  refine ⟨first.1.trans next.1, fun same => ?_⟩
  have mid : t.watchVersion key = s.watchVersion key := le_antisymm (same ▸ next.1) first.1
  rw [next.2 (same.trans mid.symm), first.2 mid]

theorem Grows.of_same (version : t.watchVersion key = s.watchVersion key)
    (stored : t.stored key = s.stored key) : Grows key s t :=
  ⟨version.ge, fun _ => stored⟩

theorem Grows.of_bump (version : t.watchVersion key = s.watchVersion key + 1) : Grows key s t :=
  ⟨version ▸ Nat.le_succ _, fun same => absurd (version.symm.trans same) (Nat.succ_ne_self _)⟩

/-- A change that leaves the key alone. -/
theorem Grows.along {n : Nat} (version : mid.watchVersion key = s.watchVersion key)
    (stored : mid.stored key = s.stored key)
    (room : s.watchVersion key + n + s.occupancy key < 2 ^ 64)
    (rest : mid.watchVersion key + n + mid.occupancy key < 2 ^ 64 → Grows key mid t) :
    Grows key s t := by
  refine (Grows.of_same version stored).trans (rest ?_)
  rw [version, occupancy, stored]
  exact room

/-- A change that is counted for the key `changed`. -/
theorem Grows.cons {changed : Key} (version : mid.watchVersion key
      = if key = changed then (s.watchVersion changed + 1) % 2 ^ 64 else s.watchVersion key)
    (stored : key ≠ changed → mid.stored key = s.stored key)
    (room : s.watchVersion key + 2 * (changed :: keys).count key + s.occupancy key < 2 ^ 64)
    (rest : mid.watchVersion key + 2 * keys.count key + mid.occupancy key < 2 ^ 64 →
      Grows key mid t) : Grows key s t := by
  by_cases own : key = changed
  · subst own
    have atMost := mid.occupancy_le key
    rw [List.count_cons_self] at room
    rw [if_pos rfl, Nat.mod_eq_of_lt (by omega)] at version
    exact (Grows.of_bump version).trans (rest (by omega))
  · rw [List.count_cons_of_ne (Ne.symm own)] at room
    rw [if_neg own] at version
    exact .along version (stored own) room rest

/-- As long as nothing takes the entry of the key away silently, forgets its version or
brings it past its maximum, the version only grows, and it stays only if the entry does.
The room below the maximum pays for the bumps: a write of the key pays for itself and for
the purge of what it has written. -/
theorem Changes.versions (changes : Changes may keys s t) (key : Key)
    (kept : ¬ may (.drop key)) (remembered : ¬ may .forget) (placed : s.Placed)
    (room : s.watchVersion key + 2 * keys.count key + s.occupancy key < 2 ^ 64) :
    Grows key s t := by
  induction changes with
  | refl s => exact .refl key s
  | @frame keys s mid u maps sameRoute sameLimit samePolicy sameWatch rest ih =>
    refine .along ?_ ?_ room (ih ((Evolves.of_same maps sameRoute sameLimit).placed placed))
    · simp only [watchVersion, sameWatch]
    · simp only [stored, sameRoute, maps]
  | @purge keys s u si purged e found allowed rest ih =>
    have placed' := (Evolves.purge si purged e (.refl _)).placed placed
    have routed : s.route purged = si := placed si purged (Finmap.mem_iff.mpr ⟨e, found⟩)
    have version := s.watchVersion_purge si purged key e
    have stored := s.stored_purgeEntryLocked si purged key e
    by_cases own : key = purged
    · -- the purge finds the entry, and leaves its place free
      subst own
      have here : s.stored key = some e := by rw [Store.stored, routed, found]
      have occupied : s.occupancy key = 1 := by rw [occupancy, here]; rfl
      rw [if_pos rfl, Nat.mod_eq_of_lt (by omega)] at version
      rw [if_pos ⟨rfl, routed⟩] at stored
      refine (Grows.of_bump version).trans (ih placed' ?_)
      have free : (s.purgeEntryLocked si key e).occupancy key = 0 := by rw [occupancy, stored]; rfl
      omega
    · rw [if_neg own] at version
      rw [if_neg fun both => own both.1] at stored
      exact .along version stored room (ih placed')
  | @remove keys s u si purged e allowed rest ih =>
    refine .cons (s.watchVersion_purge si purged key e) (fun other => ?_) room
      (ih ((Evolves.purge si purged e (.refl _)).placed placed))
    rw [s.stored_purgeEntryLocked si purged key e, if_neg fun both => other both.1]
  | @write keys s u written old ne allowed rest ih =>
    refine .cons (s.watchVersion_replace written key old ne) (fun other => ?_) room
      (ih ((Evolves.replace written old ne (.refl _)).placed placed))
    rw [s.stored_replaceEntry written key old ne, if_neg other]
  | @drop keys s u dropped e allowed rest ih =>
    have other : key ≠ dropped := fun same => kept (same ▸ allowed)
    refine .along (s.watchVersion_dropSource dropped key e) ?_ room
      (ih ((Changes.drop dropped e allowed (.refl _)).evolves.placed placed))
    rw [s.stored_dropSource dropped key e, if_neg other]
  | forget allowed rest ih => exact absurd allowed remembered

theorem watchVersion_pruneWatch (s : Store) (key : Key) :
    s.pruneWatch.watchVersion key = if (s.stored key).isNone then 0 else s.watchVersion key := by
  have erased (dead : List Key) (watch : GoMap Nat) :
      (dead.foldl (fun watch key => watch.erase key) watch).lookup key
        = if key ∈ dead then none else watch.lookup key := by
    induction dead generalizing watch with
    | nil => simp
    | cons first rest ih =>
      rw [List.foldl_cons, ih, lookup_erase_eq_ite]
      by_cases own : key = first
      · simp [own]
      · simp [own]
  simp only [watchVersion, pruneWatch, erased, List.mem_filter, mem_sortedElems, Finmap.mem_keys]
  by_cases absent : (s.stored key).isNone
  · rw [if_pos absent]
    by_cases known : key ∈ s.watch
    · rw [if_pos ⟨known, absent⟩, Option.getD_none]
    · rw [if_neg fun both => known both.1, Finmap.lookup_eq_none.mpr known, Option.getD_none]
  · rw [if_neg absent, if_neg fun both => absent both.2]

end Store

/-! ## Runs -/

def StoreCall.May {fl : FloatOps} (s : Store) (now : Time) : StoreCall fl → Mutation → Prop
  | .op request, mutation => request.May s now mutation
  | .scan .., .purge _ | .sampleKeysForDebug _, .purge _ => True
  | _, _ => False

theorem Store.call_does {fl : FloatOps} (call : StoreCall fl) (s : Store) (now : Time) :
    ∃ keys : List Key, ((∀ entries, call ≠ .op (.applySnapshot entries)) → keys.Nodup)
      ∧ Store.Does (call.May s now) keys s (call.exec s now).1 := by
  cases call with
  | op request =>
    obtain ⟨keys, nodup, does⟩ := Store.exec_does request s now
    exact ⟨keys, fun other => nodup fun entries same => other entries (by rw [same]), does⟩
  | keys pattern => exact ⟨[], fun _ => .nil, s.drawn_does _ _⟩
  | dbSize => exact ⟨[], fun _ => .nil, .refl s⟩
  | expireKeyCount => exact ⟨[], fun _ => .nil, s.drawn_does _ _⟩
  | scan cursor pattern count wantType =>
    exact ⟨[], fun _ => .nil, s.scan_does now cursor pattern count wantType fun _ => trivial⟩
  | sampleKeysForDebug max =>
    exact ⟨[], fun _ => .nil,
      (Store.debugRows_does now _ _ fun _ => trivial).after (s.drawn_does _ _)⟩
  | snapshotCtx => exact ⟨[], fun _ => .nil, s.drawn_does _ _⟩

/-- A step of a run of the store: a call at an instant, or `PruneWatch`. -/
inductive WatchOp (fl : FloatOps) where
  | call (now : Time) (request : StoreCall fl)
  | pruneWatch

namespace WatchOp

variable {fl : FloatOps}

def exec (s : Store) : WatchOp fl → Store
  | .call now request => (request.exec s now).1
  | .pruneWatch => s.pruneWatch

def step (s : Store) (op : WatchOp fl) : Option Store :=
  some (op.exec s)

def run (s : Store) (ops : List (WatchOp fl)) : Store :=
  ops.foldl exec s

def Changed (key : Key) (s : Store) : List (WatchOp fl) → Prop
  | [] => False
  | op :: rest => (op.exec s).stored key ≠ s.stored key ∨ Changed key (op.exec s) rest

/-- The step does not rename the key away, flush the store or replace it by a snapshot, or
prune the version of the key; and its version is not about to overflow. -/
def Heeds (key : Key) (s : Store) : WatchOp fl → Prop
  | .call now request =>
    ¬ request.May s now (.drop key) ∧ ¬ request.May s now .forget ∧ s.watchVersion key + 3 < 2 ^ 64
  | .pruneWatch => s.stored key = none → s.watchVersion key = 0

variable {s : Store} {key : Key}

theorem grows_exec {op : WatchOp fl} (placed : s.Placed) (heeds : op.Heeds key s) :
    Store.Grows key s (op.exec s) := by
  cases op with
  | pruneWatch =>
    refine .of_same ?_ rfl
    rw [exec, Store.watchVersion_pruneWatch]
    split
    · next absent => exact (heeds (Option.isNone_iff_eq_none.mp absent)).symm
    · rfl
  | call now request =>
    obtain ⟨kept, remembered, room⟩ := heeds
    obtain ⟨keys, nodup, written, listed, changes⟩ := Store.call_does request s now
    have ordinary : ∀ entries, request ≠ .op (.applySnapshot entries) := by
      rintro entries rfl
      exact remembered trivial
    refine changes.versions key kept remembered placed ?_
    -- the key is written at most once
    have once := List.nodup_iff_count_le_one.mp ((nodup ordinary).sublist listed) key
    have atMost := s.occupancy_le key
    omega

theorem placed_exec (placed : s.Placed) (op : WatchOp fl) : (op.exec s).Placed := by
  cases op with
  | pruneWatch => exact placed
  | call now request => exact (Store.call_evolves request s now).placed placed

theorem placed_run (placed : s.Placed) (ops : List (WatchOp fl)) : (run s ops).Placed := by
  induction ops generalizing s with
  | nil => exact placed
  | cons op rest ih => exact ih (placed_exec placed op)

theorem grows_run {ops : List (WatchOp fl)} (placed : s.Placed)
    (heeded : Machine.Guarded step (Heeds key) s ops) : Store.Grows key s (run s ops) := by
  induction ops generalizing s with
  | nil => exact .refl key s
  | cons op rest ih =>
    exact (grows_exec placed heeded.1).trans
      (ih (placed_exec placed op) (heeded.tail rfl))

/-- Between two moments of a run of a store, if the entry of a key has changed at some step
and every step heeds the key, its watch version is another. -/
theorem watch_misses_no_change (policy : Policy) (maxMem : Nat) (oracle : Oracle) (key : Key)
    (before between : List (WatchOp fl))
    (heeded : Machine.Guarded step (Heeds key) (run (newStore policy maxMem oracle) before) between)
    (changed : Changed key (run (newStore policy maxMem oracle) before) between) :
    (run (run (newStore policy maxMem oracle) before) between).watchVersion key
      ≠ (run (newStore policy maxMem oracle) before).watchVersion key := by
  have fresh : (newStore policy maxMem oracle).Placed := fun si key member =>
    absurd member Finmap.notMem_empty
  have placed := placed_run fresh before
  generalize run (newStore policy maxMem oracle) before = s at placed heeded changed ⊢
  -- the version only grows, so it is enough that it grows at the step of the change
  induction between generalizing s with
  | nil => exact absurd changed id
  | cons op rest ih =>
    have first := grows_exec placed heeded.1
    have later := grows_run (placed_exec placed op) (heeded.tail rfl)
    rcases changed with here | further
    · intro same
      have stays : (op.exec s).watchVersion key = s.watchVersion key :=
        le_antisymm (later.1.trans same.le) first.1
      exact here (first.2 stays)
    · intro same
      have onward := ih _ (placed_exec placed op) (heeded.tail rfl) further
      refine onward (le_antisymm ?_ later.1)
      exact same.le.trans first.1

/-! ## Runs on an empty store -/

def setAt (now : Time) (key : String) : WatchOp integerFloats :=
  .call now (.op (.single (ascii key) (.set (ascii "v") 0)))

def emptyStore : Store :=
  newStore .noeviction 0 sortedOracle

/-- A key that is set, and deleted after another one was set, has another version. -/
theorem setDeleted_watched :
    (run (run emptyStore [setAt 1 "k"])
        [setAt 2 "other", .call 3 (.op (.del [ascii "k"]))]).watchVersion (ascii "k")
      ≠ (run emptyStore [setAt 1 "k"]).watchVersion (ascii "k") := by
  refine watch_misses_no_change .noeviction 0 sortedOracle (ascii "k") [setAt 1 "k"] _ ?_ ?_
  · refine ⟨⟨id, id, by decide +kernel⟩, fun next stepped => ⟨?_, fun _ _ => trivial⟩⟩
    cases stepped
    exact ⟨id, id, by decide +kernel⟩
  · refine .inr (.inl fun same => ?_)
    exact absurd (congrArg Option.isSome same) (by decide +kernel)

def renamedAway : List (WatchOp integerFloats) :=
  [.call 2 (.op (.rename (ascii "k") (ascii "l")))]

def prunedAndSet : List (WatchOp integerFloats) :=
  [.call 2 (.op (.del [ascii "k"])), .pruneWatch, setAt 3 "k"]

def flushedAndSet : List (WatchOp integerFloats) :=
  [.call 2 (.op .flushDB), setAt 3 "k"]

/-- A key that is renamed away keeps its version; one that is deleted, pruned and set
again gets its old version back, and so does one that is flushed and set again. -/
theorem watch_misses :
    let s := run emptyStore [setAt 1 "k"]
    ∀ later ∈ [renamedAway, prunedAndSet, flushedAndSet],
      Changed (ascii "k") s later
        ∧ (run s later).watchVersion (ascii "k") = s.watchVersion (ascii "k") := by
  intro s later listed
  simp only [List.mem_cons, List.not_mem_nil, or_false] at listed
  obtain rfl | rfl | rfl := listed
  all_goals
    refine ⟨.inl fun same => ?_, by decide +kernel⟩
    exact absurd (congrArg Option.isSome same) (by decide +kernel)

end WatchOp

end SuperCache
