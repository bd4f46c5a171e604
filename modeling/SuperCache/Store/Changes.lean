import SuperCache.Store.LiveMulti
import SuperCache.Store.Iterate

/-! # The changes an operation makes

Whatever an operation does to the entries and to the watch versions is a sequence of a
few changes: entries are purged or written, each with a bump of the version of its key;
a rename takes its source away without one; a flush forgets the versions.  `Changes` says
which of them an operation may make, and counts those it makes without having found an
entry in its place.
-/

namespace SuperCache

open Lib

inductive Mutation where
  | purge (key : Key)
  | write (key : Key)
  | drop (key : Key)
  | forget

def Action.ensures {ρ : Type} : Action ρ → Bool
  | .done _ _ => false
  | .ensure .. => true

def KeyOp.Unwriting {ρ : Type} (op : KeyOp ρ) : Prop :=
  ∀ found, ∃ kind, (∃ result, op found = .done kind (.keep result))
    ∨ ∃ e result, found = .live e ∧ op found = .done kind (.purge e result)

namespace KeyOp

theorem ReadOnly.unwriting {ρ : Type} {op : KeyOp ρ} (readOnly : op.ReadOnly) : op.Unwriting := by
  intro found
  obtain ⟨kind, result, decision⟩ := readOnly found
  exact ⟨kind, .inl ⟨result, decision⟩⟩

theorem del_unwriting : del.Unwriting := by
  intro found
  cases found with
  | missing => exact ⟨_, .inl ⟨_, rfl⟩⟩
  | expired e => exact ⟨_, .inl ⟨_, rfl⟩⟩
  | live e => exact ⟨_, .inr ⟨e, _, rfl, rfl⟩⟩

theorem ttl_unwriting (now : Time) : (ttl now).Unwriting := by
  intro found
  cases found with
  | missing => exact ⟨_, .inl ⟨_, rfl⟩⟩
  | expired e => exact ⟨_, .inl ⟨_, rfl⟩⟩
  | live e =>
    simp only [ttl, ttlIn]
    split
    · exact ⟨_, .inl ⟨_, rfl⟩⟩
    · split
      · exact ⟨_, .inr ⟨e, _, rfl, rfl⟩⟩
      · exact ⟨_, .inl ⟨_, rfl⟩⟩

end KeyOp

namespace Store

/-- A sequence of changes that `may` happen.  The list has the keys that are written, or
purged without regard to what is stored. -/
inductive Changes (may : Mutation → Prop) : List Key → Store → Store → Prop
  | refl (s : Store) : Changes may [] s s
  | frame {keys : List Key} {s t u : Store} (maps : ∀ si, (t.shards si).m = (s.shards si).m)
      (sameRoute : t.route = s.route) (sameLimit : t.maxMem = s.maxMem)
      (samePolicy : t.policy = s.policy) (sameWatch : t.watch = s.watch)
      (rest : Changes may keys t u) : Changes may keys s u
  | purge {keys : List Key} {s u : Store} (si : Fin 256) (key : Key) (e : Entry)
      (found : (s.shards si).m.lookup key = some e) (allowed : may (.purge key))
      (rest : Changes may keys (s.purgeEntryLocked si key e) u) : Changes may keys s u
  | remove {keys : List Key} {s u : Store} (si : Fin 256) (key : Key) (e : Entry)
      (allowed : may (.purge key)) (rest : Changes may keys (s.purgeEntryLocked si key e) u) :
      Changes may (key :: keys) s u
  | write {keys : List Key} {s u : Store} (key : Key) (old : Option Entry) (ne : Entry)
      (allowed : may (.write key)) (rest : Changes may keys (s.replaceEntry key old ne) u) :
      Changes may (key :: keys) s u
  | drop {keys : List Key} {s u : Store} (key : Key) (e : Entry) (allowed : may (.drop key))
      (rest : Changes may keys (s.dropSource key e) u) : Changes may keys s u
  | forget {keys : List Key} {s u : Store} (allowed : may .forget)
      (rest : Changes may keys s.clearWatch u) : Changes may keys s u

variable {may : Mutation → Prop} {keys keys' : List Key} {s t u : Store}

namespace Changes

theorem trans (first : Changes may keys s t) (next : Changes may keys' t u) :
    Changes may (keys ++ keys') s u := by
  induction first with
  | refl s => exact next
  | frame maps sameRoute sameLimit samePolicy sameWatch rest ih =>
    exact .frame maps sameRoute sameLimit samePolicy sameWatch (ih next)
  | purge si key e found allowed rest ih =>
    exact .purge si key e found allowed (ih next)
  | remove si key e allowed rest ih =>
    exact .remove si key e allowed (ih next)
  | write key old ne allowed rest ih =>
    exact .write key old ne allowed (ih next)
  | drop key e allowed rest ih =>
    exact .drop key e allowed (ih next)
  | forget allowed rest ih => exact .forget allowed (ih next)

theorem limits (changes : Changes may keys s t) : t.maxMem = s.maxMem ∧ t.policy = s.policy := by
  induction changes with
  | refl s => exact ⟨rfl, rfl⟩
  | frame maps sameRoute sameLimit samePolicy sameWatch rest ih =>
    exact ⟨ih.1.trans sameLimit, ih.2.trans samePolicy⟩
  | purge si key e found allowed rest ih => simpa using ih
  | remove si key e allowed rest ih => simpa using ih
  | write key old ne allowed rest ih => simpa using ih
  | drop key e allowed rest ih =>
    simpa [dropSource, modifyShard] using ih
  | forget allowed rest ih => exact ih

end Changes

def Evicts (s : Store) : Prop :=
  s.maxMem ≠ 0 ∧ s.policy ≠ .noeviction

def Does (may : Mutation → Prop) (keys : List Key) (s t : Store) : Prop :=
  ∃ written, written.Sublist keys ∧ Changes may written s t

namespace Does

theorem refl (s : Store) : Does may [] s s :=
  ⟨[], .refl [], .refl s⟩

theorem trans (first : Does may keys s t) (next : Does may keys' t u) :
    Does may (keys ++ keys') s u := by
  obtain ⟨written, listed, changes⟩ := first
  obtain ⟨written', listed', changes'⟩ := next
  exact ⟨written ++ written', listed.append listed', changes.trans changes'⟩

theorem weaken (does : Does may keys s t) (more : keys.Sublist keys') : Does may keys' s t := by
  obtain ⟨written, listed, changes⟩ := does
  exact ⟨written, listed.trans more, changes⟩

theorem after (next : Does may keys t u) (first : Does may [] s t) : Does may keys s u :=
  first.trans next

theorem of_same (maps : ∀ si, (t.shards si).m = (s.shards si).m) (sameRoute : t.route = s.route)
    (sameLimit : t.maxMem = s.maxMem) (samePolicy : t.policy = s.policy)
    (sameWatch : t.watch = s.watch) : Does may [] s t :=
  ⟨[], .refl [], .frame maps sameRoute sameLimit samePolicy sameWatch (.refl t)⟩

theorem evicts (does : Does may keys s t) : t.Evicts ↔ s.Evicts := by
  obtain ⟨_, _, changes⟩ := does
  rw [Evicts, Evicts, changes.limits.1, changes.limits.2]

end Does

/-! ## One key -/

theorem drawn_does (s : Store) (tick cursor : Nat) : Does may [] s (s.drawn tick cursor) :=
  .of_same (fun _ => rfl) rfl rfl rfl rfl

theorem touch_does (s : Store) (key : Key) (kind : Touch) (found : Look) :
    Does may [] s (s.touch key kind found) := by
  obtain ⟨maps, -, limit, policy⟩ := s.touch_frame key kind found
  refine .of_same maps (s.touch_route key kind found) limit policy ?_
  unfold touch
  split
  · rfl
  · unfold touchRead
    split
    · rfl
    · simp only
      split <;> rfl
  · rfl

theorem does_purgeable (s : Store) (purged : ∀ key, may (.purge key)) : Purgeable (Does may [] s) where
  quiet does shards route policy _ maxMem watch :=
    (Does.of_same (fun si => by rw [shards]) route maxMem policy watch).after does
  purge does found := Does.after ⟨[], .refl [], .purge _ _ _ found (purged _) (.refl _)⟩ does

section OneKey

variable {key : Key}

theorem purgeExpired_does (s : Store) (now : Time) (own : may (.purge key)) :
    Does may [] s (s.purgeExpired key (s.lookup now key)) := by
  obtain ⟨found, -⟩ | ⟨e, found, stored, -⟩ | ⟨e, found, -⟩ := s.lookup_cases now key <;> rw [found]
  · exact .refl s
  · exact ⟨[], .refl [], .purge _ key e stored own (.refl _)⟩
  · exact .refl s

variable {ρ : Type}

theorem commit_does (s : Store) (own : may (.purge key)) (written : may (.write key))
    (commit : Commit ρ) : Does may [key] s (s.commit key commit).1 := by
  cases commit with
  | keep result => exact (Does.refl s).weaken (List.nil_sublist _)
  | purge e result => exact ⟨[key], .refl _, .remove _ key e own (.refl _)⟩
  | replace old ne result => exact ⟨[key], .refl _, .write key old ne written (.refl _)⟩

theorem evictLoop_does (s : Store) (avoidKey : Key) (delta : Int) (fuel : Nat) (limited : s.maxMem ≠ 0)
    (victims : s.Evicts → ∀ victim, may (.purge victim)) :
    Does may [] s (evictLoop avoidKey delta fuel false s).1 := by
  by_cases policy : s.policy = .noeviction
  · -- without an eviction the loop gives up, or finds that the write fits
    have unchanged : (evictLoop avoidKey delta fuel false s).1 = s := by
      cases fuel with
      | zero => rfl
      | succ fuel =>
        simp only [evictLoop, evictFromStore, policy]
        split <;> rfl
    rw [unchanged]
    exact .refl s
  · exact (does_purgeable s (victims ⟨limited, policy⟩)).evictions (.refl s) (evictLoop_evictions ..)

theorem ensureMemoryWithRetry_does (s : Store) (key : Key) (delta : Int)
    (victims : s.Evicts → ∀ victim, may (.purge victim)) :
    Does may [] s (s.ensureMemoryWithRetry key delta).1 := by
  unfold ensureMemoryWithRetry
  split
  · exact .refl s
  · next needed => exact s.evictLoop_does key delta _ (fun no => needed (.inl no)) victims

theorem evictUntilFits_does (s : Store) (delta : Int)
    (victims : s.Evicts → ∀ victim, may (.purge victim)) :
    Does may [] s (s.evictUntilFits delta).1 := by
  unfold evictUntilFits
  split
  · exact .refl s
  · next limited => exact s.evictLoop_does [] delta _ limited victims

variable (own : may (.purge key)) (written : may (.write key))

include own written

theorem resume_does (s : Store) (now : Time) (evicted : Bool) (old : Option Entry) (ne : Entry)
    (result : ρ) (retry : Retry ρ) :
    Does may [key] s (s.resume now key evicted old ne result retry).1 := by
  unfold resume
  split
  · split
    · exact s.commit_does own written _
    · next purge decide =>
      cases purge with
      | false => exact s.commit_does own written _
      | true => exact (commit_does _ own written _).after (s.purgeExpired_does now own)
  · exact s.commit_does own written _

theorem run_does (s : Store) (now : Time) (op : KeyOp ρ)
    (victims : s.Evicts → (op (s.lookup now key)).ensures → ∀ victim, may (.purge victim)) :
    Does may [key] s (s.run now key op).1 := by
  have entered (kind : Touch) : Does may [] s ((s.purgeExpired key (s.lookup now key)).touch key kind
      (s.lookup now key)) :=
    (touch_does _ key kind _).after (s.purgeExpired_does now own)
  unfold run
  simp only
  split
  · exact (commit_does _ own written _).after (entered _)
  · next kind delta old ne result retry decision =>
    have before := entered kind
    generalize (s.purgeExpired key (s.lookup now key)).touch key kind (s.lookup now key) = t
      at before ⊢
    have room := (t.ensureMemoryWithRetry_does key delta fun evicts =>
      victims (before.evicts.mp evicts) (by rw [decision]; rfl)).after before
    rcases equation : t.ensureMemoryWithRetry key delta with ⟨u, failure | evicted⟩ <;>
      rw [equation] at room
    · exact room.weaken (List.nil_sublist _)
    · exact (resume_does own written u now evicted old ne result retry).after room

omit written

theorem run_does_of_unwriting (s : Store) (now : Time) {op : KeyOp ρ} (unwriting : op.Unwriting) :
    Does may [] s (s.run now key op).1 := by
  have entered (kind : Touch) : Does may [] s ((s.purgeExpired key (s.lookup now key)).touch key kind
      (s.lookup now key)) :=
    (touch_does _ key kind _).after (s.purgeExpired_does now own)
  obtain ⟨kind, ⟨result, decision⟩ | ⟨e, result, found, decision⟩⟩ := unwriting (s.lookup now key)
  · unfold run
    simp only [decision]
    exact entered kind
  · have stored : (((s.purgeExpired key (s.lookup now key)).touch key kind
        (s.lookup now key)).stored key) = some e := by
      rw [stored_touch, found]
      obtain ⟨other, -⟩ | ⟨_, other, -⟩ | ⟨_, same, stored, -⟩ := s.lookup_cases now key
      · cases found.symm.trans other
      · cases found.symm.trans other
      · cases found.symm.trans same
        exact stored
    unfold run
    simp only [decision]
    have before := entered kind
    generalize (s.purgeExpired key (s.lookup now key)).touch key kind (s.lookup now key) = t
      at before stored ⊢
    exact Does.after ⟨[], .refl [], .purge _ key e stored own (.refl _)⟩ before

end OneKey

/-! ## Several keys -/

section SeveralKeys

theorem countKeys_does {op : KeyOp Int} (s : Store) (now : Time) (unwriting : op.Unwriting)
    (own : ∀ key ∈ keys, may (.purge key)) : Does may [] s (countKeys op s now keys).1 := by
  induction keys generalizing s with
  | nil => exact .refl s
  | cons key rest ih =>
    obtain ⟨first, others⟩ := List.forall_mem_cons.mp own
    exact (ih _ others).after (run_does_of_unwriting first s now unwriting)

theorem mGet_does (s : Store) (now : Time) (own : ∀ key ∈ keys, may (.purge key)) :
    Does may [] s (s.mGet now keys).1 := by
  induction keys generalizing s with
  | nil => exact .refl s
  | cons key rest ih =>
    obtain ⟨mine, others⟩ := List.forall_mem_cons.mp own
    have first := run_does_of_unwriting mine s now KeyOp.get_readOnly.unwriting
    simp only [mGet]
    rcases equation : s.run now key KeyOp.get with ⟨t, failure | value⟩ <;> rw [equation] at first
    · exact first
    · have later := (ih t others).after first
      simp only
      rcases equation' : t.mGet now rest with ⟨u, failure | values⟩ <;> rw [equation'] at later <;>
        exact later

theorem mSetList_does (s : Store) (now : Time) (pairs : List (Key × Bytes))
    (own : ∀ pair ∈ pairs, may (.purge pair.1) ∧ may (.write pair.1))
    (victims : s.Evicts → ∀ victim, may (.purge victim)) :
    Does may (pairs.map Prod.fst) s (s.mSetList now pairs).1 := by
  induction pairs generalizing s with
  | nil => exact .refl s
  | cons pair rest ih =>
    obtain ⟨mine, others⟩ := List.forall_mem_cons.mp own
    have first := run_does mine.1 mine.2 s now (KeyOp.set pair.1 pair.2 0) fun evicts _ => victims evicts
    simp only [mSetList]
    rcases equation : s.run now pair.1 (KeyOp.set pair.1 pair.2 0) with ⟨t, failure | done⟩ <;>
      rw [equation] at first
    · exact first.weaken (by simp)
    · exact first.trans (ih t others fun evicts => victims (first.evicts.mp evicts))

theorem priceNew_does (now : Time) (pairs : List (Key × Bytes)) (s : Store) (delta : Int)
    (own : ∀ pair ∈ pairs, may (.purge pair.1)) :
    Does may [] s (pairs.foldl (priceNew now) (s, delta)).1 := by
  induction pairs generalizing s delta with
  | nil => exact .refl s
  | cons pair rest ih =>
    obtain ⟨mine, others⟩ := List.forall_mem_cons.mp own
    exact (ih _ _ others).after (s.purgeExpired_does now mine)

theorem installNew_does (now : Time) (pairs : List (Key × Bytes)) (s : Store)
    (own : ∀ pair ∈ pairs, may (.purge pair.1) ∧ may (.write pair.1)) :
    Does may (pairs.map Prod.fst) s (pairs.foldl (installNew now) s) := by
  induction pairs generalizing s with
  | nil => exact .refl s
  | cons pair rest ih =>
    obtain ⟨mine, others⟩ := List.forall_mem_cons.mp own
    have first : Does may [pair.1] s (installNew now s pair) :=
      Does.after ⟨[pair.1], .refl _, .write pair.1 _ _ mine.2 (.refl _)⟩
        (s.purgeExpired_does now mine.1)
    exact first.trans (ih _ others)

theorem mem_of_mem_pairsIn {pairs : GoMap Bytes} {order : List Key} {pair : Key × Bytes}
    (listed : pair ∈ pairsIn pairs order) : pair.1 ∈ pairs := by
  obtain ⟨key, -, found⟩ := List.mem_filterMap.mp listed
  cases stored : pairs.lookup key with
  | none => simp [stored] at found
  | some val =>
    simp only [stored, Option.map_some, Option.some.injEq] at found
    cases found
    exact Finmap.mem_iff.mpr ⟨val, stored⟩

variable {pairs : GoMap Bytes} (own : ∀ key ∈ pairs, may (.purge key) ∧ may (.write key))

include own

theorem mSetNX_does (s : Store) (now : Time) (victims : s.Evicts → ∀ victim, may (.purge victim)) :
    ∃ order : List Key, order.Nodup ∧ Does may order s (s.mSetNX now pairs).1 := by
  have mine (order : List Key) (pair : Key × Bytes) (listed : pair ∈ pairsIn pairs order) :
      may (.purge pair.1) ∧ may (.write pair.1) := own pair.1 (mem_of_mem_pairsIn listed)
  unfold mSetNX
  split
  · exact ⟨[], .nil, .refl s⟩
  · split
    · exact ⟨[], .nil, .refl s⟩
    · simp only [drawRange]
      have priced := (priceNew_does now
        (pairsIn pairs (rangeOrder s.oracle s.tick pairs.keys)) _ 0
        fun pair listed => (mine _ pair listed).1).after
          (s.drawn_does (s.tick + 1) s.evictCursor)
      generalize (pairsIn pairs (rangeOrder s.oracle s.tick pairs.keys)).foldl (priceNew now)
        (s.drawn (s.tick + 1) s.evictCursor, 0) = state at priced ⊢
      have roomy := (evictUntilFits_does state.1 state.2 fun evicts =>
        victims (priced.evicts.mp evicts)).after priced
      rcases equation : state.1.evictUntilFits state.2 with ⟨t, failure | evicted⟩ <;>
        rw [equation] at roomy
      · exact ⟨[], .nil, roomy⟩
      · simp only
        split
        · exact ⟨[], .nil, roomy⟩
        · refine ⟨_, ((nodup_rangeOrder t.oracle t.tick pairs.keys).sublist (pairsIn_keys pairs _)), ?_⟩
          exact (installNew_does now _ _ fun pair listed => mine _ pair listed).after
            ((t.drawn_does _ _).after roomy)

theorem mSet_does (s : Store) (now : Time) (victims : s.Evicts → ∀ victim, may (.purge victim)) :
    ∃ order : List Key, order.Nodup ∧ Does may order s (s.mSet now pairs).1 :=
  ⟨_, (nodup_sortedElems pairs.keys).sublist (pairsIn_keys pairs _),
    s.mSetList_does now _ (fun pair listed => own pair.1 (mem_of_mem_pairsIn listed)) victims⟩

end SeveralKeys

/-! ## Renames -/

variable {src dst : Key} (s) (now : Time)

theorem moveEntry_does (e : Entry) (purged : may (.purge dst))
    (dropped : may (.drop src)) (written : may (.write dst)) :
    Does may [dst] s (s.moveEntry src dst e) := by
  have cleared : Does may [] s (s.clearDestination dst) := by
    unfold clearDestination
    split
    · next old found => exact ⟨[], .refl [], .purge _ dst old found purged (.refl _)⟩
    · exact .refl s
  exact Does.after
    ⟨[dst], .refl _, .drop src e dropped (.write dst none _ written (.refl _))⟩ cleared

theorem rename_does (expired : may (.purge src))
    (purged : may (.purge dst)) (written : may (.write dst))
    (dropped : src ≠ dst → (s.lookup now src).isLive = true → may (.drop src)) :
    Does may [dst] s (s.rename now src dst).1 := by
  unfold rename
  split
  · exact (Does.refl s).weaken (List.nil_sublist _)
  · next different =>
    split
    · next e found =>
      exact s.moveEntry_does e purged (dropped different (by rw [found]; rfl)) written
    · exact (s.purgeExpired_does now expired).weaken (List.nil_sublist _)

theorem renameNX_does (expired : may (.purge src))
    (purged : may (.purge dst)) (written : may (.write dst))
    (dropped : src ≠ dst → (s.lookup now src).isLive = true → (s.lookup now dst).isLive = false →
      may (.drop src)) : Does may [dst] s (s.renameNX now src dst).1 := by
  unfold renameNX
  split
  · exact (Does.refl s).weaken (List.nil_sublist _)
  · next different =>
    split
    · next e found =>
      split
      · exact (Does.refl s).weaken (List.nil_sublist _)
      · next free =>
        exact s.moveEntry_does e purged
          (dropped different (by rw [found]; rfl) (Bool.eq_false_iff.mpr free)) written
    · exact (s.purgeExpired_does now expired).weaken (List.nil_sublist _)

/-! ## Whole shards -/

theorem flushDB_does (purged : ∀ key, may (.purge key)) (forgotten : may .forget) :
    Does may [] s s.flushDB :=
  (does_purgeable s purged).flushDB
    (fun _ => Does.after ⟨[], .refl [], .forget forgotten (.refl _)⟩) (.refl s)

theorem sampleOnceShard_does (si : Fin 256)
    (purged : ∀ key, may (.purge key)) : Does may [] s (s.sampleOnceShard now si).1 :=
  (does_purgeable s purged).sampleOnceShard (.refl s) now si

theorem sampleAllShards_does (purged : ∀ key, may (.purge key)) :
    Does may [] s (s.sampleAllShards now) :=
  (does_purgeable s purged).sampleAllShards (.refl s) now

theorem applySnapshotEntry_does (ent : SnapshotEntry)
    (written : may (.write ent.key)) (victims : s.Evicts → ∀ victim, may (.purge victim)) :
    Does may [ent.key] s (s.applySnapshotEntry now ent).1 := by
  unfold applySnapshotEntry
  split
  · exact (Does.refl s).weaken (List.nil_sublist _)
  · next value _ =>
    simp only
    have room := s.ensureMemoryWithRetry_does ent.key
      (estimateMem ent.key { value := value, expiresAt := snapshotExpiry now ent }) victims
    rcases equation : s.ensureMemoryWithRetry ent.key
      (estimateMem ent.key { value := value, expiresAt := snapshotExpiry now ent })
      with ⟨u, failure | evicted⟩ <;> rw [equation] at room
    · exact room.weaken (List.nil_sublist _)
    · exact Does.after ⟨[ent.key], .refl _, .write ent.key _ _ written (.refl _)⟩ room

theorem applySnapshotEntries_does (entries : List SnapshotEntry) (all : ∀ mutation, may mutation) :
    Does may (entries.map SnapshotEntry.key) s (s.applySnapshotEntries now entries).1 := by
  induction entries generalizing s with
  | nil => exact .refl s
  | cons ent rest ih =>
    have first := s.applySnapshotEntry_does now ent (all _) fun _ _ => all _
    simp only [applySnapshotEntries]
    rcases equation : s.applySnapshotEntry now ent with ⟨t, failure | done⟩ <;>
      rw [equation] at first
    · exact first.weaken (by simp)
    · exact first.trans (ih t)

/-! ## Listings -/

theorem keepType_does (now : Time) (wantType : Bytes) (s : Store) (keys : List Key)
    (purged : ∀ key, may (.purge key)) : Does may [] s (keepType now wantType s keys).1 := by
  induction keys generalizing s with
  | nil => exact .refl s
  | cons key rest ih =>
    exact (ih _).after
      (run_does_of_unwriting (purged key) s now KeyOp.typeName_readOnly.unwriting)

theorem scan_does (cursor : Nat) (pattern : Bytes) (count : Int)
    (wantType : Bytes) (purged : ∀ key, may (.purge key)) :
    Does may [] s (s.scan now cursor pattern count wantType).1 := by
  have listed : Does may [] s (s.drawn (s.tick + 1) s.evictCursor) := s.drawn_does _ _
  by_cases untyped : wantType = []
  · simp only [scan, untyped, if_true]
    exact listed
  · simp only [scan, untyped, if_false]
    exact (keepType_does now wantType _ _ purged).after listed

theorem debugRows_does (now : Time) (s : Store) (keys : List Key)
    (purged : ∀ key, may (.purge key)) : Does may [] s (debugRows now s keys).1 := by
  induction keys generalizing s with
  | nil => exact .refl s
  | cons key rest ih =>
    have typed := run_does_of_unwriting (purged key) s now
      KeyOp.typeName_readOnly.unwriting
    have timed := run_does_of_unwriting (purged key) (s.run now key KeyOp.typeName).1 now
      (KeyOp.ttl_unwriting now)
    exact (ih _).after (timed.after typed)

end Store

/-! ## What each operation may do -/

/-- The changes an operation may make in a store: to the keys it names, and under a limit,
when it makes room, a purge of any key. -/
def StoreOp.May {fl : FloatOps} (s : Store) (now : Time) : StoreOp fl → Mutation → Prop
  | .single key op, .purge k =>
    k = key ∨ s.Evicts ∧ (op.keyOp now key (s.lookup now key)).ensures = true
  | .single key _, .write k | .expire key _, .purge k | .expire key _, .write k => k = key
  | .del keys, .purge k | .exists' keys, .purge k | .mGet keys, .purge k => k ∈ keys
  | .mSet pairs, .purge k | .mSetNX pairs, .purge k => k ∈ pairs ∨ s.Evicts
  | .mSet pairs, .write k | .mSetNX pairs, .write k => k ∈ pairs
  | .rename src dst, .purge k | .renameNX src dst, .purge k => k = src ∨ k = dst
  | .rename _ dst, .write k | .renameNX _ dst, .write k => k = dst
  | .rename src dst, .drop k => k = src ∧ src ≠ dst ∧ (s.lookup now src).isLive = true
  | .renameNX src dst, .drop k =>
    k = src ∧ src ≠ dst ∧ (s.lookup now src).isLive = true ∧ (s.lookup now dst).isLive = false
  | .flushDB, .purge _ | .flushDB, .forget | .sampleAllShards, .purge _ => True
  | .applySnapshotEntry _, .purge _ => s.Evicts
  | .applySnapshotEntry ent, .write k => k = ent.key
  | .applySnapshot _, _ => True
  | _, _ => False

namespace Store

theorem exec_does {fl : FloatOps} (op : StoreOp fl) (s : Store) (now : Time) :
    ∃ keys : List Key, ((∀ entries, op ≠ .applySnapshot entries) → keys.Nodup)
      ∧ Does (op.May s now) keys s (op.exec s now).1 := by
  cases op with
  | single key op =>
    refine ⟨[key], fun _ => List.nodup_singleton key, ?_⟩
    simp only [StoreOp.exec, SingleOp.exec]
    cases op.early with
    | some result => exact (Does.refl s).weaken (List.nil_sublist _)
    | none =>
      have purged : (StoreOp.single key op).May s now (.purge key) := .inl rfl
      have written : (StoreOp.single key op).May s now (.write key) := rfl
      exact run_does purged written s now _ fun evicts ensures _ => .inr ⟨evicts, ensures⟩
  | del keys =>
    exact ⟨[], fun _ => .nil, s.countKeys_does now KeyOp.del_unwriting fun _ listed => listed⟩
  | exists' keys =>
    exact ⟨[], fun _ => .nil,
      s.countKeys_does now KeyOp.exists1_readOnly.unwriting fun _ listed => listed⟩
  | mGet keys => exact ⟨[], fun _ => .nil, s.mGet_does now fun _ listed => listed⟩
  | mSet pairs =>
    have own : ∀ key ∈ pairs, (StoreOp.mSet pairs : StoreOp fl).May s now (.purge key)
        ∧ (StoreOp.mSet pairs : StoreOp fl).May s now (.write key) :=
      fun _ listed => ⟨.inl listed, listed⟩
    obtain ⟨order, nodup, does⟩ := mSet_does own s now fun evicts _ => .inr evicts
    exact ⟨order, fun _ => nodup, does⟩
  | mSetNX pairs =>
    have own : ∀ key ∈ pairs, (StoreOp.mSetNX pairs : StoreOp fl).May s now (.purge key)
        ∧ (StoreOp.mSetNX pairs : StoreOp fl).May s now (.write key) :=
      fun _ listed => ⟨.inl listed, listed⟩
    obtain ⟨order, nodup, does⟩ := mSetNX_does own s now fun evicts _ => .inr evicts
    exact ⟨order, fun _ => nodup, does⟩
  | expire key sec =>
    refine ⟨[key], fun _ => List.nodup_singleton key, ?_⟩
    simp only [StoreOp.exec, expire]
    split
    · exact (Does.refl s).weaken (List.nil_sublist _)
    · have purged : (StoreOp.expire key sec : StoreOp fl).May s now (.purge key) := rfl
      have written : (StoreOp.expire key sec : StoreOp fl).May s now (.write key) := rfl
      refine run_does purged written s now _ fun _ ensures => ?_
      -- setting a deadline takes no room
      obtain ⟨kind, commit, decision⟩ :=
        KeyOp.expireAt_immediate (now + seconds sec) (s.lookup now key)
      rw [decision] at ensures
      cases ensures
  | rename src dst =>
    exact ⟨[dst], fun _ => List.nodup_singleton dst,
      s.rename_does now (.inl rfl) (.inr rfl) rfl fun different live => ⟨rfl, different, live⟩⟩
  | renameNX src dst =>
    exact ⟨[dst], fun _ => List.nodup_singleton dst,
      s.renameNX_does now (.inl rfl) (.inr rfl) rfl fun different live free =>
        ⟨rfl, different, live, free⟩⟩
  | flushDB =>
    refine ⟨[], fun _ => .nil, ?_⟩
    simp only [StoreOp.exec]
    exact s.flushDB_does (fun _ => trivial) trivial
  | sampleAllShards =>
    refine ⟨[], fun _ => .nil, ?_⟩
    simp only [StoreOp.exec]
    exact s.sampleAllShards_does now fun _ => trivial
  | applySnapshotEntry ent =>
    exact ⟨[ent.key], fun _ => List.nodup_singleton _,
      s.applySnapshotEntry_does now ent rfl fun evicts _ => evicts⟩
  | applySnapshot entries =>
    refine ⟨entries.map SnapshotEntry.key, fun other => absurd rfl (other entries), ?_⟩
    simp only [StoreOp.exec, applySnapshot]
    exact (applySnapshotEntries_does _ now entries fun _ => trivial).after
      (s.flushDB_does (fun _ => trivial) trivial)

end Store

end SuperCache
