import SuperCache.Store.Concurrent

/-! # The LRU lists

Each shard keeps a list for `allkeys-lru` and one for `volatile-lru`, a map from
keys to the elements of each, and in every entry a pointer to its own element.
`Shard.Listed` says that the four agree with each other and with the map of the
entries.  Seen as lists of keys, `touchLRU` moves a key to the front and
`removeFromLRU` takes it out.

The helpers trust their caller for the old entry of a key.  An operation is
`Honest` if it names one wherever one is stored, and `Store.Stable` collects what
a property of stores has to survive for every operation to keep it.
-/

namespace SuperCache

open Lib

namespace LruList

def keys (l : LruList) : List Key :=
  l.list.map Prod.snd

/-- Every key is listed once, for good reason, and the index and the pointers of
the entries lead to exactly the elements of the list. -/
structure Kept (l : LruList) (ok : Key → Prop) : Prop where
  once : l.keys.Nodup
  numbered : (l.list.map Prod.fst).Nodup
  fresh : ∀ node ∈ l.list, node.1 < l.next
  index : ∀ key element, l.elems.lookup key = some element ↔ (element, key) ∈ l.list
  owned : ∀ key element, l.owner.lookup key = some element ↔ (element, key) ∈ l.list
  only : ∀ key ∈ l.keys, ok key

theorem empty_kept (ok : Key → Prop) : ({} : LruList).Kept ok := by
  constructor <;> simp [keys]

section Kept

variable {l : LruList} {ok ok' : Key → Prop} {key : Key} {element : Nat}

theorem mem_keys : key ∈ l.keys ↔ ∃ element, (element, key) ∈ l.list := by
  simp [keys]

theorem Kept.node_iff (kept : l.Kept ok) (listed : (element, key) ∈ l.list) {node : Nat × Key}
    (member : node ∈ l.list) : node.1 = element ↔ node.2 = key := by
  constructor
  · intro same
    rw [List.inj_on_of_nodup_map kept.numbered member listed same]
  · intro same
    rw [List.inj_on_of_nodup_map kept.once member listed same]

theorem Kept.filter_eq (kept : l.Kept ok) (listed : (element, key) ∈ l.list) :
    (l.list.filter fun node => node.1 ≠ element) = l.list.filter fun node => node.2 ≠ key :=
  List.filter_congr fun node member => by simp [kept.node_iff listed member]

theorem keys_filter (l : LruList) (key : Key) :
    ((l.list.filter fun node => node.2 ≠ key).map Prod.snd) = l.keys.filter (· ≠ key) := by
  rw [keys, List.filter_map]
  rfl

theorem Kept.lookup_none (kept : l.Kept ok) (absent : key ∉ l.keys) :
    l.elems.lookup key = none ∧ l.owner.lookup key = none := by
  constructor
  · refine Option.eq_none_iff_forall_ne_some.mpr fun element found => ?_
    exact absent (mem_keys.mpr ⟨element, (kept.index key element).mp found⟩)
  · refine Option.eq_none_iff_forall_ne_some.mpr fun element found => ?_
    exact absent (mem_keys.mpr ⟨element, (kept.owned key element).mp found⟩)

theorem Kept.disown (kept : l.Kept ok) (absent : key ∉ l.keys) : l.disown key = l := by
  unfold LruList.disown
  rw [erase_of_lookup_none (kept.lookup_none absent).2]

theorem Kept.removeOwned_absent (kept : l.Kept ok) (absent : key ∉ l.keys) :
    l.removeOwned key = l := by
  unfold LruList.removeOwned
  rw [(kept.lookup_none absent).2]

theorem filter_ne_self {keys : List Key} (absent : key ∉ keys) : keys.filter (· ≠ key) = keys :=
  List.filter_eq_self.mpr fun other listed => by
    simpa using fun same : other = key => absent (same ▸ listed)

theorem Kept.keys_removeOwned (kept : l.Kept ok) (key : Key) :
    (l.removeOwned key).keys = l.keys.filter (· ≠ key) := by
  by_cases listed : key ∈ l.keys
  · obtain ⟨element, member⟩ := mem_keys.mp listed
    rw [← keys_filter, ← kept.filter_eq member]
    simp only [LruList.removeOwned, (kept.owned key element).mpr member, keys]
  · rw [kept.removeOwned_absent listed, filter_ne_self listed]

theorem Kept.removeOwned (kept : l.Kept ok) (others : ∀ other ≠ key, ok other → ok' other) :
    (l.removeOwned key).Kept ok' := by
  have only : ∀ other ∈ (l.removeOwned key).keys, ok' other := fun other listed => by
    rw [kept.keys_removeOwned, List.mem_filter, decide_eq_true_eq] at listed
    exact others other listed.2 (kept.only other listed.1)
  have once : (l.removeOwned key).keys.Nodup := by
    rw [kept.keys_removeOwned]
    exact kept.once.filter _
  by_cases listed : key ∈ l.keys
  · obtain ⟨element, member⟩ := mem_keys.mp listed
    refine { once, only, numbered := ?_, fresh := ?_, index := ?_, owned := ?_ } <;>
      simp only [LruList.removeOwned, (kept.owned key element).mpr member, kept.filter_eq member]
    · exact kept.numbered.sublist (List.filter_sublist.map _)
    · exact fun node member => kept.fresh node (List.mem_filter.mp member).1
    · intro other element
      rw [lookup_erase_eq_ite, List.mem_filter, ← kept.index]
      split <;> simp_all
    · intro other element
      rw [lookup_erase_eq_ite, List.mem_filter, ← kept.owned]
      split <;> simp_all
  · rw [kept.removeOwned_absent listed] at only ⊢
    exact { kept with only }

theorem Kept.find_node (kept : l.Kept ok) (listed : (element, key) ∈ l.list) :
    (l.list.find? fun node => node.1 = element) = some (element, key) := by
  cases found : l.list.find? fun node => node.1 = element with
  | none => simpa using List.find?_eq_none.mp found _ listed
  | some node =>
    have member := List.mem_of_find?_eq_some found
    have same : node.1 = element := by simpa using List.find?_some found
    obtain ⟨_, _⟩ := node
    exact congrArg some (Prod.ext same ((kept.node_iff listed member).mp same))

theorem Kept.keys_touch (kept : l.Kept ok) (key : Key) :
    (l.touch key).keys = key :: l.keys.filter (· ≠ key) := by
  by_cases listed : key ∈ l.keys
  · obtain ⟨element, member⟩ := mem_keys.mp listed
    simp only [LruList.touch, (kept.index key element).mpr member, kept.find_node member,
      kept.filter_eq member]
    rw [← keys_filter]
    rfl
  · simp only [LruList.touch, (kept.lookup_none listed).1, filter_ne_self listed]
    rfl

theorem Kept.touch (kept : l.Kept ok) (own : ok key) : (l.touch key).Kept ok := by
  have only : ∀ other ∈ (l.touch key).keys, ok other := fun other listed => by
    rw [kept.keys_touch, List.mem_cons] at listed
    rcases listed with rfl | listed
    · exact own
    · exact kept.only other (List.mem_filter.mp listed).1
  have once : (l.touch key).keys.Nodup := by
    rw [kept.keys_touch]
    exact List.nodup_cons.mpr ⟨by simp, kept.once.filter _⟩
  by_cases listed : key ∈ l.keys
  · obtain ⟨element, member⟩ := mem_keys.mp listed
    -- the same nodes in another order
    have same (node : Nat × Key) :
        (node ∈ (element, key) :: l.list.filter fun other => other.1 ≠ element) ↔ node ∈ l.list := by
      rw [kept.filter_eq member, List.mem_cons, List.mem_filter]
      have own := fun inList : node ∈ l.list => kept.node_iff member inList
      grind
    refine { once, only, numbered := ?_, fresh := ?_, index := ?_, owned := ?_ } <;>
      simp only [LruList.touch, (kept.index key element).mpr member, kept.find_node member]
    · refine List.nodup_cons.mpr ⟨by simp, kept.numbered.sublist (List.filter_sublist.map _)⟩
    · exact fun node inList => kept.fresh node ((same node).mp inList)
    · exact fun other id => (kept.index other id).trans (same (id, other)).symm
    · exact fun other id => (kept.owned other id).trans (same (id, other)).symm
  · have unused (element : Nat) : (element, key) ∉ l.list := fun member =>
      listed (mem_keys.mpr ⟨element, member⟩)
    have fresh := kept.fresh
    refine { once, only, numbered := ?_, fresh := ?_, index := ?_, owned := ?_ } <;>
      simp only [LruList.touch, (kept.lookup_none listed).1]
    · refine List.nodup_cons.mpr ⟨fun old => ?_, kept.numbered⟩
      obtain ⟨node, inList, same⟩ := List.mem_map.mp old
      exact absurd (fresh node inList) (by omega)
    · grind
    · intro other element
      rw [lookup_insert_eq_ite, List.mem_cons, ← kept.index]
      have absent := (kept.lookup_none listed).1
      grind
    · intro other element
      rw [lookup_insert_eq_ite, List.mem_cons, ← kept.owned]
      have absent := (kept.lookup_none listed).2
      grind

end Kept

end LruList

/-! ## One shard -/

namespace Shard

def Holds (sh : Shard) (policy : Policy) (key : Key) : Prop :=
  ∃ e, sh.m.lookup key = some e ∧ policy.mayEvict e = true

structure Listed (sh : Shard) : Prop where
  all : sh.all.Kept (sh.Holds .allkeysLru)
  vol : sh.vol.Kept (sh.Holds .volatileLru)

/-- The entry of a key and its places in the lists are gone; `m` is the new map. -/
def without (sh : Shard) (key : Key) (m : GoMap Entry) : Shard :=
  { m, all := sh.all.removeOwned key, vol := sh.vol.removeOwned key }

variable {sh : Shard} {key : Key} {e : Entry}

theorem Listed.without {m : GoMap Entry} (listed : sh.Listed)
    (others : ∀ other ≠ key, m.lookup other = sh.m.lookup other) : (sh.without key m).Listed := by
  have kept (policy : Policy) (other : Key) (differs : other ≠ key) (holds : sh.Holds policy other) :
      (sh.without key m).Holds policy other := by
    obtain ⟨e, found, eligible⟩ := holds
    exact ⟨e, (others other differs).trans found, eligible⟩
  exact ⟨listed.all.removeOwned (kept _), listed.vol.removeOwned (kept _)⟩

theorem Listed.touchLRU (listed : sh.Listed) (policy : Policy) (found : sh.m.lookup key = some e) :
    (sh.touchLRU policy key e).Listed := by
  obtain ⟨all, vol⟩ := listed
  unfold Shard.touchLRU touchVolatileLRU touchAllKeysLRU
  cases policy with
  | allkeysLru => exact ⟨all.touch ⟨e, found, rfl⟩, vol⟩
  | volatileLru =>
    simp only [reduceCtorEq, if_false, if_true]
    split
    · next deadline => exact ⟨all, vol.touch ⟨e, found, deadline⟩⟩
    · exact ⟨all, vol.removeOwned fun _ _ holds => holds⟩
  | _ => exact ⟨all, vol⟩

theorem Listed.installed (listed : sh.Listed) {old : Option Entry} (m : GoMap Entry)
    (honest : old = none → key ∉ sh.all.keys ∧ key ∉ sh.vol.keys) :
    (let base := if old.isSome then sh.removeFromLRU key else sh
     ({ m, all := base.all.disown key, vol := base.vol.disown key } : Shard)) = sh.without key m := by
  have gone {l : LruList} {ok : Key → Prop} (kept : l.Kept ok) :
      (l.removeOwned key).disown key = l.removeOwned key := by
    refine (kept.removeOwned fun _ _ holds => holds).disown ?_
    rw [kept.keys_removeOwned]
    simp
  cases old with
  | some e =>
    simp only [Option.isSome_some, if_true, removeFromLRU, Shard.without, gone listed.all,
      gone listed.vol]
  | none =>
    obtain ⟨inAll, inVol⟩ := honest rfl
    simp only [Option.isSome_none, Bool.false_eq_true, if_false, Shard.without,
      listed.all.disown inAll, listed.vol.disown inVol, listed.all.removeOwned_absent inAll,
      listed.vol.removeOwned_absent inVol]

theorem Listed.absent (listed : sh.Listed) (missing : sh.m.lookup key = none) :
    key ∉ sh.all.keys ∧ key ∉ sh.vol.keys := by
  constructor <;> intro member
  · obtain ⟨e, found, -⟩ := listed.all.only key member
    cases missing.symm.trans found
  · obtain ⟨e, found, -⟩ := listed.vol.only key member
    cases missing.symm.trans found

end Shard

/-! ## The store -/

namespace Store

def Listed (s : Store) : Prop :=
  ∀ si, (s.shards si).Listed

variable {s t : Store} {si : Fin 256} {key : Key} {old : Option Entry}

theorem purgeEntryLocked_shards (s : Store) (si : Fin 256) (key : Key) (e : Entry) :
    (s.purgeEntryLocked si key e).shards
      = Function.update s.shards si ((s.shards si).without key ((s.shards si).m.erase key)) := by
  simp only [purgeEntryLocked, bumpWatchKey_shards, addMem_shards]
  rfl

/-- The shard of a key after an honest `replaceEntry`. -/
def renewed (s : Store) (key : Key) (ne : Entry) : Shard :=
  let sh := s.shards (s.route key)
  (sh.without key (sh.m.insert key ne)).touchLRU s.policy key ne

theorem replaceEntry_shards (listed : s.Listed) (ne : Entry)
    (honest : old = none → key ∉ (s.shards (s.route key)).all.keys
      ∧ key ∉ (s.shards (s.route key)).vol.keys) :
    (s.replaceEntry key old ne).shards
      = Function.update s.shards (s.route key) (s.renewed key ne) := by
  simp only [replaceEntry, bumpWatchKey_shards, addMem_shards, install, modifyShard,
    releaseOld_shards, releaseOld_route, releaseOld_policy, renewed, Shard.lruAfterSet]
  rw [← (listed (s.route key)).installed _ honest]
  cases old <;> rfl

theorem Listed.update (listed : s.Listed) {sh : Shard} (shard : sh.Listed)
    (shards : t.shards = Function.update s.shards si sh) : t.Listed := by
  intro sj
  rw [shards, Function.update_apply]
  split
  · exact shard
  · exact listed sj

theorem Listed.purge (listed : s.Listed) (si : Fin 256) (key : Key) (e : Entry) :
    (s.purgeEntryLocked si key e).Listed :=
  listed.update ((listed si).without fun other differs => by
    rw [lookup_erase_eq_ite, if_neg differs]) (s.purgeEntryLocked_shards si key e)

theorem Listed.write (listed : s.Listed) (ne : Entry)
    (honest : old = none → key ∉ (s.shards (s.route key)).all.keys
      ∧ key ∉ (s.shards (s.route key)).vol.keys) : (s.replaceEntry key old ne).Listed := by
  refine listed.update (Shard.Listed.touchLRU ?_ _ ?_) (replaceEntry_shards listed ne honest)
  · refine (listed _).without fun other differs => ?_
    rw [lookup_insert_eq_ite, if_neg differs]
  · exact Finmap.lookup_insert _

theorem Listed.honest (listed : s.Listed) (named : (s.stored key).isSome = true → old.isSome = true) :
    old = none → key ∉ (s.shards (s.route key)).all.keys
      ∧ key ∉ (s.shards (s.route key)).vol.keys := by
  rintro rfl
  refine (listed _).absent (Option.not_isSome_iff_eq_none.mp fun present => ?_)
  cases named present

theorem newStore_listed (policy : Policy) (maxMem : Nat) (oracle : Oracle) :
    (newStore policy maxMem oracle).Listed :=
  fun _ => ⟨LruList.empty_kept _, LruList.empty_kept _⟩

/-! ## What every operation is made of -/

structure Stable (P : Store → Prop) : Prop where
  quiet : ∀ {s t : Store}, P s → t.shards = s.shards → t.route = s.route → t.policy = s.policy → P t
  purge : ∀ {s : Store} {si : Fin 256} {key : Key} (e : Entry), P s → key ∈ (s.shards si).m →
    P (s.purgeEntryLocked si key e)
  touch : ∀ {s : Store} {key : Key} {e : Entry}, P s → s.stored key = some e → P (s.touchLRU key e)
  write : ∀ {s : Store} {key : Key} {old : Option Entry} (ne : Entry), P s →
    ((s.stored key).isSome = true → old.isSome = true) → P (s.replaceEntry key old ne)
  drop : ∀ {s : Store} {key : Key} (e : Entry), P s → (s.stored key).isSome = true →
    P (s.dropSource key e)

theorem stable_listed : Stable Listed where
  quiet listed shards _ _ si := by rw [shards]; exact listed si
  purge e listed _ := listed.purge _ _ e
  touch listed found := listed.update ((listed _).touchLRU _ found) rfl
  write ne listed named := listed.write ne (listed.honest named)
  drop e listed _ si := by rw [dropSource_shards]; exact listed.purge _ _ e si

end Store

def Commit.Honest {ρ : Type} (cur : Option Entry) : Commit ρ → Prop
  | .keep _ => True
  | .purge _ _ => cur.isSome = true
  | .replace old _ _ => cur.isSome = true → old.isSome = true

def Retry.Honest {ρ : Type} : Retry ρ → Prop
  | .stored => True
  | .recheck purge decide =>
    ∀ again, (purge = false → ∀ e, again ≠ .expired e) → (decide again).Honest again.current

def Action.Honest {ρ : Type} (found : Look) : Action ρ → Prop
  | .done _ commit => commit.Honest found.current
  | .ensure _ _ old _ _ retry => (found.current.isSome = true → old.isSome = true) ∧ retry.Honest

attribute [simp] Commit.Honest Retry.Honest Action.Honest Look.current Look.isLive

namespace KeyOp

variable {key : Key} {found : Look}

theorem setLocked_honest (val : Bytes) (expiresAt : Time) (nx xx : Bool) :
    (setLocked key val expiresAt nx xx found).Honest found := by
  simp only [setLocked]
  split
  · trivial
  · refine ⟨id, fun again _ => ?_⟩
    simp only
    split <;> simp

theorem setNX_honest (val : Bytes) (expiresAt : Time) :
    (setNX key val expiresAt found).Honest found := by
  cases found <;> simp [setNX] <;> intro again <;> cases again <;> simp

theorem setXX_honest (val : Bytes) (expiresAt : Time) :
    (setXX key val expiresAt found).Honest found := by
  cases found <;> simp [setXX]
  intro again
  cases again <;> simp

theorem append_honest (tail : Bytes) : (append key tail found).Honest found := by
  cases found with
  | live e =>
    simp only [append]
    split <;> simp
  | missing | expired =>
    refine ⟨by simp, fun again fresh => ?_⟩
    cases again with
    | live cur =>
      simp only
      split <;> simp
    | missing => simp
    | expired e => exact absurd rfl (fresh rfl e)

theorem lLen_honest : (lLen found).Honest found := by
  cases found with
  | live e =>
    simp only [lLen]
    split <;> simp
  | _ => simp [lLen]

theorem listPush_honest (vals : List Bytes) (left : Bool) :
    (listPush key vals left found).Honest found := by
  unfold listPush
  split
  · exact lLen_honest
  · simp only
    split <;> simp

theorem listPushX_honest (vals : List Bytes) (left : Bool) :
    (listPushX key vals left found).Honest found := by
  unfold listPushX
  split
  · exact lLen_honest
  · cases found with
    | live e =>
      simp only
      split <;> simp
    | _ => simp

end KeyOp

theorem SingleOp.keyOp_honest {fl : FloatOps} (op : SingleOp fl) (now : Time) (key : Key)
    (found : Look) : (op.keyOp now key found).Honest found := by
  cases op with
  | set val expiresAt => exact KeyOp.setLocked_honest val expiresAt false false
  | setNX val expiresAt => exact KeyOp.setNX_honest val expiresAt
  | setXX val expiresAt => exact KeyOp.setXX_honest val expiresAt
  | append tail => exact KeyOp.append_honest tail
  | lPush vals => exact KeyOp.listPush_honest vals true
  | rPush vals => exact KeyOp.listPush_honest vals false
  | lPushX vals => exact KeyOp.listPushX_honest vals true
  | rPushX vals => exact KeyOp.listPushX_honest vals false
  | _ =>
    cases found <;>
      simp only [keyOp, KeyOp.get, KeyOp.getSet, KeyOp.incrBy, KeyOp.incrOld, KeyOp.decrBy,
        KeyOp.hSet, KeyOp.hDel, KeyOp.hSetNX, KeyOp.hIncrBy, KeyOp.hIncrByFloat, KeyOp.putHash,
        KeyOp.lPop, KeyOp.rPop, KeyOp.listPop, KeyOp.commitMutated, KeyOp.lLen, KeyOp.lSet,
        KeyOp.lRem, KeyOp.lTrim, KeyOp.lInsert, KeyOp.sAdd, KeyOp.sRem, KeyOp.replaceSet,
        KeyOp.typeName, KeyOp.expireAt, KeyOp.persist, KeyOp.ttl, KeyOp.ttlMs, KeyOp.ttlIn,
        KeyOp.hGet, KeyOp.hGetAll, KeyOp.hExists, KeyOp.hLen, KeyOp.lRange, KeyOp.lIndex,
        KeyOp.sMembers, KeyOp.sIsMember, KeyOp.sCard, KeyOp.readLive] <;>
      repeat' split
    all_goals simp_all

/-! ## Operations -/

namespace Store.Stable

variable {P : Store → Prop} {s t : Store} {key : Key} {ρ : Type}

theorem closed (stable : Stable P) : Closed P where
  quiet holds shards route policy _ _ _ := stable.quiet holds shards route policy
  purge holds found := stable.purge _ holds (Finmap.mem_of_lookup_eq_some found)
  write ne holds stored := stable.write ne holds (by rw [stored]; exact id)
  drop holds found := stable.drop _ holds (by rw [found]; rfl)
  forget holds := stable.quiet holds rfl rfl rfl

theorem touched (stable : Stable P) (holds : P s) (kind : Touch) {found : Look}
    (stored : s.stored key = found.current) : P (s.touch key kind found) := by
  unfold Store.touch
  split
  · exact stable.touch holds stored
  · unfold touchRead
    split
    · exact stable.touch holds stored
    · have ticked := stable.quiet holds
        (t := { s with readLRUTick := (s.readLRUTick + 1) % 2 ^ 64 }) rfl rfl rfl
      simp only
      split
      · exact stable.touch ticked stored
      · exact ticked
  · exact holds

theorem commit (stable : Stable P) (holds : P s) {commit : Commit ρ}
    (honest : commit.Honest (s.stored key)) : P (s.commit key commit).1 := by
  cases commit with
  | keep result => exact holds
  | purge e result =>
    exact stable.purge e holds (Finmap.mem_iff.mpr (Option.isSome_iff_exists.mp honest))
  | replace old ne result => exact stable.write ne holds honest

theorem resume (stable : Stable P) (holds : P s) (now : Time) {evicted : Bool}
    {old : Option Entry} (ne : Entry) (result : ρ) {retry : Retry ρ}
    (undisturbed : evicted = false → (s.stored key).isSome = true → old.isSome = true)
    (honest : retry.Honest) (fresh : evicted = true → ∀ decide, retry = .recheck false decide →
      ∀ e, s.lookup now key ≠ .expired e) :
    P (s.resume now key evicted old ne result retry).1 := by
  unfold Store.resume
  cases evicted with
  | false =>
    have named : (Commit.replace old ne result).Honest (s.stored key) := undisturbed rfl
    exact stable.commit holds named
  | true =>
    simp only [if_true]
    cases retry with
    | stored =>
      have named : (Commit.replace (s.stored key) ne result).Honest (s.stored key) := id
      exact stable.commit holds named
    | recheck purge decide =>
      have after (e : Entry) : purge = false → s.lookup now key ≠ .expired e := by
        rintro rfl
        exact fresh rfl decide rfl e
      have decided := honest (s.lookup now key) fun unpurged e => after e unpurged
      have stored := s.stored_purgeExpired_self now key
      cases purge with
      | true =>
        rw [← stored] at decided
        exact stable.commit (stable.closed.purgeExpired holds now key) decided
      | false =>
        have same : s.purgeExpired key (s.lookup now key) = s := by
          cases found : s.lookup now key with
          | expired e => exact absurd found (after e rfl)
          | _ => rfl
        rw [same] at stored
        rw [← stored] at decided
        exact stable.commit holds decided

theorem entered (stable : Stable P) (holds : P s) (now : Time) (key : Key) (kind : Touch) :
    P ((s.purgeExpired key (s.lookup now key)).touch key kind (s.lookup now key))
      ∧ ((s.purgeExpired key (s.lookup now key)).touch key kind (s.lookup now key)).stored key
        = (s.lookup now key).current := by
  have stored := s.stored_purgeExpired_self now key
  exact ⟨stable.touched (stable.closed.purgeExpired holds now key) kind stored,
    (stored_touch ..).trans stored⟩

theorem start (stable : Stable P) (holds : P s) {now : Time} {op : KeyOp ρ} {fits : Bool}
    {phase : Phase ρ} (honest : ∀ found, (op found).Honest found)
    (starts : s.start now key op fits = some (t, phase)) : P t := by
  have decided := honest (s.lookup now key)
  unfold Store.start at starts
  cases action : op (s.lookup now key) with simp only [action] at starts decided
  | done kind commit =>
    obtain ⟨kept, stored⟩ := stable.entered holds now key kind
    obtain ⟨-, ⟨⟩⟩ := Option.ite_none_right_eq_some.mp starts
    refine stable.commit kept ?_
    rw [stored]
    exact decided
  | ensure kind delta old ne result retry =>
    obtain ⟨kept, stored⟩ := stable.entered holds now key kind
    split at starts
    · cases starts
      refine stable.resume kept now ne result (fun _ present => ?_) decided.2 ?_
      · rw [stored] at present
        exact decided.1 present
      · intro none
        cases none
    · obtain ⟨-, ⟨⟩⟩ := Option.ite_none_right_eq_some.mp starts
      exact kept

theorem run (stable : Stable P) (holds : P s) (now : Time) (key : Key) {op : KeyOp ρ}
    (honest : ∀ found, (op found).Honest found) : P (s.run now key op).1 := by
  have decided := honest (s.lookup now key)
  unfold Store.run
  simp only
  cases action : op (s.lookup now key) with rw [action] at decided
  | done kind commit =>
    obtain ⟨kept, stored⟩ := stable.entered holds now key kind
    refine stable.commit kept ?_
    rw [stored]
    exact decided
  | ensure kind delta old ne result retry =>
    obtain ⟨kept, stored⟩ := stable.entered holds now key kind
    simp only
    generalize (s.purgeExpired key (s.lookup now key)).touch key kind (s.lookup now key) = t
      at kept stored
    have room := stable.closed.ensureMemoryWithRetry kept key delta
    rcases equation : t.ensureMemoryWithRetry key delta with ⟨u, failure | evicted⟩ <;>
      rw [equation] at room
    · exact room
    · obtain ⟨evictions, unchanged, -⟩ := ensureMemoryWithRetry_ok equation
      refine stable.resume room now ne result ?_ decided.2 ?_
      · intro quiet present
        rw [unchanged quiet, stored] at present
        exact decided.1 present
      · intro _ _ _ e again
        obtain missing | ⟨-, live⟩ := again_cases now stored (fun _ found => (lookup_live found).2)
          evictions
        · cases again.symm.trans missing
        · rw [again] at live
          cases live

theorem del_honest (found : Look) : (KeyOp.del found).Honest found := by
  cases found <;> simp [KeyOp.del]

theorem get_honest (found : Look) : (KeyOp.get found).Honest found :=
  (SingleOp.get : SingleOp integerFloats).keyOp_honest 0 [] found

theorem exists1_honest (found : Look) : (KeyOp.exists1 found).Honest found := by
  cases found <;> simp [KeyOp.exists1]

theorem exec {fl : FloatOps} (stable : Stable P) (holds : P s) (now : Time) (op : StoreOp fl) :
    P (op.exec s now).1 := by
  cases op with
  | single key op =>
    simp only [StoreOp.exec, SingleOp.exec]
    cases op.early with
    | some result => exact holds
    | none => exact stable.run holds now key (op.keyOp_honest now key)
  | del keys =>
    exact Closed.countKeys (P := P) (fun _ key kept => stable.run kept now key del_honest) holds keys
  | exists' keys =>
    exact Closed.countKeys (P := P) (fun _ key kept => stable.run kept now key exists1_honest) holds keys
  | mGet keys => exact Closed.mGet (P := P) (fun _ key kept => stable.run kept now key get_honest) holds keys
  | mSet pairs =>
    exact Closed.mSetList (P := P) (fun _ key val kept => stable.run kept now key fun _ =>
      KeyOp.setLocked_honest val 0 false false) holds _
  | mSetNX pairs => exact stable.closed.mSetNX holds now pairs
  | expire key sec =>
    simp only [StoreOp.exec, expire]
    split
    · exact holds
    · exact stable.run holds now key fun found => by cases found <;> simp [KeyOp.expireAt]
  | rename src dst => exact stable.closed.rename holds now src dst
  | renameNX src dst => exact stable.closed.renameNX holds now src dst
  | flushDB => exact stable.closed.flushDB (fun _ => stable.closed.forget) holds
  | sampleAllShards =>
    simp only [StoreOp.exec]
    exact stable.closed.sampleAllShards holds now
  | applySnapshotEntry ent => exact stable.closed.applySnapshotEntry holds now ent
  | applySnapshot entries =>
    exact stable.closed.applySnapshotEntries (stable.closed.flushDB (fun _ => stable.closed.forget) holds) now entries

end Store.Stable

end SuperCache
