import SuperCache.Store.Evolution
import SuperCache.Store.Sections
import SuperCache.Lib.Respects

/-! # Stores that look alike

Two stores without a limit look alike at an instant when they show the same live
entries, whatever their routing and whatever expired entries they still hold.
Every operation respects that relation: it answers the same on both, and they look
alike afterwards.
-/

namespace SuperCache

open Lib

/-- The same live entries at `now`, in stores without a limit. -/
structure Store.Alike (now : Time) (s t : Store) : Prop where
  live : s.live now = t.live now
  unlimited : s.maxMem = 0 ∧ t.maxMem = 0
  placed : s.Placed ∧ t.Placed

namespace Store

variable {now : Time} {s t : Store}

namespace Alike

theorem evolve {s' t' : Store} (alike : Alike now s t) (left : Evolves s s') (right : Evolves t t')
    (live : s'.live now = t'.live now) : Alike now s' t' where
  live := live
  unlimited := ⟨left.maxMem.trans alike.unlimited.1, right.maxMem.trans alike.unlimited.2⟩
  placed := ⟨left.placed alike.placed.1, right.placed alike.placed.2⟩

theorem later {after : Time} (alike : Alike now s t) (passed : now ≤ after) :
    Alike after s t where
  live := by
    funext key
    have same := congrFun alike.live key
    unfold Store.live at same ⊢
    rw [← alive_later passed (s.stored key), same, alive_later passed]
  unlimited := alike.unlimited
  placed := alike.placed

theorem hidden {s' : Store} (alike : Alike now s t) (left : Evolves s s')
    (live : s'.live now = s.live now) : Alike now s' t :=
  alike.evolve left (.refl t) (live.trans alike.live)

end Alike

/-! ## One key -/

theorem run_respects {ρ : Type} {op : KeyOp ρ} (blind : op.Blind) (key : Key) :
    Respects (Alike now) fun s => s.run now key op := by
  intro s t alike
  obtain ⟨leftLive, leftAnswer⟩ := s.run_live_fits now key blind (.inr (.inl alike.unlimited.1))
  obtain ⟨rightLive, rightAnswer⟩ := t.run_live_fits now key blind (.inr (.inl alike.unlimited.2))
  refine ⟨alike.evolve (s.run_evolves now key op) (t.run_evolves now key op) ?_, ?_⟩
  · rw [leftLive, rightLive, alike.live]
  · rw [leftAnswer, rightAnswer, alike.live]

theorem single_respects {fl : FloatOps} (op : SingleOp fl) (key : Key) :
    Respects (Alike now) fun s => op.exec s now key := by
  unfold SingleOp.exec
  cases op.early with
  | some result => exact .pure _
  | none => exact run_respects (op.keyOp_blind now key) key

/-! ## One key after another -/

theorem countKeys_respects {op : KeyOp Int} (blind : op.Blind) (keys : List Key) :
    Respects (Alike now) fun s => countKeys op s now keys := by
  induction keys with
  | nil => exact .pure 0
  | cons key rest ih =>
    intro s t alike
    obtain ⟨next, result⟩ := run_respects blind key alike
    obtain ⟨last, count⟩ := ih next
    simp only [countKeys]
    exact ⟨last, by rw [result, count]⟩

theorem mGet_respects (keys : List Key) : Respects (Alike now) fun s => s.mGet now keys := by
  induction keys with
  | nil => exact .pure _
  | cons key rest ih =>
    have value : Respects (Alike now) fun s => s.run now key KeyOp.get :=
      run_respects (fun _ => ⟨rfl, rfl, rfl⟩) key
    have sequence : (fun s : Store => s.mGet now (key :: rest))
        = andThen (fun s => s.run now key KeyOp.get) fun value =>
            andThen (fun s => s.mGet now rest) fun values s => (s, .ok (value :: values)) := by
      funext s
      simp only [mGet, andThen]
      rcases s.run now key KeyOp.get with ⟨u, failure | found⟩
      · rfl
      · simp only
        rcases u.mGet now rest with ⟨v, failure | values⟩ <;> rfl
    rw [sequence]
    exact value.andThen fun value => ih.andThen fun values => .pure _

theorem mSetList_respects (pairs : List (Key × Bytes)) :
    Respects (Alike now) fun s => s.mSetList now pairs := by
  induction pairs with
  | nil => exact .pure _
  | cons pair rest ih =>
    obtain ⟨key, val⟩ := pair
    have written : Respects (Alike now) fun s => s.run now key (KeyOp.set key val 0) :=
      run_respects (fun _ => ⟨rfl, rfl, rfl⟩) key
    have sequence : (fun s : Store => s.mSetList now ((key, val) :: rest))
        = andThen (fun s => s.run now key (KeyOp.set key val 0)) fun _ s => s.mSetList now rest := by
      funext s
      simp only [mSetList, andThen]
      rcases s.run now key (KeyOp.set key val 0) with ⟨u, failure | done⟩ <;> rfl
    rw [sequence]
    exact written.andThen fun _ => ih

theorem expire_respects (key : Key) (sec : Int) :
    Respects (Alike now) fun s => s.expire now key sec := by
  unfold expire
  split
  · exact .pure _
  · exact run_respects (fun _ => ⟨rfl, rfl, rfl⟩) key

/-! ## Several keys at once -/

theorem mSetNX_respects (pairs : GoMap Bytes) :
    Respects (Alike now) fun s => s.mSetNX now pairs := by
  intro s t alike
  have sameLook : s.anyLive now (sortedElems pairs.keys) = t.anyLive now (sortedElems pairs.keys) := by
    rw [anyLive_eq, anyLive_eq, alike.live]
  obtain ⟨leftLive, left⟩ := s.mSetNX_fits now pairs (.inr (.inl alike.unlimited.1))
  obtain ⟨rightLive, right⟩ := t.mSetNX_fits now pairs (.inr (.inl alike.unlimited.2))
  refine ⟨alike.evolve (s.mSetNX_evolves now pairs) (t.mSetNX_evolves now pairs) ?_, ?_⟩
  · rw [leftLive, rightLive, alike.live, sameLook]
  · rw [left, right, sameLook]

theorem rename_reply (s : Store) (now : Time) (src dst : Key) :
    (s.rename now src dst).2
      = if src = dst ∨ (s.live now src).isSome then .ok () else .error .noSuchKey := by
  unfold rename
  rw [← isLive_lookup]
  by_cases same : src = dst
  · rw [if_pos same, if_pos (.inl same)]
  · rw [if_neg same]
    cases s.lookup now src <;> simp [same, Look.isLive]

theorem rename_respects (src dst : Key) :
    Respects (Alike now) fun s => s.rename now src dst := by
  intro s t alike
  refine ⟨alike.evolve (s.rename_evolves now src dst) (t.rename_evolves now src dst) ?_, ?_⟩
  · rw [(s.rename_live now src dst).1, (t.rename_live now src dst).1, alike.live]
  · simp only [rename_reply, alike.live]

theorem renameNX_reply (s : Store) (now : Time) (src dst : Key) :
    (s.renameNX now src dst).2
      = .ok (decide (src = dst) || ((s.live now src).isSome && !(s.live now dst).isSome)) := by
  unfold renameNX
  rw [← isLive_lookup, ← isLive_lookup]
  by_cases same : src = dst
  · simp [same]
  · rw [if_neg same]
    cases s.lookup now src with
    | missing => simp [same, Look.isLive]
    | expired e => simp [same, Look.isLive]
    | live e =>
      cases s.lookup now dst <;> simp [same, Look.isLive]

theorem renameNX_respects (src dst : Key) :
    Respects (Alike now) fun s => s.renameNX now src dst := by
  intro s t alike
  have sameReply : (s.renameNX now src dst).2 = (t.renameNX now src dst).2 := by
    rw [renameNX_reply, renameNX_reply, alike.live]
  obtain ⟨moved, answer, leftLive, -⟩ := s.renameNX_live now src dst
  obtain ⟨movedToo, answerToo, rightLive, -⟩ := t.renameNX_live now src dst
  have agree : moved = movedToo := by
    rw [answer, answerToo] at sameReply
    exact Except.ok.inj sameReply
  refine ⟨alike.evolve (s.renameNX_evolves now src dst) (t.renameNX_evolves now src dst) ?_, sameReply⟩
  rw [leftLive, rightLive, alike.live, agree]

/-! ## Flushing, sampling, snapshot rows -/

theorem Alike.flushDB (alike : Alike now s t) : Alike now s.flushDB t.flushDB :=
  alike.evolve s.flushDB_evolves t.flushDB_evolves
    ((s.flushDB_live now).1.trans (t.flushDB_live now).1.symm)

theorem purgeKeys_live (now : Time) (si : Fin 256) (keys : List Key) (s : Store) :
    (purgeKeys (isExpired now) si s keys).live now = s.live now := by
  induction keys generalizing s with
  | nil => rfl
  | cons key rest ih =>
    refine (ih _).trans ?_
    simp only
    split
    · next e found =>
      split
      · next expired =>
        funext other
        unfold live
        rw [stored_purgeEntryLocked]
        split
        · next here =>
          -- The purged entry is the one a lookup of the key would have found.
          have stored : s.stored other = some e := by
            unfold Store.stored
            rw [here.1, here.2]
            exact found
          rw [stored, alive_some, if_pos expired, alive_none]
        · rfl
      · rfl
    · rfl

theorem sampleOnceShard_live (s : Store) (now : Time) (si : Fin 256) :
    (s.sampleOnceShard now si).1.live now = s.live now :=
  purgeKeys_live now si _ _

theorem sampleAllShards_live (s : Store) (now : Time) :
    (s.sampleAllShards now).live now = s.live now := by
  have rounds (si : Fin 256) (n : Nat) (t : Store) :
      (sampleShard now si n t).live now = t.live now := by
    induction n generalizing t with
    | zero => rfl
    | succ n ih =>
      simp only [sampleShard]
      split
      · exact t.sampleOnceShard_live now si
      · exact (ih _).trans (t.sampleOnceShard_live now si)
  unfold sampleAllShards
  induction List.finRange 256 generalizing s with
  | nil => rfl
  | cons si rest ih => exact (ih _).trans (rounds si 16 s)

theorem applySnapshotEntry_respects (ent : SnapshotEntry) :
    Respects (Alike now) fun s => s.applySnapshotEntry now ent := by
  intro s t alike
  have shown (u : Store) (unlimited : u.maxMem = 0) :
      (u.applySnapshotEntry now ent).1.live now
          = (snapshotValue ent.value).elim (u.live now) (fun value =>
              Function.update (u.live now) ent.key
                (alive now (some { value := value, expiresAt := snapshotExpiry now ent })))
        ∧ (u.applySnapshotEntry now ent).2
          = (snapshotValue ent.value).elim (.error .unknownSnapshotType) fun _ => .ok () := by
    unfold applySnapshotEntry
    cases snapshotValue ent.value with
    | none => exact ⟨rfl, rfl⟩
    | some value =>
      simp only [ensureMemoryWithRetry, unlimited, true_or, if_true]
      exact ⟨live_replaceEntry u now _ _ _, rfl⟩
  obtain ⟨leftLive, left⟩ := shown s alike.unlimited.1
  obtain ⟨rightLive, right⟩ := shown t alike.unlimited.2
  refine ⟨alike.evolve (s.applySnapshotEntry_evolves now ent) (t.applySnapshotEntry_evolves now ent)
    ?_, left.trans right.symm⟩
  rw [leftLive, rightLive, alike.live]

theorem applySnapshotEntries_respects (entries : List SnapshotEntry) :
    Respects (Alike now) fun s => s.applySnapshotEntries now entries := by
  induction entries with
  | nil => exact .pure _
  | cons ent rest ih =>
    have sequence : (fun s : Store => s.applySnapshotEntries now (ent :: rest))
        = andThen (fun s => s.applySnapshotEntry now ent) fun _ s =>
            s.applySnapshotEntries now rest := by
      funext s
      simp only [applySnapshotEntries, andThen]
      rcases s.applySnapshotEntry now ent with ⟨u, failure | done⟩ <;> rfl
    rw [sequence]
    exact (applySnapshotEntry_respects ent).andThen fun _ => ih

/-! ## Reading the whole keyspace -/

def storedKeys (s : Store) : List Key :=
  (List.finRange 256).flatMap fun si => rangeOrder s.oracle s.tick (s.shards si).m.keys

theorem mem_storedKeys (placed : s.Placed) {key : Key} :
    key ∈ s.storedKeys ↔ (s.stored key).isSome := by
  simp only [storedKeys, List.mem_flatMap, List.mem_finRange, true_and, mem_rangeOrder,
    Finmap.mem_keys]
  constructor
  · rintro ⟨si, member⟩
    rw [← placed si key member] at member
    exact Finmap.lookup_isSome.mpr member
  · intro found
    exact ⟨s.route key, Finmap.lookup_isSome.mp found⟩

theorem mem_storedKeys_of_live (placed : s.Placed) {key : Key} (live : (s.live now key).isSome) :
    key ∈ s.storedKeys := by
  obtain ⟨e, live⟩ := Option.isSome_iff_exists.mp live
  exact (mem_storedKeys placed).mpr (Option.isSome_of_eq_some (alive_eq_some_iff.mp live).1)

theorem nodup_storedKeys (placed : s.Placed) : s.storedKeys.Nodup := by
  refine List.nodup_flatMap.mpr ⟨fun si _ => nodup_rangeOrder _ _ _, ?_⟩
  refine (List.nodup_finRange 256).imp ?_
  intro si sj different key here there
  rw [mem_rangeOrder, Finmap.mem_keys] at here there
  exact different ((placed si key here).symm.trans (placed sj key there))

theorem visitShards_eq {β : Type} (placed : s.Placed) (now : Time)
    (visit : Key → Entry → Option β) :
    s.visitShards now visit
      = s.storedKeys.filterMap fun key => (s.live now key).bind (visit key) := by
  unfold visitShards storedKeys
  rw [List.filterMap_flatMap]
  refine List.flatMap_congr fun si _ => List.filterMap_congr fun key member => ?_
  rw [mem_rangeOrder, Finmap.mem_keys] at member
  -- The shard at hand is the one a lookup of the key would take.
  have stored : (s.shards si).m.lookup key = s.stored key := by
    unfold Store.stored
    rw [placed si key member]
  rw [stored]
  unfold live
  cases s.stored key with
  | none => rfl
  | some e =>
    rw [alive_some, Option.bind_some]
    split <;> rfl

theorem visitShards_perm {β : Type} (alike : Alike now s t) (visit : Key → Entry → Option β) :
    (s.visitShards now visit).Perm (t.visitShards now visit) := by
  have shown (u : Store) (placed : u.Placed) (same : u.live now = t.live now) :
      u.visitShards now visit
        = (u.storedKeys.filter fun key => (t.live now key).isSome).filterMap
            fun key => (t.live now key).bind (visit key) := by
    rw [visitShards_eq placed, same, List.filterMap_filter]
    refine List.filterMap_congr fun key _ => ?_
    cases t.live now key <;> simp
  have members (u : Store) (placed : u.Placed) (same : u.live now = t.live now) (key : Key) :
      key ∈ (u.storedKeys.filter fun key => (t.live now key).isSome)
        ↔ (t.live now key).isSome = true := by
    rw [List.mem_filter, and_iff_right_iff_imp, ← same]
    exact mem_storedKeys_of_live placed
  rw [shown s alike.placed.1 alike.live, shown t alike.placed.2 rfl]
  refine List.Perm.filterMap _ ((List.perm_ext_iff_of_nodup
    ((nodup_storedKeys alike.placed.1).filter _) ((nodup_storedKeys alike.placed.2).filter _)).mpr ?_)
  intro key
  rw [members s alike.placed.1 alike.live, members t alike.placed.2 rfl]

theorem Alike.visited (alike : Alike now s t) : Alike now s.visited t.visited :=
  alike.evolve (s.drawn_evolves _ _) (t.drawn_evolves _ _) alike.live

theorem dbSize_eq (s : Store) (now : Time) :
    s.dbSize now = (s.visitShards now fun key _ => some key).length := by
  unfold dbSize visitShards
  rw [List.length_flatMap]
  refine congrArg List.sum (List.map_congr_left fun si _ => ?_)
  have counted : ((s.shards si).m.keys.filter fun key =>
        ((s.shards si).m.lookup key).any fun e => !isExpired now e)
      = ((rangeOrder s.oracle s.tick (s.shards si).m.keys).filter fun key =>
        ((s.shards si).m.lookup key).any fun e => !isExpired now e).toFinset := by
    ext key
    simp [mem_rangeOrder]
  rw [counted, List.toFinset_card_of_nodup ((nodup_rangeOrder _ _ _).filter _),
    ← List.filterMap_eq_filter]
  refine congrArg List.length (List.filterMap_congr fun key _ => ?_)
  have guarded (found : Option Entry) :
      (if found.any fun e => !isExpired now e then some key else none)
        = found.bind fun e => if isExpired now e then none else some key := by
    cases found with
    | none => rfl
    | some e => cases expiry : isExpired now e <;> simp [expiry]
  exact guarded _

theorem dbSize_congr (alike : Alike now s t) : s.dbSize now = t.dbSize now := by
  rw [dbSize_eq, dbSize_eq]
  exact (visitShards_perm alike _).length_eq

theorem expireKeyCount_respects : Respects (Alike now) fun s => s.expireKeyCount now :=
  fun _ _ alike => ⟨alike.visited, (visitShards_perm alike _).length_eq⟩

theorem keys_perm (alike : Alike now s t) (pattern : Bytes) :
    (s.keys now pattern).2.Perm (t.keys now pattern).2 :=
  visitShards_perm alike _

theorem snapshotCtx_perm (alike : Alike now s t) :
    (s.snapshotCtx now).2.Perm (t.snapshotCtx now).2 :=
  visitShards_perm alike fun key e => some (buildSnapshotEntry now key e)

theorem sortedKeys_respects (pattern : Bytes) : Respects (Alike now) fun s =>
    ((s.keys now pattern).1, (s.keys now pattern).2.insertionSort (· ≤ ·)) := by
  intro s t alike
  refine ⟨alike.visited, ?_⟩
  refine List.Perm.eq_of_pairwise (fun _ _ _ _ => le_antisymm) (List.pairwise_insertionSort _ _)
    (List.pairwise_insertionSort _ _) ?_
  exact ((List.perm_insertionSort _ _).trans (keys_perm alike pattern)).trans
    (List.perm_insertionSort _ _).symm

theorem keepType_respects (wantType : Bytes) (keys : List Key) :
    Respects (Alike now) fun s => keepType now wantType s keys := by
  induction keys with
  | nil => exact .pure []
  | cons key rest ih =>
    have kind : Respects (Alike now) fun s => s.run now key KeyOp.typeName :=
      run_respects (fun _ => ⟨rfl, rfl, rfl⟩) key
    intro s t alike
    obtain ⟨next, named⟩ := kind alike
    obtain ⟨last, kept⟩ := ih next
    simp only [keepType]
    exact ⟨last, by rw [named, kept]⟩

theorem scan_respects (cursor : Nat) (pattern : Bytes) (count : Int) (wantType : Bytes) :
    Respects (Alike now) fun s => s.scan now cursor pattern count wantType := by
  have all : Respects (Alike now) _ :=
    sortedKeys_respects (if pattern = [] then [42] else pattern)
  by_cases untyped : wantType = []
  · have listed := all.map (page cursor (if count ≤ 0 then 10 else count))
    simpa only [scan, untyped, if_true] using listed
  · have listed := (all.bind (keepType_respects wantType)).map
      (page cursor (if count ≤ 0 then 10 else count))
    simpa only [scan, untyped, if_false] using listed

theorem debugRows_respects (keys : List Key) :
    Respects (Alike now) fun s => debugRows now s keys := by
  induction keys with
  | nil => exact .pure []
  | cons key rest ih =>
    have kind : Respects (Alike now) fun s => s.run now key KeyOp.typeName :=
      run_respects (fun _ => ⟨rfl, rfl, rfl⟩) key
    have left : Respects (Alike now) fun s => s.run now key (KeyOp.ttl now) :=
      run_respects (fun _ => ⟨rfl, rfl, rfl⟩) key
    exact kind.bind fun kind => left.bind fun left => ih.map fun rows =>
      ⟨key, kind, left⟩ :: rows

theorem sampleKeysForDebug_respects (max : Int) :
    Respects (Alike now) fun s => s.sampleKeysForDebug now max :=
  (sortedKeys_respects [42]).bind fun keys =>
    debugRows_respects (keys.take (if max ≤ 0 then 10 else max).toNat)

end Store

end SuperCache
