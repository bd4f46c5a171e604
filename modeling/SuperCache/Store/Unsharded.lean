import SuperCache.Store.Alike

/-! # Sharding and lazy expiry are invisible

The reference is one map for all keys.  Before each operation every expired key is
removed from it; the operation then runs on the store whose only used shard is that
map.  A sharded store with any routing, which removes expired entries only when an
operation or the sampling meets them, gives the same replies, as long as the clock
does not go back.
-/

namespace SuperCache

open Lib

/-! ## Calls and replies -/

def StoreOp.Reply {fl : FloatOps} : StoreOp fl → Type
  | .single _ op => Except StoreErr op.Result
  | .del _ | .exists' _ => Int
  | .mGet _ => Except StoreErr (List (Option Bytes))
  | .mSet _ | .rename .. | .applySnapshotEntry _ | .applySnapshot _ => Except StoreErr Unit
  | .mSetNX _ | .expire .. | .renameNX .. => Except StoreErr Bool
  | .flushDB | .sampleAllShards => Unit

def StoreOp.reply {fl : FloatOps} (s : Store) (now : Time) : (op : StoreOp fl) → op.Reply
  | .single key op => (op.exec s now key).2
  | .del keys => (s.del now keys).2
  | .exists' keys => (s.exists' now keys).2
  | .mGet keys => (s.mGet now keys).2
  | .mSet pairs => (s.mSet now pairs).2
  | .mSetNX pairs => (s.mSetNX now pairs).2
  | .expire key sec => (s.expire now key sec).2
  | .rename src dst => (s.rename now src dst).2
  | .renameNX src dst => (s.renameNX now src dst).2
  | .flushDB => ()
  | .sampleAllShards => ()
  | .applySnapshotEntry ent => (s.applySnapshotEntry now ent).2
  | .applySnapshot entries => (s.applySnapshot now entries).2

inductive StoreCall (fl : FloatOps) where
  | op (request : StoreOp fl)
  | keys (pattern : Bytes)
  | dbSize
  | expireKeyCount
  | scan (cursor : Nat) (pattern : Bytes) (count : Int) (wantType : Bytes)
  | sampleKeysForDebug (max : Int)
  | snapshotCtx

namespace StoreCall

variable {fl : FloatOps}

def Reply : StoreCall fl → Type
  | .op request => request.Reply
  | .keys _ => List Key
  | .dbSize | .expireKeyCount => Nat
  | .scan .. => Option (Nat × List Key)
  | .sampleKeysForDebug _ => List Store.DebugRow
  | .snapshotCtx => List SnapshotEntry

def exec (s : Store) (now : Time) : (call : StoreCall fl) → Store × call.Reply
  | .op request => ((request.exec s now).1, request.reply s now)
  | .keys pattern => s.keys now pattern
  | .dbSize => (s, s.dbSize now)
  | .expireKeyCount => s.expireKeyCount now
  | .scan cursor pattern count wantType => s.scan now cursor pattern count wantType
  | .sampleKeysForDebug max => s.sampleKeysForDebug now max
  | .snapshotCtx => s.snapshotCtx now

def SameReply : (call : StoreCall fl) → call.Reply → call.Reply → Prop
  | .keys _ => fun (left right : List Key) => left.Perm right
  | .snapshotCtx => fun (left right : List SnapshotEntry) => left.Perm right
  | _ => Eq

end StoreCall

/-! ## The reference -/

def removeExpired (now : Time) (m : GoMap Entry) : GoMap Entry :=
  (sortedElems m.keys).foldl (fun kept key =>
    if (m.lookup key).any (isExpired now) then kept.erase key else kept) m

def Store.unsharded (oracle : Oracle) (m : GoMap Entry) : Store :=
  { newStore .noeviction 0 oracle with
    route := fun _ => 0
    shards := Function.update (fun _ => {}) 0 { m := m } }

def StoreCall.execUnsharded {fl : FloatOps} (oracle : Oracle) (m : GoMap Entry) (now : Time)
    (call : StoreCall fl) : GoMap Entry × call.Reply :=
  let after := call.exec (.unsharded oracle (removeExpired now m)) now
  ((after.1.shards 0).m, after.2)

/-! ## Runs -/

inductive StoreStep (fl : FloatOps) where
  | call (call : StoreCall fl)
  | sampleOnceShard (si : Fin 256)

/-- Along the run, each call has the reply it has on the unsharded map; sampling is
no step of that map. -/
def SameReplies {fl : FloatOps} (oracle : Oracle) (s : Store) (m : GoMap Entry) :
    List (Time × StoreStep fl) → Prop
  | [] => True
  | (now, .call call) :: rest =>
    call.SameReply (call.exec s now).2 (call.execUnsharded oracle m now).2
      ∧ SameReplies oracle (call.exec s now).1 (call.execUnsharded oracle m now).1 rest
  | (now, .sampleOnceShard si) :: rest => SameReplies oracle (s.sampleOnceShard now si).1 m rest

def Forward {fl : FloatOps} (steps : List (Time × StoreStep fl)) : Prop :=
  steps.Pairwise fun earlier later => earlier.1 ≤ later.1

namespace Store

variable {fl : FloatOps} {now : Time} {s t : Store}

theorem lookup_removeExpired (now : Time) (m : GoMap Entry) (key : Key) :
    (removeExpired now m).lookup key = alive now (m.lookup key) := by
  -- The fold has erased the expired keys among those it has passed.
  have passed (keys : List Key) (kept : GoMap Entry) :
      (keys.foldl (fun kept key =>
          if (m.lookup key).any (isExpired now) then kept.erase key else kept) kept).lookup key
        = if key ∈ keys ∧ (m.lookup key).any (isExpired now) then none else kept.lookup key := by
    induction keys generalizing kept with
    | nil => simp
    | cons first rest ih =>
      have one : (if (m.lookup first).any (isExpired now) then kept.erase first else kept).lookup key
          = if key = first ∧ (m.lookup key).any (isExpired now) then none else kept.lookup key := by
        by_cases here : key = first
        · subst here
          by_cases expired : (m.lookup key).any (isExpired now) = true
          · rw [if_pos expired, if_pos ⟨rfl, expired⟩, Finmap.lookup_erase]
          · rw [if_neg expired, if_neg fun both => expired both.2]
        · have elsewhere : ¬(key = first ∧ (m.lookup key).any (isExpired now) = true) :=
            fun both => here both.1
          rw [if_neg elsewhere]
          split
          · rw [lookup_erase_eq_ite, if_neg here]
          · rfl
      rw [List.foldl_cons, ih, one]
      by_cases here : key = first <;> by_cases later : key ∈ rest <;>
        by_cases expired : (m.lookup key).any (isExpired now) = true <;>
        simp [here, later, expired]
  unfold removeExpired
  rw [passed]
  cases found : m.lookup key with
  | none => simp
  | some e =>
    have member : key ∈ sortedElems m.keys :=
      mem_sortedElems.mpr (Finmap.mem_keys.mpr (Finmap.lookup_isSome.mp (by rw [found]; rfl)))
    rw [alive_some]
    simp [member]

theorem unsharded_stored (oracle : Oracle) (m : GoMap Entry) (key : Key) :
    (unsharded oracle m).stored key = m.lookup key :=
  rfl

theorem unsharded_placed (oracle : Oracle) (m : GoMap Entry) : (unsharded oracle m).Placed := by
  intro si key member
  by_cases first : si = 0
  · exact first.symm
  · have empty : ((unsharded oracle m).shards si).m = ∅ := by
      unfold unsharded
      simp only [Function.update_of_ne first]
    rw [empty] at member
    exact absurd member (Finmap.notMem_empty (a := key))

theorem op_respects (op : StoreOp fl) :
    Respects (Alike now) fun s => ((op.exec s now).1, op.reply s now) := by
  cases op with
  | single key op => exact single_respects op key
  | del keys => exact countKeys_respects (fun _ => ⟨rfl, rfl, rfl⟩) keys
  | exists' keys => exact countKeys_respects (fun _ => ⟨rfl, rfl, rfl⟩) keys
  | mGet keys => exact mGet_respects keys
  | mSet pairs => exact mSetList_respects _
  | mSetNX pairs => exact mSetNX_respects pairs
  | expire key sec => exact expire_respects key sec
  | rename src dst => exact rename_respects src dst
  | renameNX src dst => exact renameNX_respects src dst
  | flushDB =>
    intro s t alike
    simp only [StoreOp.exec]
    exact ⟨alike.flushDB, rfl⟩
  | sampleAllShards =>
    intro s t alike
    have sampled := alike.evolve (s.sampleAllShards_evolves now) (t.sampleAllShards_evolves now)
      (by rw [sampleAllShards_live, sampleAllShards_live, alike.live])
    simp only [StoreOp.exec]
    exact ⟨sampled, rfl⟩
  | applySnapshotEntry ent => exact applySnapshotEntry_respects ent
  | applySnapshot entries =>
    intro s t alike
    have applied := applySnapshotEntries_respects entries alike.flushDB
    simp only [StoreOp.exec, StoreOp.reply, applySnapshot]
    exact applied

theorem call_alike (call : StoreCall fl) (alike : Alike now s t) :
    Alike now (call.exec s now).1 (call.exec t now).1
      ∧ call.SameReply (call.exec s now).2 (call.exec t now).2 := by
  cases call with
  | op request => exact op_respects request alike
  | keys pattern => exact ⟨alike.visited, keys_perm alike pattern⟩
  | dbSize => exact ⟨alike, dbSize_congr alike⟩
  | expireKeyCount => exact expireKeyCount_respects alike
  | scan cursor pattern count wantType => exact scan_respects cursor pattern count wantType alike
  | sampleKeysForDebug max => exact sampleKeysForDebug_respects max alike
  | snapshotCtx => exact ⟨alike.visited, snapshotCtx_perm alike⟩

theorem call_evolves (call : StoreCall fl) (s : Store) (now : Time) :
    Evolves s (call.exec s now).1 := by
  cases call with
  | op request => exact exec_evolves request s now
  | keys pattern => exact s.drawn_evolves _ _
  | dbSize => exact .refl s
  | expireKeyCount => exact s.drawn_evolves _ _
  | scan cursor pattern count wantType => exact s.scan_evolves now cursor pattern count wantType
  | sampleKeysForDebug max => exact (s.drawn_evolves _ _).trans (debugRows_evolves now _ _)
  | snapshotCtx => exact s.drawn_evolves _ _

variable {oracle : Oracle} {m : GoMap Entry}

theorem Alike.reference (alike : Alike now s (unsharded oracle m)) :
    Alike now s (unsharded oracle (removeExpired now m)) where
  live := by
    rw [alike.live]
    funext key
    unfold Store.live
    rw [unsharded_stored, unsharded_stored, lookup_removeExpired, alive_alive]
  unlimited := ⟨alike.unlimited.1, rfl⟩
  placed := ⟨alike.placed.1, unsharded_placed oracle _⟩

theorem Alike.onward (alike : Alike now s t) (single : t.route = fun _ => 0) :
    Alike now s (unsharded oracle (t.shards 0).m) where
  live := by
    rw [alike.live]
    funext key
    unfold Store.live stored
    rw [single]
    rfl
  unlimited := ⟨alike.unlimited.1, rfl⟩
  placed := ⟨alike.placed.1, unsharded_placed oracle _⟩

theorem sameReplies_of_alike {steps : List (Time × StoreStep fl)} (forward : Forward steps)
    (ahead : ∀ step ∈ steps, now ≤ step.1) (alike : Alike now s (unsharded oracle m)) :
    SameReplies oracle s m steps := by
  induction steps generalizing now s m with
  | nil => trivial
  | cons step rest ih =>
    obtain ⟨instant, step⟩ := step
    have current := alike.later (ahead _ List.mem_cons_self)
    have aheadRest : ∀ other ∈ rest, instant ≤ other.1 := fun _ member =>
      List.rel_of_pairwise_cons forward member
    have forwardRest : Forward rest := List.Pairwise.of_cons forward
    cases step with
    | call call =>
      obtain ⟨after, reply⟩ := call_alike call current.reference
      refine ⟨reply, ih forwardRest aheadRest ?_⟩
      exact after.onward (call_evolves call _ instant).route
    | sampleOnceShard si =>
      refine ih forwardRest aheadRest ?_
      exact current.hidden (s.sampleOnceShard_evolves instant si) (s.sampleOnceShard_live instant si)

/-- `NewStore` without a limit, under any routing. -/
def routed (route : Key → Fin 256) (policy : Policy) (oracle : Oracle) : Store :=
  { newStore policy 0 oracle with route := route }

theorem routed_alike (now : Time) (route : Key → Fin 256) (policy : Policy)
    (oracle reference : Oracle) :
    Alike now (routed route policy oracle) (unsharded reference ∅) where
  live := rfl
  unlimited := ⟨rfl, rfl⟩
  placed := ⟨fun _ key member => absurd member (Finmap.notMem_empty (a := key)),
    unsharded_placed reference ∅⟩

/-- Whatever the routing and the draws, every run whose clock does not go back has
the replies of one unsharded map. -/
theorem sharding_invisible (fl : FloatOps) (route : Key → Fin 256) (policy : Policy)
    (oracle reference : Oracle) (steps : List (Time × StoreStep fl)) (forward : Forward steps) :
    SameReplies reference (routed route policy oracle) ∅ steps := by
  cases steps with
  | nil => trivial
  | cons step rest =>
    refine sameReplies_of_alike forward (fun other member => ?_)
      (routed_alike step.1 route policy oracle reference)
    obtain rfl | later := List.mem_cons.mp member
    · exact le_refl _
    · exact List.rel_of_pairwise_cons forward later

def renameOverExpired : List (Time × StoreStep integerFloats) :=
  [(1, .call (.op (.single (ascii "old") (.set (ascii "x") 3)))),
   (1, .call (.op (.single (ascii "job") (.set (ascii "y") 9)))),
   (4, .call (.op (.renameNX (ascii "job") (ascii "old")))),
   (5, .call (.keys (ascii "*"))),
   (9, .sampleOnceShard 7),
   (10, .call (.keys (ascii "*"))),
   (10, .call (.op (.single (ascii "old") .ttl)))]

theorem renameOverExpired_invisible :
    Forward renameOverExpired ∧ SameReplies sortedOracle
      (routed (fun key => shardOf key.length) .allkeysLru sortedOracle) ∅ renameOverExpired :=
  have forward : Forward renameOverExpired := by
    unfold Forward renameOverExpired
    decide
  ⟨forward, sharding_invisible _ _ _ _ _ _ forward⟩

def clockSetBack : List (Time × StoreStep integerFloats) :=
  [(1, .call (.op (.single (ascii "job") (.set (ascii "y") 10)))),
   (11, .call .dbSize),
   (9, .call (.op (.single (ascii "job") .get)))]

/-- The reference has removed the key for good; the sharded store, which had only
skipped it, still has it. -/
theorem clockSetBack_visible :
    ¬ SameReplies sortedOracle (routed shardIndex .noeviction sortedOracle) ∅ clockSetBack := by
  rintro ⟨-, -, found, -⟩
  have differs : (.ok (some (ascii "y")) : Except StoreErr (Option Bytes)) ≠ .ok none := by decide
  exact differs found

end Store

end SuperCache
