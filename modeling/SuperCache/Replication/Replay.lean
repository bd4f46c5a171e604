import SuperCache.Store.LiveMulti
import SuperCache.Peer.Apply

/-! # Replay

What a replicated payload means: a function on the live keyspace (`replay`), and the
bytes it asks room for (`load`).  `applyReplicatePayload` computes the one on a store
that has room for the other.
-/

namespace SuperCache

open Lib

def onKey {ρ : Type} (now : Time) (key : Key) (op : KeyOp ρ) (view : Keyspace) : Keyspace :=
  Function.update view key (op.effect now (view key))

def replayLTrim (now : Time) (p : ReplicatePayload) (view : Keyspace) : Keyspace :=
  match p.members with
  | start :: stop :: _ =>
    match parseInt start, parseInt stop with
    | some start, some stop => onKey now p.key (KeyOp.lTrim start stop) view
    | _, _ => view
  | _ => view

def replayLInsert (now : Time) (before : Bool) (p : ReplicatePayload) (view : Keyspace) :
    Keyspace :=
  match p.members with
  | pivot :: insert :: _ => onKey now p.key (KeyOp.lInsert p.key before pivot insert) view
  | _ => view

/-- The meaning of a payload at the instant `now`. -/
def replay (now : Time) (p : ReplicatePayload) (view : Keyspace) : Keyspace :=
  match p.op with
  | .set => onKey now p.key (KeyOp.set p.key p.value (setDeadline now p.ttlms)) view
  | .del => Keyspace.remove [p.key] view
  | .hset => if p.fields = ∅ then view else onKey now p.key (KeyOp.hSet p.key p.fields) view
  | .hdel => onKey now p.key (KeyOp.hDel p.members) view
  | .sadd => if p.members = [] then view else onKey now p.key (KeyOp.sAdd p.key p.members) view
  | .srem => if p.members = [] then view else onKey now p.key (KeyOp.sRem p.members) view
  | .replaceset => onKey now p.key (KeyOp.replaceSet p.key p.members) view
  | .lpush => if p.members = [] then view else onKey now p.key (KeyOp.lPush p.key p.members) view
  | .rpush => if p.members = [] then view else onKey now p.key (KeyOp.rPush p.key p.members) view
  | .flushdb | .flushall => fun _ => none
  | .expire =>
    if p.cnt ≤ 0 then view else onKey now p.key (KeyOp.expireAt (now + seconds p.cnt)) view
  | .pexpire =>
    if p.cnt ≤ 0 then view else onKey now p.key (KeyOp.expireAt (now + milliseconds p.cnt)) view
  | .expireat => onKey now p.key (KeyOp.expireAt (timeUnix p.cnt)) view
  | .pexpireat => onKey now p.key (KeyOp.expireAt (timeUnixMilli p.ttlms)) view
  | .persist => onKey now p.key KeyOp.persist view
  | .rename => Keyspace.move p.key p.dest view
  | .lpop => onKey now p.key (KeyOp.lPop (popCnt p.cnt)) view
  | .rpop => onKey now p.key (KeyOp.rPop (popCnt p.cnt)) view
  | .lrem => onKey now p.key (KeyOp.lRem p.cnt p.value) view
  | .lset => onKey now p.key (KeyOp.lSet p.cnt p.value) view
  | .ltrim => replayLTrim now p view
  | .linsertBefore => replayLInsert now true p view
  | .linsertAfter => replayLInsert now false p view
  | .other _ => view

def replayAll (now : Time) (payloads : List ReplicatePayload) (view : Keyspace) : Keyspace :=
  payloads.foldl (fun view p => replay now p view) view

@[simp] theorem replayAll_nil (now : Time) (view : Keyspace) : replayAll now [] view = view :=
  rfl

@[simp] theorem replayAll_cons (now : Time) (p : ReplicatePayload) (rest : List ReplicatePayload)
    (view : Keyspace) : replayAll now (p :: rest) view = replayAll now rest (replay now p view) :=
  rfl

theorem replayAll_append (now : Time) (first second : List ReplicatePayload) (view : Keyspace) :
    replayAll now (first ++ second) view = replayAll now second (replayAll now first view) :=
  List.foldl_append

/-! ## Room for a payload -/

section Room

def loadLInsert (before : Bool) (p : ReplicatePayload) (view : Keyspace) : Int :=
  match p.members with
  | pivot :: insert :: _ => (KeyOp.lInsert p.key before pivot insert).adds (view p.key)
  | _ => 0

def ReplicatePayload.load (p : ReplicatePayload) (view : Keyspace) : Int :=
  match p.op with
  | .set => (KeyOp.set p.key p.value 0).adds (view p.key)
  | .hset => (KeyOp.hSet p.key p.fields).adds (view p.key)
  | .sadd => (KeyOp.sAdd p.key p.members).adds (view p.key)
  | .replaceset => (KeyOp.replaceSet p.key p.members).adds (view p.key)
  | .lpush => (KeyOp.lPush p.key p.members).adds (view p.key)
  | .rpush => (KeyOp.rPush p.key p.members).adds (view p.key)
  | .rename => oldBytes p.dest (view p.key)
  | .linsertBefore => loadLInsert true p view
  | .linsertAfter => loadLInsert false p view
  | _ => 0

def loads (now : Time) : List ReplicatePayload → Keyspace → Int
  | [], _ => 0
  | p :: rest, view => p.load view + loads now rest (replay now p view)

theorem loadLInsert_nonneg (before : Bool) (p : ReplicatePayload) (view : Keyspace) :
    0 ≤ loadLInsert before p view := by
  unfold loadLInsert
  split
  · exact KeyOp.adds_nonneg _ _
  · exact le_rfl

theorem oldBytes_nonneg (key : Key) (old : Option Entry) : 0 ≤ oldBytes key old := by
  cases old with
  | none => exact le_rfl
  | some e => exact (estimateMem_pos key e).le

theorem ReplicatePayload.load_nonneg (p : ReplicatePayload) (view : Keyspace) : 0 ≤ p.load view := by
  unfold load
  split
  all_goals first
    | exact KeyOp.adds_nonneg _ _
    | exact oldBytes_nonneg _ _
    | exact loadLInsert_nonneg _ _ _
    | exact le_rfl

theorem loads_nonneg (now : Time) (payloads : List ReplicatePayload) (view : Keyspace) :
    0 ≤ loads now payloads view := by
  induction payloads generalizing view with
  | nil => exact le_rfl
  | cons p rest ih => exact add_nonneg (p.load_nonneg view) (ih _)

end Room

/-! ## The store follows its meaning -/

section Apply

variable {ρ : Type} {s t : Store} {now : Time} {key : Key} {op : KeyOp ρ} {load : Int}
  {view : Keyspace}

theorem onlyError_store (outcome : Store × Except StoreErr ρ) :
    (onlyError outcome).1 = outcome.1 := by
  obtain ⟨t, failure | result⟩ := outcome <;> rfl

/-- `t` comes from `s` by a step that means `view` and asks for `load` bytes. -/
structure Follows (now : Time) (s t : Store) (load : Int) (view : Keyspace) : Prop where
  live : s.HasRoom load → t.live now = view
  room : ∀ n, 0 ≤ n → s.HasRoom (load + n) → t.HasRoom n
  maxMem : t.maxMem = s.maxMem

theorem Follows.refl (now : Time) (s : Store) (nonneg : 0 ≤ load) :
    Follows now s s load (s.live now) :=
  ⟨fun _ => rfl, fun _ _ room => room.mono (by omega), rfl⟩

theorem Follows.unless {guard : Prop} [Decidable guard] {outcome : Store × Except ApplyErr Unit}
    (nonneg : 0 ≤ load) (follows : Follows now s outcome.1 load view) :
    Follows now s (if guard then (s, .ok ()) else outcome).1 load
      (if guard then s.live now else view) := by
  split
  · exact .refl now s nonneg
  · exact follows

theorem applied_onKey (regular : op.Regular)
    (pays : ∀ found, (op found).Accounts false key found ∧ (op found).Current found) :
    Follows now s (onlyError (s.run now key op)).1 (op.adds (s.live now key))
      (onKey now key op (s.live now)) := by
  rw [onlyError_store]
  refine ⟨fun room => ?_, fun n nonneg room => ?_, (s.run_frame now key op).1⟩
  · exact (s.run_live_fits now key regular.blind (room.mono (le_max_right _ _))).1
  · exact room.run_adds regular.blind pays nonneg

theorem applied_put (regular : op.Regular)
    (decides : ∀ found, KeyOp.Decides false key True found (op found)) :
    Follows now s (onlyError (s.run now key op)).1 (op.adds (s.live now key))
      (onKey now key op (s.live now)) :=
  applied_onKey regular fun found => ⟨(decides found).accounts, (decides found).current⟩

theorem run_follows (regular : op.Regular)
    (decides : ∀ found, KeyOp.Decides false key False found (op found)) :
    Follows now s (s.run now key op).1 0 (onKey now key op (s.live now)) := by
  have asks : op.adds (s.live now key) = 0 := by
    rw [KeyOp.adds, (KeyOp.immediate_of_decides decides).growth, max_self]
  rw [← asks, ← onlyError_store]
  exact applied_onKey regular fun found => ⟨(decides found).accounts, (decides found).current⟩

theorem applied_done (regular : op.Regular)
    (decides : ∀ found, KeyOp.Decides false key False found (op found)) :
    Follows now s (onlyError (s.run now key op)).1 0 (onKey now key op (s.live now)) := by
  rw [onlyError_store]
  exact run_follows regular decides

theorem onlyError_hSet (s : Store) (now : Time) (key : Key) (pairs : GoMap Bytes) :
    onlyError (s.hSet now key pairs)
      = if pairs = ∅ then (s, .ok ()) else onlyError (s.run now key (KeyOp.hSet key pairs)) := by
  unfold Store.hSet
  split <;> rfl

theorem onlyError_sAdd (s : Store) (now : Time) (key : Key) (members : List Bytes) :
    onlyError (s.sAdd now key members)
      = if members = [] then (s, .ok ()) else onlyError (s.run now key (KeyOp.sAdd key members)) := by
  unfold Store.sAdd
  split <;> rfl

theorem onlyError_expire (s : Store) (now : Time) (key : Key) (sec : Int) :
    (if sec ≤ 0 then (s, .ok ()) else onlyError (s.expire now key sec))
      = if sec ≤ 0 then (s, .ok ())
        else onlyError (s.run now key (KeyOp.expireAt (now + seconds sec))) := by
  unfold Store.expire
  split <;> rfl

theorem applyLTrim_follows (p : ReplicatePayload) :
    Follows now s (applyLTrim s now p).1 0 (replayLTrim now p (s.live now)) := by
  unfold applyLTrim replayLTrim
  rcases p.members with _ | ⟨start, _ | ⟨stop, rest⟩⟩
  · exact .refl now s le_rfl
  · exact .refl now s le_rfl
  · simp only
    cases parseInt start with
    | none => exact .refl now s le_rfl
    | some start' =>
      cases parseInt stop with
      | none => exact .refl now s le_rfl
      | some stop' => exact applied_done (KeyOp.lTrim_regular _ _) fun _ => KeyOp.lTrim_decides _ _ _

theorem applyLInsert_follows (before : Bool) (p : ReplicatePayload) :
    Follows now s (applyLInsert s now before p).1 (loadLInsert before p (s.live now))
      (replayLInsert now before p (s.live now)) := by
  unfold applyLInsert replayLInsert loadLInsert
  rcases p.members with _ | ⟨pivot, _ | ⟨insert, rest⟩⟩
  · exact .refl now s le_rfl
  · exact .refl now s le_rfl
  · exact applied_put (KeyOp.lInsert_regular _ _ _) fun _ => KeyOp.lInsert_decides _ _ _

theorem del_follows (s : Store) (now : Time) (key : Key) :
    Follows now s (s.del now [key]).1 0 (Keyspace.remove [key] (s.live now)) where
  live _ := (s.del_live now [key]).1
  maxMem := (s.del_live now [key]).2
  room := (run_follows KeyOp.del_regular fun _ => KeyOp.del_decides key).room

theorem rename_follows (s : Store) (now : Time) (src dst : Key) :
    Follows now s (s.rename now src dst).1 (oldBytes dst (s.live now src))
      (Keyspace.move src dst (s.live now)) := by
  obtain ⟨live, limit⟩ := s.rename_live now src dst
  refine ⟨fun _ => live, fun n nonneg room => ?_, limit⟩
  have purged := (Store.hasRoom_purgeable (oldBytes dst (s.live now src) + n))
  have spare : s.HasRoom n := room.mono (by have := oldBytes_nonneg dst (s.live now src); omega)
  unfold Store.rename
  split
  · exact spare
  · next different =>
    split
    · next e found =>
      obtain ⟨stored, fresh⟩ := Store.lookup_live found
      have live : s.live now src = some e := (s.lookup_current now src).symm.trans (by rw [found]; rfl)
      rw [live] at room purged
      have cleared : (s.clearDestination dst).HasRoom (oldBytes dst (some e) + n) := by
        unfold Store.clearDestination
        split
        · next old there => exact purged.purge room there
        · exact room
      have still : (s.clearDestination dst).stored src = some e := by
        rw [Store.stored_clearDestination, if_neg different, stored]
      have dropped : ((s.clearDestination dst).dropSource src e).HasRoom (oldBytes dst (some e) + n) :=
        (purged.purge cleared still).of_le le_rfl rfl fun covered => ⟨covered, le_rfl⟩
      exact dropped.replaceEntry (by have := oldBytes_nonneg dst (some e); omega) (oldBytes_nonneg _ _)
        (by simp only [oldBytes, zero_add]; exact le_rfl)
    · exact (Store.hasRoom_purgeable n).purgeExpired spare now src

theorem flushDB_follows (s : Store) (now : Time) : Follows now s s.flushDB 0 fun _ => none where
  live _ := (s.flushDB_live now).1
  maxMem := (s.flushDB_live now).2
  room n _ room := by
    rw [zero_add] at room
    exact (Store.hasRoom_purgeable n).flushDB
      (fun t room => room.of_le le_rfl rfl fun covered => ⟨covered, le_rfl⟩) room

theorem apply_follows (s : Store) (now : Time) (p : ReplicatePayload) :
    Follows now s (applyReplicatePayload s now p).1 (p.load (s.live now))
      (replay now p (s.live now)) := by
  unfold applyReplicatePayload replay ReplicatePayload.load
  cases p.op with
  | set =>
    exact applied_onKey (KeyOp.set_regular _ _) (KeyOp.set_pays _ _)
  | del => exact del_follows s now p.key
  | hset =>
    simp only [onlyError_hSet]
    exact (applied_put (KeyOp.hSet_regular _) fun _ => KeyOp.hSet_decides _).unless (KeyOp.adds_nonneg _ _)
  | hdel => exact applied_done (KeyOp.hDel_regular _) fun _ => KeyOp.hDel_decides _ _
  | sadd =>
    simp only [onlyError_sAdd]
    exact (applied_put (KeyOp.sAdd_regular _) fun _ => KeyOp.sAdd_decides _).unless (KeyOp.adds_nonneg _ _)
  | srem =>
    exact (applied_done (KeyOp.sRem_regular _) fun _ => KeyOp.sRem_decides _ _).unless le_rfl
  | replaceset => exact applied_put (KeyOp.replaceSet_regular _) fun _ => KeyOp.replaceSet_decides _
  | lpush =>
    exact (applied_put (KeyOp.listPush_regular _ _) fun _ => KeyOp.listPush_decides _ _).unless
      (KeyOp.adds_nonneg _ _)
  | rpush =>
    exact (applied_put (KeyOp.listPush_regular _ _) fun _ => KeyOp.listPush_decides _ _).unless
      (KeyOp.adds_nonneg _ _)
  | flushdb => exact flushDB_follows s now
  | flushall => exact flushDB_follows s now
  | expire =>
    simp only [onlyError_expire]
    exact (applied_done (KeyOp.expireAt_regular _) fun _ => KeyOp.expireAt_decides _ _).unless le_rfl
  | pexpire =>
    exact (applied_done (KeyOp.expireAt_regular _) fun _ => KeyOp.expireAt_decides _ _).unless le_rfl
  | expireat => exact applied_done (KeyOp.expireAt_regular _) fun _ => KeyOp.expireAt_decides _ _
  | pexpireat => exact applied_done (KeyOp.expireAt_regular _) fun _ => KeyOp.expireAt_decides _ _
  | persist => exact applied_done KeyOp.persist_regular fun _ => KeyOp.persist_decides _
  | rename =>
    rw [onlyError_store]
    exact rename_follows s now p.key p.dest
  | lpop =>
    exact applied_done (KeyOp.listPop_regular _)
      fun _ => KeyOp.lPop_decides _ _ fun inexact => absurd inexact Bool.false_ne_true
  | rpop =>
    exact applied_done (KeyOp.listPop_regular _)
      fun _ => KeyOp.rPop_decides _ _ fun inexact => absurd inexact Bool.false_ne_true
  | lrem =>
    exact applied_done (KeyOp.lRem_regular _ _)
      fun _ => KeyOp.lRem_decides _ _ _ fun inexact => absurd inexact Bool.false_ne_true
  | lset => exact applied_done (KeyOp.lSet_regular _ _) fun _ => KeyOp.lSet_decides _ _ _
  | ltrim => exact applyLTrim_follows p
  | linsertBefore => exact applyLInsert_follows true p
  | linsertAfter => exact applyLInsert_follows false p
  | other name => exact .refl now s le_rfl

theorem applyAll_follows (s : Store) (now : Time) (payloads : List ReplicatePayload) :
    Follows now s (applyAll now payloads s) (loads now payloads (s.live now))
      (replayAll now payloads (s.live now)) := by
  induction payloads generalizing s with
  | nil => exact .refl now s le_rfl
  | cons p rest ih =>
    obtain ⟨live, room, limit⟩ := apply_follows s now p
    have later := ih (applyReplicatePayload s now p).1
    have rest_nonneg := loads_nonneg now rest (replay now p (s.live now))
    have load_nonneg := p.load_nonneg (s.live now)
    refine ⟨fun given => ?_, fun n nonneg given => ?_, later.maxMem.trans limit⟩
    · rw [live (given.mono (by simp only [loads]; omega))] at later
      exact later.live (room _ rest_nonneg given)
    · simp only [loads] at given
      rw [live (given.mono (by omega))] at later
      exact later.room n nonneg (room _ (by omega) (by rwa [add_assoc] at given))

theorem applyAll_live (unlimited : s.maxMem = 0) (payloads : List ReplicatePayload) :
    (applyAll now payloads s).live now = replayAll now payloads (s.live now) :=
  (applyAll_follows s now payloads).live (.inr (.inl unlimited))

end Apply

end SuperCache
