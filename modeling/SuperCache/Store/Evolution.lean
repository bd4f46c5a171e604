import SuperCache.Store.Changes

/-! # How a store changes

Whatever an operation does, the shard maps change only by purges and by writes of
entries under their own keys (`Evolves`).  So a key is never found in a shard other
than the one it is routed to (`Placed`), and neither the routing nor the limit ever
changes.
-/

namespace SuperCache

open Lib

namespace Store

inductive Evolves : Store → Store → Prop
  | refl (s : Store) : Evolves s s
  | frame {s t u : Store} (maps : ∀ si, (t.shards si).m = (s.shards si).m)
      (sameRoute : t.route = s.route) (sameLimit : t.maxMem = s.maxMem) (rest : Evolves t u) :
      Evolves s u
  | purge {s u : Store} (si : Fin 256) (key : Key) (e : Entry)
      (rest : Evolves (s.purgeEntryLocked si key e) u) : Evolves s u
  | replace {s u : Store} (key : Key) (old : Option Entry) (ne : Entry)
      (rest : Evolves (s.replaceEntry key old ne) u) : Evolves s u

def Placed (s : Store) : Prop :=
  ∀ si key, key ∈ (s.shards si).m → s.route key = si

variable {s t u : Store}

namespace Evolves

theorem trans (first : Evolves s t) (next : Evolves t u) : Evolves s u := by
  induction first with
  | refl s => exact next
  | frame maps sameRoute sameLimit rest ih =>
    exact .frame maps sameRoute sameLimit (ih next)
  | purge si key e rest ih => exact .purge si key e (ih next)
  | replace key old ne rest ih =>
    exact .replace key old ne (ih next)

theorem route (evolves : Evolves s t) : t.route = s.route := by
  induction evolves with
  | refl s => rfl
  | frame maps sameRoute sameLimit rest ih =>
    rw [ih, sameRoute]
  | purge si key e rest ih => rw [ih, purgeEntryLocked_route]
  | replace key old ne rest ih => rw [ih, replaceEntry_route]

theorem maxMem (evolves : Evolves s t) : t.maxMem = s.maxMem := by
  induction evolves with
  | refl s => rfl
  | frame maps sameRoute sameLimit rest ih =>
    rw [ih, sameLimit]
  | purge si key e rest ih => rw [ih, purgeEntryLocked_maxMem]
  | replace key old ne rest ih => rw [ih, replaceEntry_maxMem]

theorem placed (evolves : Evolves s t) (placed : s.Placed) : t.Placed := by
  induction evolves with
  | refl s => exact placed
  | frame maps sameRoute sameLimit rest ih =>
    refine ih fun si key member => ?_
    rw [sameRoute]
    rw [maps si] at member
    exact placed si key member
  | purge si key e rest ih =>
    refine ih fun sj other member => ?_
    rw [purgeEntryLocked_route]
    rw [purgeEntryLocked_m] at member
    split at member
    · next same =>
      rw [same]
      exact placed si other (Finmap.mem_erase.mp member).2
    · exact placed sj other member
  | replace key old ne rest ih =>
    refine ih fun sj other member => ?_
    rw [replaceEntry_route]
    rw [replaceEntry_m] at member
    split at member
    · next same =>
      -- The written key is in its own shard by the way it was written.
      obtain sameKey | kept := Finmap.mem_insert.mp member
      · rw [sameKey, same]
      · exact placed sj other kept
    · exact placed sj other member

theorem of_same (maps : ∀ si, (t.shards si).m = (s.shards si).m) (sameRoute : t.route = s.route)
    (sameLimit : t.maxMem = s.maxMem) : Evolves s t :=
  .frame maps sameRoute sameLimit (.refl t)

end Evolves

/-! ## Operations -/

variable {may : Mutation → Prop} {keys : List Key}

theorem Changes.evolves (changes : Changes may keys s t) : Evolves s t := by
  induction changes with
  | refl s => exact .refl s
  | frame maps sameRoute sameLimit samePolicy sameWatch rest ih =>
    exact .frame maps sameRoute sameLimit ih
  | purge si key e found allowed rest ih => exact .purge si key e ih
  | remove si key e allowed rest ih => exact .purge si key e ih
  | write key old ne allowed rest ih => exact .replace key old ne ih
  | @drop _ s _ key e allowed rest ih =>
    -- Dropping the source is a purge without the bump of its watch version.
    have unbumped : Evolves (s.purgeEntryLocked (s.route key) key e) (s.dropSource key e) :=
      .of_same (fun _ => rfl) rfl rfl
    exact .purge (s.route key) key e (unbumped.trans ih)
  | @forget _ s _ allowed rest ih =>
    have cleared : Evolves s s.clearWatch := .of_same (fun _ => rfl) rfl rfl
    exact cleared.trans ih

theorem Does.evolves (does : Does may keys s t) : Evolves s t := by
  obtain ⟨_, _, changes⟩ := does
  exact changes.evolves

def anyChange : Mutation → Prop := fun _ => True

variable (s) (now : Time)

theorem drawn_evolves (tick cursor : Nat) : Evolves s (s.drawn tick cursor) :=
  .of_same (fun _ => rfl) rfl rfl

theorem run_evolves {ρ : Type} (key : Key) (op : KeyOp ρ) : Evolves s (s.run now key op).1 :=
  have any : anyChange (.purge key) ∧ anyChange (.write key) := ⟨trivial, trivial⟩
  (run_does any.1 any.2 s now op fun _ _ _ => trivial).evolves

theorem mSetNX_evolves (pairs : GoMap Bytes) : Evolves s (s.mSetNX now pairs).1 := by
  have any : ∀ key ∈ pairs, anyChange (.purge key) ∧ anyChange (.write key) :=
    fun _ _ => ⟨trivial, trivial⟩
  obtain ⟨_, -, does⟩ := mSetNX_does any s now fun _ _ => trivial
  exact does.evolves

theorem rename_evolves (src dst : Key) : Evolves s (s.rename now src dst).1 :=
  have any (mutation : Mutation) : anyChange mutation := trivial
  (s.rename_does now (any _) (any _) (any _) fun _ _ => any _).evolves

theorem renameNX_evolves (src dst : Key) : Evolves s (s.renameNX now src dst).1 :=
  have any (mutation : Mutation) : anyChange mutation := trivial
  (s.renameNX_does now (any _) (any _) (any _) fun _ _ _ => any _).evolves

theorem flushDB_evolves : Evolves s s.flushDB :=
  have any (mutation : Mutation) : anyChange mutation := trivial
  (s.flushDB_does (fun _ => any _) (any _)).evolves

theorem sampleOnceShard_evolves (si : Fin 256) : Evolves s (s.sampleOnceShard now si).1 :=
  have any (key : Key) : anyChange (.purge key) := trivial
  (s.sampleOnceShard_does now si any).evolves

theorem sampleAllShards_evolves : Evolves s (s.sampleAllShards now) :=
  have any (key : Key) : anyChange (.purge key) := trivial
  (s.sampleAllShards_does now any).evolves

theorem applySnapshotEntry_evolves (ent : SnapshotEntry) :
    Evolves s (s.applySnapshotEntry now ent).1 :=
  have any (mutation : Mutation) : anyChange mutation := trivial
  (s.applySnapshotEntry_does now ent (any _) fun _ _ => any _).evolves

theorem scan_evolves (cursor : Nat) (pattern : Bytes) (count : Int)
    (wantType : Bytes) : Evolves s (s.scan now cursor pattern count wantType).1 :=
  have any (key : Key) : anyChange (.purge key) := trivial
  (s.scan_does now cursor pattern count wantType any).evolves

theorem debugRows_evolves (now : Time) (s : Store) (keys : List Key) :
    Evolves s (debugRows now s keys).1 :=
  have any (key : Key) : anyChange (.purge key) := trivial
  (debugRows_does now s keys any).evolves

theorem exec_evolves {fl : FloatOps} (op : StoreOp fl) (s : Store) (now : Time) :
    Evolves s (op.exec s now).1 := by
  obtain ⟨_, -, does⟩ := exec_does op s now
  exact does.evolves

end Store

end SuperCache
