import SuperCache.Commands.Collections
import SuperCache.Commands.Strings
import SuperCache.Store.LiveKeys

/-! # Calls that only read

The loops that read one key after another: `MGET`, `HMGET` and the members of several sets.
-/

namespace SuperCache

open Lib

inductive Store.Reads (now : Time) : Store → Store → Prop
  | refl (s : Store) : Reads now s s
  | read {s t : Store} {ρ : Type} {key : Key} {op : KeyOp ρ} (readOnly : op.ReadOnly)
      (rest : Reads now (s.run now key op).1 t) : Reads now s t

def onward {ρ σ : Type} (call : Store × Except StoreErr ρ)
    (next : Store → ρ → Store × Except StoreErr σ) : Store × Except StoreErr σ :=
  match call with
  | (s, .error failure) => (s, .error failure)
  | (s, .ok result) => next s result

section Reads

variable {ρ σ : Type} {now : Time} {s t u : Store} {key : Key}

theorem Store.Reads.live (reads : Store.Reads now s t) :
    t.live now = s.live now ∧ t.maxMem = s.maxMem := by
  induction reads with
  | refl s => exact ⟨rfl, rfl⟩
  | @read s t ρ key op readOnly rest ih =>
    obtain ⟨sameLive, sameLimit⟩ := s.run_read now key readOnly
    exact ⟨ih.1.trans sameLive, ih.2.trans sameLimit⟩

theorem Store.Reads.room (reads : Store.Reads now s t) {n : Int} (room : s.HasRoom n) :
    t.HasRoom n := by
  induction reads with
  | refl s => exact room
  | @read s t ρ key op readOnly rest ih =>
    obtain ⟨kind, result, decision⟩ := readOnly (s.lookup now key)
    refine ih ?_
    unfold Store.run
    simp only [decision]
    exact room.entered now key kind

theorem Store.Reads.trans (first : Store.Reads now s t) (next : Store.Reads now t u) :
    Store.Reads now s u := by
  induction first with
  | refl s => exact next
  | read readOnly rest ih => exact .read readOnly (ih next)

theorem run_reads {op : KeyOp ρ} (readOnly : op.ReadOnly) : Store.Reads now s (s.run now key op).1 :=
  .read readOnly (.refl _)

variable {call : Store × Except StoreErr ρ} {next : Store → ρ → Store × Except StoreErr σ}

theorem reads_onward (first : Store.Reads now s call.1)
    (later : ∀ t result, Store.Reads now t (next t result).1) :
    Store.Reads now s (onward call next).1 := by
  obtain ⟨t, failure | result⟩ := call
  · exact first
  · exact first.trans (later t result)

theorem onward_ok {result : σ} (succeeded : (onward call next).2 = .ok result) :
    ∃ t value, call = (t, .ok value) ∧ (next t value).2 = .ok result := by
  obtain ⟨t, failure | value⟩ := call
  · cases succeeded
  · exact ⟨t, value, rfl, succeeded⟩

/-! ## Several keys, several fields -/

theorem mGet_cons (key : Key) (rest : List Key) :
    s.mGet now (key :: rest) = onward (s.run now key KeyOp.get) fun t value =>
      onward (t.mGet now rest) fun u values => (u, .ok (value :: values)) := by
  rw [Store.mGet]
  rcases s.run now key KeyOp.get with ⟨t, failure | value⟩
  · rfl
  · simp only [onward]
    rcases t.mGet now rest with ⟨u, failure | values⟩ <;> rfl

theorem mGet_reads (keys : List Key) : Store.Reads now s (s.mGet now keys).1 := by
  induction keys generalizing s with
  | nil => exact .refl s
  | cons key rest ih =>
    rw [mGet_cons]
    exact reads_onward (run_reads KeyOp.get_readOnly) fun t value =>
      reads_onward ih fun u values => .refl u

theorem hGetEach_cons (key : Key) (field : Bytes) (rest : List Bytes) :
    hGetEach now s key (field :: rest) = onward (s.run now key (KeyOp.hGet field)) fun t value =>
      onward (hGetEach now t key rest) fun u values => (u, .ok (value :: values)) := by
  rw [hGetEach]
  rcases s.run now key (KeyOp.hGet field) with ⟨t, failure | value⟩
  · rfl
  · simp only [onward]
    rcases hGetEach now t key rest with ⟨u, failure | values⟩ <;> rfl

theorem hGetEach_reads (key : Key) (fields : List Bytes) :
    Store.Reads now s (hGetEach now s key fields).1 := by
  induction fields generalizing s with
  | nil => exact .refl s
  | cons field rest ih =>
    rw [hGetEach_cons]
    exact reads_onward (run_reads (KeyOp.readLive_readOnly _ _)) fun t value =>
      reads_onward ih fun u values => .refl u

/-! ## The members of several sets -/

theorem sMembers_reads (key : Key) : Store.Reads now s (s.run now key KeyOp.sMembers).1 :=
  run_reads (KeyOp.readLive_readOnly _ _)

theorem unionMembers_cons (key : Key) (rest : List Key) :
    unionMembers now s (key :: rest) = onward (s.run now key KeyOp.sMembers) fun t members =>
      onward (unionMembers now t rest) fun u others => (u, .ok (members ∪ others)) := by
  rw [unionMembers]
  rcases s.run now key KeyOp.sMembers with ⟨t, failure | members⟩
  · rfl
  · simp only [onward]
    rcases unionMembers now t rest with ⟨u, failure | others⟩ <;> rfl

theorem unionMembers_reads (s : Store) (keys : List Key) :
    Store.Reads now s (unionMembers now s keys).1 := by
  induction keys generalizing s with
  | nil => exact .refl s
  | cons key rest ih =>
    rw [unionMembers_cons]
    exact reads_onward (sMembers_reads key) fun t members =>
      reads_onward (ih t) fun u others => .refl u

theorem interLoop_cons (cand : Finset Bytes) (key : Key) (rest : List Key) :
    interLoop now s cand (key :: rest) = onward (s.run now key KeyOp.sMembers) fun t members =>
      if cand ∩ members = ∅ then (t, .ok ∅) else interLoop now t (cand ∩ members) rest := by
  rw [interLoop]
  rcases s.run now key KeyOp.sMembers with ⟨t, failure | members⟩ <;> rfl

theorem interLoop_reads (keys : List Key) (s : Store) (cand : Finset Bytes) :
    Store.Reads now s (interLoop now s cand keys).1 := by
  induction keys generalizing s cand with
  | nil => exact .refl s
  | cons key rest ih =>
    rw [interLoop_cons]
    refine reads_onward (sMembers_reads key) fun t members => ?_
    split
    · exact .refl t
    · exact ih t _

theorem diffLoop_cons (left : Finset Bytes) (key : Key) (rest : List Key) :
    diffLoop now s left (key :: rest) = onward (s.run now key KeyOp.sMembers) fun t members =>
      diffLoop now t (left \ members) rest := by
  rw [diffLoop]
  rcases s.run now key KeyOp.sMembers with ⟨t, failure | members⟩ <;> rfl

theorem diffLoop_reads (keys : List Key) (s : Store) (left : Finset Bytes) :
    Store.Reads now s (diffLoop now s left keys).1 := by
  induction keys generalizing s left with
  | nil => exact .refl s
  | cons key rest ih =>
    rw [diffLoop_cons]
    exact reads_onward (sMembers_reads key) fun t members => ih t _

theorem firstMembers_eq (key : Key)
    (next : Store → Finset Bytes → Store × Except StoreErr (Finset Bytes)) :
    firstMembers now s key next = onward (s.run now key KeyOp.sMembers) fun t members =>
      if (s.lookup now key).isLive then next t members else (t, .ok ∅) := by
  rw [firstMembers]
  rcases s.run now key KeyOp.sMembers with ⟨t, failure | members⟩ <;> rfl

theorem firstMembers_reads {next : Store → Finset Bytes → Store × Except StoreErr (Finset Bytes)}
    (reads : ∀ t members, Store.Reads now t (next t members).1) (key : Key) :
    Store.Reads now s (firstMembers now s key next).1 := by
  rw [firstMembers_eq]
  refine reads_onward (sMembers_reads key) fun t members => ?_
  split
  · exact reads t members
  · exact .refl t

theorem interMembers_reads (s : Store) (keys : List Key) :
    Store.Reads now s (interMembers now s keys).1 := by
  cases keys with
  | nil => exact .refl s
  | cons key rest => exact firstMembers_reads (interLoop_reads rest) key

theorem diffMembers_reads (s : Store) (keys : List Key) :
    Store.Reads now s (diffMembers now s keys).1 := by
  cases keys with
  | nil => exact .refl s
  | cons key rest => exact firstMembers_reads (diffLoop_reads rest) key

end Reads

end SuperCache
