import SuperCache.Commands.Ranges
import SuperCache.Replication.Foreseen

/-! # Stored values are visible

A value that was stored and is read back comes as a bulk string, except the empty one: the
store keeps copies made by appending to a nil slice, and the handlers take a nil slice
for a missing value.
-/

namespace SuperCache

open Lib

/-- Where a command puts a value: it is the whole string, a field of a hash, or an end of a
list. -/
inductive Slot where
  | whole
  | field (name : Bytes)
  | first
  | last

section Statement

variable (now : Time) (s : Store) (key : Key) (name v : Bytes)

/-- The commands that put `v` under the key, and where they put it. -/
inductive Puts : Slot → Outcome → Prop
  | set : Puts .whole (cmdSet now s [name, key, v])
  | getset : Puts .whole (cmdGetSet now s [name, key, v])
  | append (missing : s.live now key = none) : Puts .whole (cmdAppend now s [name, key, v])
  | hset (field : Bytes) : Puts (.field field) (cmdHSet now s [name, key, field, v])
  | lpush : Puts .first (cmdLPush now s [name, key, v])
  | rpush : Puts .last (cmdRPush now s [name, key, v])
  | rpushNew (missing : s.live now key = none) : Puts .first (cmdRPush now s [name, key, v])

/-- The readers of the slot reply with `v`. -/
def Slot.Shows : Slot → Prop
  | .whole => (cmdGet now s [name, key]).reply = .bulk v
      ∧ (cmdMGet now s [name, key]).reply = .array [some v]
      ∧ (cmdGetDel now s [name, key]).reply = .bulk v
      ∧ ((cmdExists now s [name, key]).reply = .int 1 ↔ (cmdGet now s [name, key]).reply ≠ .nil)
  | .field f => (cmdHGet now s [name, key, f]).reply = .bulk v
      ∧ (cmdHMGet now s [name, key, f]).reply = .array [some v]
  | .first => (cmdLIndex now s [name, key, ascii "0"]).reply = .bulk v
      ∧ (cmdLPop now s [name, key]).reply = .bulk v
  | .last => (cmdLIndex now s [name, key, ascii "-1"]).reply = .bulk v

end Statement

/-- The value has `v` in the slot. -/
def Slot.Holds (v : Bytes) : Slot → Value → Prop
  | .whole, value => value = .string v
  | .field f, value => ∃ fields, value = .hash fields ∧ fields.lookup f = some v
  | .first, value => ∃ rest, value = .list (v :: rest)
  | .last, value => ∃ rest, value = .list (rest ++ [v])

variable {now later deadline : Time} {s : Store} {key : Key} {name v : Bytes} {slot : Slot}
  {value : Value} {o : Outcome}

/-! ## Reading -/

theorem array_nilIfEmpty_iff : Reply.array [nilIfEmpty v] = .array [some v] ↔ v ≠ [] := by
  unfold nilIfEmpty
  split <;> simp_all

theorem whole_shows_iff (live : s.live now key = some { value := .string v, expiresAt := deadline }) :
    Slot.whole.Shows now s key name v ↔ v ≠ [] := by
  have got := run_get live
  have there : (cmdExists now s [name, key]).reply = .int 1 := by
    have one := s.run_read_outcome now key KeyOp.exists1_regular KeyOp.exists1_readOnly
    rw [live] at one
    simp only [cmdExists, Store.exists', Store.countKeys, one]
    rfl
  have get : (cmdGet now s [name, key]).reply = .ofBytes (nilIfEmpty v) := by
    rw [cmdGet, reply_ofCall, got, told]
  have mget : (cmdMGet now s [name, key]).reply = .array [nilIfEmpty v] := by
    rw [cmdMGet, reply_ofCall, mGet_cons]
    generalize s.run now key KeyOp.get = call at got
    obtain ⟨t, result⟩ := call
    cases got
    rfl
  have getdel : (cmdGetDel now s [name, key]).reply = .ofBytes (nilIfEmpty v) := by
    rw [cmdGetDel]
    generalize s.run now key KeyOp.get = call at got
    obtain ⟨t, result⟩ := call
    cases got
    cases nilIfEmpty v <;> rfl
  rw [Slot.Shows, there, get, mget, getdel, array_nilIfEmpty_iff, ofBytes_nilIfEmpty_iff]
  -- `EXISTS` counts the key whatever its value is
  have null : Reply.ofBytes (nilIfEmpty v) ≠ .nil ↔ v ≠ [] := by
    unfold nilIfEmpty
    split <;> simp_all [Reply.ofBytes]
  rw [null]
  tauto

theorem field_shows_iff {f : Bytes} {fields : GoMap Bytes}
    (live : s.live now key = some { value := .hash fields, expiresAt := deadline })
    (held : fields.lookup f = some v) : (Slot.field f).Shows now s key name v ↔ v ≠ [] := by
  have got {t : Store} (same : t.live now = s.live now) :
      (t.run now key (KeyOp.hGet f)).2 = .ok (nilIfEmpty v) := by
    refine run_readLive (same ▸ live) ?_
    simp only [held]
    rfl
  have hget : (cmdHGet now s [name, key, f]).reply = .ofBytes (nilIfEmpty v) := by
    have got := got (rfl : s.live now = _)
    rw [cmdHGet]
    generalize s.run now key (KeyOp.hGet f) = call at got
    obtain ⟨t, result⟩ := call
    cases got
    cases nilIfEmpty v <;> rfl
  have hmget : (cmdHMGet now s [name, key, f]).reply = .array [nilIfEmpty v] := by
    obtain ⟨t, typed, kept, -⟩ :=
      s.run_read_eq now key KeyOp.typeName_regular KeyOp.typeName_readOnly
    rw [cmdHMGet, typed, live]
    have got := got kept
    show Outcome.reply (.ofCall (hGetEach now t key [f]) _ _ _) = _
    rw [reply_ofCall, hGetEach_cons]
    generalize t.run now key (KeyOp.hGet f) = call at got
    obtain ⟨u, result⟩ := call
    cases got
    rfl
  rw [Slot.Shows, hget, hmget, array_nilIfEmpty_iff, ofBytes_nilIfEmpty_iff]
  tauto

variable {n : Int} {rest : List Bytes} {cur : Option Entry} {field : Bytes}

theorem lIndex_reply {elements : List Bytes} {index : Bytes}
    (live : s.live now key = some { value := .list elements, expiresAt := deadline })
    (parsed : parseInt index = some n) (at_n : KeyOp.lIndexOf n elements = nilIfEmpty v) :
    (cmdLIndex now s [name, key, index]).reply = .bulk v ↔ v ≠ [] := by
  have read : (s.run now key (KeyOp.lIndex n)).2 = .ok (KeyOp.lIndexOf n elements) :=
    run_readLive live rfl
  simp only [cmdLIndex, parsed, reply_ofCall, read, told, at_n]
  exact ofBytes_nilIfEmpty_iff v

theorem first_shows_iff
    (live : s.live now key = some { value := .list (v :: rest), expiresAt := deadline }) :
    Slot.first.Shows now s key name v ↔ v ≠ [] := by
  have popped : (s.run now key (KeyOp.lPop 1)).2 = .ok [v] := by
    rw [KeyOp.lPop, (s.run_immediate now key (KeyOp.listPop_regular _) (KeyOp.listPop_immediate _)).2,
      live]
    exact KeyOp.commitMutated_ok _ rest [v]
  rw [Slot.Shows, lIndex_reply live (by decide : parseInt (ascii "0") = some 0) rfl, cmdLPop, popList,
    reply_ofCall, popped]
  exact ⟨And.left, fun full => ⟨full, (ofBytes_nilIfEmpty_iff v).mpr full⟩⟩

theorem last_shows_iff
    (live : s.live now key = some { value := .list (rest ++ [v]), expiresAt := deadline }) :
    Slot.last.Shows now s key name v ↔ v ≠ [] := by
  refine lIndex_reply live (by decide : parseInt (ascii "-1") = some (-1)) ?_
  have nonneg : ¬ (rest.length : Int) < 0 := by omega
  simp [KeyOp.lIndexOf, KeyOp.normalizeListIndex, nonneg]

theorem shows_iff (live : s.live now key = some { value, expiresAt := deadline })
    (holds : slot.Holds v value) : slot.Shows now s key name v ↔ v ≠ [] := by
  cases slot with
  | whole =>
    cases holds
    exact whole_shows_iff live
  | field f =>
    obtain ⟨fields, rfl, held⟩ := holds
    exact field_shows_iff live held
  | first =>
    obtain ⟨rest, rfl⟩ := holds
    exact first_shows_iff live
  | last =>
    obtain ⟨rest, rfl⟩ := holds
    exact last_shows_iff live

/-! ## Writing -/

/-- The key holds `v` in the slot and has no deadline. -/
def Kept (now : Time) (key : Key) (slot : Slot) (v : Bytes) (s : Store) : Prop :=
  ∃ value, s.live now key = some { value, expiresAt := 0 } ∧ slot.Holds v value

theorem live_later (live : s.live now key = some { value, expiresAt := 0 }) :
    s.live later key = some { value, expiresAt := 0 } := by
  rw [Store.live, (alive_eq_some_iff.mp live).1]
  exact alive_of_no_deadline value

theorem kept_of_accepted {ρ : Type} {op : KeyOp ρ} {onError : StoreErr → Reply}
    {sent : ρ → List ReplicatePayload} {reply : ρ → Reply} (unlimited : s.maxMem = 0)
    (regular : op.Regular) (rejects : ∀ failure, (onError failure).accepts = false)
    (accepted : (Outcome.ofCall (s.run now key op) onError sent reply).reply.accepts = true)
    (writes : ∀ result, op.outcome (s.live now key) = .ok result →
      ∃ value, op.effect now (s.live now key) = some { value, expiresAt := 0 } ∧ slot.Holds v value) :
    Kept now key slot v (Outcome.ofCall (s.run now key op) onError sent reply).store := by
  rw [Kept, store_ofCall, s.run_live now key unlimited regular, Function.update_self]
  rw [reply_ofCall, s.run_outcome now key unlimited regular] at accepted
  cases outcome : op.outcome (s.live now key) with
  | error failure =>
    rw [outcome, told, rejects] at accepted
    cases accepted
  | ok result => exact writes result outcome

theorem listPush_writes {left : Bool} (permanent : ∀ e, cur = some e → e.expiresAt = 0)
    (done : (KeyOp.listPush key [v] left).outcome cur = .ok n) :
    ∃ rest, (KeyOp.listPush key [v] left).effect now cur
        = some { value := .list (KeyOp.pushAll left rest [v]), expiresAt := 0 }
      ∧ (cur = none → rest = []) := by
  cases cur with
  | none => exact ⟨[], alive_of_no_deadline _, fun _ => rfl⟩
  | some e =>
    obtain ⟨value, deadline⟩ := e
    cases permanent _ rfl
    cases value with
    | list rest =>
      exact ⟨rest, alive_of_no_deadline _, fun missing => by cases missing⟩
    | _ => cases done

theorem hSet_writes (permanent : ∀ e, cur = some e → e.expiresAt = 0)
    (done : (KeyOp.hSet key (oneField field v)).outcome cur = .ok n) :
    ∃ old : GoMap Bytes, (KeyOp.hSet key (oneField field v)).effect now cur
      = some { value := .hash (oneField field v ∪ old), expiresAt := 0 } := by
  cases cur with
  | none => exact ⟨∅, alive_of_no_deadline _⟩
  | some e =>
    obtain ⟨value, deadline⟩ := e
    cases permanent _ rfl
    cases value with
    | hash old => exact ⟨old, alive_of_no_deadline _⟩
    | _ => cases done

theorem cmdSet_kept (unlimited : s.maxMem = 0) :
    Kept now key .whole v (cmdSet now s [name, key, v]).store := by
  have store : (cmdSet now s [name, key, v]).store = (s.run now key (KeyOp.set key v 0)).1 := by
    have called : cmdSet now s [name, key, v]
        = applySet now s key v 0 false false oomReply fun ok => if ok then .ok else .nil := rfl
    rw [called, applySet, store_ofCall, setCall]
    rcases s.run now key (KeyOp.set key v 0) with ⟨t, failure | done⟩ <;> rfl
  rw [Kept, store, s.run_live now key unlimited (KeyOp.set_regular v 0), Function.update_self]
  exact ⟨_, alive_of_no_deadline _, rfl⟩

theorem cmdAppend_kept (unlimited : s.maxMem = 0) (missing : s.live now key = none) :
    Kept now key .whole v (cmdAppend now s [name, key, v]).store := by
  have fits : (cmdAppend now s [name, key, v]).store.live now = _ ∧ _ :=
    cmdAppend_fits name (.inl ⟨missing, rfl⟩) (.inr (.inl unlimited))
  rw [Kept, fits.1, Function.update_self, missing]
  exact ⟨_, rfl, rfl⟩

theorem cmdGetSet_kept (unlimited : s.maxMem = 0)
    (accepted : (cmdGetSet now s [name, key, v]).reply.accepts = true) :
    Kept now key .whole v (cmdGetSet now s [name, key, v]).store := by
  refine kept_of_accepted unlimited (KeyOp.getSet_regular v 0) typeReply_rejects accepted
    fun result done => ?_
  cases live : s.live now key with
  | none => exact ⟨_, alive_of_no_deadline _, rfl⟩
  | some e =>
    obtain ⟨value, deadline⟩ := e
    rw [live] at done
    cases value with
    | string prev => exact ⟨_, alive_of_no_deadline _, rfl⟩
    | _ => cases done

theorem cmdHSet_kept (unlimited : s.maxMem = 0)
    (permanent : ∀ e, s.live now key = some e → e.expiresAt = 0)
    (accepted : (cmdHSet now s [name, key, field, v]).reply.accepts = true) :
    Kept now key (.field field) v (cmdHSet now s [name, key, field, v]).store := by
  have pairs : pairsOf [field, v] = some (oneField field v) := by
    simp [pairsOf, oneField]
  simp only [cmdHSet, hashSet, pairs, Store.hSet, if_neg (oneField_ne field v)] at accepted ⊢
  refine kept_of_accepted unlimited (KeyOp.hSet_regular _) typeOrOomReply_rejects accepted
    fun n done => ?_
  obtain ⟨old, effect⟩ := hSet_writes permanent done
  refine ⟨_, effect, _, rfl, ?_⟩
  rw [oneField_union, Finmap.lookup_insert]

theorem puts_kept (unlimited : s.maxMem = 0)
    (permanent : ∀ e, s.live now key = some e → e.expiresAt = 0) (puts : Puts now s key name v slot o)
    (accepted : o.reply.accepts = true) : Kept now key slot v o.store := by
  cases puts with
  | set => exact cmdSet_kept unlimited
  | getset => exact cmdGetSet_kept unlimited accepted
  | append missing => exact cmdAppend_kept unlimited missing
  | hset field => exact cmdHSet_kept unlimited permanent accepted
  | lpush =>
    refine kept_of_accepted unlimited (KeyOp.listPush_regular [v] true) typeOrOomReply_rejects accepted
      fun n done => ?_
    obtain ⟨rest, effect, -⟩ := listPush_writes permanent done
    exact ⟨_, effect, rest, rfl⟩
  | rpush =>
    refine kept_of_accepted unlimited (KeyOp.listPush_regular [v] false) typeOrOomReply_rejects accepted
      fun n done => ?_
    obtain ⟨rest, effect, -⟩ := listPush_writes permanent done
    exact ⟨_, effect, rest, rfl⟩
  | rpushNew missing =>
    refine kept_of_accepted unlimited (KeyOp.listPush_regular [v] false) typeOrOomReply_rejects accepted
      fun n done => ?_
    obtain ⟨rest, effect, empty⟩ := listPush_writes permanent done
    cases empty missing
    exact ⟨_, effect, [], rfl⟩

/-- What a command put under a key without a deadline is shown by every reader of it exactly
when it is not empty. -/
theorem stored_value_visible_iff (later : Time) (unlimited : s.maxMem = 0)
    (permanent : ∀ e, s.live now key = some e → e.expiresAt = 0) (puts : Puts now s key name v slot o)
    (accepted : o.reply.accepts = true) : slot.Shows later o.store key name v ↔ v ≠ [] := by
  obtain ⟨value, live, holds⟩ := puts_kept unlimited permanent puts accepted
  exact shows_iff (live_later live) holds

theorem pushed_value_visible :
    Slot.first.Shows 5 (cmdLPush 1 (newStore .noeviction 0 sortedOracle)
      [ascii "LPUSH", ascii "l", ascii "x"]).store (ascii "l") (ascii "LPUSH") (ascii "x") :=
  (stored_value_visible_iff 5 rfl (by decide +kernel) .lpush (by decide +kernel)).mpr (by decide)

/-- An empty string is stored and counted, and reads as if it were missing. -/
theorem empty_value_unseen :
    let s := (cmdSet 1 (newStore .noeviction 0 sortedOracle) [ascii "SET", ascii "k", []]).store
    (cmdGet 1 s [ascii "GET", ascii "k"]).reply = .nil
      ∧ (cmdExists 1 s [ascii "EXISTS", ascii "k"]).reply = .int 1 := by
  decide +kernel

end SuperCache
