import SuperCache.Commands.Ranges
import SuperCache.Commands.Registry
import SuperCache.Store.Deadlines

/-! # Commands that change a value in place

What is left under the key has the deadline of the entry that was there, since the
operations behind these commands keep it (`KeyOp.Keeps`).  `INCRBYFLOAT` and `SETRANGE`
read the value and write it back with a plain `Set`, which has no deadline.
-/

namespace SuperCache

open Lib

def Command.changesInPlace : Command → Bool
  | .append | .incr | .decr | .incrby | .decrby | .incrbyfloat | .setrange | .hset | .hmset
  | .hsetnx | .hdel | .hincrby | .hincrbyfloat | .lpush | .rpush | .lpushx | .rpushx | .lpop
  | .rpop | .lset | .lrem | .ltrim | .linsert | .sadd | .srem => true
  | _ => false

def Command.rewrites (cmd : Command) : Prop :=
  cmd = .incrbyfloat ∨ cmd = .setrange

structure KeepsDeadline (now : Time) (s : Store) (key : Key) (t : Store) : Prop where
  others : ∀ other, other ≠ key → t.live now other = s.live now other
  deadline : ∀ e e', s.live now key = some e → t.live now key = some e' →
    e'.expiresAt = e.expiresAt

variable {now : Time} {s : Store} {key : Key}

theorem KeepsDeadline.refl : KeepsDeadline now s key s where
  others _ _ := rfl
  deadline e e' before after := by
    cases before.symm.trans after
    rfl

theorem KeepsDeadline.of_live {t u : Store} (keeps : KeepsDeadline now s key t)
    (same : u.live now = t.live now) : KeepsDeadline now s key u where
  others := by simpa only [same] using keeps.others
  deadline := by simpa only [same] using keeps.deadline

section Unlimited

variable {ρ : Type} {op : KeyOp ρ} (unlimited : s.maxMem = 0)

include unlimited

theorem run_keepsDeadline (regular : op.Regular) (keeps : op.Keeps) :
    KeepsDeadline now s key (s.run now key op).1 := by
  have left := s.run_live now key unlimited regular
  constructor
  · intro other different
    rw [left, Function.update_of_ne different]
  · intro e e' before after
    obtain ⟨value, deadline⟩ := e
    obtain ⟨result, same⟩ := keeps value
    rw [left, Function.update_self, before, KeyOp.effect, Look.ofLive, same] at after
    cases result with
    | none => cases after
    | some new =>
      rw [Option.map_some, alive_some] at after
      split at after
      · cases after
      · cases after
        rfl

theorem call_keepsDeadline {onError : StoreErr → Reply} {sent : ρ → List ReplicatePayload}
    {reply : ρ → Reply} (regular : op.Regular) (keeps : op.Keeps) :
    KeepsDeadline now s key (Outcome.ofCall (s.run now key op) onError sent reply).store := by
  rw [store_ofCall]
  exact run_keepsDeadline unlimited regular keeps

variable (args : List Bytes)

theorem cmdAppend_keepsDeadline :
    KeepsDeadline now s (args.getD 1 []) (cmdAppend now s args).store := by
  unfold cmdAppend
  split
  · next key tail =>
    have kept : KeepsDeadline now s key (s.run now key (KeyOp.append key tail)).1 :=
      run_keepsDeadline unlimited (by simp) (by simp)
    rcases ran : s.run now key (KeyOp.append key tail) with ⟨t, failure | n⟩ <;> rw [ran] at kept
    · exact kept
    · -- the value is read back, which changes nothing
      have reread := kept.of_live (t.run_read now key KeyOp.get_readOnly).1
      simp only [Outcome.onOk]
      rcases ran' : t.run now key KeyOp.get with ⟨u, failure | bytes⟩ <;> rw [ran'] at reread
      · exact reread
      · cases bytes <;> exact reread
  · exact .refl

theorem hashSet_keepsDeadline (cmd : String) (reply : Int → Reply) :
    KeepsDeadline now s (args.getD 1 []) (hashSet cmd reply now s args).store := by
  unfold hashSet
  split
  · split
    · exact .refl
    · simp only [store_ofCall, Store.hSet]
      split
      · exact .refl
      · exact run_keepsDeadline unlimited (by simp) (by simp)
  · exact .refl

theorem popList_keepsDeadline (cmd : String) (take : Int → List Bytes → List Bytes × List Bytes)
    (replOp : ReplOp) : KeepsDeadline now s (args.getD 1 [])
      (popList cmd (fun count => KeyOp.listPop (take count)) replOp now s args).store := by
  unfold popList
  split
  · exact call_keepsDeadline unlimited (by simp) (by simp)
  · split
    · exact .refl
    · split
      · exact .refl
      · exact call_keepsDeadline unlimited (by simp) (by simp)
  · exact .refl

theorem handler_keepsDeadline (fl : FloatOps) {cmd : Command} (inPlace : cmd.changesInPlace = true)
    (amends : ¬ cmd.rewrites) :
    KeepsDeadline now s (args.getD 1 []) (cmd.handler fl now s args).store := by
  cases cmd with
  | incrbyfloat | setrange => simp [Command.rewrites] at amends
  | append => exact cmdAppend_keepsDeadline unlimited args
  | hset | hmset => exact hashSet_keepsDeadline unlimited args _ _
  | lpop | rpop => exact popList_keepsDeadline unlimited args _ _ _
  | incr | decr | hsetnx | hdel | lpush | rpush | lpushx | rpushx | srem =>
    simp only [Command.handler, cmdIncr, cmdDecr, doIncr, countAndReplicate, cmdHSetNX, cmdHDel,
      cmdLPush, cmdRPush, pushList, cmdLPushX, cmdRPushX, pushListX, cmdSRem]
    split
    · exact call_keepsDeadline unlimited (by simp) (by simp)
    · exact .refl
  | incrby | decrby | hincrby | hincrbyfloat | lset | lrem | linsert =>
    simp only [Command.handler, cmdIncrBy, cmdDecrBy, countBy, countAndReplicate, KeyOp.decrBy,
      cmdHIncrBy, cmdHIncrByFloat, cmdLSet, cmdLRem, cmdLInsert]
    split
    · split
      · exact .refl
      · exact call_keepsDeadline unlimited (by simp) (by simp)
    · exact .refl
  | ltrim =>
    simp only [Command.handler, cmdLTrim]
    split
    · split
      · exact call_keepsDeadline unlimited (by simp) (by simp)
      · exact .refl
    · exact .refl
  | sadd =>
    simp only [Command.handler, cmdSAdd]
    split
    · simp only [store_ofCall, Store.sAdd, reduceCtorEq, if_false]
      exact run_keepsDeadline unlimited (by simp) (by simp)
    · exact .refl
  | _ => cases inPlace

/-! ## Values written back -/

omit unlimited

/-- If the command is accepted, the key has a string without a deadline, and nothing else has
changed. -/
def WritesBack (now : Time) (s : Store) (key : Key) (o : Outcome) : Prop :=
  o.reply.accepts = true → ∃ val, o.store.live now
    = Function.update (s.live now) key (some { value := .string val })

theorem WritesBack.refused {o : Outcome} (rejects : o.reply.accepts = false) :
    WritesBack now s key o := by
  intro accepted
  rw [rejects] at accepted
  cases accepted

include unlimited

theorem read_writesBack {next : Store → Option Bytes → Outcome}
    (goesOn : ∀ t text, t.live now = s.live now → t.maxMem = 0 → WritesBack now s key (next t text)) :
    WritesBack now s key (.onOk (s.run now key KeyOp.get) typeReply next) := by
  obtain ⟨sameLive, sameLimit⟩ := s.run_read now key KeyOp.get_readOnly
  rcases ran : s.run now key KeyOp.get with ⟨t, failure | text⟩ <;> rw [ran] at sameLive sameLimit
  · exact .refused (typeReply_rejects failure)
  · exact goesOn t text sameLive (sameLimit.trans unlimited)

omit unlimited

theorem set_writesBack {t : Store} (same : t.live now = s.live now) (limit : t.maxMem = 0)
    (val : Bytes) (reply : Reply) :
    WritesBack now s key (setAndReplicate now t key val 0 reply) := by
  refine fun _ => ⟨val, ?_⟩
  rw [setAndReplicate, store_ofCall, t.run_live now key limit (KeyOp.set_regular val 0), same]
  exact congrArg _ (alive_of_no_deadline _)

include unlimited

theorem handler_writesBack (fl : FloatOps) {cmd : Command} (rewrites : cmd.rewrites) :
    WritesBack now s (args.getD 1 []) (cmd.handler fl now s args) := by
  obtain rfl | rfl := rewrites
  · simp only [Command.handler, cmdIncrByFloat]
    split
    · split
      · exact .refused rfl
      · refine read_writesBack unlimited fun t text same limit => ?_
        split
        · exact .refused rfl
        · exact set_writesBack same limit _ _
    · exact .refused rfl
  · simp only [Command.handler, cmdSetRange]
    split
    · split
      · exact .refused rfl
      · split
        · exact .refused rfl
        · exact read_writesBack unlimited fun t bytes same limit => set_writesBack same limit _ _
    · exact .refused rfl

end Unlimited

/-! ## The deadline -/

/-- A command that changes a live key in place keeps its deadline, and every other key,
exactly when it does not write back whole a value that had a deadline. -/
theorem deadline_kept_iff (fl : FloatOps) (cmd : Command) {args : List Bytes} {e e' : Entry}
    (inPlace : cmd.changesInPlace = true) (unlimited : s.maxMem = 0)
    (named : args[1]? = some key) (live : s.live now key = some e)
    (accepted : (cmd.dispatch fl now s args).reply.accepts = true)
    (left : (cmd.dispatch fl now s args).store.live now key = some e') :
    (e'.expiresAt = e.expiresAt ∧ ∀ other, other ≠ key →
        (cmd.dispatch fl now s args).store.live now other = s.live now other)
      ↔ (cmd.rewrites → e.expiresAt = 0) := by
  unfold Command.dispatch at *
  split at accepted
  · cases accepted
  · next arity =>
    have first : args.getD 1 [] = key := by simp [named]
    rw [if_neg arity] at left ⊢
    by_cases rewrites : cmd.rewrites
    · obtain ⟨val, after⟩ := handler_writesBack unlimited args fl rewrites accepted
      rw [first] at after
      rw [after, Function.update_self] at left
      cases left
      rw [after]
      constructor
      · exact fun kept _ => kept.1.symm
      · intro undated
        refine ⟨(undated rewrites).symm, fun other different => ?_⟩
        rw [Function.update_of_ne different]
    · obtain ⟨others, deadline⟩ := handler_keepsDeadline unlimited args fl inPlace rewrites
      rw [first] at others deadline
      exact iff_of_true ⟨deadline e e' live left, others⟩ fun rewriting => absurd rewriting rewrites

/-- `5` for ten seconds. -/
def datedStore : Store :=
  (cmdSetEX 1 (newStore .noeviction 0 sortedOracle)
    [ascii "SETEX", ascii "k", ascii "10", ascii "5"]).store

theorem dated_live : datedStore.live 1 (ascii "k")
    = some { value := .string (ascii "5"), expiresAt := 10000000001 } := by
  decide +kernel

theorem incremented_in_time :
    (Command.incr.dispatch integerFloats 1 datedStore [ascii "INCR", ascii "k"]).store.live 1 (ascii "k")
        = some { value := .string (ascii "6"), expiresAt := 10000000001 }
      ∧ (10000000001 : Time) = 10000000001 ∧ ∀ other, other ≠ ascii "k" →
        (Command.incr.dispatch integerFloats 1 datedStore [ascii "INCR", ascii "k"]).store.live 1 other
          = datedStore.live 1 other := by
  have left : (Command.incr.dispatch integerFloats 1 datedStore
      [ascii "INCR", ascii "k"]).store.live 1 (ascii "k")
        = some { value := .string (ascii "6"), expiresAt := 10000000001 } := by
    decide +kernel
  exact ⟨left, (deadline_kept_iff integerFloats .incr rfl rfl rfl dated_live (by decide +kernel)
    left).mpr (by simp [Command.rewrites])⟩

/-- The same increment as a float loses the deadline. -/
theorem float_increment_undated :
    (Command.incrbyfloat.dispatch integerFloats 1 datedStore
        [ascii "INCRBYFLOAT", ascii "k", ascii "1"]).reply = .bulk (ascii "6")
      ∧ (Command.incrbyfloat.dispatch integerFloats 1 datedStore
        [ascii "INCRBYFLOAT", ascii "k", ascii "1"]).store.live 1 (ascii "k")
          = some { value := .string (ascii "6"), expiresAt := 0 } := by
  decide +kernel

end SuperCache
