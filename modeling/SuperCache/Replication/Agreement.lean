import SuperCache.Replication.Replay
import SuperCache.Store.Deadlines

/-! # Replay on two keyspaces

Two nodes can hold the same values with slightly different deadlines.  An
operation that looks at the value only (`KeyOp.Uniform`) keeps that relation,
and so does the replay of any payload (`replay_agree`).
-/

namespace SuperCache

open Lib

def EntryRel (near : Time → Time → Prop) : Option Entry → Option Entry → Prop
  | none, none => True
  | some e, some e' => e.value = e'.value ∧ near e.expiresAt e'.expiresAt
  | _, _ => False

def Agree (near : Time → Time → Prop) (view view' : Keyspace) : Prop :=
  ∀ key, EntryRel near (view key) (view' key)

def AllLive (now : Time) (view : Keyspace) : Prop :=
  ∀ key, alive now (view key) = view key

theorem Store.allLive (s : Store) (now : Time) : AllLive now (s.live now) :=
  s.alive_live now

/-- What an operation makes of a live entry is the same for entries with the same
value: a new value, and the old deadline or a fixed one. -/
def KeyOp.Uniform {ρ : Type} (op : KeyOp ρ) : Prop :=
  ∀ value, ∃ result : Option (Value × Option Time), ∀ deadline,
    op.after (.live { value := value, expiresAt := deadline })
      = result.map fun new => { value := new.1, expiresAt := new.2.getD deadline }

section Agreement

variable {ρ : Type} {near : Time → Time → Prop} {now : Time} {view view' : Keyspace}

theorem EntryRel.refl (same : ∀ instant, near instant instant) (entry : Option Entry) :
    EntryRel near entry entry := by
  cases entry with
  | none => trivial
  | some e => exact ⟨rfl, same _⟩

theorem EntryRel.value {entry entry' : Option Entry} (related : EntryRel near entry entry') :
    entry.map Entry.value = entry'.map Entry.value := by
  cases entry with
  | none =>
    cases entry' with
    | none => rfl
    | some e' => exact related.elim
  | some e =>
    cases entry' with
    | none => exact related.elim
    | some e' => exact congrArg some related.1

theorem KeyOp.Uniform.effect {op : KeyOp ρ} (uniform : op.Uniform)
    (same : ∀ instant, near instant instant) {cur cur' : Option Entry}
    (live : alive now cur = cur) (live' : alive now cur' = cur') (related : EntryRel near cur cur') :
    EntryRel near (op.effect now cur) (op.effect now cur') := by
  cases cur with
  | none =>
    cases cur' with
    | none => exact .refl same _
    | some e' => exact related.elim
  | some e =>
    cases cur' with
    | none => exact related.elim
    | some e' =>
      obtain ⟨value, deadline⟩ := e
      obtain ⟨value', deadline'⟩ := e'
      obtain ⟨sameValue, nearby⟩ := related
      simp only at sameValue nearby
      subst sameValue
      obtain ⟨result, after⟩ := uniform value
      simp only [KeyOp.effect, Look.ofLive, after]
      cases result with
      | none => trivial
      | some new =>
        obtain ⟨written, fixed⟩ := new
        cases fixed with
        | some instant => exact .refl same _
        | none =>
          simp only [Option.map_some, Option.getD_none]
          rw [alive_same_deadline written live, alive_same_deadline written live']
          exact ⟨rfl, nearby⟩

theorem Agree.onKey {op : KeyOp ρ} (agree : Agree near view view') (uniform : op.Uniform)
    (same : ∀ instant, near instant instant) (live : AllLive now view) (live' : AllLive now view')
    (key : Key) : Agree near (onKey now key op view) (onKey now key op view') := by
  intro other
  by_cases here : other = key
  · subst here
    simp only [SuperCache.onKey, Function.update_self]
    exact uniform.effect same (live other) (live' other) (agree other)
  · simp only [SuperCache.onKey, Function.update_of_ne here]
    exact agree other

/-! ## What a payload performs -/

def Undated (entry : Option Entry) : Prop :=
  ∀ e, entry = some e → e.expiresAt = 0

instance (entry : Option Entry) : Decidable (Undated entry) :=
  inferInstanceAs (Decidable (∀ e ∈ entry, e.expiresAt = 0))

theorem undated_none : Undated none := by
  rintro e ⟨⟩

theorem undated_some {value : Value} : Undated (some { value := value, expiresAt := 0 }) := by
  rintro e ⟨⟩
  rfl

structure KeyOp.Timeless {ρ : Type} (op : KeyOp ρ) : Prop where
  missing : Undated (op.after .missing)
  live : ∀ value, Undated (op.after (.live { value := value, expiresAt := 0 }))

namespace KeyOp

variable {key : Key}

theorem Keeps.uniform {op : KeyOp ρ} (keeps : op.Keeps) : op.Uniform := by
  intro value
  obtain ⟨result, after⟩ := keeps value
  refine ⟨result.map fun new => (new, none), fun deadline => ?_⟩
  rw [after, Option.map_map]
  rfl

theorem Keeps.timeless {op : KeyOp ρ} (keeps : op.Keeps) (missing : Undated (op.after .missing)) :
    op.Timeless := by
  refine ⟨missing, fun value => ?_⟩
  obtain ⟨result, after⟩ := keeps value
  rw [after]
  cases result with
  | none => exact undated_none
  | some new => exact undated_some

theorem listPush_missing (vals : List Bytes) (left : Bool) :
    Undated ((KeyOp.listPush key vals left).after .missing) := by
  unfold KeyOp.listPush
  split
  · exact undated_none
  · exact undated_some

theorem persist_uniform : KeyOp.persist.Uniform := by
  refine fun value => ⟨some (value, some 0), fun deadline => ?_⟩
  by_cases none : deadline = 0
  · simp [KeyOp.after, KeyOp.persist, none, Action.post, Commit.post, Look.current]
  · simp [KeyOp.after, KeyOp.persist, none, Action.post, Commit.post]

end KeyOp

/-- The keys a payload works on; `none` stands for all keys. -/
def ReplicatePayload.keys (p : ReplicatePayload) : Option (List Key) :=
  match p.op with
  | .flushdb | .flushall => none
  | .rename => some [p.key, p.dest]
  | .other _ => some []
  | _ => some [p.key]

def ReplicatePayload.Timeless (p : ReplicatePayload) : Prop :=
  match p.op with
  | .set => p.ttlms ≤ 0
  | .expire | .pexpire | .expireat | .pexpireat => False
  | _ => True

/-- What the replay of a payload does: an operation on its key, which has the same meaning at
every instant if the payload carries no deadline, or one of the few other things. -/
inductive Replays (p : ReplicatePayload) : (Time → Keyspace → Keyspace) → Prop
  | nothing : Replays p fun _ view => view
  | own {ρ : Type} (op : Time → KeyOp ρ) (named : p.keys = some [p.key])
      (uniform : ∀ now, (op now).Uniform)
      (timeless : p.Timeless → (∀ now, op now = op 0) ∧ (op 0).Timeless) :
      Replays p fun now => onKey now p.key (op now)
  | remove (named : p.keys = some [p.key]) : Replays p fun _ => Keyspace.remove [p.key]
  | move (named : p.keys = some [p.key, p.dest]) : Replays p fun _ => Keyspace.move p.key p.dest
  | flush (named : p.keys = none) : Replays p fun _ _ _ => none

theorem Replays.keeps {p : ReplicatePayload} {op : KeyOp ρ} (named : p.keys = some [p.key])
    (keeps : op.Keeps) (missing : Undated (op.after .missing)) :
    Replays p fun now => onKey now p.key op :=
  .own (fun _ => op) named (fun _ => keeps.uniform) fun _ => ⟨fun _ => rfl, keeps.timeless missing⟩

theorem Replays.deadline {p : ReplicatePayload} (instant : Time → Time)
    (named : p.keys = some [p.key]) (dated : ¬ p.Timeless) :
    Replays p fun now => onKey now p.key (KeyOp.expireAt (instant now)) :=
  .own _ named (fun now value => ⟨some (value, some (instant now)), fun _ => rfl⟩)
    fun timeless => absurd timeless dated

theorem Replays.unless {p : ReplicatePayload} {f : Time → Keyspace → Keyspace} {cond : Prop}
    [Decidable cond] (replays : Replays p f) :
    Replays p fun now view => if cond then view else f now view := by
  by_cases holds : cond
  · simp only [if_pos holds]
    exact .nothing
  · simp only [if_neg holds]
    exact replays

theorem replay_cases (p : ReplicatePayload) : Replays p fun now => replay now p := by
  unfold replay
  cases op : p.op
  case other name => exact .nothing
  case del => exact .remove (by simp only [ReplicatePayload.keys, op])
  case rename => exact .move (by simp only [ReplicatePayload.keys, op])
  case flushdb => exact .flush (by simp only [ReplicatePayload.keys, op])
  case flushall => exact .flush (by simp only [ReplicatePayload.keys, op])
  all_goals have named : p.keys = some [p.key] := by simp only [ReplicatePayload.keys, op]
  case set =>
    refine .own (fun now => KeyOp.set p.key p.value (setDeadline now p.ttlms)) named
      (fun now _ => ⟨some (.string p.value, some (setDeadline now p.ttlms)), fun _ => rfl⟩) ?_
    simp only [ReplicatePayload.Timeless, op]
    intro never
    have noDeadline (now : Time) : setDeadline now p.ttlms = 0 := if_neg (not_lt.mpr never)
    simp only [noDeadline]
    exact ⟨fun _ => trivial, undated_some, fun _ => undated_some⟩
  case persist =>
    exact .own (fun _ => KeyOp.persist) named (fun _ => KeyOp.persist_uniform)
      fun _ => ⟨fun _ => rfl, undated_none, fun _ => undated_some⟩
  case hset => exact .unless (.keeps named (KeyOp.hSet_keeps _) undated_some)
  case hdel => exact .keeps named (KeyOp.hDel_keeps _) undated_none
  case sadd => exact .unless (.keeps named (KeyOp.sAdd_keeps _) undated_some)
  case srem => exact .unless (.keeps named (KeyOp.sRem_keeps _) undated_none)
  case replaceset => exact .keeps named (KeyOp.replaceSet_keeps _) undated_some
  case lpush => exact .unless (.keeps named (KeyOp.listPush_keeps _ _) (KeyOp.listPush_missing _ _))
  case rpush => exact .unless (.keeps named (KeyOp.listPush_keeps _ _) (KeyOp.listPush_missing _ _))
  case lpop => exact .keeps named (KeyOp.listPop_keeps _) undated_none
  case rpop => exact .keeps named (KeyOp.listPop_keeps _) undated_none
  case lrem => exact .keeps named (KeyOp.lRem_keeps _ _) undated_none
  case lset => exact .keeps named (KeyOp.lSet_keeps _ _) undated_none
  case ltrim =>
    simp only [replayLTrim]
    split
    · split
      · exact .keeps named (KeyOp.lTrim_keeps _ _) undated_none
      · exact .nothing
    · exact .nothing
  case linsertBefore =>
    simp only [replayLInsert]
    split
    · exact .keeps named (KeyOp.lInsert_keeps _ _ _) undated_none
    · exact .nothing
  case linsertAfter =>
    simp only [replayLInsert]
    split
    · exact .keeps named (KeyOp.lInsert_keeps _ _ _) undated_none
    · exact .nothing
  -- The four that give a deadline.
  all_goals have dated : ¬ p.Timeless := by simp [ReplicatePayload.Timeless, op]
  case expire => exact .unless (.deadline (fun now => now + seconds p.cnt) named dated)
  case pexpire => exact .unless (.deadline (fun now => now + milliseconds p.cnt) named dated)
  case expireat => exact .deadline (fun _ => timeUnix p.cnt) named dated
  case pexpireat => exact .deadline (fun _ => timeUnixMilli p.ttlms) named dated

theorem AllLive.onKey {op : KeyOp ρ} (live : AllLive now view) (key : Key) :
    AllLive now (onKey now key op view) := by
  intro other
  by_cases here : other = key
  · subst here
    simp only [SuperCache.onKey, Function.update_self]
    exact alive_alive _
  · simp only [SuperCache.onKey, Function.update_of_ne here]
    exact live other

theorem AllLive.move (live : AllLive now view) (src dst : Key) :
    AllLive now (Keyspace.move src dst view) := by
  unfold Keyspace.move
  split
  · exact live
  · split
    · exact live
    · next e found =>
      intro key
      by_cases atDst : key = dst
      · subst atDst
        rw [Function.update_self, ← found]
        exact live src
      · rw [Function.update_of_ne atDst]
        by_cases atSrc : key = src
        · rw [atSrc, Function.update_self]
          rfl
        · rw [Function.update_of_ne atSrc]
          exact live key

theorem Agree.move (agree : Agree near view view') (src dst : Key) :
    Agree near (Keyspace.move src dst view) (Keyspace.move src dst view') := by
  unfold Keyspace.move
  split
  · exact agree
  · have source := agree src
    cases found : view src with
    | none =>
      cases found' : view' src with
      | none => exact agree
      | some e' =>
        rw [found, found'] at source
        exact source.elim
    | some e =>
      cases found' : view' src with
      | none =>
        rw [found, found'] at source
        exact source.elim
      | some e' =>
        rw [found, found'] at source
        intro key
        simp only [Function.update_apply]
        split
        · exact source
        · split
          · trivial
          · exact agree key

theorem replay_agree (p : ReplicatePayload) (agree : Agree near view view')
    (same : ∀ instant, near instant instant) (live : AllLive now view) (live' : AllLive now view') :
    Agree near (replay now p view) (replay now p view')
      ∧ AllLive now (replay now p view) ∧ AllLive now (replay now p view') := by
  have cases := replay_cases p
  change (fun f : Time → Keyspace → Keyspace => Agree near (f now view) (f now view')
    ∧ AllLive now (f now view) ∧ AllLive now (f now view')) fun now => replay now p
  generalize (fun now => replay now p) = f at cases
  cases cases with
  | nothing => exact ⟨agree, live, live'⟩
  | own op named uniform timeless =>
    exact ⟨agree.onKey (uniform now) same live live' p.key, live.onKey p.key, live'.onKey p.key⟩
  | remove named =>
    refine ⟨fun key => ?_, fun key => ?_, fun key => ?_⟩ <;> simp only [Keyspace.remove] <;> split
    · trivial
    · exact agree key
    · rfl
    · exact live key
    · rfl
    · exact live' key
  | move named => exact ⟨agree.move p.key p.dest, live.move p.key p.dest, live'.move p.key p.dest⟩
  | flush named => exact ⟨fun _ => trivial, fun _ => rfl, fun _ => rfl⟩

theorem replayAll_agree (payloads : List ReplicatePayload) (agree : Agree near view view')
    (same : ∀ instant, near instant instant) (live : AllLive now view) (live' : AllLive now view') :
    Agree near (replayAll now payloads view) (replayAll now payloads view')
      ∧ AllLive now (replayAll now payloads view') := by
  induction payloads generalizing view view' with
  | nil => exact ⟨agree, live'⟩
  | cons p rest ih =>
    obtain ⟨agree, live, live'⟩ := replay_agree p agree same live live'
    exact ih agree live live'

end Agreement

end SuperCache
