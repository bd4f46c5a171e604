import SuperCache.Replication.MirrorStrings
import SuperCache.Replication.MirrorCollections
import SuperCache.Replication.MirrorKeys

/-! # Commands that replicate something else

A few commands send a payload that does not mean what they did, or send nothing
for a change they made.  `Command.deviation` computes from the arguments and the
store whether a command is about to do so, and how; `dispatch_foreseen` says
that nothing else happens.
-/

namespace SuperCache

open Lib

def atDeadline (now : Time) (e : Entry) : Bool :=
  e.expiresAt ≠ 0 ∧ e.expiresAt = now

inductive Deviation where
  /-- A string stored with a deadline, which travels as whole milliseconds left. -/
  | string (key : Key) (val : Bytes) (exp : Time)
  /-- A string that keeps its deadline here and is replicated without one. -/
  | keeps (key : Key) (val : Bytes) (deadline : Time)
  /-- A key changed to `mine`, and nothing sent. -/
  | silent (key : Key) (mine : Option Entry)
  /-- A deadline given to a string, which travels as a Unix time in milliseconds,
  after `persists` removals of the old one. -/
  | getex (key : Key) (val : Bytes) (persists : Nat) (exp : Time)
deriving DecidableEq

namespace Deviation

def key : Deviation → Key
  | .string key .. | .keeps key .. | .silent key _ | .getex key .. => key

def mine (now : Time) : Deviation → Option Entry
  | .string _ val exp => alive now (some { value := .string val, expiresAt := exp })
  | .keeps _ val deadline => some { value := .string val, expiresAt := deadline }
  | .silent _ mine => mine
  | .getex _ val _ exp => alive now (some { value := .string val, expiresAt := exp })

def sent (now : Time) : Deviation → List ReplicatePayload
  | .string key val exp => [replicateSet now key val exp]
  | .keeps key val _ => [replicateSet now key val 0]
  | .silent .. => []
  | .getex key _ persists exp =>
    List.replicate persists (replicatePersist key) ++ [replicatePExpireAtUnixMs key (unixMilli exp)]

/-- The room that the change asks for.  `KEEPTTL` may purge the key at its deadline before
the new entry is written. -/
def cost (now : Time) (view : Keyspace) : Deviation → Int
  | .string key val _ =>
    (KeyOp.set key val 0).adds (if (view key).any (atDeadline now) then none else view key)
  | .keeps key val _ => (KeyOp.set key val 0).adds (view key)
  | .silent key mine => oldBytes key mine
  | .getex .. => 0

end Deviation

/-! ## Which command deviates -/

/-- `KEEPTTL` purges a key at its very deadline. -/
def SetOptions.purges (o : SetOptions) (now : Time) (cur : Option Entry) : Bool :=
  o.keepttl && cur.any fun e => e.expiresAt ≠ 0 ∧ e.expiresAt = now

/-- The entry `SET` finds once `KEEPTTL` has looked at it. -/
def SetOptions.found (o : SetOptions) (now : Time) (cur : Option Entry) : Option Entry :=
  if o.purges now cur then none else cur

/-- The deadline `SET` gives its key. -/
def SetOptions.finalDeadline (o : SetOptions) (now : Time) (cur : Option Entry) : Time :=
  if o.keepttl then
    match (KeyOp.ttlMs now).outcome cur with
    | .ok ms => if 0 < ms then now + milliseconds ms else o.deadline now
    | .error _ => o.deadline now
  else o.deadline now

def Entry.isString (e : Entry) : Bool :=
  match e.value with
  | .string _ => true
  | _ => false

/-- Whether `SET` gives up before it writes. -/
def SetOptions.stops (o : SetOptions) (found : Option Entry) : Bool :=
  (o.nx && o.xx) || (o.get && found.any fun e => !e.isString)
    || (o.nx && found.isSome || o.xx && found.isNone)

def setDeviation (now : Time) (view : Keyspace) (key : Key) (val : Bytes) (o : SetOptions) :
    Option Deviation :=
  if o.stops (o.found now (view key)) then
    if o.purges now (view key) then some (.silent key none) else none
  else some (.string key val (o.finalDeadline now (view key)))

/-- `SETEX` and `PSETEX`. -/
def ttlDeviation (unit : Int → Int) (now : Time) (args : List Bytes) : Option Deviation :=
  match args with
  | [_, key, amount, val] =>
    (expiryOperand .ex amount).map fun n => .string key val (now + unit n)
  | _ => none

def liveDeadline : Option Entry → Time
  | some e => e.expiresAt
  | none => 0

def counterDeviation (view : Keyspace) (key : Key) (op : KeyOp Int) : Option Deviation :=
  match op.outcome (view key) with
  | .ok n => some (.keeps key (formatInt n) (liveDeadline (view key)))
  | .error _ => none

/-- `INCRBY` and `DECRBY`. -/
def countByDeviation (op : Key → Int → KeyOp Int) (view : Keyspace) (args : List Bytes) :
    Option Deviation :=
  match args with
  | [_, key, delta] => (parseInt delta).bind fun n => counterDeviation view key (op key n)
  | _ => none

/-- `APPEND` replicates the whole value without its deadline, unless it is empty. -/
def appendDeviation (view : Keyspace) (key : Key) (tail : Bytes) : Option Deviation :=
  match view key with
  | none =>
    if tail = [] then some (.silent key (some { value := .string [], expiresAt := 0 }))
    else some (.keeps key tail 0)
  | some e =>
    match e.value with
    | .string old => if old ++ tail = [] then none else some (.keeps key (old ++ tail) e.expiresAt)
    | _ => none

/-- How often the options of `GETEX` say `PERSIST`, and the deadline they end
with, if they are well formed. -/
def parseGetEx (now : Time) (exp : Option Time) : List Bytes → Nat × Except ReplyErr (Option Time)
  | [] => (0, .ok exp)
  | opt :: rest =>
    match getExOption opt with
    | some .persist => ((parseGetEx now exp rest).1 + 1, (parseGetEx now exp rest).2)
    | some (.expiry kind) =>
      match rest with
      | [] => (0, .error (.wrongArgs "GETEX"))
      | operand :: rest =>
        match expiryOperand kind operand with
        | none => (0, .error (.invalidExpire "GETEX"))
        | some n => parseGetEx now (some (kind.instant now n)) rest
    | none => (0, .error (.wrongArgs "GETEX"))

def getExDeviation (now : Time) (view : Keyspace) (key : Key) (opts : List Bytes) :
    Option Deviation :=
  match parseGetEx now none opts, KeyOp.get.outcome (view key) with
  | (persists, .ok (some exp)), .ok (some bytes) => some (.getex key bytes persists exp)
  | _, _ => none

def purgeDeviation (view : Keyspace) (key : Key) (doomed : Entry → Bool) : Option Deviation :=
  if (view key).any doomed then some (.silent key none) else none

def Command.handlerDeviation (now : Time) (view : Keyspace) (cmd : Command) (args : List Bytes) :
    Option Deviation :=
  match cmd, args with
  | .set, _ :: key :: val :: opts =>
    match parseSetOptions {} opts with
    | .ok o => setDeviation now view key val o
    | .error _ => none
  | .setex, _ => ttlDeviation seconds now args
  | .psetex, _ => ttlDeviation milliseconds now args
  | .incr, [_, key] => counterDeviation view key (KeyOp.incrBy key 1)
  | .decr, [_, key] => counterDeviation view key (KeyOp.incrBy key (-1))
  | .incrby, _ => countByDeviation KeyOp.incrBy view args
  | .decrby, _ => countByDeviation KeyOp.decrBy view args
  | .append, [_, key, tail] => appendDeviation view key tail
  | .getex, _ :: key :: opt :: opts => getExDeviation now view key (opt :: opts)
  | .hdel, _ :: key :: _ :: _ => purgeDeviation view key fun e => e.value = .hash ∅
  | .srem, _ :: key :: _ :: _ => purgeDeviation view key fun e => e.value = .set ∅
  | .ttl, [_, key] => purgeDeviation view key (atDeadline now)
  | .pttl, [_, key] => purgeDeviation view key (atDeadline now)
  | _, _ => none

def Command.deviation (now : Time) (view : Keyspace) (cmd : Command) (args : List Bytes) :
    Option Deviation :=
  if cmd.info.arity ≠ 0 ∧ checkArity cmd.info.arity args = false then none
  else cmd.handlerDeviation now view args

/-! ## What a deviating command does -/

structure Deviation.Holds (now : Time) (s : Store) (o : Outcome) (d : Deviation) : Prop where
  live : s.HasRoom (d.cost now (s.live now)) →
    o.store.live now = Function.update (s.live now) d.key (d.mine now)
  sent : s.HasRoom (d.cost now (s.live now)) → o.sent = d.sent now
  maxMem : o.store.maxMem = s.maxMem

/-- An outcome is as foreseen: it mirrors itself, or the deviation holds. -/
def Foreseen (now : Time) (s : Store) (o : Outcome) : Option Deviation → Prop
  | none => Mirrors now s o
  | some d => d.Holds now s o

section Foreseen

variable {now : Time} {s t : Store} {key : Key}

variable {ρ : Type} {onError : StoreErr → Reply} {d : Deviation} {o : Outcome}

theorem call_holds {op : KeyOp ρ} {sent : ρ → List ReplicatePayload} {reply : ρ → Reply}
    {result : ρ} (blind : op.Blind) (outcome : op.outcome (s.live now d.key) = .ok result)
    (effect : op.effect now (s.live now d.key) = d.mine now) (sends : sent result = d.sent now)
    (paid : (op (.ofLive (s.live now d.key))).growth ≤ d.cost now (s.live now)) :
    d.Holds now s (.ofCall (s.run now d.key op) onError sent reply) := by
  have limit := (s.run_frame now d.key op).1
  have fits := s.run_live_fits now d.key blind
  rw [outcome, effect] at fits
  unfold Outcome.ofCall Outcome.onOk
  rcases equation : s.run now d.key op with ⟨t, failure | actual⟩ <;> rw [equation] at fits limit
  · refine ⟨fun room => ?_, fun room => ?_, limit⟩ <;> cases (fits (room.mono paid)).2
  · refine ⟨fun room => (fits (room.mono paid)).1, fun room => ?_, limit⟩
    cases (fits (room.mono paid)).2
    exact sends

theorem ofCall_map {ρ' : Type} (call : Store × Except StoreErr ρ) (f : ρ → ρ')
    (onError : StoreErr → Reply) (sent : ρ' → List ReplicatePayload) (reply : ρ' → Reply) :
    Outcome.ofCall (call.1, call.2.map f) onError sent reply
      = .ofCall call onError (sent ∘ f) (reply ∘ f) := by
  obtain ⟨t, failure | result⟩ := call <;> rfl

theorem Foreseen.quiet {o : Outcome} {mine : Option Entry} (quiet : o.sent = [])
    (live : o.store.live now = Function.update (s.live now) key mine)
    (limit : o.store.maxMem = s.maxMem) : Foreseen now s o (some (.silent key mine)) :=
  ⟨fun _ => live, fun _ => quiet, limit⟩

theorem Foreseen.unchanged (quiet : o.sent = []) (live : o.store.live now = s.live now)
    (limit : o.store.maxMem = s.maxMem) : Foreseen now s o none :=
  ⟨fun _ _ => by rw [quiet]; exact live, limit⟩

theorem set_growth_le (key : Key) (val : Bytes) (exp : Time) (cur : Option Entry) (due : Entry → Bool) :
    (KeyOp.set key val exp (.ofLive cur)).growth
      ≤ (KeyOp.set key val 0).adds (if cur.any due then none else cur) := by
  split
  · have whole : (KeyOp.set key val exp (.ofLive cur)).growth
        = estimateMem key { value := .string val, expiresAt := exp } - oldBytes key cur := by
      cases cur <;> rfl
    have nonneg := oldBytes_nonneg key cur
    exact le_trans (by rw [whole]; exact sub_le_sub_left nonneg _) (le_max_right _ _)
  · exact le_trans (by cases cur <;> exact le_rfl) (le_max_right _ _)

theorem set_holds {val : Bytes} {exp : Time} {sent : Unit → List ReplicatePayload}
    {reply : Unit → Reply} (sends : sent () = [replicateSet now key val exp]) :
    (Deviation.string key val exp).Holds now t
      (.ofCall (t.run now key (KeyOp.set key val exp)) onError sent reply) :=
  call_holds (d := .string key val exp) (KeyOp.set_regular val exp).blind rfl (set_effect key val exp _) sends
    (set_growth_le key val exp _ _)

end Foreseen

end SuperCache
