import SuperCache.Commands.Strings

/-! # Commands as sequences of Store calls

Some commands on one key are built from several calls of the store, each of which takes
the lock of the shard for itself.  Here such a command is a program: it reads the clock,
calls the store, and goes on with what it got.  Run alone with the clock standing still,
a program does what its handler does.
-/

namespace SuperCache

open Lib

/-! ## Programs -/

inductive KeyCall where
  | get
  | ttlMs
  | exists1
  | del
  | set (val : Bytes) (expiresAt : Time)
  | setNX (val : Bytes) (expiresAt : Time)
  | setXX (val : Bytes) (expiresAt : Time)
deriving DecidableEq

namespace KeyCall

abbrev Result : KeyCall → Type
  | .get => Option Bytes
  | .ttlMs | .exists1 | .del => Int
  | .set _ _ => Unit
  | .setNX _ _ | .setXX _ _ => Bool

def op (now : Time) (key : Key) : (c : KeyCall) → KeyOp c.Result
  | .get => KeyOp.get
  | .ttlMs => KeyOp.ttlMs now
  | .exists1 => KeyOp.exists1
  | .del => KeyOp.del
  | .set val expiresAt => KeyOp.set key val expiresAt
  | .setNX val expiresAt => KeyOp.setNX key val expiresAt
  | .setXX val expiresAt => KeyOp.setXX key val expiresAt

end KeyCall

inductive CmdProg where
  | reply (reply : Reply)
  | clock (next : Time → CmdProg)
  | call (c : KeyCall) (next : Except StoreErr c.Result → CmdProg)

namespace CmdProg

def onOk (c : KeyCall) (onError : StoreErr → Reply) (next : c.Result → CmdProg) : CmdProg :=
  .call c fun
    | .ok result => next result
    | .error failure => .reply (onError failure)

def isReply : CmdProg → Bool
  | .reply _ => true
  | _ => false

def advance (key : Key) : CmdProg → List Time → Store → Option (Store × CmdProg)
  | p, [], s => some (s, p)
  | .reply _, _ :: _, _ => none
  | .clock next, now :: later, s => advance key (next now) later s
  | .call c next, now :: later, s =>
    let done := s.run now key (c.op now key)
    advance key (next done.2) later done.1

end CmdProg

/-! ## The commands -/

open CmdProg

/-- `applySet`. -/
def applySetProg (val : Bytes) (exp : Time) (nx xx : Bool) (onError : StoreErr → Reply)
    (reply : Bool → Reply) : CmdProg :=
  if nx && !xx then onOk (.setNX val exp) onError fun ok => .reply (reply ok)
  else if xx && !nx then onOk (.setXX val exp) onError fun ok => .reply (reply ok)
  else onOk (.set val exp) onError fun _ => .reply (reply true)

/-- `SET` once its deadline is known. -/
def setDecidedProg (val : Bytes) (o : SetOptions) (exp : Time) : CmdProg :=
  if o.nx && o.xx then .reply (.error .syntaxErr)
  else if o.get then
    onOk .get typeReply fun prev =>
      applySetProg val exp o.nx o.xx .failure fun ok => if ok then .ofBytes prev else .nil
  else applySetProg val exp o.nx o.xx oomReply fun ok => if ok then .ok else .nil

/-- With the answer to `KEEPTTL`'s question; the clock is read again. -/
def setAnsweredProg (val : Bytes) (o : SetOptions) (exp : Time) : Except StoreErr Int → CmdProg
  | .ok ms =>
    if 0 < ms then .clock fun now => setDecidedProg val o (now + milliseconds ms)
    else setDecidedProg val o exp
  | .error _ => setDecidedProg val o exp

/-- `KEEPTTL` asks for the time that is left. -/
def setKeptProg (val : Bytes) (o : SetOptions) (exp : Time) : CmdProg :=
  if o.keepttl then .call .ttlMs (setAnsweredProg val o exp) else setDecidedProg val o exp

def setProg (val : Bytes) (opts : List Bytes) : CmdProg :=
  match parseSetOptions {} opts with
  | .error err => .reply (.error err)
  | .ok o =>
    match o.atTime with
    | some instant => setKeptProg val o instant
    | none =>
      if 0 ≤ o.exMs then .clock fun now => setKeptProg val o (now + milliseconds o.exMs)
      else setKeptProg val o 0

def getProg : CmdProg :=
  onOk .get typeReply fun bytes => .reply (.ofBytes bytes)

def getDelProg : CmdProg :=
  onOk .get typeReply fun prev =>
    match prev with
    | none => .reply .nil
    | some bytes => .call .del fun _ => .reply (.bulk bytes)

/-- `DEL` of one key asks first whether the key is there, for the replication. -/
def delProg : CmdProg :=
  .call .exists1 fun _ => .call .del fun
    | .ok n => .reply (.int n)
    | .error _ => .reply (.int 0)

def incrByFloatProg (fl : FloatOps) (delta : Bytes) : CmdProg :=
  match fl.parse delta with
  | none => .reply (.error .notInt)
  | some delta =>
    onOk .get typeReply fun text =>
      match floatStart fl text with
      | none => .reply (.error .notInt)
      | some f =>
        let out := fl.format (fl.add f delta)
        onOk (.set out 0) oomReply fun _ => .reply (.bulk out)

def setRangeProg (offset val : Bytes) : CmdProg :=
  match parseInt offset with
  | none => .reply (.error .notInt)
  | some offset =>
    if offset < 0 then .reply (.error .notInt)
    else
      onOk .get typeReply fun bytes =>
        let base := setRangeOf (bytes.getD []) offset.toNat val
        onOk (.set base 0) oomReply fun _ => .reply (.int base.length)

inductive RmwCommand where
  | get
  | set (val : Bytes) (opts : List Bytes)
  | getDel
  | incrByFloat (delta : Bytes)
  | setRange (offset val : Bytes)
  | del

namespace RmwCommand

def prog (fl : FloatOps) : RmwCommand → CmdProg
  | .get => getProg
  | .set val opts => setProg val opts
  | .getDel => getDelProg
  | .incrByFloat delta => incrByFloatProg fl delta
  | .setRange offset val => setRangeProg offset val
  | .del => delProg

def handler (fl : FloatOps) (now : Time) (s : Store) (key : Key) : RmwCommand → Outcome
  | .get => cmdGet now s [ascii "GET", key]
  | .set val opts => cmdSet now s (ascii "SET" :: key :: val :: opts)
  | .getDel => cmdGetDel now s [ascii "GETDEL", key]
  | .incrByFloat delta => cmdIncrByFloat fl now s [ascii "INCRBYFLOAT", key, delta]
  | .setRange offset val => cmdSetRange now s [ascii "SETRANGE", key, offset, val]
  | .del => cmdDel now s [ascii "DEL", key]

end RmwCommand

/-! ## Run alone -/

namespace CmdProg

variable {key : Key} {now : Time} {s : Store}

def Yields (key : Key) (now : Time) (p : CmdProg) (s : Store) (done : Outcome) : Prop :=
  ∃ n, p.advance key (List.replicate n now) s = some (done.store, .reply done.reply)

theorem yields_reply {sent : List ReplicatePayload} (r : Reply) :
    Yields key now (.reply r) s { store := s, sent, reply := r } :=
  ⟨0, rfl⟩

variable {c : KeyCall} {done : Outcome} {onError : StoreErr → Reply}

theorem Yields.clock {next : Time → CmdProg} (later : Yields key now (next now) s done) :
    Yields key now (.clock next) s done := by
  obtain ⟨n, ends⟩ := later
  exact ⟨n + 1, ends⟩

theorem Yields.call {next : Except StoreErr c.Result → CmdProg}
    (later : Yields key now (next (s.run now key (c.op now key)).2)
      (s.run now key (c.op now key)).1 done) : Yields key now (.call c next) s done := by
  obtain ⟨n, ends⟩ := later
  exact ⟨n + 1, ends⟩

theorem yields_onOk {next : c.Result → CmdProg} {handled : Store → c.Result → Outcome}
    (later : ∀ t result, Yields key now (next result) t (handled t result)) :
    Yields key now (onOk c onError next) s
      (Outcome.onOk (s.run now key (c.op now key)) onError handled) := by
  apply Yields.call
  unfold Outcome.onOk
  cases s.run now key (c.op now key) with
  | mk t result =>
    cases result with
    | error failure => exact yields_reply _
    | ok result => exact later t result

theorem yields_ofCall {reply : c.Result → Reply} (sent : c.Result → List ReplicatePayload) :
    Yields key now (onOk c onError fun result => .reply (reply result)) s
      (Outcome.ofCall (s.run now key (c.op now key)) onError sent reply) :=
  yields_onOk fun _ _ => yields_reply _

theorem yields_applySet (val : Bytes) (exp : Time) (nx xx : Bool) (onError : StoreErr → Reply)
    (reply : Bool → Reply) :
    Yields key now (applySetProg val exp nx xx onError reply) s
      (applySet now s key val exp nx xx onError reply) := by
  unfold applySetProg applySet setCall
  split
  · exact yields_ofCall (c := .setNX val exp) _
  · split
    · exact yields_ofCall (c := .setXX val exp) _
    · apply Yields.call
      simp only [KeyCall.op]
      rcases s.run now key (KeyOp.set key val exp) with ⟨t, failure | ⟨⟩⟩
      · exact yields_reply _
      · exact yields_reply _

theorem yields_setDecided (val : Bytes) (o : SetOptions) (exp : Time) (t : Store)
    (kept : o.keptDeadline now t key = (s, exp)) :
    Yields key now (setDecidedProg val o exp) s (setParsed now t key val o) := by
  unfold setDecidedProg setParsed
  rw [kept]
  simp only
  split
  · exact yields_reply _
  · split
    · exact yields_onOk fun _ _ => yields_applySet ..
    · exact yields_applySet ..

variable (key now s) in
theorem yields_setKept (val : Bytes) (o : SetOptions) :
    Yields key now (setKeptProg val o (o.deadline now)) s (setParsed now s key val o) := by
  unfold setKeptProg
  cases keeps : o.keepttl with
  | false => exact yields_setDecided val o _ s (by simp [SetOptions.keptDeadline, keeps])
  | true =>
    apply Yields.call
    simp only [KeyCall.op]
    rcases asked : s.run now key (KeyOp.ttlMs now) with ⟨t, failure | ms⟩
    · exact yields_setDecided val o _ s (by simp [SetOptions.keptDeadline, keeps, asked])
    · simp only [setAnsweredProg]
      split
      · next positive =>
        apply Yields.clock
        exact yields_setDecided val o _ s (by simp [SetOptions.keptDeadline, keeps, asked, positive])
      · next expired =>
        exact yields_setDecided val o _ s (by simp [SetOptions.keptDeadline, keeps, asked, expired])

end CmdProg

/-- Run alone, the calls of a command reply and leave the store as its handler does, but for
the draw of a map order in `DEL`. -/
theorem RmwCommand.advance_handler (fl : FloatOps) (c : RmwCommand) (key : Key) (now : Time) (s : Store) :
    ∃ t tick, (c.handler fl now s key).store = t.drawn tick t.evictCursor
      ∧ (c.prog fl).Yields key now s { c.handler fl now s key with store := t } := by
  have plain {p : CmdProg} {done : Outcome} (yields : p.Yields key now s done) :
      ∃ t tick, done.store = t.drawn tick t.evictCursor ∧ p.Yields key now s { done with store := t } :=
    ⟨done.store, done.store.tick, rfl, yields⟩
  cases c with
  | get => exact plain (yields_ofCall (c := .get) _)
  | set val opts =>
    apply plain
    simp only [handler, cmdSet, prog, setProg]
    cases parseSetOptions {} opts with
    | error err => exact yields_reply _
    | ok o =>
      -- the deadline is read off the options, or off the clock
      have kept := yields_setKept key now s val o
      unfold SetOptions.deadline at kept
      cases instant : o.atTime with
      | some instant' => simpa only [instant] using kept
      | none =>
        simp only [instant] at kept ⊢
        split
        · next positive => exact Yields.clock (by rwa [if_pos positive] at kept)
        · next negative => rwa [if_neg negative] at kept
  | getDel =>
    refine plain (yields_onOk (c := .get) fun t prev => ?_)
    cases prev with
    | none => exact yields_reply _
    | some bytes => exact Yields.call (yields_reply _)
  | incrByFloat delta =>
    apply plain
    simp only [handler, cmdIncrByFloat, prog, incrByFloatProg]
    cases fl.parse delta with
    | none => exact yields_reply _
    | some delta =>
      refine yields_onOk (c := .get) fun t text => ?_
      cases floatStart fl text with
      | none => exact yields_reply _
      | some f => exact yields_ofCall (c := .set _ 0) _
  | setRange offset val =>
    apply plain
    simp only [handler, cmdSetRange, prog, setRangeProg]
    cases parseInt offset with
    | none => exact yields_reply _
    | some offset =>
      simp only
      split
      · exact yields_reply _
      · exact yields_onOk (c := .get) fun t bytes => yields_ofCall (c := .set _ 0) _
  | del =>
    refine ⟨((s.run now key KeyOp.exists1).1.run now key KeyOp.del).1, _, rfl, ?_⟩
    apply Yields.call
    apply Yields.call
    simp only [handler, cmdDel, existingKeys, Store.exists', Store.del, Store.countKeys,
      Int.add_zero, KeyCall.op]
    rcases (s.run now key KeyOp.exists1).1.run now key KeyOp.del with ⟨t, failure | n⟩
    · exact yields_reply _
    · exact yields_reply _

end SuperCache
