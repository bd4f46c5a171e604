import SuperCache.Commands.Ranges
import SuperCache.Commands.Registry
import SuperCache.Store.Refusals

/-! # Deadlines counted from now

`SET`, `SETEX`, `PSETEX`, `GETEX`, `EXPIRE` and `PEXPIRE` turn a positive amount of seconds
or milliseconds into a deadline.  The product is taken in 64 bits, and nothing looks
whether it fits.
-/

namespace SuperCache

open Lib

variable {now : Time} {s : Store} {key : Key}

/-! ## What a command leaves -/

inductive Dated (now : Time) (s : Store) (key : Key) (deadline : Time) (o : Outcome) : Prop
  | refused (err : ReplyErr) (told : o.reply = .error err) (spared : s.Spared now o.store)
  | written (value : Value) (accepted : o.reply.accepts = true)
      (left : o.store.live now key = alive now (some { value, expiresAt := deadline }))

theorem Dated.refused_of_rejects {deadline : Time} {o : Outcome} (dated : Dated now s key deadline o)
    (rejected : o.reply.accepts = false) : (∃ err, o.reply = .error err) ∧ s.Spared now o.store := by
  cases dated with
  | refused err told spared => exact ⟨⟨err, told⟩, spared⟩
  | written value accepted left => cases rejected.symm.trans accepted

theorem Dated.deadline_iff {deadline exact_ : Time} {o : Outcome} (dated : Dated now s key deadline o)
    (accepted : o.reply.accepts = true) (ahead : now < exact_) :
    (o.store.live now key).map Entry.expiresAt = some exact_ ↔ deadline = exact_ := by
  cases dated with
  | refused err told spared =>
    rw [told] at accepted
    cases accepted
  | written value _ left =>
    rw [left, alive_some]
    constructor
    · intro due
      split at due
      · cases due
      · simpa using due
    · rintro rfl
      rw [if_neg]
      · rfl
      · simpa [isExpired] using fun _ => ahead.le

theorem call_dated {ρ : Type} {op : KeyOp ρ} {o : Outcome} {onError : StoreErr → Reply}
    {reply : ρ → Reply} {deadline : Time} (value : Value) (regular : op.Regular)
    (replied : o.reply = told onError reply (s.run now key op).2)
    (stored : o.store = (s.run now key op).1) (accepts : ∀ result, (reply result).accepts = true)
    (rejects : ∀ failure, (s.run now key op).2 = .error failure → ∃ err, onError failure = .error err)
    (writes : op.effect now (s.live now key) = alive now (some { value, expiresAt := deadline })) :
    Dated now s key deadline o := by
  cases ran : (s.run now key op).2 with
  | error failure =>
    obtain ⟨err, rejected⟩ := rejects failure ran
    rw [ran] at replied
    exact .refused err (replied.trans rejected) (stored ▸ (Store.run_failed regular ran).2)
  | ok result =>
    rw [ran] at replied
    refine .written value (replied ▸ accepts result) ?_
    rw [stored, Store.run_ok_own regular ran, writes]

theorem set_dated {o : Outcome} {reply : Unit → Reply} (val : Bytes) (deadline : Time)
    (replied : o.reply = told oomReply reply (s.run now key (KeyOp.set key val deadline)).2)
    (stored : o.store = (s.run now key (KeyOp.set key val deadline)).1)
    (accepts : ∀ result, (reply result).accepts = true) : Dated now s key deadline o := by
  refine call_dated (.string val) (KeyOp.set_regular val deadline) replied stored accepts ?_ rfl
  intro failure failed
  obtain answered | rfl := (Store.run_failed (KeyOp.set_regular val deadline) failed).1
  · cases answered
  · exact ⟨_, rfl⟩

/-! ## The commands -/

inductive Expiring where
  | set
  | setEx
  | getEx
  | expire
deriving DecidableEq

namespace Expiring

def command (millis : Bool) : Expiring → Command
  | set => .set
  | setEx => if millis then .psetex else .setex
  | getEx => .getex
  | expire => if millis then .pexpire else .expire

def option (millis : Bool) : Bytes :=
  if millis then ascii "PX" else ascii "EX"

def args (name : Bytes) (key : Key) (val opt amount : Bytes) : Expiring → List Bytes
  | set => [name, key, val, opt, amount]
  | setEx => [name, key, amount, val]
  | getEx => [name, key, opt, amount]
  | expire => [name, key, amount]

def unit (millis : Bool) : Int :=
  if millis then 1000000 else 1000000000

def kind (millis : Bool) : ExpiryKind :=
  if millis then .px else .ex

def deadline (now : Time) (millis : Bool) (n : Int) : Expiring → Time
  | set => (({} : SetOptions).withExpiry (kind millis) n).deadline now
  | _ => (kind millis).instant now n

theorem deadline_eq_iff (form : Expiring) (millis : Bool) {n : Int} (later : 0 ≤ now)
    (positive : 0 < n) (fits : IsInt64 n) :
    form.deadline now millis n = now + n * unit millis ↔ n * unit millis ≤ maxInt64 := by
  have product : IsInt64 (n * unit millis) ↔ n * unit millis ≤ maxInt64 := by
    have : 0 < unit millis := by cases millis <;> decide
    have := Int.mul_pos positive this
    unfold IsInt64 minInt64
    omega
  have instant : (kind millis).instant now n = now + wrap64 (n * unit millis) := by
    cases millis <;> rfl
  have plain : (kind millis).instant now n = now + n * unit millis ↔ n * unit millis ≤ maxInt64 := by
    rw [instant, ← product, ← wrap64_eq_iff, add_right_inj]
  cases form with
  | set =>
    cases millis with
    | true =>
      rw [← plain, deadline]
      simp only [kind, if_true, SetOptions.withExpiry, SetOptions.deadline, if_pos positive.le]
      rfl
    | false =>
      -- seconds become milliseconds first, and that product may overflow as well
      rw [deadline, ← product]
      simp only [kind, Bool.false_eq_true, if_false, SetOptions.withExpiry, SetOptions.deadline, unit]
      constructor
      · intro same
        split at same
        · rw [← add_left_cancel same]
          exact isInt64_wrap64 _
        · have ahead : 0 < now + n * 1000000000 := add_pos_of_nonneg_of_pos later (Int.mul_pos positive (by decide))
          exact absurd same ahead.ne
      · intro small
        have thousand : wrap64 (n * 1000) = n * 1000 := by
          apply wrap64_eq_self
          unfold IsInt64 at *
          omega
        have regrouped : n * 1000 * 1000000 = n * 1000000000 := by omega
        rw [thousand, if_pos (by omega), milliseconds, regrouped, wrap64_eq_self small]
  | _ => exact plain

/-! ## What they do with a positive amount -/

section Positive

variable {millis : Bool} {amount opt : Bytes} {n : Int} (fl : FloatOps) (name val : Bytes)
  (parsed : parseInt amount = some n) (positive : 0 < n) (named : toUpper opt = option millis)

include parsed positive

theorem operand_eq (k : ExpiryKind) : expiryOperand k amount = some n := by
  simp only [expiryOperand, parsed, Option.bind_some]
  rw [if_neg]
  rintro ⟨-, small⟩
  omega

theorem setEx_dated : Dated now s key (setEx.deadline now millis n)
    ((setEx.command millis).handler fl now s (setEx.args name key val opt amount)) := by
  have same : (setEx.command millis).handler fl now s (setEx.args name key val opt amount)
      = setAndReplicate now s key val (setEx.deadline now millis n) .ok := by
    cases millis <;> simp [command, args, Command.handler, cmdSetEX, cmdPSetEX, setWithTTL,
      operand_eq parsed positive, deadline, kind, ExpiryKind.instant]
  rw [same, setAndReplicate]
  exact set_dated val _ (reply_ofCall _) (store_ofCall _) fun _ => rfl

omit parsed positive in
theorem run_expireAt {e : Entry} (live : s.live now key = some e) (instant : Time) :
    (s.run now key (KeyOp.expireAt instant)).1.live now key
        = alive now (some { value := e.value, expiresAt := instant })
      ∧ (s.run now key (KeyOp.expireAt instant)).2 = .ok true := by
  obtain ⟨left, outcome⟩ := s.run_immediate now key (KeyOp.expireAt_regular instant)
    (KeyOp.expireAt_immediate instant)
  rw [left, outcome, Function.update_self, live]
  exact ⟨rfl, rfl⟩

theorem expire_dated {e : Entry} (live : s.live now key = some e) :
    Dated now s key (expire.deadline now millis n)
      ((expire.command millis).handler fl now s (expire.args name key val opt amount)) := by
  have same : (expire.command millis).handler fl now s (expire.args name key val opt amount)
      = .ofCall (s.run now key (KeyOp.expireAt ((kind millis).instant now n))) .failure
        (fun ok => sentIf ok (deadlinePayload (kind millis) key n)) Reply.ofBool := by
    rw [← setDeadlineOf_eq (operand_eq parsed positive (kind millis))]
    cases millis <;> simp [command, args, Command.handler, cmdExpire, cmdPExpire, expireCommand,
      operand_eq parsed positive, kind]
  rw [same]
  refine call_dated e.value (KeyOp.expireAt_regular _) (reply_ofCall _) (store_ofCall _)
    (fun _ => rfl) ?_ (by rw [live]; rfl)
  intro failure failed
  rw [(run_expireAt live _).2] at failed
  cases failed

include named

theorem set_form_dated : Dated now s key (set.deadline now millis n)
    ((set.command millis).handler fl now s (set.args name key val opt amount)) := by
  have opted : setOption opt = some (.expiry (kind millis)) := by
    simp only [setOption, named]
    cases millis <;> rfl
  have same : (set.command millis).handler fl now s (set.args name key val opt amount)
      = setParsed now s key val (({} : SetOptions).withExpiry (kind millis) n) := by
    simp [command, args, Command.handler, cmdSet, parseSetOptions, opted, operand_eq parsed positive]
  rw [same]
  have called : setParsed now s key val (({} : SetOptions).withExpiry (kind millis) n)
      = applySet now s key val (set.deadline now millis n) false false oomReply
        fun ok => if ok then .ok else .nil := by
    cases millis <;> rfl
  rw [called, applySet]
  refine set_dated val _ ?_ ?_ fun _ => (rfl : Reply.ok.accepts = true)
  · rw [reply_ofCall, setCall]
    rcases s.run now key (KeyOp.set key val _) with ⟨t, failure | done⟩ <;> rfl
  · rw [store_ofCall, setCall]
    rcases s.run now key (KeyOp.set key val _) with ⟨t, failure | done⟩ <;> rfl

theorem getEx_eq : (getEx.command millis).handler fl now s (getEx.args name key val opt amount)
    = getExFinish now key s [] (some (getEx.deadline now millis n)) := by
  have opted : getExOption opt = some (.expiry (kind millis)) := by
    simp only [getExOption, named]
    cases millis <;> rfl
  simp [command, args, Command.handler, cmdGetEx, getExLoop, opted, operand_eq parsed positive, deadline]

theorem getEx_dated {value : Value} {old : Time}
    (live : s.live now key = some { value, expiresAt := old }) (filled : value ≠ .string []) :
    Dated now s key (getEx.deadline now millis n)
      ((getEx.command millis).handler fl now s (getEx.args name key val opt amount)) := by
  obtain ⟨t, ran, same, -⟩ := s.run_read_eq now key KeyOp.get_regular KeyOp.get_readOnly
  rw [getEx_eq fl name val parsed positive named, getExFinish, ran, live]
  cases value with
  | string bytes =>
    have shown : KeyOp.get.outcome (some { value := .string bytes, expiresAt := old }) = .ok (some bytes) :=
      congrArg Except.ok (if_neg fun empty => filled (by rw [empty]))
    rw [shown]
    exact .written (.string bytes) rfl (run_expireAt ((congrFun same key).trans live) _).1
  | _ => exact .refused .wrongType rfl (.of_live same)

theorem getEx_empty {old : Time}
    (live : s.live now key = some { value := .string [], expiresAt := old }) :
    ((getEx.command millis).handler fl now s (getEx.args name key val opt amount)).reply = .nil
      ∧ ((getEx.command millis).handler fl now s
          (getEx.args name key val opt amount)).store.live now = s.live now := by
  obtain ⟨t, ran, same, -⟩ := s.run_read_eq now key KeyOp.get_regular KeyOp.get_readOnly
  rw [getEx_eq fl name val parsed positive named, getExFinish, ran, live]
  exact ⟨rfl, same⟩

end Positive

/-- `GETEX` of an empty string. -/
def Unseen (form : Expiring) (cur : Option Entry) : Prop :=
  form = getEx ∧ cur.map Entry.value = some (.string [])

theorem dispatch_eq (form : Expiring) (millis : Bool) (fl : FloatOps) (name val opt amount : Bytes) :
    (form.command millis).dispatch fl now s (form.args name key val opt amount)
      = (form.command millis).handler fl now s (form.args name key val opt amount) := by
  cases form <;> cases millis <;> simp [command, args, Command.dispatch, Command.info, checkArity]

/-- A positive amount of seconds or milliseconds that is refused changes nothing.  One that is
accepted becomes the exact deadline if and only if the nanoseconds fit into 64 bits; only
`GETEX` leaves an empty string as it is. -/
theorem relative_expiry_iff (form : Expiring) (millis : Bool) (fl : FloatOps) (name val : Bytes)
    {opt amount : Bytes} {n : Int} (later : 0 ≤ now) (parsed : parseInt amount = some n)
    (positive : 0 < n) (named : toUpper opt = option millis)
    (present : form = getEx ∨ form = expire → (s.live now key).isSome) :
    let o := (form.command millis).dispatch fl now s (form.args name key val opt amount)
    (o.reply.accepts = false → (∃ err, o.reply = .error err) ∧ s.Spared now o.store)
      ∧ (o.reply.accepts = true →
        ((o.store.live now key).map Entry.expiresAt = some (now + n * unit millis)
          ↔ (form.Unseen (s.live now key) →
              (s.live now key).map Entry.expiresAt = some (now + n * unit millis))
            ∧ (¬ form.Unseen (s.live now key) → n * unit millis ≤ maxInt64))) := by
  rw [dispatch_eq]
  dsimp only
  have ahead : now < now + n * unit millis :=
    lt_add_of_pos_right _ (Int.mul_pos positive (by cases millis <;> decide))
  by_cases unseen : form.Unseen (s.live now key)
  · obtain ⟨rfl, empty⟩ := unseen
    obtain ⟨⟨value, old⟩, live, rfl⟩ := Option.map_eq_some_iff.mp empty
    obtain ⟨reply, left⟩ := getEx_empty fl name val parsed positive named live
    rw [reply, left]
    simp [Unseen, live, Reply.accepts]
  · have dated : Dated now s key (form.deadline now millis n)
        ((form.command millis).handler fl now s (form.args name key val opt amount)) := by
      cases form with
      | set => exact set_form_dated fl name val parsed positive named
      | setEx => exact setEx_dated fl name val parsed positive
      | getEx =>
        obtain ⟨⟨value, old⟩, live⟩ := Option.isSome_iff_exists.mp (present (.inl rfl))
        refine getEx_dated fl name val parsed positive named live fun empty => ?_
        exact unseen ⟨rfl, by rw [live, empty]; rfl⟩
      | expire =>
        obtain ⟨e, live⟩ := Option.isSome_iff_exists.mp (present (.inr rfl))
        exact expire_dated fl name val parsed positive live
    refine ⟨dated.refused_of_rejects, fun accepted => ?_⟩
    rw [dated.deadline_iff accepted ahead,
      form.deadline_eq_iff millis later positive (parseInt_isInt64 parsed)]
    simp [unseen]

end Expiring

/-- Ten seconds from now. -/
theorem ten_seconds_ahead :
    ((Command.setex.dispatch integerFloats 1 (newStore .noeviction 0 sortedOracle)
        [ascii "SETEX", ascii "k", ascii "10", ascii "v"]).store.live 1 (ascii "k")).map Entry.expiresAt
      = some (1 + 10 * 1000000000) := by
  have named : toUpper (ascii "EX") = Expiring.option false := by decide +kernel
  exact ((Expiring.relative_expiry_iff .setEx false integerFloats _ _ (by decide) (by decide +kernel)
    (by decide) named (by decide)).2 (by decide +kernel)).mpr
      (by simp [Expiring.Unseen, Expiring.unit, maxInt64])

/-- Three centuries are more nanoseconds than an `int64` holds: the key is gone at once. -/
theorem three_centuries_past :
    (Command.setex.dispatch integerFloats 1 (newStore .noeviction 0 sortedOracle)
        [ascii "SETEX", ascii "k", ascii "9467085600", ascii "v"]).reply = .ok
      ∧ (Command.setex.dispatch integerFloats 1 (newStore .noeviction 0 sortedOracle)
        [ascii "SETEX", ascii "k", ascii "9467085600", ascii "v"]).store.live 1 (ascii "k") = none := by
  decide +kernel

end SuperCache
