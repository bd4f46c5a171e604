import SuperCache.Commands.Ranges
import SuperCache.Commands.Registry

/-! # Counters

`INCRBY`, `DECRBY` and `HINCRBY` add 64-bit integers with a test for overflow.  The
difference is the sum with the negated argument, and one 64-bit integer has no negative.
-/

namespace SuperCache

open Lib

/-! ## The sum -/

theorem addInt64_eq {a b : Int} (fits : IsInt64 a) :
    KeyOp.addInt64 a b = if IsInt64 (a + b) then some (a + b) else none := by
  have inside : IsInt64 (a + b) ↔ ¬ (0 < b ∧ maxInt64 - b < a) ∧ ¬ (b < 0 ∧ a < minInt64 - b) := by
    unfold IsInt64 at *
    omega
  simp only [inside, KeyOp.addInt64]
  split
  · next above => rw [if_neg fun none => none.1 above]
  · next notAbove =>
    split
    · next below => rw [if_neg fun none => none.2 below]
    · next notBelow => rw [if_pos ⟨notAbove, notBelow⟩]

theorem parseCounter_of_parseInt {text : Bytes} {n : Int} (parsed : parseInt text = some n) :
    KeyOp.parseCounter text = .ok n := by
  simp only [KeyOp.parseCounter, trimSpace_of_parseInt parsed, if_neg (bytes_of_parseInt parsed).1,
    parsed]

/-! ## The three commands -/

inductive Counter where
  | incrBy
  | decrBy
  | hIncrBy (field : Bytes)
deriving DecidableEq

namespace Counter

def command : Counter → Command
  | incrBy => .incrby
  | decrBy => .decrby
  | hIncrBy _ => .hincrby

def args (name : Bytes) (key : Key) (amount : Bytes) : Counter → List Bytes
  | hIncrBy field => [name, key, field, amount]
  | _ => [name, key, amount]

/-- What the command is to make of `n`. -/
def total (n m : Int) : Counter → Int
  | decrBy => n - m
  | _ => n + m

/-- What it adds to `n`. -/
def addend (m : Int) : Counter → Int
  | decrBy => wrap64 (-m)
  | _ => m

def op (key : Key) (m : Int) : Counter → KeyOp Int
  | hIncrBy field => KeyOp.hIncrBy key field m
  | c => KeyOp.incrBy key (c.addend m)

/-- The text it counts in, `some none` for a missing key or field. -/
def text : Counter → Option Entry → Option (Option Bytes)
  | _, none => some none
  | hIncrBy field, some { value := .hash fields, .. } => some (fields.lookup field)
  | incrBy, some { value := .string bytes, .. } => some (some bytes)
  | decrBy, some { value := .string bytes, .. } => some (some bytes)
  | _, _ => none

def Holds (c : Counter) (n : Int) (cur : Option Entry) : Prop :=
  (c.text cur = some none ∧ n = 0) ∨ ∃ bytes, c.text cur = some (some bytes) ∧ parseInt bytes = some n

variable {c : Counter} {now : Time} {s : Store} {key : Key} {n m : Int} {cur : Option Entry}

theorem Holds.isInt64 (holds : c.Holds n cur) : IsInt64 n := by
  obtain ⟨-, rfl⟩ | ⟨bytes, -, parsed⟩ := holds
  · decide
  · exact parseInt_isInt64 parsed

theorem op_regular (key : Key) (m : Int) : (c.op key m).Regular := by
  cases c <;> simp [op]

theorem reply_eq (c : Counter) (now : Time) (s : Store) (key : Key) (name : Bytes) {amount : Bytes}
    (fl : FloatOps) (parsed : parseInt amount = some m) :
    ∃ onError : StoreErr → Reply, onError .overflow = .error .incrOverflow ∧
      (c.command.dispatch fl now s (c.args name key amount)).reply
          = told onError .int (s.run now key (c.op key m)).2
        ∧ (c.command.dispatch fl now s (c.args name key amount)).store
          = (s.run now key (c.op key m)).1 := by
  cases c with
  | incrBy =>
    refine ⟨incrReply, rfl, ?_⟩
    simp [command, args, Command.dispatch, Command.info, checkArity, Command.handler, cmdIncrBy,
      countBy, countAndReplicate, parsed, op, addend]
  | decrBy =>
    refine ⟨incrReply, rfl, ?_⟩
    simp [command, args, Command.dispatch, Command.info, checkArity, Command.handler, cmdDecrBy,
      countBy, countAndReplicate, parsed, op, addend, KeyOp.decrBy]
  | hIncrBy field =>
    refine ⟨hIncrReply, rfl, ?_⟩
    simp [command, args, Command.dispatch, Command.info, checkArity, Command.handler, cmdHIncrBy, parsed, op]

/-! ## What they decide -/

theorem alive_written (live : alive now cur = cur) (value : Value) :
    alive now (some { value, expiresAt := (Look.ofLive cur).deadline })
      = some { value, expiresAt := (Look.ofLive cur).deadline } := by
  cases cur with
  | none => exact alive_of_no_deadline value
  | some e => exact alive_same_deadline value live

theorem Holds.incrStart (holds : c.Holds n cur) (string : ∀ field, c ≠ hIncrBy field) :
    KeyOp.incrStart (.ofLive cur) = .ok n := by
  cases cur with
  | none =>
    obtain ⟨-, rfl⟩ | ⟨bytes, held, -⟩ := holds
    · rfl
    · cases c <;> cases held
  | some e =>
    obtain ⟨value, deadline⟩ := e
    cases c with
    | hIncrBy field => exact absurd rfl (string field)
    | incrBy | decrBy =>
      cases value with
      | string bytes =>
        apply parseCounter_of_parseInt
        simpa [Holds, text] using holds
      | _ => simp [Holds, text] at holds

theorem Holds.hashOf {field : Bytes} (holds : (hIncrBy field).Holds n cur) :
    ∃ old, KeyOp.hashOf (.ofLive cur) = .ok old
      ∧ KeyOp.parseCounter ((old.lookup field).getD []) = .ok n := by
  have start {found : Option Bytes}
      (held : (found = none ∧ n = 0) ∨ ∃ bytes, found = some bytes ∧ parseInt bytes = some n) :
      KeyOp.parseCounter (found.getD []) = .ok n := by
    obtain ⟨rfl, rfl⟩ | ⟨bytes, rfl, parsed⟩ := held
    · rfl
    · exact parseCounter_of_parseInt parsed
  cases cur with
  | none => exact ⟨∅, rfl, start (by simpa [Holds, text] using holds)⟩
  | some e =>
    obtain ⟨value, deadline⟩ := e
    cases value with
    | hash fields => exact ⟨fields, rfl, start (by simpa [Holds, text] using holds)⟩
    | _ => simp [Holds, text] at holds

theorem op_decides (key : Key) (m : Int) (holds : c.Holds n cur) (live : alive now cur = cur) :
    (KeyOp.addInt64 n (c.addend m) = none →
      (c.op key m).outcome cur = .error .overflow ∧ (c.op key m).effect now cur = cur)
    ∧ ∀ r, KeyOp.addInt64 n (c.addend m) = some r → (c.op key m).outcome cur = .ok r
      ∧ c.text ((c.op key m).effect now cur) = some (some (formatInt r)) := by
  have unchanged : alive now (Look.ofLive cur).current = cur := by
    cases cur <;> exact live
  unfold KeyOp.outcome KeyOp.answer KeyOp.effect KeyOp.after
  cases c with
  | incrBy | decrBy =>
    simp only [op, KeyOp.incrBy, holds.incrStart (by simp)]
    constructor
    · intro none_
      simp only [none_]
      exact ⟨rfl, unchanged⟩
    · intro r sum
      simp only [sum]
      exact ⟨rfl, congrArg (text _) (alive_written live (.string (formatInt r)))⟩
  | hIncrBy field =>
    obtain ⟨old, found, start⟩ := holds.hashOf
    simp only [op, KeyOp.hIncrBy, found, start]
    constructor
    · intro none_
      simp only [addend] at none_
      simp only [none_]
      exact ⟨rfl, unchanged⟩
    · intro r sum
      simp only [addend] at sum
      simp only [sum]
      have written := alive_written live (.hash (old.insert field (formatInt r)))
      refine ⟨rfl, (congrArg (text _) written).trans ?_⟩
      simp only [text, Finmap.lookup_insert]

/-! ## The commands are exact -/

/-- The sum or difference is replied and stored if it is a 64-bit integer; if not, that is
the reply and nothing changes. -/
structure Exact (c : Counter) (now : Time) (s : Store) (key : Key) (n m : Int) (o : Outcome) :
    Prop where
  counted : IsInt64 (c.total n m) → o.reply = .int (c.total n m)
    ∧ c.text (o.store.live now key) = some (some (formatInt (c.total n m)))
  refused : ¬ IsInt64 (c.total n m) → o.reply = .error .incrOverflow ∧ o.store.live now = s.live now

theorem total_eq (fits : IsInt64 m) (negatable : ¬ (c = decrBy ∧ m = minInt64)) :
    n + c.addend m = c.total n m := by
  cases c with
  | decrBy =>
    have fits' : IsInt64 (-m) := by
      simp only [true_and] at negatable
      unfold IsInt64 minInt64 maxInt64 at *
      omega
    rw [addend, wrap64_eq_self fits']
    rfl
  | _ => rfl

/-- A counter is exact except for `DECRBY` of the least integer, which is never. -/
theorem counts_exactly_iff (fl : FloatOps) (name : Bytes) {amount : Bytes} (unlimited : s.maxMem = 0)
    (parsed : parseInt amount = some m) (holds : c.Holds n (s.live now key)) :
    c.Exact now s key n m (c.command.dispatch fl now s (c.args name key amount))
      ↔ ¬ (c = decrBy ∧ m = minInt64) := by
  have fits := parseInt_isInt64 parsed
  have sum := addInt64_eq (b := c.addend m) holds.isInt64
  obtain ⟨onError, overflow, reply, store⟩ := c.reply_eq now s key name fl parsed
  obtain ⟨nothing, summed⟩ := op_decides key m holds (s.alive_live now key)
  rw [s.run_outcome now key unlimited (op_regular key m)] at reply
  have left := s.run_live now key unlimited (c.op_regular key m)
  rw [← store] at left
  constructor
  · rintro ⟨counted, refused⟩ ⟨rfl, rfl⟩
    -- the negative of the least integer is the least integer again
    have addend_eq : decrBy.addend minInt64 = minInt64 := by decide
    have total_eq : decrBy.total n minInt64 = n - minInt64 := rfl
    have sumFits : IsInt64 (n + minInt64) ↔ 0 ≤ n := by
      have held := holds.isInt64
      unfold IsInt64 minInt64 maxInt64 at *
      omega
    have differenceFits : IsInt64 (n - minInt64) ↔ n < 0 := by
      have held := holds.isInt64
      unfold IsInt64 minInt64 maxInt64 at *
      omega
    rw [addend_eq] at sum nothing summed
    rw [total_eq, differenceFits] at counted refused
    by_cases negative : n < 0
    · rw [if_neg (by rw [sumFits]; omega)] at sum
      have told := (counted negative).1
      rw [reply, (nothing sum).1] at told
      cases overflow.symm.trans told
    · rw [if_pos (sumFits.mpr (by omega))] at sum
      have told := (refused negative).1
      rw [reply, (summed _ sum).1] at told
      cases told
  · intro negatable
    rw [total_eq fits negatable] at sum
    constructor
    · intro inside
      rw [if_pos inside] at sum
      obtain ⟨outcome, written⟩ := summed _ sum
      rw [reply, outcome, left, Function.update_self]
      exact ⟨rfl, written⟩
    · intro outside
      rw [if_neg outside] at sum
      obtain ⟨outcome, same⟩ := nothing sum
      rw [reply, outcome, left, same, Function.update_eq_self]
      exact ⟨overflow, rfl⟩

end Counter

/-- `DECRBY` of a counter that is not there. -/
theorem decremented_exactly :
    Counter.decrBy.Exact 1 (newStore .noeviction 0 sortedOracle) (ascii "k") 0 5
      (Counter.decrBy.command.dispatch integerFloats 1 (newStore .noeviction 0 sortedOracle)
        (Counter.decrBy.args (ascii "DECRBY") (ascii "k") (ascii "5"))) :=
  (Counter.counts_exactly_iff integerFloats _ rfl (by decide +kernel) (.inl ⟨rfl, rfl⟩)).mpr (by decide)

/-- The least integer is subtracted as if it were added. -/
theorem least_subtracted :
    (Command.decrby.dispatch integerFloats 1 (newStore .noeviction 0 sortedOracle)
        [ascii "DECRBY", ascii "k", ascii "-9223372036854775808"]).reply = .int (-9223372036854775808)
      ∧ ¬ IsInt64 (Counter.decrBy.total 0 (-9223372036854775808)) := by
  decide +kernel

end SuperCache
