import Mathlib.Data.List.TakeWhile
import SuperCache.Server.Config
import SuperCache.Store.KeyOp

/-! # What `max_memory` says

The limit is written as a number and a unit, parsed as a `uint64`, kept in the store and
compared as an `int64`.  A limit from `2 ^ 63` on is negative in that comparison.
-/

namespace SuperCache.Config

open Lib

def isDigit (byte : Byte) : Bool :=
  (digitValue byte).isSome

/-- What is written: a decimal number of units, with the case of letters and spaces around
both parts left out of account. -/
def limitWritten (text : Bytes) : Option Nat :=
  let text := trimSpace (toLower text)
  (parseDigits (text.takeWhile isDigit)).bind fun number =>
    (memorySuffix (trimSpace (text.dropWhile isDigit))).map (number * ·)

/-- The limit that `refreshConfigCache` keeps. -/
def maxMemCache (text : Bytes) : Nat :=
  match parseMemoryBytes text with
  | .ok n => n
  | .error _ => 0

/-! ## The number that is parsed -/

theorem isDigit_of_parseDigits {text : Bytes} {n : Nat} (parsed : parseDigits text = some n) :
    ∀ byte ∈ text, isDigit byte = true := by
  intro byte listed
  rw [isDigit, digitValue, if_pos (digits_of_parseDigits parsed byte listed)]
  rfl

theorem takeWhile_number {text : Bytes} {n : Nat}
    (parsed : parseDigits (text.reverse.dropWhile fun byte => (digitValue byte).isNone).reverse = some n) :
    text.takeWhile isDigit = (text.reverse.dropWhile fun byte => (digitValue byte).isNone).reverse := by
  generalize back : text.reverse = reversed at parsed ⊢
  rw [← List.reverse_reverse text, back]
  have rest : ∀ byte ∈ (reversed.takeWhile fun byte => (digitValue byte).isNone).reverse,
      isDigit byte = false := by
    intro byte listed
    have plain := List.mem_takeWhile_imp (List.mem_reverse.mp listed)
    simpa [isDigit] using plain
  have ended : (reversed.takeWhile fun byte => (digitValue byte).isNone).reverse.takeWhile isDigit = [] := by
    refine List.takeWhile_eq_nil_iff.mpr fun nonempty => ?_
    rw [rest _ (List.get_mem _ _)]
    exact Bool.false_ne_true
  conv_lhs => rw [← List.takeWhile_append_dropWhile (p := fun byte => (digitValue byte).isNone) (l := reversed)]
  rw [List.reverse_append, List.takeWhile_append_of_pos (isDigit_of_parseDigits parsed), ended,
    List.append_nil]

theorem parseMemoryBytes_written {text : Bytes} {limit written : Nat}
    (parsed : parseMemoryBytes text = .ok limit) (said : limitWritten text = some written) :
    limit = written ∧ limit < 2 ^ 64 := by
  unfold parseMemoryBytes at parsed
  unfold limitWritten at said
  generalize trimSpace (toLower text) = text at parsed said
  simp only at parsed said
  split at parsed
  · next zero =>
    cases parsed
    obtain rfl | rfl := zero
    · exact ⟨Option.some.inj said, by decide⟩
    · cases said
  · split at parsed
    · cases parsed
    · split at parsed
      · cases parsed
      · cases parsed
      · next n mul number unit =>
        split at parsed
        · cases parsed
        · next fits =>
          cases parsed
          obtain ⟨digits, same⟩ : parseDigits _ = some n ∧ n < 2 ^ 64 := by
            unfold parseUint at number
            obtain ⟨m, digits, small⟩ := Option.bind_eq_some_iff.mp number
            split at small
            · next bound =>
              cases small
              exact ⟨digits, bound⟩
            · cases small
          have front := takeWhile_number digits
          have back : text.dropWhile isDigit = text.drop (text.takeWhile isDigit).length := by
            have parts := List.takeWhile_append_dropWhile (p := isDigit) (l := text)
            calc text.dropWhile isDigit
                = (text.takeWhile isDigit ++ text.dropWhile isDigit).drop (text.takeWhile isDigit).length :=
                  (List.drop_left' rfl).symm
              _ = text.drop (text.takeWhile isDigit).length := by rw [parts]
          rw [back, front, digits, Option.bind_some, unit, Option.map_some] at said
          have positive : 0 < mul := by
            unfold memorySuffix at unit
            split_ifs at unit <;> cases unit <;> decide
          have product := (Nat.le_div_iff_mul_le positive).mp (Nat.not_lt.mp fits)
          exact ⟨Option.some.inj said, by omega⟩

/-! ## The comparison -/

section Comparison

variable {s : Store} {delta : Int}

theorem evictLoop_starts (avoidKey : Key) (fuel : Nat) :
    Store.evictLoop avoidKey delta (fuel + 1) false s ≠ (s, .ok false) ↔ s.overLimit delta = true := by
  constructor
  · intro started
    by_contra fits
    exact started (by rw [Store.evictLoop, if_neg fits])
  · intro full same
    have fits := (Store.evictLoop_ok same).1
    simp [fits] at full

theorem overLimit_iff (small : s.maxMem < 2 ^ 64) (fits : IsInt64 (s.mem + delta)) :
    (s.overLimit delta = true ↔ (s.maxMem : Int) < s.mem + delta)
      ↔ (s.maxMem : Int) ≤ maxInt64 ∨ s.mem + delta ≤ s.maxMem - 2 ^ 64 := by
  obtain ⟨-, upper⟩ := fits
  rw [Store.overLimit, decide_eq_true_iff, wrap64]
  simp only [maxInt64] at upper ⊢
  rcases Nat.lt_or_ge s.maxMem (2 ^ 63) with low | high
  · exact iff_of_true (by omega) (.inl (by omega))
  · -- the comparison is with a negative number, and the limit is beyond every sum
    have negative : ((s.maxMem : Int) + 2 ^ 63) % 2 ^ 64 - 2 ^ 63 = s.maxMem - 2 ^ 64 := by omega
    rw [negative]
    omega

end Comparison

/-- The limit is the one that is written exactly when it is at most `2 ^ 63 - 1`, or the
counter is so far below zero that the sum is below the limit even as a negative number. -/
theorem limit_as_written_iff {text : Bytes} {limit : Nat} (valid : validateMaxMemoryString text = none)
    (written : limitWritten text = some limit) (limited : limit ≠ 0) {s : Store}
    (cached : s.maxMem = maxMemCache text) {delta : Int} (positive : 0 < delta)
    (fits : IsInt64 (s.mem + delta)) (key : Key) :
    ((s.ensureMemoryWithRetry key delta ≠ (s, .ok false) ↔ (limit : Int) < s.mem + delta)
        ∧ (s.evictUntilFits delta ≠ (s, .ok false) ↔ (limit : Int) < s.mem + delta))
      ↔ (limit : Int) ≤ maxInt64 ∨ s.mem + delta ≤ limit - 2 ^ 64 := by
  unfold validateMaxMemoryString at valid
  split at valid
  · next n parsed =>
    obtain ⟨rfl, small⟩ := parseMemoryBytes_written parsed written
    rw [maxMemCache, parsed] at cached
    subst cached
    rw [Store.ensureMemoryWithRetry, Store.evictUntilFits, if_neg (by simp [limited, positive]),
      if_neg limited, evictLoop_starts, evictLoop_starts, and_self, overLimit_iff small fits]
  · cases valid

/-- Half a gigabyte is not exceeded by one byte. -/
theorem half_gigabyte_as_written :
    let s := newStore .noeviction (maxMemCache (ascii "512mb")) sortedOracle
    limitWritten (ascii "512mb") = some 536870912 ∧
      ((s.ensureMemoryWithRetry [] 1 ≠ (s, .ok false) ↔ (536870912 : Int) < s.mem + 1)
        ∧ (s.evictUntilFits 1 ≠ (s, .ok false) ↔ (536870912 : Int) < s.mem + 1)) := by
  have written : limitWritten (ascii "512mb") = some 536870912 := by decide +kernel
  exact ⟨written, (limit_as_written_iff (by decide +kernel) written (by decide) rfl (by decide) (by decide) []).mpr
    (.inl (by decide))⟩

/-- With a limit of `2 ^ 63` bytes, the first byte is refused. -/
theorem huge_limit_refuses :
    let s := newStore .noeviction (maxMemCache (ascii "9223372036854775808")) sortedOracle
    validateMaxMemoryString (ascii "9223372036854775808") = none
      ∧ limitWritten (ascii "9223372036854775808") = some (2 ^ 63)
      ∧ s.mem = 0 ∧ (s.ensureMemoryWithRetry [] 1).2.isOk = false
      ∧ (s.evictUntilFits 1).2.isOk = false := by
  decide +kernel

end SuperCache.Config
