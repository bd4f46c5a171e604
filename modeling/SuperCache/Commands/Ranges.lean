import SuperCache.Commands.Collections
import SuperCache.Commands.Strings
import SuperCache.Lib.Positions
import SuperCache.Store.LiveKeys

/-! # Positions and ranges

`LRANGE`, `LTRIM`, `LINDEX`, `LSET` and `GETRANGE` move a position that is out of
range to the nearest end of the value before they look whether the range is empty
or the position is there.  What each of them makes of every pair of integers is
compared here with the positions that were asked for.
-/

namespace SuperCache

open Lib

/-! ## Handlers with one call -/

section Calls

variable {ρ : Type} {onError : StoreErr → Reply} {sent : ρ → List ReplicatePayload}
  {reply : ρ → Reply}

def told (onError : StoreErr → Reply) (reply : ρ → Reply) : Except StoreErr ρ → Reply
  | .error failure => onError failure
  | .ok result => reply result

@[simp] theorem reply_ofCall (call : Store × Except StoreErr ρ) :
    (Outcome.ofCall call onError sent reply).reply = told onError reply call.2 := by
  obtain ⟨s, failure | result⟩ := call <;> rfl

@[simp] theorem store_ofCall (call : Store × Except StoreErr ρ) :
    (Outcome.ofCall call onError sent reply).store = call.1 := by
  obtain ⟨s, failure | result⟩ := call <;> rfl

theorem run_readLive {now deadline : Time} {s : Store} {key : Key} {value : Value} {absent result : ρ}
    {read : Value → Option ρ} (live : s.live now key = some { value, expiresAt := deadline })
    (found : read value = some result) :
    (s.run now key (KeyOp.readLive absent read)).2 = .ok result := by
  rw [s.run_read_outcome now key (KeyOp.readLive_regular _ _) (KeyOp.readLive_readOnly _ _), live]
  simp only [KeyOp.outcome, KeyOp.answer, Look.ofLive, KeyOp.readLive, found]
  rfl

end Calls

theorem ofBytes_nilIfEmpty_iff (bytes : Bytes) :
    Reply.ofBytes (nilIfEmpty bytes) = .bulk bytes ↔ bytes ≠ [] := by
  unfold nilIfEmpty
  split <;> simp_all [Reply.ofBytes]

theorem clamped_eq (n : Nat) (idx : Int) : KeyOp.normalizeListIndex idx n = clamped n idx :=
  rfl

theorem max_clamped {n : Nat} (positive : 0 < n) (idx : Int) : max 0 (clamped n idx) = clamped n idx :=
  max_eq_right (clamped_bounds positive idx).1

theorem min_clamped {n : Nat} (positive : 0 < n) (idx : Int) :
    min (n - 1 : Int) (clamped n idx) = clamped n idx :=
  min_eq_right (by have := (clamped_bounds positive idx).2; omega)

/-! ## Ranges of a list -/

section Lists

variable {now deadline : Time} {s : Store} {key : Key} {elements : List Bytes} {start stop : Int}

def listEntry (elements : List Bytes) (deadline : Time) : Option Entry :=
  if elements = [] then none else some { value := .list elements, expiresAt := deadline }

theorem listEntry_injective {rest rest' : List Bytes} :
    listEntry rest deadline = listEntry rest' deadline ↔ rest = rest' := by
  unfold listEntry
  split <;> split <;> simp_all [eq_comm]

theorem alive_listEntry {value : Value} (rest : List Bytes)
    (live : s.live now key = some { value, expiresAt := deadline }) :
    alive now (listEntry rest deadline) = listEntry rest deadline := by
  unfold listEntry
  split
  · rfl
  · exact alive_same_deadline _ (live ▸ s.alive_live now key)

theorem lRangeOf_eq_iff (filled : elements ≠ []) :
    KeyOp.lRangeOf start stop elements = ranged start stop elements
      ↔ ¬ (place elements.length stop < 0 ∧ place elements.length start ≤ 0) := by
  have positive : 0 < elements.length := List.length_pos_iff.mpr filled
  simp only [KeyOp.lRangeOf, clamped_eq, max_clamped positive, min_clamped positive]
  rw [if_neg (by omega)]
  by_cases past : 0 ≤ start ∧ (elements.length : Int) ≤ start
  · have first : place elements.length start = start := if_neg (by omega)
    rw [if_pos past, ranged, between_eq_cut (by omega), cut_eq_nil _ (by omega)]
    exact iff_of_true rfl (by omega)
  · have before : place elements.length start < elements.length := by
      unfold place
      split <;> omega
    rw [if_neg past]
    refine (cut_clamped_iff filled start stop).trans (not_congr ?_)
    unfold Spills
    omega

theorem lTrim_effect (live : s.live now key = some { value := .list elements, expiresAt := deadline })
    (filled : elements ≠ []) :
    (KeyOp.lTrim start stop).effect now (s.live now key)
      = listEntry (cut (clamped elements.length start) (clamped elements.length stop) elements)
          deadline := by
  have positive : 0 < elements.length := List.length_pos_iff.mpr filled
  rw [← alive_listEntry _ live, live]
  refine congrArg (alive now) ?_
  simp only [KeyOp.after, Look.ofLive, KeyOp.lTrim, clamped_eq, max_clamped positive,
    min_clamped positive]
  rw [if_neg (by omega)]
  split
  · next empty =>
    rw [cut_eq_nil _ empty]
    rfl
  · next nonempty =>
    rw [cut, if_neg nonempty]
    change _ = if KeyOp.slice elements _ _ = [] then none else _
    split <;> rfl

theorem lTrim_immediate : (KeyOp.lTrim start stop).Immediate :=
  KeyOp.immediate_of_decides fun _ => KeyOp.lTrim_decides [] start stop

/-- `LRANGE` and `LTRIM` select the positions that were asked for exactly when the bounds do
not spill. -/
theorem list_ranges_iff (name name' : Bytes) {first last : Bytes}
    (live : s.live now key = some { value := .list elements, expiresAt := deadline })
    (filled : elements ≠ []) (parsed : parseInt first = some start)
    (parsed' : parseInt last = some stop) :
    ((cmdLRange now s [name, key, first, last]).reply
          = .array ((ranged start stop elements).map some)
        ∧ (cmdLTrim now s [name', key, first, last]).store.live now
          = Function.update (s.live now) key (listEntry (ranged start stop elements) deadline))
      ↔ ¬ Spills elements.length start stop := by
  have trimmed := (s.run_immediate now key (KeyOp.lTrim_regular start stop) lTrim_immediate).1
  have read : (s.run now key (KeyOp.lRange start stop)).2 = .ok (KeyOp.lRangeOf start stop elements) :=
    run_readLive live rfl
  simp only [cmdLRange, cmdLTrim, parsed, parsed', reply_ofCall, store_ofCall, read, told, trimmed,
    lTrim_effect live filled, Reply.array.injEq]
  rw [(List.map_injective_iff.mpr (Option.some_injective _)).eq_iff, lRangeOf_eq_iff filled,
    (Function.update_injective _ key).eq_iff, listEntry_injective, cut_clamped_iff filled]
  unfold Spills
  omega

/-- The list of `a`, `b` and `c`. -/
def lettersStore : Store :=
  (cmdRPush 1 (newStore .noeviction 0 sortedOracle)
    [ascii "RPUSH", ascii "l", ascii "a", ascii "b", ascii "c"]).store

theorem letters_live : lettersStore.live 1 (ascii "l")
    = some { value := .list [ascii "a", ascii "b", ascii "c"], expiresAt := 0 } :=
  rfl

theorem parseInt_last : parseInt (ascii "-1") = some (-1) :=
  rfl

theorem last_two_kept :
    (cmdLRange 1 lettersStore [ascii "LRANGE", ascii "l", ascii "-2", ascii "9"]).reply
        = .array ((ranged (-2) 9 [ascii "a", ascii "b", ascii "c"]).map some)
      ∧ (cmdLTrim 1 lettersStore [ascii "LTRIM", ascii "l", ascii "-2", ascii "9"]).store.live 1
        = Function.update (lettersStore.live 1) (ascii "l")
          (listEntry (ranged (-2) 9 [ascii "a", ascii "b", ascii "c"]) 0) :=
  (list_ranges_iff _ _ letters_live (by decide) rfl rfl).mpr (by decide)

/-- A range that ends before the list begins holds its first element. -/
theorem range_before_list :
    (cmdLRange 1 lettersStore [ascii "LRANGE", ascii "l", ascii "0", ascii "-9"]).reply
        = .array [some (ascii "a")]
      ∧ ranged 0 (-9) [ascii "a", ascii "b", ascii "c"] = []
      ∧ (cmdLTrim 1 lettersStore [ascii "LTRIM", ascii "l", ascii "5", ascii "9"]).store.live 1
          (ascii "l") = listEntry [ascii "c"] 0
      ∧ ranged 5 9 [ascii "a", ascii "b", ascii "c"] = [] := by
  decide +kernel

/-! ## Positions of a list -/

theorem lSet_spec (live : s.live now key = some { value := .list elements, expiresAt := deadline })
    (filled : elements ≠ []) (index : Int) (val : Bytes) :
    (s.run now key (KeyOp.lSet index val)).1.live now
        = Function.update (s.live now) key (listEntry (if (elements.length : Int) ≤ index then elements
          else elements.set (clamped elements.length index).toNat val) deadline)
      ∧ (s.run now key (KeyOp.lSet index val)).2
        = if (elements.length : Int) ≤ index then .error .listIndex else .ok () := by
  have positive : 0 < elements.length := List.length_pos_iff.mpr filled
  obtain ⟨low, high⟩ := clamped_bounds positive index
  have immediate : (KeyOp.lSet index val).Immediate :=
    KeyOp.immediate_of_decides fun _ => KeyOp.lSet_decides [] index val
  obtain ⟨left, result⟩ := s.run_immediate now key (KeyOp.lSet_regular index val) immediate
  have sees : (0 ≤ index ∧ (elements.length : Int) ≤ index) ∨ clamped elements.length index < 0
      ∨ (elements.length : Int) ≤ clamped elements.length index ↔ (elements.length : Int) ≤ index := by
    omega
  rw [left, result, live, ← alive_listEntry _ live]
  simp only [KeyOp.effect, KeyOp.outcome, KeyOp.after, KeyOp.answer, Look.ofLive, KeyOp.lSet,
    clamped_eq, sees]
  split
  · rw [listEntry, if_neg filled]
    exact ⟨rfl, rfl⟩
  · rw [listEntry, if_neg (by simpa using filled)]
    exact ⟨rfl, rfl⟩

/-- `LINDEX` and `LSET` address the position that was asked for exactly when it is not before
the list and, for `LINDEX`, the element there is not empty. -/
theorem list_positions_iff (name name' val : Bytes) {word : Bytes} {index : Int}
    (live : s.live now key = some { value := .list elements, expiresAt := deadline })
    (filled : elements ≠ []) (parsed : parseInt word = some index) :
    let held := -(elements.length : Int) ≤ index ∧ index < elements.length
    let position := (place elements.length index).toNat
    ((cmdLIndex now s [name, key, word]).reply
          = (if held then .ofBytes elements[position]? else .nil)
        ∧ (cmdLSet now s [name', key, word, val]).reply
          = (if held then .ok else .error .indexRange)
        ∧ (cmdLSet now s [name', key, word, val]).store.live now = Function.update (s.live now) key
          (listEntry (if held then elements.set position val else elements) deadline))
      ↔ -(elements.length : Int) ≤ index ∧ (index < elements.length → elements[position]? ≠ some []) := by
  intro held position
  have positive : 0 < elements.length := List.length_pos_iff.mpr filled
  obtain ⟨left, result⟩ := lSet_spec live filled index val
  have read : (s.run now key (KeyOp.lIndex index)).2 = .ok (KeyOp.lIndexOf index elements) :=
    run_readLive live rfl
  simp only [cmdLIndex, cmdLSet, parsed, reply_ofCall, store_ofCall, read, told, left, result,
    KeyOp.lIndexOf, clamped_eq, if_neg positive.ne']
  by_cases early : index < -(elements.length : Int)
  · have outside : ¬ held := fun held => absurd held.1 (by omega)
    simp only [if_neg outside, if_neg (by omega : ¬ (elements.length : Int) ≤ index)]
    exact iff_of_false (fun both => by cases both.2.1) (fun both => by omega)
  by_cases late : (elements.length : Int) ≤ index
  · have outside : ¬ held := fun held => absurd held.2 (by omega)
    simp only [if_neg outside, if_pos late, if_pos (⟨by omega, late⟩ : 0 ≤ index ∧ _)]
    exact iff_of_true ⟨rfl, rfl, trivial⟩ ⟨by omega, fun inside => by omega⟩
  · have inside : held := ⟨by omega, by omega⟩
    have same : clamped elements.length index = place elements.length index := by
      unfold clamped place
      split <;> omega
    have short : position < elements.length := by
      unfold position place
      split <;> omega
    have reads : Reply.ofBytes (elements[position]?.bind nilIfEmpty) = .ofBytes elements[position]?
        ↔ elements[position]? ≠ some [] := by
      rw [List.getElem?_eq_getElem short]
      rw [Option.bind_some, ne_eq, Option.some.injEq]
      exact ofBytes_nilIfEmpty_iff elements[position]
    simp only [if_pos inside, if_neg late, if_neg (fun both => late both.2 : ¬ (0 ≤ index ∧ _)), same]
    exact ⟨fun both => ⟨inside.1, fun _ => reads.mp both.1⟩,
      fun both => ⟨reads.mpr (both.2 inside.2), trivial, rfl⟩⟩

theorem letters_last_set :
    (cmdLIndex 1 lettersStore [ascii "LINDEX", ascii "l", ascii "-1"]).reply = .bulk (ascii "c")
      ∧ (cmdLSet 1 lettersStore [ascii "LSET", ascii "l", ascii "-1", ascii "z"]).reply = .ok
      ∧ (cmdLSet 1 lettersStore [ascii "LSET", ascii "l", ascii "-1", ascii "z"]).store.live 1
        = Function.update (lettersStore.live 1) (ascii "l")
          (listEntry [ascii "a", ascii "b", ascii "z"] 0) :=
  (list_positions_iff _ _ _ letters_live (by decide) parseInt_last).mpr (by decide)

/-- An index before the list is the first element's. -/
theorem letters_before_set :
    (cmdLIndex 1 lettersStore [ascii "LINDEX", ascii "l", ascii "-4"]).reply = .bulk (ascii "a")
      ∧ (cmdLSet 1 lettersStore [ascii "LSET", ascii "l", ascii "-4", ascii "z"]).reply = .ok
      ∧ (cmdLSet 1 lettersStore [ascii "LSET", ascii "l", ascii "-4", ascii "z"]).store.live 1
          (ascii "l") = listEntry [ascii "z", ascii "b", ascii "c"] 0 := by
  decide +kernel

/-! ## `LREM` -/

/-- The list without the first `k` occurrences of `value`. -/
def erased (value : Bytes) (k : Nat) (elements : List Bytes) : List Bytes :=
  (fun rest => rest.erase value)^[k] elements

/-- What `LREM` is to leave. -/
def afterRemoval (count : Int) (value : Bytes) (elements : List Bytes) : List Bytes :=
  if count = 0 then elements.filter fun element => element ≠ value
  else if 0 < count then erased value count.natAbs elements
  else (erased value count.natAbs elements.reverse).reverse

theorem erased_cons_of_ne {value element : Bytes} (differs : element ≠ value) (k : Nat)
    (rest : List Bytes) : erased value k (element :: rest) = element :: erased value k rest := by
  induction k generalizing rest with
  | zero => rfl
  | succ k ih =>
    change erased value k ((element :: rest).erase value) = element :: erased value k (rest.erase value)
    rw [List.erase_cons_tail (by simpa using differs), ih]

theorem erased_nil (value : Bytes) (k : Nat) : erased value k [] = [] := by
  induction k with
  | zero => rfl
  | succ k ih => exact ih

theorem dropMatches_eq (value : Bytes) (k : Nat) (elements : List Bytes) :
    KeyOp.dropMatches value k elements = erased value k elements := by
  induction elements generalizing k with
  | nil => rw [erased_nil, KeyOp.dropMatches]
  | cons element rest ih =>
    rw [KeyOp.dropMatches]
    by_cases same : element = value
    · subst same
      cases k with
      | zero => rw [if_neg (by simp), ih]; rfl
      | succ k =>
        rw [if_pos (by simp), ih]
        change erased element k rest = erased element k ((element :: rest).erase element)
        rw [List.erase_cons_head]
    · rw [if_neg (by simp [same]), ih, erased_cons_of_ne same]

theorem erased_sublist (value : Bytes) (k : Nat) (elements : List Bytes) :
    (erased value k elements).Sublist elements := by
  induction k generalizing elements with
  | zero => exact .refl _
  | succ k ih => exact (ih _).trans List.erase_sublist

theorem erased_eq_self_iff {value : Bytes} {k : Nat} (positive : 0 < k) {elements : List Bytes} :
    erased value k elements = elements ↔ value ∉ elements := by
  constructor
  · obtain ⟨k, rfl⟩ := Nat.exists_eq_add_of_lt positive
    intro same member
    have shorter := (erased_sublist value (0 + k) (elements.erase value)).length_le
    rw [show erased value (0 + k) (elements.erase value) = elements from same,
      List.length_erase_of_mem member] at shorter
    have := List.length_pos_of_mem member
    omega
  · exact fun absent => Function.iterate_fixed (List.erase_of_not_mem absent) k

theorem lRemOf_eq {count : Int} (fits : IsInt64 count) (value : Bytes) :
    KeyOp.lRemOf count value elements
      = if count = minInt64 then elements else afterRemoval count value elements := by
  unfold KeyOp.lRemOf afterRemoval
  simp only [dropMatches_eq]
  by_cases least : count = minInt64
  · subst least
    exact List.reverse_reverse elements
  · rw [if_neg least]
    split
    · rfl
    · split
      · rw [show count.toNat = count.natAbs by omega]
      · have negated : IsInt64 (-count) := by
          unfold IsInt64 minInt64 maxInt64 at *
          omega
        rw [wrap64_eq_self negated, show (-count).toNat = count.natAbs by omega]

theorem lRem_immediate (count : Int) (value : Bytes) : (KeyOp.lRem count value).Immediate :=
  KeyOp.immediate_of_decides fun _ => KeyOp.lRem_decides [] count value fun inexact =>
    absurd inexact Bool.false_ne_true

/-- `LREM` does what it says exactly when there is something in the list and either the count
is not the least one or there is nothing to remove. -/
theorem lrem_iff (name value : Bytes) {word : Bytes} {count : Int}
    (live : s.live now key = some { value := .list elements, expiresAt := deadline })
    (parsed : parseInt word = some count) :
    ((cmdLRem now s [name, key, word, value]).reply
          = .int (elements.length - (afterRemoval count value elements).length)
        ∧ (cmdLRem now s [name, key, word, value]).store.live now
          = Function.update (s.live now) key (listEntry (afterRemoval count value elements) deadline))
      ↔ elements ≠ [] ∧ (count = minInt64 → value ∉ elements) := by
  obtain ⟨left, result⟩ :=
    s.run_immediate now key (KeyOp.lRem_regular count value) (lRem_immediate count value)
  simp only [cmdLRem, parsed, reply_ofCall, store_ofCall, left, result, live,
    (Function.update_injective _ key).eq_iff]
  cases elements with
  | nil =>
    -- An empty list is left where it is.
    have nothing : afterRemoval count value [] = [] := by
      unfold afterRemoval
      split
      · rfl
      · split <;> simp [erased_nil]
    have kept : (KeyOp.lRem count value).effect now (some { value := .list [], expiresAt := deadline })
        = some { value := .list [], expiresAt := deadline } := by
      have alive := s.alive_live now key
      rw [live] at alive
      exact alive
    rw [nothing, kept]
    exact iff_of_false (fun both => by cases both.2) fun both => both.1 rfl
  | cons element rest =>
    have effect : (KeyOp.lRem count value).effect now
          (some { value := .list (element :: rest), expiresAt := deadline })
        = listEntry (KeyOp.lRemOf count value (element :: rest)) deadline := by
      rw [← alive_listEntry _ live]
      refine congrArg (alive now) ?_
      simp only [KeyOp.after, Look.ofLive, KeyOp.lRem, KeyOp.commitMutated, listEntry]
      split <;> rfl
    have answer : (KeyOp.lRem count value).outcome
          (some { value := .list (element :: rest), expiresAt := deadline })
        = .ok ((element :: rest).length - (KeyOp.lRemOf count value (element :: rest)).length) := by
      simp only [KeyOp.outcome, KeyOp.answer, Look.ofLive, KeyOp.lRem, KeyOp.commitMutated]
      split <;> rfl
    rw [effect, answer, listEntry_injective, lRemOf_eq (parseInt_isInt64 parsed)]
    by_cases least : count = minInt64
    · have same : afterRemoval count value (element :: rest) = element :: rest ↔ value ∉ element :: rest := by
        subst least
        rw [← List.mem_reverse, ← erased_eq_self_iff (by decide : 0 < minInt64.natAbs)]
        exact List.reverse_eq_iff
      rw [if_pos least, eq_comm (a := element :: rest), same]
      refine ⟨fun both => ⟨List.cons_ne_nil _ _, fun _ => both.2⟩, fun both => ?_⟩
      rw [same.mpr (both.2 least)]
      exact ⟨rfl, both.2 least⟩
    · rw [if_neg least]
      exact iff_of_true ⟨rfl, rfl⟩ ⟨List.cons_ne_nil _ _, fun is => absurd is least⟩

def twiceStore : Store :=
  (cmdRPush 1 (newStore .noeviction 0 sortedOracle)
    [ascii "RPUSH", ascii "l", ascii "a", ascii "b", ascii "a"]).store

theorem twice_live : twiceStore.live 1 (ascii "l")
    = some { value := .list [ascii "a", ascii "b", ascii "a"], expiresAt := 0 } :=
  rfl

theorem last_removed :
    (cmdLRem 1 twiceStore [ascii "LREM", ascii "l", ascii "-1", ascii "a"]).reply = .int 1
      ∧ (cmdLRem 1 twiceStore [ascii "LREM", ascii "l", ascii "-1", ascii "a"]).store.live 1
        = Function.update (twiceStore.live 1) (ascii "l") (listEntry [ascii "a", ascii "b"] 0) :=
  (lrem_iff _ _ twice_live parseInt_last).mpr (by decide)

/-- The least count removes nothing. -/
theorem none_removed :
    parseInt (ascii "-9223372036854775808") = some minInt64
      ∧ (cmdLRem 1 twiceStore
          [ascii "LREM", ascii "l", ascii "-9223372036854775808", ascii "a"]).reply = .int 0
      ∧ (cmdLRem 1 twiceStore
          [ascii "LREM", ascii "l", ascii "-9223372036854775808", ascii "a"]).store.live 1 (ascii "l")
        = listEntry [ascii "a", ascii "b", ascii "a"] 0 := by
  decide +kernel

end Lists

/-! ## Substrings -/

theorem getRangeOf_eq (bytes : Bytes) (start stop : Int) : getRangeOf bytes start stop
    = cut (clamped bytes.length start) (clamped bytes.length stop) bytes :=
  rfl

theorem run_get {now deadline : Time} {s : Store} {key : Key} {bytes : Bytes}
    (live : s.live now key = some { value := .string bytes, expiresAt := deadline }) :
    (s.run now key KeyOp.get).2 = .ok (nilIfEmpty bytes) := by
  rw [s.run_read_outcome now key KeyOp.get_regular KeyOp.get_readOnly, live]
  rfl

/-- `GETRANGE` replies with the bytes that were asked for exactly when the bounds do not
spill. -/
theorem getrange_iff (name : Bytes) {now deadline : Time} {s : Store} {key : Key} {bytes : Bytes}
    {first last : Bytes} {start stop : Int}
    (live : s.live now key = some { value := .string bytes, expiresAt := deadline })
    (filled : bytes ≠ []) (parsed : parseInt first = some start)
    (parsed' : parseInt last = some stop) :
    (cmdGetRange now s [name, key, first, last]).reply = .bulk (ranged start stop bytes)
      ↔ ¬ Spills bytes.length start stop := by
  simp only [cmdGetRange, parsed, parsed', reply_ofCall, run_get live, nilIfEmpty, if_neg filled, told,
    Reply.bulk.injEq, getRangeOf_eq]
  exact cut_clamped_iff filled start stop

def wordStore : Store :=
  (cmdSet 1 (newStore .noeviction 0 sortedOracle) [ascii "SET", ascii "k", ascii "abc"]).store

theorem word_live : wordStore.live 1 (ascii "k") = some { value := .string (ascii "abc") } :=
  rfl

theorem word_tail :
    (cmdGetRange 1 wordStore [ascii "GETRANGE", ascii "k", ascii "1", ascii "9"]).reply
      = .bulk (ranged 1 9 (ascii "abc")) :=
  (getrange_iff _ word_live (by decide) rfl rfl).mpr (by decide)

/-- A range after the value holds its last byte. -/
theorem range_after_word :
    (cmdGetRange 1 wordStore [ascii "GETRANGE", ascii "k", ascii "5", ascii "9"]).reply
        = .bulk (ascii "c")
      ∧ ranged 5 9 (ascii "abc") = [] := by
  decide +kernel

end SuperCache
