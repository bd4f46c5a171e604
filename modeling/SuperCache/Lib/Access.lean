import Mathlib.Data.List.Range
import Mathlib.Tactic.Common

/-! # Accesses to slices

What a run of a program asks of its slices: an element by its index, a part by its two ends,
or a new slice by its length.  An access is safe when the element or the part is there, and
the length is not negative and within a bound.
-/

namespace SuperCache.Lib

inductive Access where
  | index (i : Int) (len : Nat)
  | slice (lo hi : Int) (len : Nat)
  | make (n : Int)
deriving DecidableEq

namespace Access

def Safe (bound : Nat) : Access → Prop
  | .index i len => 0 ≤ i ∧ i < len
  | .slice lo hi len => 0 ≤ lo ∧ lo ≤ hi ∧ hi ≤ len
  | .make n => 0 ≤ n ∧ n ≤ bound

instance (bound : Nat) : ∀ access : Access, Decidable (access.Safe bound)
  | .index _ _ | .make _ => inferInstanceAs (Decidable (_ ∧ _))
  | .slice _ _ _ => inferInstanceAs (Decidable (_ ∧ _ ∧ _))

@[simp] theorem safe_index_nat {bound i len : Nat} :
    (Access.index i len).Safe bound ↔ i < len := by
  simp [Safe]

@[simp] theorem safe_make_nat {bound n : Nat} : (Access.make n).Safe bound ↔ n ≤ bound := by
  simp [Safe]

end Access

def AllSafe (bound : Nat) (accesses : List Access) : Prop :=
  ∀ access ∈ accesses, access.Safe bound

instance (bound : Nat) (accesses : List Access) : Decidable (AllSafe bound accesses) :=
  inferInstanceAs (Decidable (∀ _ ∈ _, _))

section Loops

variable {bound k len : Nat} {first second : List Access} {access : Access}

@[simp] theorem allSafe_nil : AllSafe bound [] :=
  fun _ mem => by cases mem

@[simp] theorem allSafe_cons :
    AllSafe bound (access :: first) ↔ access.Safe bound ∧ AllSafe bound first := by
  simp [AllSafe]

@[simp] theorem allSafe_append :
    AllSafe bound (first ++ second) ↔ AllSafe bound first ∧ AllSafe bound second := by
  simp only [AllSafe, List.mem_append, or_imp, forall_and]

/-- A loop that reads the elements of a slice from the `k`-th on. -/
def eachFrom (k len : Nat) : List Access :=
  (List.range' k (len - k)).map fun (i : Nat) => .index i len

/-- A loop that copies the elements from the `k`-th on to a new slice. -/
def copyFrom (k len : Nat) : List Access :=
  .make (len - k) :: (List.range' k (len - k)).flatMap fun (i : Nat) =>
    [.index (i - k) (len - k), .index i len]

/-- A loop that reads the elements from the `k`-th on two at a time. -/
def pairsFrom (k len : Nat) : List Access :=
  (List.range ((len - k + 1) / 2)).flatMap fun (j : Nat) =>
    [.index (k + 2 * j : Nat) len, .index (k + 2 * j + 1 : Nat) len]

theorem allSafe_eachFrom : AllSafe bound (eachFrom k len) := by
  intro access mem
  obtain ⟨i, inside, rfl⟩ := List.mem_map.mp mem
  rw [List.mem_range'_1] at inside
  rw [Access.safe_index_nat]
  omega

theorem allSafe_copyFrom (le : k ≤ len) (fits : len ≤ bound) : AllSafe bound (copyFrom k len) := by
  unfold copyFrom
  rw [allSafe_cons]
  constructor
  · constructor
    · omega
    · omega
  · intro access mem
    obtain ⟨i, inside, mem⟩ := List.mem_flatMap.mp mem
    rw [List.mem_range'_1] at inside
    simp only [List.mem_cons, List.not_mem_nil, or_false] at mem
    rcases mem with rfl | rfl
    · constructor
      · omega
      · omega
    · rw [Access.safe_index_nat]
      omega

theorem allSafe_pairsFrom (even : (len - k) % 2 = 0) : AllSafe bound (pairsFrom k len) := by
  intro access mem
  obtain ⟨j, inside, mem⟩ := List.mem_flatMap.mp mem
  rw [List.mem_range] at inside
  simp only [List.mem_cons, List.not_mem_nil, or_false] at mem
  rcases mem with rfl | rfl
  · rw [Access.safe_index_nat]
    omega
  · rw [Access.safe_index_nat]
    omega

section Options

variable {α : Type} (takes : α → Option Bool) (valid : α → α → Bool)

/-- A loop over options, each of them a flag or followed by an operand: it stops at an
element that is no option, at a missing operand and at one that is not valid. -/
def optionLoop (len : Nat) : Nat → List α → List Access
  | _, [] => []
  | i, opt :: rest =>
    .index i len :: match takes opt, rest with
      | none, _ | some true, [] => []
      | some false, rest => optionLoop len (i + 1) rest
      | some true, operand :: rest =>
        .index (i + 1 : Nat) len :: if valid opt operand then optionLoop len (i + 2) rest else []

theorem allSafe_optionLoop {opts : List α} {i : Nat} (reaches : i + opts.length ≤ len) :
    AllSafe bound (optionLoop takes valid len i opts) := by
  induction opts using List.twoStepInduction generalizing i with
  | nil => simp [optionLoop]
  | singleton opt =>
    simp only [List.length_singleton] at reaches
    rw [optionLoop.eq_def, allSafe_cons, Access.safe_index_nat]
    refine ⟨reaches, ?_⟩
    cases takes opt with
    | none => simp
    | some operand => cases operand <;> simp [optionLoop]
  | cons_cons opt operand rest flag option =>
    simp only [List.length_cons] at reaches flag option
    rw [optionLoop.eq_def, allSafe_cons, Access.safe_index_nat]
    refine ⟨by omega, ?_⟩
    cases takes opt with
    | none => simp
    | some hasOperand =>
      cases hasOperand with
      | false => exact option _ (by omega)
      | true =>
        simp only [allSafe_cons, Access.safe_index_nat]
        refine ⟨by omega, ?_⟩
        split
        · exact flag (by omega)
        · simp

end Options

end Loops

end SuperCache.Lib
