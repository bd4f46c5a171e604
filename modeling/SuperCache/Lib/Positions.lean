import Mathlib.Data.List.Basic

/-! # Elements between two positions

What a range of positions selects (`between`), the slice a program cuts for it
(`cut`), and where the two part when the bounds are clamped into the list before
they are compared.
-/

namespace SuperCache.Lib

variable {α : Type}

/-- The elements at the positions from `lo` to `hi`, in order. -/
def between (lo hi : Int) (xs : List α) : List α :=
  (xs.zipIdx.filter fun pair => lo ≤ pair.2 ∧ pair.2 ≤ hi).map Prod.fst

/-- A position of a list of `n` elements; a negative one counts from the end. -/
def place (n : Nat) (i : Int) : Int :=
  if i < 0 then n + i else i

/-- What the bounds `start` and `stop` select. -/
def ranged (start stop : Int) (xs : List α) : List α :=
  between (max 0 (place xs.length start)) (min (xs.length - 1) (place xs.length stop)) xs

/-- The slice from `lo` to `hi`, both included. -/
def cut (lo hi : Int) (xs : List α) : List α :=
  if hi < lo then [] else (xs.drop lo.toNat).take (hi + 1 - lo).toNat

def clamped (n : Nat) (i : Int) : Int :=
  if place n i < 0 then 0 else if n ≤ place n i then n - 1 else place n i

def Spills (n : Nat) (start stop : Int) : Prop :=
  (place n stop < 0 ∧ place n start ≤ 0) ∨ (n ≤ place n start ∧ (n = 1 ∨ n - 1 ≤ place n stop))

instance (n : Nat) (start stop : Int) : Decidable (Spills n start stop) :=
  inferInstanceAs (Decidable (_ ∨ _))

variable {lo hi : Int} {xs : List α}

theorem cut_eq_nil (xs : List α) (empty : hi < lo) : cut lo hi xs = [] :=
  if_pos empty

theorem cut_eq_nil_iff (inside : 0 ≤ lo) (short : lo < xs.length) : cut lo hi xs = [] ↔ hi < lo := by
  constructor
  · intro empty
    by_contra nonempty
    rw [cut, if_neg nonempty, List.take_eq_nil_iff, List.drop_eq_nil_iff] at empty
    omega
  · exact cut_eq_nil xs

theorem between_eq_cut (nonneg : 0 ≤ lo) (xs : List α) : between lo hi xs = cut lo hi xs := by
  -- Counting from `k`, what is before `lo` is dropped and what is left up to `hi` is taken.
  have counted (k : Nat) : ((xs.zipIdx k).filter fun pair => lo ≤ pair.2 ∧ pair.2 ≤ hi).map Prod.fst
      = (xs.drop (lo - k).toNat).take (hi + 1 - max lo k).toNat := by
    induction xs generalizing k with
    | nil => simp
    | cons x xs ih =>
      rw [List.zipIdx_cons, List.filter_cons]
      by_cases before : (k : Int) < lo
      · have next : (lo - k).toNat = (lo - (k + 1 : Nat)).toNat + 1 := by omega
        rw [if_neg (by simp; omega), ih, next, List.drop_succ_cons]
        congr 2
        omega
      · have here : (lo - k).toNat = 0 := by omega
        have there : (lo - (k + 1 : Nat)).toNat = 0 := by omega
        have most : max lo k = k := by omega
        have more : max lo (k + 1 : Nat) = (k + 1 : Nat) := by omega
        rw [here, List.drop_zero, most]
        by_cases within : (k : Int) ≤ hi
        · have count : (hi + 1 - k).toNat = (hi + 1 - (k + 1 : Nat)).toNat + 1 := by omega
          rw [if_pos (by simp; omega), List.map_cons, ih, there, List.drop_zero, more, count,
            List.take_succ_cons]
        · have none : (hi + 1 - k).toNat = 0 := by omega
          have still : (hi + 1 - (k + 1 : Nat)).toNat = 0 := by omega
          rw [if_neg (by simp; omega), ih, more, none, still, List.take_zero, List.take_zero]
  have whole := counted 0
  rw [between, whole, cut]
  split
  · rw [show (hi + 1 - max lo (0 : Nat)).toNat = 0 by omega, List.take_zero]
  · rw [show (lo - (0 : Nat)).toNat = lo.toNat by omega,
      show (hi + 1 - max lo (0 : Nat)).toNat = (hi + 1 - lo).toNat by omega]

theorem clamped_bounds {n : Nat} (positive : 0 < n) (i : Int) :
    0 ≤ clamped n i ∧ clamped n i < n := by
  unfold clamped
  split
  · omega
  · split <;> omega

theorem cut_clamped_iff (filled : xs ≠ []) (start stop : Int) :
    cut (clamped xs.length start) (clamped xs.length stop) xs = ranged start stop xs
      ↔ ¬ Spills xs.length start stop := by
  have positive : 0 < xs.length := List.length_pos_iff.mpr filled
  obtain ⟨inside, short⟩ := clamped_bounds positive start
  rw [ranged, between_eq_cut (by omega)]
  unfold Spills
  by_cases within : place xs.length start < xs.length ∧ 0 ≤ place xs.length stop
  · have sameStart : clamped xs.length start = max 0 (place xs.length start) := by
      unfold clamped
      split <;> omega
    have sameStop : clamped xs.length stop = min (xs.length - 1 : Int) (place xs.length stop) := by
      unfold clamped
      split
      · omega
      · split <;> omega
    rw [sameStart, sameStop]
    exact iff_of_true rfl (by omega)
  · -- Nothing is selected, so the slice has to be empty.
    rw [cut_eq_nil xs (by omega : min _ _ < max _ _), cut_eq_nil_iff inside short]
    unfold clamped
    split <;> split <;> omega

end SuperCache.Lib
