import Mathlib.Data.Set.Lattice
import Mathlib.Order.CompletePartialOrder

/-! # Local transformations

A transformation of functions is local to a set of points if it changes nothing
elsewhere, and what it does there depends on nothing elsewhere.  Transformations
that are local to disjoint sets commute.
-/

namespace SuperCache.Lib

variable {κ ν : Type*} {points points' : Set κ} {f g : (κ → ν) → κ → ν}

structure LocalTo (points : Set κ) (f : (κ → ν) → κ → ν) : Prop where
  frame : ∀ view, ∀ key ∉ points, f view key = view key
  reads : ∀ view view', (∀ key ∈ points, view key = view' key) →
    ∀ key ∈ points, f view key = f view' key

theorem LocalTo.id (points : Set κ) : LocalTo points (fun view : κ → ν => view) where
  frame _ _ _ := rfl
  reads _ _ same := same

theorem LocalTo.univ (f : (κ → ν) → κ → ν) : LocalTo Set.univ f where
  frame _ key outside := absurd (Set.mem_univ key) outside
  reads view view' same key _ := by
    rw [show view = view' from funext fun other => same other (Set.mem_univ other)]

theorem LocalTo.update [DecidableEq κ] (key : κ) (change : ν → ν) :
    LocalTo { key } (fun view => Function.update view key (change (view key))) where
  frame view other outside := Function.update_of_ne outside ..
  reads view view' same other here := by
    rw [Set.mem_singleton_iff.mp here, Function.update_self, Function.update_self,
      same key (Set.mem_singleton key)]

theorem LocalTo.commute (first : LocalTo points f) (second : LocalTo points' g)
    (apart : Disjoint points points') : Function.Commute f g := by
  intro view
  funext key
  by_cases inFirst : key ∈ points
  · -- `g` leaves the points of `f` alone, before and after it
    have inSecond : key ∉ points' := Set.disjoint_left.mp apart inFirst
    rw [second.frame (f view) key inSecond]
    refine first.reads _ _ (fun other here => ?_) key inFirst
    exact second.frame view other (Set.disjoint_left.mp apart here)
  · rw [first.frame (g view) key inFirst]
    by_cases inSecond : key ∈ points'
    · refine (second.reads _ _ (fun other here => ?_) key inSecond).symm
      exact first.frame view other (Set.disjoint_right.mp apart here)
    · rw [second.frame view key inSecond, second.frame (f view) key inSecond,
        first.frame view key inFirst]

end SuperCache.Lib
