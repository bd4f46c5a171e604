import Mathlib.Data.Finmap
import Mathlib.Data.Finset.Sort
import Mathlib.Data.List.Sort
import Mathlib.Algebra.BigOperators.Group.Finset.Basic
import Mathlib.Algebra.Order.BigOperators.Group.Multiset
import Mathlib.Tactic.Abel

/-! # Finite maps with a weight

Facts about `Finmap` that Mathlib does not state: lookups as one conditional
equation, the weight of a map (a sum over its entries), and the enumeration of
a finite set in increasing order by a function that computes in the kernel.
-/

namespace SuperCache.Lib

variable {α β : Type*} [DecidableEq α]

/-! ## Lookups -/

theorem lookup_insert_eq_ite (key other : α) (value : β) (map : Finmap fun _ : α => β) :
    (map.insert key value).lookup other = if other = key then some value else map.lookup other := by
  by_cases same : other = key
  · subst same
    rw [if_pos rfl, Finmap.lookup_insert]
  · rw [if_neg same, Finmap.lookup_insert_of_ne map same]

theorem lookup_erase_eq_ite (key other : α) (map : Finmap fun _ : α => β) :
    (map.erase key).lookup other = if other = key then none else map.lookup other := by
  by_cases same : other = key
  · subst same
    rw [if_pos rfl, Finmap.lookup_erase]
  · rw [if_neg same, Finmap.lookup_erase_ne same]

/-! ## Weights -/

/-- The sum of `cost key value` over the entries of a map. -/
def weight (cost : α → β → Int) (map : Finmap fun _ : α => β) : Int :=
  (map.entries.map fun entry => cost entry.1 entry.2).sum

omit [DecidableEq α] in
@[simp] theorem weight_empty (cost : α → β → Int) :
    weight cost (∅ : Finmap fun _ : α => β) = 0 :=
  rfl

variable {map : Finmap fun _ : α => β} {key : α}

theorem weight_insert_new (cost : α → β → Int) (value : β) (fresh : key ∉ map) :
    weight cost (map.insert key value) = cost key value + weight cost map := by
  unfold weight
  rw [Finmap.entries_insert_of_notMem fresh, Multiset.map_cons, Multiset.sum_cons]

theorem insert_erase_of_lookup {value : β} (found : map.lookup key = some value) :
    (map.erase key).insert key value = map := by
  apply Finmap.ext_lookup
  intro other
  rw [lookup_insert_eq_ite, lookup_erase_eq_ite]
  split
  · next same => rw [same, found]
  · rfl

theorem weight_erase (cost : α → β → Int) {value : β} (found : map.lookup key = some value) :
    weight cost (map.erase key) = weight cost map - cost key value := by
  have fresh : key ∉ map.erase key := Finmap.notMem_erase_self
  have split := weight_insert_new cost value fresh
  rw [insert_erase_of_lookup found] at split
  rw [split]
  abel

theorem erase_of_lookup_none (absent : map.lookup key = none) : map.erase key = map := by
  apply Finmap.ext_lookup
  intro other
  rw [lookup_erase_eq_ite]
  split
  · next same => rw [same, absent]
  · rfl

theorem weight_insert (cost : α → β → Int) (map : Finmap fun _ : α => β) (key : α) (value : β) :
    weight cost (map.insert key value)
      = weight cost map - ((map.lookup key).elim 0 (cost key)) + cost key value := by
  have overwrite : map.insert key value = (map.erase key).insert key value := by
    apply Finmap.ext_lookup
    intro other
    simp only [lookup_insert_eq_ite, lookup_erase_eq_ite]
    split <;> rfl
  rw [overwrite, weight_insert_new cost value Finmap.notMem_erase_self]
  cases found : map.lookup key with
  | none =>
    rw [erase_of_lookup_none found]
    simp only [Option.elim]
    abel
  | some old =>
    rw [weight_erase cost found]
    simp only [Option.elim]
    abel

omit [DecidableEq α] in
theorem weight_nonneg (cost : α → β → Int) (nonneg : ∀ key value, 0 ≤ cost key value)
    (map : Finmap fun _ : α => β) : 0 ≤ weight cost map := by
  apply Multiset.sum_nonneg
  intro summand member
  obtain ⟨entry, -, rfl⟩ := Multiset.mem_map.mp member
  exact nonneg _ _

/-! ## Increasing enumeration -/

section Sorted

variable {γ : Type*} [LinearOrder γ]

/-- The elements of a finite set in increasing order.  `Finset.sort` is
`List.mergeSort`, which does not reduce in the kernel; insertion sort does. -/
def sortedElems (elems : Finset γ) : List γ :=
  Quot.liftOn elems.val (List.insertionSort (· ≤ ·)) fun left right perm =>
    List.Perm.eq_of_pairwise (fun _ _ _ _ => le_antisymm)
      (List.pairwise_insertionSort _ left) (List.pairwise_insertionSort _ right)
      ((List.perm_insertionSort _ left).trans (perm.trans (List.perm_insertionSort _ right).symm))

theorem coe_sortedElems (elems : Finset γ) : (sortedElems elems : Multiset γ) = elems.val := by
  obtain ⟨entries, nodup⟩ := elems
  induction entries using Quot.inductionOn with
  | h list => exact Multiset.coe_eq_coe.mpr (List.perm_insertionSort _ list)

theorem mem_sortedElems {elems : Finset γ} {element : γ} :
    element ∈ sortedElems elems ↔ element ∈ elems := by
  rw [← Multiset.mem_coe, coe_sortedElems, Finset.mem_val]

theorem nodup_sortedElems (elems : Finset γ) : (sortedElems elems).Nodup := by
  rw [← Multiset.coe_nodup, coe_sortedElems]
  exact elems.nodup

theorem pairwise_sortedElems (elems : Finset γ) : (sortedElems elems).Pairwise (· < ·) := by
  have sorted : (sortedElems elems).Pairwise (· ≤ ·) := by
    obtain ⟨entries, nodup⟩ := elems
    induction entries using Quot.inductionOn with
    | h list => exact List.pairwise_insertionSort _ list
  exact (sorted.and (nodup_sortedElems elems)).imp fun pair => lt_of_le_of_ne pair.1 pair.2

end Sorted

end SuperCache.Lib
