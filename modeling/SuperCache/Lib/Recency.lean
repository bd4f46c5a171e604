import Mathlib.Data.List.Basic

/-! # Recency lists

A list of keys kept by moving each key to the front when it is used.  Such a list
stands in the order of the last uses, so its last key is the one whose last use is
oldest, whatever keys have been removed in between.
-/

namespace SuperCache.Lib

variable {α : Type} [BEq α] {log keys keys' : List α} {key victim : α}

/-- The keys stand in the order of their last uses; `log` has the uses, newest first. -/
def Recent (log keys : List α) : Prop :=
  keys.Pairwise fun a b => log.idxOf a < log.idxOf b

theorem Recent.remove (recent : Recent log keys) (sub : keys'.Sublist keys) : Recent log keys' :=
  List.Pairwise.sublist sub recent

theorem Recent.oldest (recent : Recent log keys) (last : keys.getLast? = some victim)
    (listed : key ∈ keys) : log.idxOf key ≤ log.idxOf victim := by
  obtain ⟨init, rfl⟩ := List.getLast?_eq_some_iff.mp last
  rcases List.mem_append.mp listed with earlier | same
  · exact Nat.le_of_lt ((List.pairwise_append.mp recent).2.2 key earlier victim (by simp))
  · exact Nat.le_of_eq (by rw [List.mem_singleton.mp same])

variable [LawfulBEq α]

theorem Recent.elsewhere (recent : Recent log keys) (absent : key ∉ keys) :
    Recent (key :: log) keys := by
  refine List.Pairwise.imp_of_mem ?_ recent
  intro a b inA inB before
  have other {c : α} (listed : c ∈ keys) : key ≠ c := fun same => absent (same ▸ listed)
  rw [List.idxOf_cons_ne _ (other inA), List.idxOf_cons_ne _ (other inB)]
  omega

theorem Recent.front [DecidableEq α] (recent : Recent log keys) :
    Recent (key :: log) (key :: keys.filter (· ≠ key)) := by
  have absent : key ∉ keys.filter (· ≠ key) := by simp
  refine List.Pairwise.cons ?_ ((recent.remove List.filter_sublist).elsewhere absent)
  intro other listed
  have differs : key ≠ other := fun same => absent (same ▸ listed)
  rw [List.idxOf_cons_self, List.idxOf_cons_ne _ differs]
  omega

end SuperCache.Lib
