import Mathlib.Data.List.Basic
import Mathlib.Logic.Relation

/-! # Readers and writers

Go's `sync.RWMutex` as a state.  A writer first takes its turn among the writers, and
waits for the readers there are to leave; a reader that comes while a writer has the turn
is blocked until that writer is done, and then all blocked readers are let in.
`not_transGen_of_rank` is the rule by which a relation of waiting has no cycle.
-/

namespace SuperCache.Lib

structure RwMutex (τ : Type) where
  turn : Option τ
  readers : List τ
  blocked : List τ

namespace RwMutex

variable {τ : Type} [DecidableEq τ]

def free : RwMutex τ where
  turn := none
  readers := []
  blocked := []

/-- `RLock` is called: the reader is let in, or blocked. -/
def arriveRead (lock : RwMutex τ) (i : τ) : RwMutex τ :=
  if lock.turn.isNone then { lock with readers := i :: lock.readers }
  else { lock with blocked := i :: lock.blocked }

/-- `RUnlock`. -/
def leaveRead (lock : RwMutex τ) (i : τ) : RwMutex τ :=
  { lock with readers := lock.readers.filter (· ≠ i) }

/-- The first half of `Lock`. -/
def takeTurn (lock : RwMutex τ) (i : τ) : RwMutex τ :=
  { lock with turn := some i }

/-- `Unlock`. -/
def release (lock : RwMutex τ) : RwMutex τ where
  turn := none
  readers := lock.blocked ++ lock.readers
  blocked := []

end RwMutex

theorem not_transGen_of_rank {α : Type} {r : α → α → Prop} (rank : α → Nat)
    (decreases : ∀ a b, r a b → rank b < rank a) (a : α) : ¬ Relation.TransGen r a a := by
  intro cycle
  have descends : ∀ b, Relation.TransGen r a b → rank b < rank a := by
    intro b path
    induction path with
    | single step => exact decreases _ _ step
    | tail path step ih =>
      exact Nat.lt_trans (decreases _ _ step) ih
  exact Nat.lt_irrefl _ (descends a cycle)

end SuperCache.Lib
