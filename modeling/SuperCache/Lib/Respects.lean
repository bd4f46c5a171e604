import Mathlib.Logic.Function.Basic

/-! # State functions that respect a relation

A function from a state to the next state and a result respects a relation when
related states give the same result and lead to related states.  The rules follow
the shape of such functions: no effect, an observation, one after another.
-/

namespace SuperCache.Lib

variable {σ α β : Type*}

def Respects (R : σ → σ → Prop) (f : σ → σ × α) : Prop :=
  ∀ ⦃s t : σ⦄, R s t → R (f s).1 (f t).1 ∧ (f s).2 = (f t).2

namespace Respects

variable {R : σ → σ → Prop} {f : σ → σ × α}

theorem pure (result : α) : Respects R fun s => (s, result) :=
  fun _ _ related => ⟨related, rfl⟩

theorem bind {g : α → σ → σ × β} (first : Respects R f) (next : ∀ result, Respects R (g result)) :
    Respects R fun s => g (f s).2 (f s).1 := by
  intro s t related
  obtain ⟨reached, same⟩ := first related
  simp only [same]
  exact next _ reached

theorem map (first : Respects R f) (change : α → β) :
    Respects R fun s => ((f s).1, change (f s).2) :=
  first.bind fun result => .pure (change result)

end Respects

def andThen {ε : Type*} (f : σ → σ × Except ε α) (g : α → σ → σ × Except ε β) (s : σ) :
    σ × Except ε β :=
  match f s with
  | (s, .error failure) => (s, .error failure)
  | (s, .ok result) => g result s

theorem Respects.andThen {ε : Type*} {R : σ → σ → Prop} {f : σ → σ × Except ε α}
    {g : α → σ → σ × Except ε β} (first : Respects R f) (next : ∀ result, Respects R (g result)) :
    Respects R (andThen f g) := by
  intro s t related
  obtain ⟨reached, same⟩ := first related
  unfold Lib.andThen
  rcases left : f s with ⟨s', failure | result⟩ <;> rcases right : f t with ⟨t', other⟩ <;>
    rw [left, right] at reached same <;> subst same
  · exact ⟨reached, rfl⟩
  · exact next result reached

end SuperCache.Lib
