import SuperCache.Store.LiveKeys

/-! # Operations that keep the deadline

Every operation builds the entry it leaves by itself.  Those that change a value in place
give it the deadline of the entry they found, and what they make of the value does not
depend on the deadline.
-/

namespace SuperCache

open Lib

namespace KeyOp

def Keeps {ρ : Type} (op : KeyOp ρ) : Prop :=
  ∀ value, ∃ result : Option Value, ∀ deadline,
    op.after (.live { value, expiresAt := deadline })
      = result.map fun new => { value := new, expiresAt := deadline }

variable {ρ : Type} {key : Key}

@[simp] theorem append_keeps (tail : Bytes) : (append key tail).Keeps := by
  intro value
  cases value <;> exact ⟨some _, fun _ => rfl⟩

@[simp] theorem incrBy_keeps (delta : Int) : (incrBy key delta).Keeps := by
  intro value
  cases value with
  | string text =>
    simp only [after, incrBy, incrStart]
    cases parseCounter text with
    | error failure => exact ⟨some _, fun _ => rfl⟩
    | ok cur =>
      simp only
      cases addInt64 cur delta <;> exact ⟨some _, fun _ => rfl⟩
  | _ => exact ⟨some _, fun _ => rfl⟩

/-! ## Hashes and sets -/

@[simp] theorem hSet_keeps (pairs : GoMap Bytes) : (hSet key pairs).Keeps := by
  intro value
  cases value <;> exact ⟨some _, fun _ => rfl⟩

@[simp] theorem hSetNX_keeps (field val : Bytes) : (hSetNX key field val).Keeps := by
  intro value
  cases value with
  | hash old =>
    simp only [after, hSetNX, hashOf]
    split <;> exact ⟨some _, fun _ => rfl⟩
  | _ => exact ⟨some _, fun _ => rfl⟩

@[simp] theorem hIncrBy_keeps (field : Bytes) (delta : Int) : (hIncrBy key field delta).Keeps := by
  intro value
  cases value with
  | hash old =>
    simp only [after, hIncrBy, hashOf]
    cases parseCounter ((old.lookup field).getD []) with
    | error failure => exact ⟨some _, fun _ => rfl⟩
    | ok cur =>
      simp only
      cases addInt64 cur delta <;> exact ⟨some _, fun _ => rfl⟩
  | _ => exact ⟨some _, fun _ => rfl⟩

@[simp] theorem hIncrByFloat_keeps (fl : FloatOps) (field : Bytes) (delta : fl.F) :
    (hIncrByFloat fl key field delta).Keeps := by
  intro value
  cases value with
  | hash old =>
    simp only [after, hIncrByFloat, hashOf]
    cases parseFloatCounter fl ((old.lookup field).getD []) <;> exact ⟨some _, fun _ => rfl⟩
  | _ => exact ⟨some _, fun _ => rfl⟩

@[simp] theorem hDel_keeps (fields : List Bytes) : (hDel fields).Keeps := by
  intro value
  cases value with
  | hash old =>
    simp only [after, hDel]
    split
    · exact ⟨none, fun _ => rfl⟩
    · exact ⟨some _, fun _ => rfl⟩
  | _ => exact ⟨some _, fun _ => rfl⟩

@[simp] theorem sAdd_keeps (members : List Bytes) : (sAdd key members).Keeps := by
  intro value
  cases value <;> exact ⟨some _, fun _ => rfl⟩

@[simp] theorem sRem_keeps (members : List Bytes) : (sRem members).Keeps := by
  intro value
  cases value with
  | set old =>
    simp only [after, sRem]
    split
    · exact ⟨none, fun _ => rfl⟩
    · exact ⟨some _, fun _ => rfl⟩
  | _ => exact ⟨some _, fun _ => rfl⟩

theorem replaceSet_keeps (members : List Bytes) : (replaceSet key members).Keeps :=
  fun _ => ⟨some _, fun _ => rfl⟩

/-! ## Lists -/

theorem lLen_keeps : lLen.Keeps := by
  intro value
  cases value <;> exact ⟨some _, fun _ => rfl⟩

@[simp] theorem listPush_keeps (vals : List Bytes) (left : Bool) : (listPush key vals left).Keeps := by
  unfold listPush
  split
  · exact lLen_keeps
  · intro value
    cases value <;> exact ⟨some _, fun _ => rfl⟩

@[simp] theorem listPushX_keeps (vals : List Bytes) (left : Bool) : (listPushX key vals left).Keeps := by
  unfold listPushX
  split
  · exact lLen_keeps
  · intro value
    cases value <;> exact ⟨some _, fun _ => rfl⟩

theorem commitMutated_keeps (rest : List Bytes) (answer : ρ) :
    ∃ result : Option Value, ∀ (value : Value) (deadline : Time) (cur : Option Entry),
      (commitMutated { value, expiresAt := deadline } rest answer).post cur
        = result.map fun new => { value := new, expiresAt := deadline } := by
  by_cases emptied : rest = []
  · exact ⟨none, fun _ _ _ => by simp [commitMutated, emptied, Commit.post]⟩
  · exact ⟨some (.list rest), fun _ _ _ => by simp [commitMutated, emptied, Commit.post]⟩

@[simp] theorem listPop_keeps (take : List Bytes → List Bytes × List Bytes) : (listPop take).Keeps := by
  intro value
  cases value with
  | list elements =>
    cases elements with
    | nil => exact ⟨some _, fun _ => rfl⟩
    | cons first rest =>
      obtain ⟨result, post⟩ := commitMutated_keeps (take (first :: rest)).2 (take (first :: rest)).1
      exact ⟨result, fun deadline => post _ deadline _⟩
  | _ => exact ⟨some _, fun _ => rfl⟩

@[simp] theorem lRem_keeps (count : Int) (val : Bytes) : (lRem count val).Keeps := by
  intro value
  cases value with
  | list elements =>
    cases elements with
    | nil => exact ⟨some _, fun _ => rfl⟩
    | cons first rest =>
      obtain ⟨result, post⟩ := commitMutated_keeps (lRemOf count val (first :: rest))
        (((first :: rest).length - (lRemOf count val (first :: rest)).length : Int))
      exact ⟨result, fun deadline => post _ deadline _⟩
  | _ => exact ⟨some _, fun _ => rfl⟩

@[simp] theorem lSet_keeps (index : Int) (val : Bytes) : (lSet index val).Keeps := by
  intro value
  cases value with
  | list elements =>
    simp only [after, lSet]
    split <;> exact ⟨some _, fun _ => rfl⟩
  | _ => exact ⟨some _, fun _ => rfl⟩

@[simp] theorem lTrim_keeps (start stop : Int) : (lTrim start stop).Keeps := by
  intro value
  cases value with
  | list elements =>
    simp only [after, lTrim]
    split
    · exact ⟨some _, fun _ => rfl⟩
    · split
      · exact ⟨none, fun _ => rfl⟩
      · split
        · exact ⟨none, fun _ => rfl⟩
        · exact ⟨some _, fun _ => rfl⟩
  | _ => exact ⟨some _, fun _ => rfl⟩

@[simp] theorem lInsert_keeps (before : Bool) (pivot insert : Bytes) :
    (lInsert key before pivot insert).Keeps := by
  intro value
  cases value with
  | list elements =>
    simp only [after, lInsert]
    split <;> exact ⟨some _, fun _ => rfl⟩
  | _ => exact ⟨some _, fun _ => rfl⟩

end KeyOp

end SuperCache
