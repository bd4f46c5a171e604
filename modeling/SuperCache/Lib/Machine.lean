import Mathlib.Algebra.GroupWithZero.Nat
import Mathlib.Data.List.Induction
import Mathlib.Tactic.Common

/-! # Runs of labelled machines

A machine is a partial function from a state and a label to the next state; the
labels of a run are the choices the scheduler and the environment make.  A run
is guarded when every step meets a condition in the state it is made in, and
`run_invariant` is the rule for what holds at the end of such runs; `run_history`
is the rule for what is said of a run as a whole.
-/

namespace SuperCache.Lib

/-! The parties of concrete runs are numerals of small types: named instances, so that a
numeral holds no proof of its own. -/

instance neZero_one : NeZero 1 := ⟨by decide⟩

instance neZero_two : NeZero 2 := ⟨by decide⟩

instance neZero_three : NeZero 3 := ⟨by decide⟩

namespace Machine

variable {σ α : Type*} {step : σ → α → Option σ} {ok : σ → α → Prop}

def run (step : σ → α → Option σ) (m : σ) : List α → Option σ
  | [] => some m
  | label :: rest => (step m label).bind fun next => run step next rest

def Guarded (step : σ → α → Option σ) (ok : σ → α → Prop) (m : σ) : List α → Prop
  | [] => True
  | label :: rest => ok m label ∧ ∀ next, step m label = some next → Guarded step ok next rest

variable {m final next mid : σ} {labels rest : List α} {label : α} {holds : σ → Prop}

theorem exists_run [DecidablePred holds]
    (evaluated : (run step m labels).any (fun final => decide (holds final)) = true) :
    ∃ final, run step m labels = some final ∧ holds final := by
  cases ran : run step m labels with rw [ran] at evaluated
  | none => cases evaluated
  | some final => exact ⟨final, rfl, of_decide_eq_true evaluated⟩

theorem ran (possible : (run step m labels).isSome = true) :
    run step m labels = some ((run step m labels).get possible) :=
  (Option.some_get possible).symm

theorem run_cons :
    run step m (label :: rest) = some final
      ↔ ∃ next, step m label = some next ∧ run step next rest = some final :=
  Option.bind_eq_some_iff

theorem run_append {before after : List α} :
    run step m (before ++ after) = some final
      ↔ ∃ mid, run step m before = some mid ∧ run step mid after = some final := by
  induction before generalizing m with
  | nil => simp [run]
  | cons label rest ih =>
    simp only [List.cons_append, run_cons, ih]
    constructor
    · rintro ⟨next, stepped, mid, first, second⟩
      exact ⟨mid, ⟨next, stepped, first⟩, second⟩
    · rintro ⟨mid, ⟨next, stepped, first⟩, second⟩
      exact ⟨next, stepped, mid, first, second⟩

theorem Guarded.tail (guarded : Guarded step ok m (label :: rest))
    (stepped : step m label = some next) : Guarded step ok next rest :=
  guarded.2 next stepped

theorem guarded_cons_of_some (stepped : step m label = some next) :
    Guarded step ok m (label :: rest) ↔ ok m label ∧ Guarded step ok next rest := by
  refine and_congr_right fun _ => ⟨fun later => later next stepped, fun later other same => ?_⟩
  cases stepped.symm.trans same
  exact later

theorem guarded_cons_of_none (stuck : step m label = none) :
    Guarded step ok m (label :: rest) ↔ ok m label := by
  refine and_iff_left fun other same => ?_
  cases stuck.symm.trans same

instance decidableGuarded [∀ m label, Decidable (ok m label)] (m : σ) (labels : List α) :
    Decidable (Guarded step ok m labels) :=
  match labels with
  | [] => .isTrue trivial
  | label :: rest =>
    match stepped : step m label with
    | none => decidable_of_iff _ (guarded_cons_of_none stepped).symm
    | some next =>
      have := decidableGuarded next rest
      decidable_of_iff _ (guarded_cons_of_some stepped).symm

theorem Guarded.and_labels {among : α → Prop} (guarded : Guarded step ok m labels)
    (all : ∀ label ∈ labels, among label) :
    Guarded step (fun m label => ok m label ∧ among label) m labels := by
  induction labels generalizing m with
  | nil => trivial
  | cons label rest ih =>
    refine ⟨⟨guarded.1, all label List.mem_cons_self⟩, fun next stepped => ?_⟩
    exact ih (guarded.tail stepped)
      fun later listed => all later (List.mem_cons_of_mem label listed)

theorem Guarded.concat (guarded : Guarded step ok m labels) (ran : run step m labels = some mid)
    (last : ok mid label) : Guarded step ok m (labels ++ [label]) := by
  induction labels generalizing m with
  | nil =>
    cases ran
    exact ⟨last, fun _ _ => trivial⟩
  | cons first rest ih =>
    obtain ⟨next, stepped, later⟩ := run_cons.mp ran
    refine ⟨guarded.1, fun other same => ?_⟩
    cases stepped.symm.trans same
    exact ih (guarded.tail stepped) later

theorem run_concat (ran : run step m labels = some mid) (stepped : step mid label = some next) :
    run step m (labels ++ [label]) = some next :=
  run_append.mpr ⟨mid, ran, run_cons.mpr ⟨next, stepped, rfl⟩⟩

theorem Guarded.and {ok' : σ → α → Prop} (one : Guarded step ok m labels)
    (other : Guarded step ok' m labels) :
    Guarded step (fun m label => ok m label ∧ ok' m label) m labels := by
  induction labels generalizing m with
  | nil => trivial
  | cons label rest ih =>
    exact ⟨⟨one.1, other.1⟩, fun next stepped =>
      ih (one.tail stepped) (other.tail stepped)⟩

theorem run_invariant {invariant : σ → Prop}
    (keeps : ∀ m label next, invariant m → ok m label → step m label = some next → invariant next)
    (start : invariant m) (guarded : Guarded step ok m labels)
    (ran : run step m labels = some final) : invariant final := by
  induction labels generalizing m with
  | nil =>
    cases ran
    exact start
  | cons label rest ih =>
    obtain ⟨next, stepped, later⟩ := run_cons.mp ran
    exact ih (keeps m label next start guarded.1 stepped)
      (guarded.tail stepped) later

theorem run_history (holds : List α → σ → Prop) (start : holds [] m)
    (keeps : ∀ labels s label next, holds labels s → step s label = some next →
      holds (labels ++ [label]) next) (ran : run step m labels = some final) :
    holds labels final := by
  induction labels using List.reverseRecOn generalizing final with
  | nil =>
    cases ran
    exact start
  | append_singleton rest label ih =>
    obtain ⟨mid, before, last⟩ := run_append.mp ran
    obtain ⟨next, stepped, done⟩ := run_cons.mp last
    cases done
    exact keeps rest mid label final (ih before) stepped

theorem guarded_history (holds : List α → σ → Prop) (start : holds [] m)
    (keeps : ∀ labels s label next, holds labels s → ok s label → step s label = some next →
      holds (labels ++ [label]) next) (guarded : Guarded step ok m labels)
    (ran : run step m labels = some final) : holds labels final := by
  suffices onward : ∀ before, holds before m → holds (before ++ labels) final from onward [] start
  clear start
  induction labels generalizing m with
  | nil =>
    intro before here
    cases ran
    rwa [List.append_nil]
  | cons label rest ih =>
    intro before here
    obtain ⟨next, stepped, later⟩ := run_cons.mp ran
    have onward := ih (guarded.tail stepped) later (before ++ [label])
      (keeps before m label next here guarded.1 stepped)
    rwa [List.append_assoc] at onward

def Passes (step : σ → α → Option σ) (m : σ) (labels : List α) (holds : σ → Prop) : Prop :=
  ∃ before after mid, labels = before ++ after ∧ run step m before = some mid ∧ holds mid

theorem Passes.append (passes : Passes step m labels holds) (more : List α) :
    Passes step m (labels ++ more) holds := by
  obtain ⟨before, after, mid, rfl, ran, here⟩ := passes
  exact ⟨before, after ++ more, mid, List.append_assoc .., ran, here⟩

theorem Passes.of_append (ran : run step m (labels ++ [label]) = some next)
    (passes : Passes step m (labels ++ [label]) holds) :
    Passes step m labels holds ∨ holds next := by
  obtain ⟨before, after, mid, split, reached, here⟩ := passes
  rcases List.eq_nil_or_concat after with rfl | ⟨rest, last, rfl⟩
  · rw [List.append_nil] at split
    rw [← split, ran] at reached
    cases reached
    exact .inr here
  · rw [List.concat_eq_append, ← List.append_assoc] at split
    exact .inl ⟨before, rest, mid, (List.append_inj_left' split rfl), reached, here⟩

theorem Passes.here (ran : run step m labels = some mid) (now : holds mid) :
    Passes step m labels holds :=
  ⟨labels, [], mid, (List.append_nil labels).symm, ran, now⟩

end Machine

end SuperCache.Lib
