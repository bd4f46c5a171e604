import Mathlib.Data.List.Basic
import Mathlib.Logic.Function.Conjugate

/-! # Logs of several owners

The actions of several owners in the order they took effect.  When actions of
different owners commute, what is left to do after the first action of one owner
is the log without it: `take_first`.
-/

namespace SuperCache.Lib

variable {ι α σ : Type*} {act : α → σ → σ}

structure Owned (ι α : Type*) where
  owner : ι
  action : α

def replayLog (act : α → σ → σ) (log : List (Owned ι α)) (state : σ) : σ :=
  log.foldl (fun state item => act item.action state) state

def Independent (act : α → σ → σ) (log : List (Owned ι α)) : Prop :=
  log.Pairwise fun a b => a.owner ≠ b.owner → Function.Commute (act a.action) (act b.action)

theorem replayLog_append (first second : List (Owned ι α)) (state : σ) :
    replayLog act (first ++ second) state = replayLog act second (replayLog act first state) :=
  List.foldl_append

theorem replayLog_map (i : ι) (actions : List α) (state : σ) :
    replayLog act (actions.map (Owned.mk i)) state
      = actions.foldl (fun state action => act action state) state :=
  List.foldl_map

variable [DecidableEq ι]

def ofOwner (i : ι) (log : List (Owned ι α)) : List α :=
  (log.filter (·.owner = i)).map Owned.action

theorem ofOwner_cons_self (i : ι) (action : α) (log : List (Owned ι α)) :
    ofOwner i (⟨i, action⟩ :: log) = action :: ofOwner i log := by
  simp [ofOwner]

variable {i : ι} {log : List (Owned ι α)}

theorem ofOwner_cons_of_ne {item : Owned ι α} (other : item.owner ≠ i) (log : List (Owned ι α)) :
    ofOwner i (item :: log) = ofOwner i log := by
  simp [ofOwner, other]

theorem mem_ofOwner {action : α} : action ∈ ofOwner i log ↔ ⟨i, action⟩ ∈ log := by
  simp only [ofOwner, List.mem_map, List.mem_filter, decide_eq_true_eq]
  constructor
  · rintro ⟨item, ⟨member, rfl⟩, rfl⟩
    exact member
  · intro member
    exact ⟨_, ⟨member, rfl⟩, rfl⟩

theorem ofOwner_append_self (i : ι) (log : List (Owned ι α)) (actions : List α) :
    ofOwner i (log ++ actions.map (Owned.mk i)) = ofOwner i log ++ actions := by
  simp [ofOwner, List.filter_map, Function.comp_def]

theorem ofOwner_append_of_ne {j : ι} (other : j ≠ i) (log : List (Owned ι α)) (actions : List α) :
    ofOwner j (log ++ actions.map (Owned.mk i)) = ofOwner j log := by
  simp [ofOwner, List.filter_map, Function.comp_def, other.symm]

theorem eq_nil_of_ofOwner (empty : ∀ i, ofOwner i log = []) : log = [] := by
  refine List.eq_nil_iff_forall_not_mem.mpr fun item member => ?_
  have here : item.action ∈ ofOwner item.owner log := mem_ofOwner.mpr member
  rw [empty item.owner] at here
  cases here

theorem Independent.append {actions : List α} (independent : Independent act log)
    (apart : ∀ j ≠ i, ∀ b ∈ ofOwner j log, ∀ a ∈ actions, Function.Commute (act b) (act a)) :
    Independent act (log ++ actions.map (Owned.mk i)) := by
  refine List.pairwise_append.mpr ⟨independent, ?_, ?_⟩
  · refine List.pairwise_map.mpr (List.pairwise_of_forall fun _ _ different => ?_)
    exact absurd rfl different
  · intro item member new listed different
    obtain ⟨action, mine, rfl⟩ := List.mem_map.mp listed
    exact apart item.owner different item.action (mem_ofOwner.mpr member) action mine

theorem take_first {a : α} {rest : List α} (independent : Independent act log)
    (own : ofOwner i log = a :: rest) :
    ∃ log', log'.Sublist log ∧ ofOwner i log' = rest ∧ (∀ j ≠ i, ofOwner j log' = ofOwner j log)
      ∧ ∀ state, replayLog act log state = replayLog act log' (act a state) := by
  induction log with
  | nil => cases own
  | cons head tail ih =>
    obtain ⟨commutes, independent⟩ := List.pairwise_cons.mp independent
    by_cases mine : head.owner = i
    · subst mine
      rw [ofOwner_cons_self] at own
      obtain ⟨rfl, rfl⟩ := List.cons.inj own
      exact ⟨tail, List.sublist_cons_self .., rfl,
        fun j other => (ofOwner_cons_of_ne other.symm _).symm, fun _ => rfl⟩
    · rw [ofOwner_cons_of_ne mine] at own
      obtain ⟨log', sublist, left, others, replays⟩ := ih independent own
      have member : ⟨i, a⟩ ∈ tail := mem_ofOwner.mp (by rw [own]; exact List.mem_cons_self)
      refine ⟨head :: log', sublist.cons_cons head, ?_, fun j other => ?_, fun state => ?_⟩
      · rw [ofOwner_cons_of_ne mine, left]
      · by_cases theirs : head.owner = j
        · subst theirs
          rw [ofOwner_cons_self, ofOwner_cons_self, others _ other]
        · rw [ofOwner_cons_of_ne theirs, ofOwner_cons_of_ne theirs, others j other]
      · -- the head is of another owner: the action moves past it
        have swap := commutes ⟨i, a⟩ member mine state
        exact (replays _).trans (congrArg (replayLog act log') swap.symm)

/-- Logs with the same actions of each owner, in the same order, leave the same state. -/
theorem replayLog_eq_of_ofOwner {log' : List (Owned ι α)} (independent : Independent act log')
    (same : ∀ i, ofOwner i log' = ofOwner i log) (state : σ) :
    replayLog act log' state = replayLog act log state := by
  induction log generalizing log' state with
  | nil => rw [eq_nil_of_ofOwner same]
  | cons head rest ih =>
    have first := (same head.owner).trans (ofOwner_cons_self head.owner head.action rest)
    obtain ⟨left, sublist, own, others, replays⟩ := take_first independent first
    rw [replays]
    apply ih (independent.sublist sublist)
    intro i
    by_cases mine : head.owner = i
    · rw [← mine, own]
    · rw [others i (Ne.symm mine), same i, ofOwner_cons_of_ne mine]

end SuperCache.Lib
