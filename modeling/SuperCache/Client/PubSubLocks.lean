import SuperCache.Commands.PubSub
import SuperCache.Lib.Machine
import SuperCache.Lib.RwMutex

/-! # The locks of pub/sub

Every session has an output lock, which its own dispatches hold and which a `Publish` takes
for each push; the subscription manager has a readers-writer lock, which `Publish` holds
for reading over all its pushes and which every change of a subscription takes for
writing.  A session runs one dispatch after another, each a sequence of publications and
of changes (one command, or the commands of an `EXEC`), and leaves at last.
-/

namespace SuperCache

open Lib

inductive LockAction where
  | publish (channel message : Bytes)
  | subscribe (kind : SubKind) (name : Bytes)
  | unsubscribe (kind : SubKind) (name : Bytes)

/-- Where a session is.  `acts` is what its dispatch has still to do, `left` the sessions a
running `Publish` has still to push to. -/
inductive LockPhase where
  | idle
  | wantOwn (acts : List LockAction)
  | busy (acts : List LockAction)
  | wantRead (channel message : Bytes) (acts : List LockAction)
  | pushing (left : List Nat) (acts : List LockAction)
  | wantOut (target : Nat) (left : List Nat) (acts : List LockAction)
  | holdOut (target : Nat) (left : List Nat) (acts : List LockAction)
  | wantWrite (change : LockAction) (acts : List LockAction)
  | writing (change : LockAction) (acts : List LockAction)
  | wantLeave
  | leaving
  | gone

namespace LockPhase

def holdsOwn : LockPhase → Bool
  | .busy _ | .wantRead .. | .pushing .. | .wantOut .. | .holdOut .. | .wantWrite .. | .writing .. =>
    true
  | _ => false

def engaged : LockPhase → Bool
  | .wantRead .. | .pushing .. | .wantOut .. | .holdOut .. | .wantWrite .. => true
  | _ => false

/-- The session is in a `Publish` that has called `RLock`. -/
def reads : LockPhase → Bool
  | .wantRead .. | .pushing .. | .wantOut .. | .holdOut .. => true
  | _ => false

/-- The session is in a `Publish` that has the manager's lock. -/
def publishing : LockPhase → Bool
  | .pushing .. | .wantOut .. | .holdOut .. => true
  | _ => false

/-- The session is between `Lock` and `Unlock` of the manager's lock. -/
def turning : LockPhase → Bool
  | .wantWrite .. | .writing .. | .wantLeave | .leaving => true
  | _ => false

/-- The sessions a running `Publish` has still to push to. -/
def remaining : LockPhase → List Nat
  | .pushing left _ => left
  | .wantOut target left _ | .holdOut target left _ => target :: left
  | _ => []

end LockPhase

structure PubSubLocks where
  pubsub : SubscriptionManager
  manager : RwMutex Nat
  outOwner : Nat → Option Nat
  phase : Nat → LockPhase

inductive LockMove where
  | begin (session : Nat) (acts : List LockAction)
  | advance (session : Nat)
  | disconnect (session : Nat)

namespace PubSubLocks

def start : PubSubLocks where
  pubsub := .empty
  manager := .free
  outOwner := fun _ => none
  phase := fun _ => .idle

variable (range : Finset Bytes → List Bytes)

def setPhase (m : PubSubLocks) (i : Nat) (p : LockPhase) : PubSubLocks :=
  { m with phase := Function.update m.phase i p }

def setOwner (m : PubSubLocks) (i : Nat) (owner : Option Nat) : PubSubLocks :=
  { m with outOwner := Function.update m.outOwner i owner }

def applyChange (pubsub : SubscriptionManager) (i : Nat) : LockAction → SubscriptionManager
  | .subscribe kind name => pubsub.modify (SubscriptionManager.add · name i) kind
  | .unsubscribe kind name => pubsub.modify (SubscriptionManager.remove · name i) kind
  | .publish .. => pubsub

/-- `Lock` on the manager: take the turn if it is free, and go on when there is no reader. -/
def lockManager (m : PubSubLocks) (i : Nat) (then' : LockPhase) : Option PubSubLocks :=
  match m.manager.turn with
  | none => some { m with manager := m.manager.takeTurn i }
  | some j => if j = i ∧ m.manager.readers = [] then some (m.setPhase i then') else none

def advance (m : PubSubLocks) (i : Nat) : Option PubSubLocks :=
  match m.phase i with
  | .idle | .gone => none
  | .wantOwn acts =>
    if m.outOwner i = none then some ((m.setOwner i (some i)).setPhase i (.busy acts)) else none
  | .busy [] => some ((m.setOwner i none).setPhase i .idle)
  | .busy (.publish channel message :: acts) =>
    some ({ m with manager := m.manager.arriveRead i }.setPhase i (.wantRead channel message acts))
  | .busy (change :: acts) => some (m.setPhase i (.wantWrite change acts))
  | .wantRead channel message acts =>
    if i ∈ m.manager.readers then
      some (m.setPhase i
        (.pushing ((publish range m.pubsub channel message).map Prod.fst) acts))
    else none
  | .pushing (target :: left) acts => some (m.setPhase i (.wantOut target left acts))
  | .pushing [] acts =>
    some ({ m with manager := m.manager.leaveRead i }.setPhase i (.busy acts))
  | .wantOut target left acts =>
    if m.outOwner target = none then
      some ((m.setOwner target (some i)).setPhase i (.holdOut target left acts))
    else none
  | .holdOut target left acts => some ((m.setOwner target none).setPhase i (.pushing left acts))
  | .wantWrite change acts => m.lockManager i (.writing change acts)
  | .writing change acts =>
    some ({ m with
      pubsub := applyChange m.pubsub i change
      manager := m.manager.release }.setPhase i (.busy acts))
  | .wantLeave => m.lockManager i .leaving
  | .leaving =>
    some ({ m with
      pubsub := m.pubsub.removeSessionFromAll i
      manager := m.manager.release }.setPhase i .gone)

def step (m : PubSubLocks) : LockMove → Option PubSubLocks
  | .begin i acts =>
    match m.phase i with
    | .idle => some (m.setPhase i (.wantOwn acts))
    | _ => none
  | .advance i => m.advance range i
  | .disconnect i =>
    match m.phase i with
    | .idle => some (m.setPhase i .wantLeave)
    | _ => none

/-- A session waits for another: for the one that holds the output lock it wants; as a
blocked reader for the writer that has the turn; as a writer for the one that has the turn,
or for the readers there are once it has the turn itself. -/
def WaitsFor (m : PubSubLocks) (i j : Nat) : Prop :=
  match m.phase i with
  | .wantOwn _ => m.outOwner i = some j
  | .wantOut target _ _ => m.outOwner target = some j
  | .wantRead .. => i ∉ m.manager.readers ∧ m.manager.turn = some j
  | .wantWrite .. | .wantLeave =>
    if m.manager.turn = some i then j ∈ m.manager.readers else m.manager.turn = some j
  | _ => False

/-- When a `Publish` finds its recipients, none of them is the publishing session or one
that is engaged with the manager while it holds its output lock; and no session turns to
the manager while a running `Publish` has still to push to it. -/
def Apart (m : PubSubLocks) : LockMove → Prop
  | .advance i =>
    match m.phase i with
    | .wantRead channel message _ =>
      i ∈ m.manager.readers →
        ∀ target ∈ (publish range m.pubsub channel message).map Prod.fst,
          target ≠ i ∧ (m.phase target).engaged = false
    | .busy (_ :: _) => ∀ reader ∈ m.manager.readers, i ∉ (m.phase reader).remaining
    | _ => True
  | _ => True

/-! ## What the locks say about the phases -/

@[mk_iff]
structure Sound (m : PubSubLocks) : Prop where
  owners : ∀ t j, m.outOwner t = some j →
    (j = t ∧ (m.phase t).holdsOwn = true) ∨ ∃ left acts, m.phase j = .holdOut t left acts
  readers : ∀ r ∈ m.manager.readers, (m.phase r).reads = true
  blocked : ∀ r ∈ m.manager.blocked, (m.phase r).reads = true ∧ r ∉ m.manager.readers
  publishing : ∀ r, (m.phase r).publishing = true → r ∈ m.manager.readers
  turns : ∀ j, m.manager.turn = some j → (m.phase j).turning = true
  apart : ∀ p t, t ∈ (m.phase p).remaining → t ≠ p ∧ (m.phase t).engaged = false

theorem sound_start : start.Sound where
  owners := fun _ _ owned => by cases owned
  readers := fun _ listed => by cases listed
  blocked := fun _ listed => by cases listed
  publishing := fun _ busy => by cases busy
  turns := fun _ taken => by cases taken
  apart := fun _ _ listed => by cases listed

attribute [grind =] LockPhase.holdsOwn LockPhase.engaged LockPhase.reads LockPhase.publishing
  LockPhase.turning LockPhase.remaining
attribute [grind =] RwMutex.arriveRead RwMutex.leaveRead RwMutex.takeTurn RwMutex.release

@[grind →]
theorem publishing_of_remaining {p : LockPhase} {t : Nat} (listed : t ∈ p.remaining) :
    p.publishing = true := by
  cases p <;> simp_all [LockPhase.remaining, LockPhase.publishing]

section Steps

variable {m next : PubSubLocks} {i : Nat}

theorem lockManager_cases {then' : LockPhase} (locked : m.lockManager i then' = some next) :
    m.manager.turn = none ∧ next = { m with manager := m.manager.takeTurn i }
      ∨ m.manager.turn = some i ∧ next = m.setPhase i then' := by
  unfold lockManager at locked
  grind

/-- One step of a session that is apart, phase by phase.  The phases of the other sessions
stay, and so does what they say about the locks; what is left is the session's own side. -/
theorem sound_advance (range : Finset Bytes → List Bytes) (sound : m.Sound)
    (apart : m.Apart range (.advance i)) (stepped : m.advance range i = some next) :
    next.Sound := by
  obtain ⟨owners, readers, blocked, publishing, turns, pushes⟩ := sound
  unfold PubSubLocks.advance at stepped
  cases here : m.phase i with simp only [here] at stepped
  | idle | gone => cases stepped
  | wantOwn acts =>
    obtain ⟨free, ⟨⟩⟩ := Option.ite_none_right_eq_some.mp stepped
    rw [sound_iff]
    simp only [setPhase, setOwner, Function.update_apply]
    grind
  | busy acts =>
    cases acts with
    | nil =>
      cases stepped
      rw [sound_iff]
      simp only [setPhase, setOwner, Function.update_apply]
      grind
    | cons act acts =>
      -- no running `Publish` has still to push to the session, so it may turn to the manager
      simp only [Apart, here] at apart
      cases act <;> cases stepped <;> rw [sound_iff] <;>
        simp only [setPhase, Function.update_apply] <;> grind
  | wantRead channel message acts =>
    obtain ⟨reading, ⟨⟩⟩ := Option.ite_none_right_eq_some.mp stepped
    simp only [Apart, here] at apart
    rw [sound_iff]
    simp only [setPhase, Function.update_apply]
    grind
  | pushing left acts =>
    cases left <;> cases stepped <;> rw [sound_iff] <;>
      simp only [setPhase, Function.update_apply] <;> grind
  | wantOut target left acts =>
    obtain ⟨free, ⟨⟩⟩ := Option.ite_none_right_eq_some.mp stepped
    constructor <;> simp only [setPhase, setOwner, Function.update_apply]
    case owners =>
      intro t j owned
      by_cases same : t = target
      · refine .inr ⟨left, acts, ?_⟩
        simp_all
      · grind
    all_goals grind
  | holdOut target left acts =>
    cases stepped
    rw [sound_iff]
    simp only [setPhase, setOwner, Function.update_apply]
    grind
  | wantWrite _ _ | wantLeave =>
    obtain ⟨free, rfl⟩ | ⟨mine, rfl⟩ := lockManager_cases stepped
    · rw [sound_iff]
      grind
    · rw [sound_iff]
      simp only [setPhase, Function.update_apply]
      grind
  | writing _ _ | leaving =>
    -- `Unlock` lets the blocked readers in, and the session was none of them
    cases stepped
    rw [sound_iff]
    simp only [setPhase, Function.update_apply]
    grind

theorem Sound.wakes {p : LockPhase} (sound : m.Sound) (idle : m.phase i = .idle)
    (waits : p = .wantLeave ∨ ∃ acts, p = .wantOwn acts) : (m.setPhase i p).Sound := by
  obtain ⟨owners, readers, blocked, publishing, turns, pushes⟩ := sound
  rcases waits with rfl | ⟨acts, rfl⟩ <;> rw [sound_iff] <;>
    simp only [setPhase, Function.update_apply] <;> grind

end Steps

theorem sound_step (range : Finset Bytes → List Bytes) {m next : PubSubLocks} {move : LockMove}
    (sound : m.Sound) (apart : m.Apart range move) (stepped : m.step range move = some next) :
    next.Sound := by
  cases move with
  | advance i => exact sound_advance range sound apart stepped
  | begin i acts =>
    simp only [step] at stepped
    split at stepped
    · next idle =>
      cases stepped
      exact sound.wakes idle (.inr ⟨acts, rfl⟩)
    · cases stepped
  | disconnect i =>
    simp only [step] at stepped
    split at stepped
    · next idle =>
      cases stepped
      exact sound.wakes idle (.inl rfl)
    · cases stepped

/-! ## No cycle -/

/-- How far up the locks a session waits: for an output lock, for the readers to leave, or
for a writer to be done. -/
def rank (m : PubSubLocks) (i : Nat) : Nat :=
  match m.phase i with
  | .wantOwn _ | .wantOut .. => 1
  | .wantRead .. => if i ∈ m.manager.readers then 0 else 3
  | .wantWrite .. | .wantLeave => if m.manager.turn = some i then 2 else 3
  | _ => 0

theorem Sound.rank_turn {m : PubSubLocks} (sound : m.Sound) {j : Nat}
    (taken : m.manager.turn = some j) : m.rank j ≤ 2 := by
  have turning := sound.turns j taken
  unfold rank
  cases here : m.phase j <;> simp_all [LockPhase.turning]

theorem Sound.rank_reader {m : PubSubLocks} (sound : m.Sound) {j : Nat}
    (reading : j ∈ m.manager.readers) : m.rank j ≤ 1 := by
  have reads := sound.readers j reading
  unfold rank
  cases here : m.phase j <;> simp_all [LockPhase.reads]

theorem Sound.rank_owner {m : PubSubLocks} (sound : m.Sound) {t j : Nat}
    (calm : (m.phase t).engaged = false) (owned : m.outOwner t = some j) : m.rank j = 0 := by
  rcases sound.owners t j owned with ⟨rfl, holds⟩ | ⟨left, acts, is⟩
  · unfold rank
    cases here : m.phase j <;> simp_all [LockPhase.holdsOwn, LockPhase.engaged]
  · simp only [rank, is]

theorem Sound.rank_lt {m : PubSubLocks} (sound : m.Sound) {i j : Nat} (waits : m.WaitsFor i j) :
    m.rank j < m.rank i := by
  unfold WaitsFor at waits
  cases here : m.phase i with
  | wantOwn acts =>
    simp only [here] at waits
    have first : m.rank i = 1 := by simp [rank, here]
    have free : m.rank j = 0 := sound.rank_owner (by simp [here, LockPhase.engaged]) waits
    omega
  | wantOut target left acts =>
    simp only [here] at waits
    have calm := (sound.apart i target (by simp [here, LockPhase.remaining])).2
    have first : m.rank i = 1 := by simp [rank, here]
    have free : m.rank j = 0 := sound.rank_owner calm waits
    omega
  | wantRead channel message acts =>
    simp only [here] at waits
    have top : m.rank i = 3 := by simp [rank, here, waits.1]
    have turn := sound.rank_turn waits.2
    omega
  | wantWrite | wantLeave =>
    simp only [here] at waits
    split at waits
    · next mine =>
      have second : m.rank i = 2 := by simp [rank, here, mine]
      have reader := sound.rank_reader waits
      omega
    · next other =>
      have top : m.rank i = 3 := by simp [rank, here, other]
      have turn := sound.rank_turn waits
      omega
  | _ => simp [here] at waits

/-- In every state that any number of sessions reach by steps that are apart, no session
waits, directly or through a chain of others, for itself. -/
theorem pubsub_deadlock_free (range : Finset Bytes → List Bytes) {moves : List LockMove}
    {m : PubSubLocks}
    (apart : Machine.Guarded (step range) (fun m move => m.Apart range move) start moves)
    (ran : Machine.run (step range) start moves = some m) (i : Nat) :
    ¬ Relation.TransGen m.WaitsFor i i := by
  have keeps (m : PubSubLocks) (move : LockMove) (next : PubSubLocks) (sound : m.Sound)
      (apart : m.Apart range move) (stepped : m.step range move = some next) : next.Sound :=
    sound_step range sound apart stepped
  have sound : m.Sound := Machine.run_invariant keeps sound_start apart ran
  exact not_transGen_of_rank m.rank (fun _ _ waits => sound.rank_lt waits) i

/-! ## Two sessions -/

/-- Session `i` runs a whole dispatch of this many lock operations. -/
def whole (i : Nat) (acts : List LockAction) (n : Nat) : List LockMove :=
  .begin i acts :: List.replicate n (.advance i)

def news : Bytes := ascii "news"

instance (m : PubSubLocks) (i j : Nat) : Decidable (m.WaitsFor i j) := by
  unfold WaitsFor
  split <;> infer_instance

instance (range : Finset Bytes → List Bytes) (m : PubSubLocks) (move : LockMove) :
    Decidable (m.Apart range move) := by
  unfold Apart
  split
  · split <;> infer_instance
  · infer_instance

/-- Session 2 subscribes, session 1 publishes as far as its push, and session 2 has to wait
for the push to end before its next dispatch. -/
def pushedTo : List LockMove :=
  whole 2 [.subscribe .channel news] 6 ++ whole 1 [.publish news (ascii "hi")] 5 ++ [.begin 2 []]

theorem pushedTo_deadlock_free :
    ∃ m, Machine.run (step sortedElems) start pushedTo = some m ∧ m.WaitsFor 2 1
      ∧ ¬ Relation.TransGen m.WaitsFor 2 2 := by
  refine ⟨_, Machine.ran (by decide +kernel), by decide +kernel, ?_⟩
  exact pubsub_deadlock_free sortedElems (by decide +kernel) (Machine.ran _) 2

/-- The subscriber unsubscribes while the publisher, which holds the manager's lock, has
still to push to it; and a session that subscribes and publishes in one `EXEC` pushes to
itself. -/
theorem pubsub_deadlocks :
    (∃ m, Machine.run (step sortedElems) start
          (whole 2 [.subscribe .channel news] 6 ++ whole 1 [.publish news (ascii "hi")] 3
            ++ whole 2 [.unsubscribe .channel news] 3 ++ [.advance 1]) = some m
        ∧ m.WaitsFor 1 2 ∧ m.WaitsFor 2 1)
      ∧ ∃ m, Machine.run (step sortedElems) start
          (whole 1 [.subscribe .channel news, .publish news (ascii "hi")] 8) = some m
        ∧ m.WaitsFor 1 1 :=
  ⟨Machine.exists_run (by decide +kernel), Machine.exists_run (by decide +kernel)⟩

end PubSubLocks

end SuperCache
