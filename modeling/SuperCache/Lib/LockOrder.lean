import SuperCache.Lib.Machine
import SuperCache.Lib.RwMutex
import Mathlib.Data.List.Pairwise

/-! # Locks taken in order

Threads that take and release readers-writer locks.  What a thread does with the locks is
a script, and a script is in order when every lock it takes has a higher rank than the
locks it has at that moment.  If all scripts are in order, then no thread ever waits
through any chain of others for itself (`no_cycle`), and a thread that cannot go on waits
for another (`stuck_waits`).
-/

namespace SuperCache.Lib

inductive LockMode where
  | read
  | write
deriving DecidableEq

inductive LockAct (κ : Type) where
  | take (mode : LockMode) (lock : κ)
  | drop (mode : LockMode) (lock : κ)
deriving DecidableEq

/-! ## Scripts -/

section Scripts

variable {κ : Type} [DecidableEq κ] (rank : κ → Nat)

/-- The locks a thread has after a script, if it takes every lock above those it has and
releases only locks it has. -/
def heldAfter : List (LockMode × κ) → List (LockAct κ) → Option (List (LockMode × κ))
  | held, [] => some held
  | held, .take mode lock :: rest =>
    if ∀ other ∈ held, rank other.2 < rank lock then heldAfter ((mode, lock) :: held) rest else none
  | held, .drop mode lock :: rest =>
    if (mode, lock) ∈ held then heldAfter (held.erase (mode, lock)) rest else none

def InOrder (script : List (LockAct κ)) : Prop :=
  heldAfter rank [] script = some []

variable {rank} {held : List (LockMode × κ)} {first rest : List (LockAct κ)}

theorem heldAfter_append :
    heldAfter rank held (first ++ rest) = (heldAfter rank held first).bind (heldAfter rank · rest) := by
  induction first generalizing held with
  | nil => rfl
  | cons act first ih =>
    cases act with
    | take mode lock =>
      simp only [List.cons_append, heldAfter]
      split
      · exact ih
      · rfl
    | drop mode lock =>
      simp only [List.cons_append, heldAfter]
      split
      · exact ih
      · rfl

theorem heldAfter_trans {mid : List (LockMode × κ)} (begins : heldAfter rank held first = some mid) :
    heldAfter rank held (first ++ rest) = heldAfter rank mid rest := by
  rw [heldAfter_append, begins, Option.bind_some]

theorem heldAfter_flatMap {α : Type} (part : α → List (LockAct κ)) (parts : List α)
    (each : ∀ a ∈ parts, heldAfter rank held (part a) = some held) :
    heldAfter rank held (parts.flatMap part) = some held := by
  induction parts with
  | nil => rfl
  | cons a parts ih =>
    rw [List.flatMap_cons, heldAfter_trans (each a List.mem_cons_self)]
    exact ih fun b listed => each b (List.mem_cons_of_mem a listed)

theorem InOrder.append (one : InOrder rank first) (two : InOrder rank rest) :
    InOrder rank (first ++ rest) := by
  unfold InOrder
  rw [heldAfter_trans one]
  exact two

theorem heldAfter_takeEach (mode : LockMode) (locks : List κ) :
    (locks.Pairwise fun a b => rank a < rank b) →
    (∀ lock ∈ locks, ∀ other ∈ held, rank other.2 < rank lock) →
    heldAfter rank held (locks.map (.take mode))
      = some ((locks.map fun lock => (mode, lock)).reverse ++ held) := by
  induction locks generalizing held with
  | nil => intros; rfl
  | cons lock locks ih =>
    intro rising above
    obtain ⟨least, rising⟩ := List.pairwise_cons.mp rising
    simp only [List.map_cons, heldAfter]
    rw [if_pos (above lock List.mem_cons_self), ih rising]
    · simp only [List.reverse_cons, List.append_assoc, List.singleton_append]
    · intro later listed other has
      rcases List.mem_cons.mp has with rfl | has
      · exact least later listed
      · exact above later (List.mem_cons_of_mem lock listed) other has

theorem heldAfter_dropEach (mode : LockMode) (locks : List κ)
    (same : held.Perm (locks.map fun lock => (mode, lock))) :
    heldAfter rank held (locks.map (.drop mode)) = some [] := by
  induction locks generalizing held with
  | nil =>
    obtain rfl := List.perm_nil.mp same
    rfl
  | cons lock locks ih =>
    simp only [List.map_cons, heldAfter]
    rw [if_pos (same.symm.subset List.mem_cons_self)]
    refine ih ?_
    have erased := same.erase (mode, lock)
    rwa [List.map_cons, List.erase_cons_head] at erased

end Scripts

/-! ## The machine -/

/-- How far a thread is with the lock it takes: it has yet to ask for it, it has its turn
among the writers, or it has come as a reader. -/
inductive Standing where
  | running
  | turn
  | arrived
deriving DecidableEq

def Standing.Fits {κ : Type} : Standing → List (LockAct κ) → Bool
  | .running, _ => true
  | .turn, .take .write _ :: _ => true
  | .arrived, .take .read _ :: _ => true
  | _, _ => false

structure Locking (ι κ : Type) where
  locks : κ → RwMutex ι
  script : ι → List (LockAct κ)
  standing : ι → Standing

namespace Locking

variable {ι κ : Type}

def start (script : ι → List (LockAct κ)) : Locking ι κ where
  locks := fun _ => .free
  script := script
  standing := fun _ => .running

def onLock [DecidableEq κ] (m : Locking ι κ) (lock : κ) (f : RwMutex ι → RwMutex ι) : Locking ι κ :=
  { m with locks := Function.update m.locks lock (f (m.locks lock)) }

def stands [DecidableEq ι] (m : Locking ι κ) (i : ι) (standing : Standing) : Locking ι κ :=
  { m with standing := Function.update m.standing i standing }

def goOn [DecidableEq ι] (m : Locking ι κ) (i : ι) (rest : List (LockAct κ)) : Locking ι κ :=
  { m with script := Function.update m.script i rest
           standing := Function.update m.standing i .running }

def step [DecidableEq ι] [DecidableEq κ] (m : Locking ι κ) (i : ι) : Option (Locking ι κ) :=
  match m.script i, m.standing i with
  | .take .write lock :: _, .running =>
    if (m.locks lock).turn = none then some ((m.onLock lock (·.takeTurn i)).stands i .turn) else none
  | .take .write lock :: rest, .turn =>
    if (m.locks lock).readers = [] then some (m.goOn i rest) else none
  | .take .read lock :: _, .running => some ((m.onLock lock (·.arriveRead i)).stands i .arrived)
  | .take .read lock :: rest, .arrived =>
    if i ∈ (m.locks lock).blocked then none else some (m.goOn i rest)
  | .drop .write lock :: rest, .running =>
    if (m.locks lock).turn = some i then some ((m.onLock lock (·.release)).goOn i rest) else none
  | .drop .read lock :: rest, .running =>
    if i ∈ (m.locks lock).readers then some ((m.onLock lock (·.leaveRead i)).goOn i rest) else none
  | _, _ => none

/-- Whom a thread waits for: the writer that has the turn, or, when it has the turn itself,
the readers that are still in. -/
def Waits (m : Locking ι κ) (i j : ι) : Prop :=
  match m.script i, m.standing i with
  | .take .write lock :: _, .running => (m.locks lock).turn = some j
  | .take .write lock :: _, .turn => j ∈ (m.locks lock).readers
  | .take .read lock :: _, .arrived => i ∈ (m.locks lock).blocked ∧ (m.locks lock).turn = some j
  | _, _ => False

def Drains (m : Locking ι κ) (i : ι) (lock : κ) : Prop :=
  m.standing i = .turn ∧ (m.script i).head? = some (.take .write lock)

def Arrived (m : Locking ι κ) (i : ι) (lock : κ) : Prop :=
  m.standing i = .arrived ∧ (m.script i).head? = some (.take .read lock)

structure Sound [DecidableEq κ] (rank : κ → Nat) (m : Locking ι κ)
    (held : ι → List (LockMode × κ)) : Prop where
  order : ∀ i, heldAfter rank (held i) (m.script i) = some []
  rising : ∀ i, (held i).Pairwise fun a b => rank b.2 < rank a.2
  turn : ∀ lock i, (m.locks lock).turn = some i ↔ (.write, lock) ∈ held i ∨ m.Drains i lock
  readers : ∀ lock i, i ∈ (m.locks lock).readers →
    (.read, lock) ∈ held i ∨ m.Arrived i lock ∧ i ∉ (m.locks lock).blocked
  reading : ∀ lock i, (.read, lock) ∈ held i → i ∈ (m.locks lock).readers
  blocked : ∀ lock i, i ∈ (m.locks lock).blocked → m.Arrived i lock ∧ (m.locks lock).turn ≠ none
  let_in : ∀ lock i, m.Arrived i lock → i ∈ (m.locks lock).readers ∨ i ∈ (m.locks lock).blocked
  fits : ∀ i, (m.standing i).Fits (m.script i) = true

variable {rank : κ → Nat} {m next : Locking ι κ} {held : ι → List (LockMode × κ)} {i j : ι}
  {lock other : κ} {rest : List (LockAct κ)}

/-! ## What a step can do -/

inductive Stepped [DecidableEq ι] [DecidableEq κ] (m : Locking ι κ) (i : ι) : Locking ι κ → Prop
  | takeTurn (lock : κ) (rest : List (LockAct κ)) (at_ : m.script i = .take .write lock :: rest)
      (running : m.standing i = .running) (free : (m.locks lock).turn = none) :
      Stepped m i ((m.onLock lock (·.takeTurn i)).stands i .turn)
  | enter (lock : κ) (rest : List (LockAct κ)) (at_ : m.script i = .take .write lock :: rest)
      (turn : m.standing i = .turn) (free : (m.locks lock).readers = []) : Stepped m i (m.goOn i rest)
  | arrive (lock : κ) (rest : List (LockAct κ)) (at_ : m.script i = .take .read lock :: rest)
      (running : m.standing i = .running) :
      Stepped m i ((m.onLock lock (·.arriveRead i)).stands i .arrived)
  | enterRead (lock : κ) (rest : List (LockAct κ)) (at_ : m.script i = .take .read lock :: rest)
      (arrived : m.standing i = .arrived) (let_in : i ∉ (m.locks lock).blocked) :
      Stepped m i (m.goOn i rest)
  | release (lock : κ) (rest : List (LockAct κ)) (at_ : m.script i = .drop .write lock :: rest)
      (running : m.standing i = .running) (own : (m.locks lock).turn = some i) :
      Stepped m i ((m.onLock lock (·.release)).goOn i rest)
  | leaveRead (lock : κ) (rest : List (LockAct κ)) (at_ : m.script i = .drop .read lock :: rest)
      (running : m.standing i = .running) (own : i ∈ (m.locks lock).readers) :
      Stepped m i ((m.onLock lock (·.leaveRead i)).goOn i rest)

theorem stepped_of_step [DecidableEq ι] [DecidableEq κ] (stepped : m.step i = some next) : Stepped m i next := by
  unfold step at stepped
  split at stepped <;> try split at stepped
  all_goals cases stepped
  · exact .takeTurn _ _ ‹_› ‹_› ‹_›
  · exact .enter _ _ ‹_› ‹_› ‹_›
  · exact .arrive _ _ ‹_› ‹_›
  · exact .enterRead _ _ ‹_› ‹_› ‹_›
  · exact .release _ _ ‹_› ‹_› ‹_›
  · exact .leaveRead _ _ ‹_› ‹_› ‹_›

section Locks

variable [DecidableEq κ]

@[grind =] theorem locks_onLock (f : RwMutex ι → RwMutex ι) :
    (m.onLock lock f).locks other = if other = lock then f (m.locks lock) else m.locks other :=
  Function.update_apply ..

@[grind =] theorem script_onLock (f : RwMutex ι → RwMutex ι) : (m.onLock lock f).script j = m.script j :=
  rfl

@[grind =] theorem standing_onLock (f : RwMutex ι → RwMutex ι) :
    (m.onLock lock f).standing j = m.standing j :=
  rfl

end Locks

section Threads

variable [DecidableEq ι]

@[grind =] theorem locks_stands (standing : Standing) : (m.stands i standing).locks lock = m.locks lock :=
  rfl

@[grind =] theorem script_stands (standing : Standing) : (m.stands i standing).script j = m.script j :=
  rfl

@[grind =] theorem standing_stands (standing : Standing) :
    (m.stands i standing).standing j = if j = i then standing else m.standing j :=
  Function.update_apply ..

@[grind =] theorem locks_goOn : (m.goOn i rest).locks lock = m.locks lock :=
  rfl

@[grind =] theorem script_goOn : (m.goOn i rest).script j = if j = i then rest else m.script j :=
  Function.update_apply ..

@[grind =] theorem standing_goOn :
    (m.goOn i rest).standing j = if j = i then .running else m.standing j :=
  Function.update_apply ..

end Threads

/-! ## What a thread has -/

variable [DecidableEq κ] {script : ι → List (LockAct κ)} {mode : LockMode} {bound : Nat} {turns : List ι}

theorem Sound.take (sound : Sound rank m held) (at_ : m.script i = .take mode lock :: rest) :
    (∀ has ∈ held i, rank has.2 < rank lock)
      ∧ heldAfter rank ((mode, lock) :: held i) rest = some [] := by
  have order := sound.order i
  rw [at_, heldAfter] at order
  split at order
  · next above => exact ⟨above, order⟩
  · cases order

theorem Sound.drop (sound : Sound rank m held) (at_ : m.script i = .drop mode lock :: rest) :
    (mode, lock) ∈ held i ∧ heldAfter rank ((held i).erase (mode, lock)) rest = some [] := by
  have order := sound.order i
  rw [at_, heldAfter] at order
  split at order
  · next has => exact ⟨has, order⟩
  · cases order

theorem Sound.nodup (sound : Sound rank m held) (i : ι) : (held i).Nodup :=
  (sound.rising i).imp fun below same => absurd below (by rw [same]; exact Nat.lt_irrefl _)

theorem sound_start (inOrder : ∀ i, InOrder rank (script i)) :
    Sound rank (start script) fun _ => [] where
  order := inOrder
  rising _ := .nil
  turn _ _ := by simp [start, RwMutex.free, Drains]
  readers _ _ := by simp [start, RwMutex.free]
  reading _ _ := by simp
  blocked _ _ := by simp [start, RwMutex.free]
  let_in _ _ := by simp [start, Arrived]
  fits _ := rfl

variable [DecidableEq ι]

theorem Sound.order_update (sound : Sound rank m held) {has : List (LockMode × κ)}
    (others : ∀ j, j ≠ i → script j = m.script j) (own : heldAfter rank has (script i) = some [])
    (j : ι) : heldAfter rank (Function.update held i has j) (script j) = some [] := by
  by_cases same : j = i
  · subst same
    rw [Function.update_self, own]
  · rw [Function.update_of_ne same, others j same, sound.order j]

theorem Sound.rising_update (sound : Sound rank m held) {has : List (LockMode × κ)}
    (own : has.Pairwise fun a b => rank b.2 < rank a.2) (j : ι) :
    (Function.update held i has j).Pairwise fun a b => rank b.2 < rank a.2 := by
  by_cases same : j = i
  · subst same
    rw [Function.update_self]
    exact own
  · rw [Function.update_of_ne same]
    exact sound.rising j

/-! ## Each step keeps the locks as the scripts have left them -/

/-- How a thread stands that may go on with the lock it takes, how it asks for the lock, and
how it gives it up. -/
def ready : LockMode → Standing
  | .write => .turn
  | .read => .arrived

def ask (i : ι) : LockMode → RwMutex ι → RwMutex ι
  | .write => (·.takeTurn i)
  | .read => (·.arriveRead i)

def leave (i : ι) : LockMode → RwMutex ι → RwMutex ι
  | .write => (·.release)
  | .read => (·.leaveRead i)

theorem Sound.ask (sound : Sound rank m held) {mode : LockMode}
    (at_ : m.script i = .take mode lock :: rest) (running : m.standing i = .running)
    (free : mode = .write → (m.locks lock).turn = none) :
    Sound rank ((m.onLock lock (ask i mode)).stands i (ready mode)) held where
  order := sound.order
  rising := sound.rising
  turn other j := by
    -- Nobody had the turn, so nobody else has the lock or waits for its readers.
    have before := sound.turn other j
    have idle := sound.turn lock j
    cases mode <;> grind [Drains, ready, Locking.ask, RwMutex.takeTurn, RwMutex.arriveRead]
  readers other j := by
    have before := sound.readers other j
    have away := sound.blocked lock i
    cases mode <;> grind [Arrived, ready, Locking.ask, RwMutex.takeTurn, RwMutex.arriveRead]
  reading other j := by
    have before := sound.reading other j
    cases mode <;> grind [Locking.ask, RwMutex.takeTurn, RwMutex.arriveRead]
  blocked other j := by
    have before := sound.blocked other j
    cases mode <;> grind [Arrived, ready, Locking.ask, RwMutex.takeTurn, RwMutex.arriveRead]
  let_in other j := by
    have before := sound.let_in other j
    cases mode <;> grind [Arrived, ready, Locking.ask, RwMutex.takeTurn, RwMutex.arriveRead]
  fits j := by
    have before := sound.fits j
    cases mode <;> grind [Standing.Fits, ready]

theorem Sound.enter (sound : Sound rank m held) (at_ : m.script i = .take mode lock :: rest)
    (stands : m.standing i = ready mode) (letIn : mode = .read → i ∉ (m.locks lock).blocked) :
    Sound rank (m.goOn i rest) (Function.update held i ((mode, lock) :: held i)) where
  order := sound.order_update (by grind) (by rw [script_goOn, if_pos rfl, (sound.take at_).2])
  rising := sound.rising_update (List.pairwise_cons.mpr ⟨(sound.take at_).1, sound.rising i⟩)
  turn other j := by
    have before := sound.turn other j
    cases mode <;> grind [Drains, ready]
  readers other j := by
    have before := sound.readers other j
    cases mode <;> grind [Arrived, ready]
  reading other j := by
    have before := sound.reading other j
    have inside := sound.let_in lock i
    cases mode <;> grind [Arrived, ready]
  blocked other j := by
    have before := sound.blocked other j
    cases mode <;> grind [Arrived, ready]
  let_in other j := by
    have before := sound.let_in other j
    cases mode <;> grind [Arrived, ready]
  fits j := by
    have before := sound.fits j
    grind [Standing.Fits]

theorem Sound.leave (sound : Sound rank m held) {mode : LockMode}
    (at_ : m.script i = .drop mode lock :: rest) (running : m.standing i = .running) :
    Sound rank ((m.onLock lock (leave i mode)).goOn i rest)
      (Function.update held i ((held i).erase (mode, lock))) where
  order := sound.order_update (by grind) (by rw [script_goOn, if_pos rfl, (sound.drop at_).2])
  rising := sound.rising_update ((sound.rising i).sublist List.erase_sublist)
  turn other j := by
    have before := sound.turn other j
    have nodup := sound.nodup i
    have own := sound.turn lock i
    have has := (sound.drop at_).1
    cases mode <;> grind [Drains, Locking.leave, RwMutex.release, RwMutex.leaveRead]
  readers other j := by
    have before := sound.readers other j
    have blocked := sound.blocked lock j
    cases mode <;> grind [Arrived, Locking.leave, RwMutex.release, RwMutex.leaveRead]
  reading other j := by
    have before := sound.reading other j
    have nodup := sound.nodup i
    cases mode <;> grind [Locking.leave, RwMutex.release, RwMutex.leaveRead]
  blocked other j := by
    have before := sound.blocked other j
    cases mode <;> grind [Arrived, Locking.leave, RwMutex.release, RwMutex.leaveRead]
  let_in other j := by
    have before := sound.let_in other j
    cases mode <;> grind [Arrived, Locking.leave, RwMutex.release, RwMutex.leaveRead]
  fits j := by
    have before := sound.fits j
    grind [Standing.Fits]

theorem sound_step (sound : Sound rank m held) (stepped : m.step i = some next) :
    ∃ held', Sound rank next held' := by
  cases stepped_of_step stepped with
  | takeTurn lock rest at_ running free => exact ⟨_, sound.ask at_ running fun _ => free⟩
  | enter lock rest at_ turn free => exact ⟨_, sound.enter at_ turn (by simp)⟩
  | arrive lock rest at_ running => exact ⟨_, sound.ask at_ running (by simp)⟩
  | enterRead lock rest at_ arrived letIn => exact ⟨_, sound.enter at_ arrived fun _ => letIn⟩
  | release lock rest at_ running own => exact ⟨_, sound.leave at_ running⟩
  | leaveRead lock rest at_ running own => exact ⟨_, sound.leave at_ running⟩

theorem sound_run (inOrder : ∀ i, InOrder rank (script i))
    (ran : Machine.run step (start script) turns = some m) : ∃ held, Sound rank m held :=
  Machine.run_history (fun _ m => ∃ held, Sound rank m held) ⟨_, sound_start inOrder⟩
    (fun _ _ _ _ ⟨_, sound⟩ stepped => sound_step sound stepped) ran

/-! ## Waiting -/

def patience (rank : κ → Nat) (bound : Nat) (m : Locking ι κ) (i : ι) : Nat :=
  match m.script i, m.standing i with
  | .take .write lock :: _, .running => 2 * (bound - rank lock) + 2
  | .take .write lock :: _, .turn => 2 * (bound - rank lock) + 1
  | .take .read lock :: _, .arrived =>
    if i ∈ (m.locks lock).blocked then 2 * (bound - rank lock) + 2 else 0
  | _, _ => 0

theorem Sound.patience_le (sound : Sound rank m held) (bounded : ∀ lock, rank lock ≤ bound)
    (has : (mode, lock) ∈ held j) : m.patience rank bound j ≤ 2 * (bound - rank lock) := by
  have above {mode' : LockMode} {other : κ} {rest : List (LockAct κ)}
      (at_ : m.script j = .take mode' other :: rest) :
      2 * (bound - rank other) + 2 ≤ 2 * (bound - rank lock) := by
    have below : rank lock < rank other := (sound.take at_).1 (mode, lock) has
    have fits := bounded other
    omega
  unfold patience
  split
  · next at_ _ => exact above at_
  · next at_ _ => exact Nat.le_of_succ_le (above at_)
  · next at_ _ =>
    split
    · exact above at_
    · exact Nat.zero_le _
  · exact Nat.zero_le _

theorem Sound.patience_lt_of_turn (sound : Sound rank m held) (bounded : ∀ lock, rank lock ≤ bound)
    (turn : (m.locks lock).turn = some j) :
    m.patience rank bound j < 2 * (bound - rank lock) + 2 := by
  rcases (sound.turn lock j).mp turn with has | ⟨standing, head⟩
  · have near := sound.patience_le bounded has
    omega
  · obtain ⟨rest, at_⟩ := List.head?_eq_some_iff.mp head
    simp only [patience, at_, standing]
    omega

theorem Sound.patience_lt (sound : Sound rank m held) (bounded : ∀ lock, rank lock ≤ bound)
    (waits : m.Waits i j) : m.patience rank bound j < m.patience rank bound i := by
  unfold Waits at waits
  split at waits
  · next lock rest at_ running =>
    have shorter := sound.patience_lt_of_turn bounded waits
    simpa only [patience, at_, running] using shorter
  · next lock rest at_ turn =>
    -- A reader that is in has the lock already, or has just been let in.
    have longer : m.patience rank bound i = 2 * (bound - rank lock) + 1 := by
      simp only [patience, at_, turn]
    rw [longer]
    rcases sound.readers lock j waits with has | ⟨⟨standing, head⟩, letIn⟩
    · have near := sound.patience_le bounded has
      omega
    · obtain ⟨rest, at_⟩ := List.head?_eq_some_iff.mp head
      simp only [patience, at_, standing, if_neg letIn]
      omega
  · next lock rest at_ arrived =>
    have shorter := sound.patience_lt_of_turn bounded waits.2
    simpa only [patience, at_, arrived, if_pos waits.1] using shorter
  · exact waits.elim

theorem no_cycle (inOrder : ∀ i, InOrder rank (script i)) (bounded : ∀ lock, rank lock ≤ bound)
    (ran : Machine.run step (start script) turns = some m) (i : ι) :
    ¬ Relation.TransGen m.Waits i i := by
  obtain ⟨held, sound⟩ := sound_run inOrder ran
  exact not_transGen_of_rank (m.patience rank bound) (fun _ _ waits => sound.patience_lt bounded waits) i

theorem stuck_waits (inOrder : ∀ i, InOrder rank (script i))
    (ran : Machine.run step (start script) turns = some m) (unfinished : m.script i ≠ [])
    (stuck : m.step i = none) : ∃ j, m.Waits i j := by
  obtain ⟨held, sound⟩ := sound_run inOrder ran
  have fits := sound.fits i
  cases at_ : m.script i with
  | nil => exact absurd at_ unfinished
  | cons act rest =>
    cases act with
    | take mode lock =>
      cases mode with
      | write =>
        cases standing : m.standing i with
        | running =>
          cases turn : (m.locks lock).turn with
          | none => simp [step, at_, standing, turn] at stuck
          | some j => exact ⟨j, by simpa only [Waits, at_, standing] using turn⟩
        | turn =>
          cases readers : (m.locks lock).readers with
          | nil => simp [step, at_, standing, readers] at stuck
          | cons j others =>
            exact ⟨j, by simp only [Waits, at_, standing, readers, List.mem_cons_self]⟩
        | arrived => simp [Standing.Fits, at_, standing] at fits
      | read =>
        cases standing : m.standing i with
        | running => simp [step, at_, standing] at stuck
        | turn => simp [Standing.Fits, at_, standing] at fits
        | arrived =>
          by_cases blocked : i ∈ (m.locks lock).blocked
          · obtain ⟨j, turn⟩ := Option.ne_none_iff_exists'.mp (sound.blocked lock i blocked).2
            exact ⟨j, by simpa only [Waits, at_, standing] using ⟨blocked, turn⟩⟩
          · simp [step, at_, standing, blocked] at stuck
    | drop mode lock =>
      have has := (sound.drop at_).1
      have running : m.standing i = .running := by
        cases standing : m.standing i with
        | running => rfl
        | turn => simp [Standing.Fits, at_, standing] at fits
        | arrived => simp [Standing.Fits, at_, standing] at fits
      cases mode with
      | write => simp [step, at_, running, (sound.turn lock i).mpr (.inl has)] at stuck
      | read => simp [step, at_, running, sound.reading lock i has] at stuck

end Locking

end SuperCache.Lib
