import SuperCache.Server.Dispatch
import SuperCache.Store.WatchVersions

/-! # `EXEC` among other clients

The steps of one `EXEC` with the steps of everybody else between them: it reads the
version of one watched key after another, then runs one queued command after another,
each with Store calls of its own.  `disturbed` observes the watched keys that another party
changes after their check and before the last queued command has ended.
-/

namespace SuperCache

open Lib

namespace Store

variable {may : Mutation → Prop} {keys : List Key} {s t : Store}

theorem Changes.untouched (changes : Changes may keys s t) {key : Key}
    (purged : ¬ may (.purge key)) (written : ¬ may (.write key)) (dropped : ¬ may (.drop key)) :
    t.stored key = s.stored key := by
  induction changes with
  | refl s => rfl
  | frame maps sameRoute sameLimit samePolicy sameWatch rest ih =>
    rw [ih]
    simp only [stored, sameRoute, maps]
  | purge si other e found allowed rest ih =>
    rw [ih, stored_purgeEntryLocked, if_neg]
    rintro ⟨rfl, -⟩
    exact purged allowed
  | remove si other e allowed rest ih =>
    rw [ih, stored_purgeEntryLocked, if_neg]
    rintro ⟨rfl, -⟩
    exact purged allowed
  | write other old ne allowed rest ih =>
    rw [ih, stored_replaceEntry, if_neg]
    rintro rfl
    exact written allowed
  | drop other e allowed rest ih =>
    rw [ih, stored_dropSource, if_neg]
    rintro rfl
    exact dropped allowed
  | forget allowed rest ih => exact ih

end Store

/-- The step may purge, write or take away the key: it names it, or it works on the whole
keyspace, or it evicts. -/
def WatchOp.Touches {fl : FloatOps} (s : Store) (key : Key) : WatchOp fl → Prop
  | .call now request =>
    request.May s now (.purge key) ∨ request.May s now (.write key) ∨ request.May s now (.drop key)
  | .pruneWatch => False

theorem WatchOp.stored_of_not_touches {fl : FloatOps} {s : Store} {key : Key} {op : WatchOp fl}
    (aloof : ¬ op.Touches s key) : (op.exec s).stored key = s.stored key := by
  cases op with
  | pruneWatch => rfl
  | call now request =>
    obtain ⟨_, -, _, -, changes⟩ := Store.call_does request s now
    simp only [Touches, not_or] at aloof
    exact changes.untouched aloof.1 aloof.2.1 aloof.2.2

/-! ## The machine -/

structure ExecWindow where
  store : Store
  watched : GoMap Nat
  toCheck : List Key
  queue : List RespValue
  aborted : Bool
  disturbed : Finset Key

inductive ExecMove (fl : FloatOps) where
  | check
  | own (now : Time) (request : StoreCall fl)
  | commandDone
  | other (op : WatchOp fl)

namespace ExecWindow

variable {fl : FloatOps}

/-- `EXEC` of a session begins; the map of watched keys is visited in any order. -/
def start (s : Store) (session : ClientSession) (oracle : Oracle) (tick : Nat) : ExecWindow where
  store := s
  watched := session.watchedKeys
  toCheck := Store.rangeOrder oracle tick session.watchedKeys.keys
  queue := session.multiQueue
  aborted := false
  disturbed := ∅

def running (m : ExecWindow) : Bool :=
  !m.aborted && m.toCheck.isEmpty && !m.queue.isEmpty

def Guards (m : ExecWindow) (key : Key) : Prop :=
  m.aborted = false ∧ m.queue.isEmpty = false ∧ key ∈ m.watched.keys ∧ key ∉ m.toCheck

instance (m : ExecWindow) (key : Key) : Decidable (m.Guards key) :=
  inferInstanceAs (Decidable (_ ∧ _ ∧ _ ∧ _))

def step (m : ExecWindow) : ExecMove fl → Option ExecWindow
  | .check =>
    match m.toCheck with
    | [] => none
    | key :: rest =>
      if m.aborted then none
      else if m.watched.lookup key = some (m.store.watchVersion key) then
        some { m with toCheck := rest }
      else some { m with aborted := true }
  | .own now request =>
    if m.running then some { m with store := (request.exec m.store now).1 } else none
  | .commandDone => if m.running then some { m with queue := m.queue.tail } else none
  | .other op =>
    some { m with
      store := op.exec m.store
      disturbed := m.disturbed
        ∪ m.watched.keys.filter fun key =>
          m.Guards key ∧ (op.exec m.store).stored key ≠ m.store.stored key }

/-! ## Steps of others -/

/-- Another party does not touch a key between its check and the end of the last queued
command. -/
def Aloof (m : ExecWindow) : ExecMove fl → Prop
  | .other op => ∀ key, m.Guards key → ¬ op.Touches m.store key
  | _ => True

theorem undisturbed_step {m next : ExecWindow} {move : ExecMove fl} (before : m.disturbed = ∅)
    (aloof : m.Aloof move) (stepped : m.step move = some next) : next.disturbed = ∅ := by
  cases move with
  | check =>
    simp only [step] at stepped
    split at stepped
    · cases stepped
    · split at stepped
      · cases stepped
      · split at stepped <;> cases stepped <;> exact before
  | own now request =>
    simp only [step, Option.ite_none_right_eq_some, Option.some.injEq] at stepped
    obtain ⟨-, rfl⟩ := stepped
    exact before
  | commandDone =>
    simp only [step, Option.ite_none_right_eq_some, Option.some.injEq] at stepped
    obtain ⟨-, rfl⟩ := stepped
    exact before
  | other op =>
    cases stepped
    simp only [before, Finset.empty_union, Finset.filter_eq_empty_iff]
    rintro key - ⟨guarded, changed⟩
    exact changed (WatchOp.stored_of_not_touches (aloof key guarded))

/-- In every interleaving of an `EXEC` with the steps of others in which these are aloof, no
other party changes a watched key between its check and the end of the last queued
command. -/
theorem exec_undisturbed {s : Store} {session : ClientSession} {oracle : Oracle} {tick : Nat}
    {moves : List (ExecMove fl)} {m : ExecWindow}
    (aloof : Machine.Guarded step Aloof (start s session oracle tick) moves)
    (ran : Machine.run step (start s session oracle tick) moves = some m) : m.disturbed = ∅ := by
  have keeps (m : ExecWindow) (move : ExecMove fl) (next : ExecWindow)
      (before : m.disturbed = ∅) (aloof : m.Aloof move) (stepped : m.step move = some next) :
      next.disturbed = ∅ := undisturbed_step before aloof stepped
  have calm := Machine.run_invariant keeps rfl aloof ran
  exact calm

/-! ## A session that watches one key -/

/-- The session watches `k`, which is not stored, and has queued one command. -/
def watching : ClientSession :=
  { newSession 1 with
    inMulti := true
    multiQueue := [.array [.bulk (ascii "GET"), .bulk (ascii "k")]]
    watchedKeys := (∅ : GoMap Nat).insert (ascii "k") 0 }

def around (op : WatchOp integerFloats) : List (ExecMove integerFloats) :=
  [.check, .other op, .own 2 (.op (.single (ascii "k") .get)), .commandDone]

theorem otherKey_undisturbed :
    ∃ m, Machine.run step (start WatchOp.emptyStore watching sortedOracle 0)
        (around (WatchOp.setAt 1 "other")) = some m
      ∧ m.aborted = false ∧ m.queue.length = 0 ∧ m.disturbed = ∅ := by
  refine ⟨_, Machine.ran (by decide +kernel), by decide +kernel, by decide +kernel,
    exec_undisturbed ?_ (Machine.ran _)⟩
  refine ⟨trivial, fun next checked => ⟨?_, fun _ _ => ⟨trivial, fun _ _ => ⟨trivial,
    fun _ _ => trivial⟩⟩⟩⟩
  -- only `k` is watched, and the other party sets another key in a store without a limit
  cases checked
  rintro key ⟨-, -, watched, -⟩
  have own : key = ascii "k" := by
    obtain same | none := Finmap.mem_insert.mp (Finmap.mem_keys.mp watched)
    · exact same
    · exact absurd none Finmap.notMem_empty
  have different : ascii "k" ≠ ascii "other" := by decide +kernel
  rw [own]
  rintro ((same | ⟨⟨limited, -⟩, -⟩) | same | never)
  · exact different same
  · exact limited rfl
  · exact different same
  · exact never

/-- Another client sets `k` after its check and before the queued `GET k` has run. -/
theorem setBetween_disturbs :
    ∃ m, Machine.run step (start WatchOp.emptyStore watching sortedOracle 0)
        (around (WatchOp.setAt 1 "k")) = some m
      ∧ m.aborted = false ∧ m.queue.length = 0 ∧ ascii "k" ∈ m.disturbed :=
  Machine.exists_run (by decide +kernel)

end ExecWindow

end SuperCache
