import SuperCache.Store.Alike

/-! # A snapshot taken and applied

A row carries the time that its key has left in whole milliseconds, and 0 when the key has no
deadline.  So a key with less than a millisecond left arrives without a deadline, and one with
more than a duration holds arrives with an earlier one.
-/

namespace SuperCache

open Lib

namespace Store

/-- The copy has the same live keys with the same values, and the same deadlines or ones that
are at most a millisecond earlier. -/
structure Restores (now : Time) (source copy : Store) : Prop where
  values : ∀ key, (copy.live now key).map Entry.value = (source.live now key).map Entry.value
  deadlines : ∀ key e e', source.live now key = some e → copy.live now key = some e' →
    (e'.expiresAt = 0 ↔ e.expiresAt = 0) ∧ e'.expiresAt ≤ e.expiresAt
      ∧ e.expiresAt ≤ e'.expiresAt + 1000000

/-- There is no deadline, or the time left is at least a millisecond and no more than a
duration holds, rounded up. -/
def Carried (now : Time) (e : Entry) : Prop :=
  e.expiresAt = 0 ∨ now + 1000000 ≤ e.expiresAt ∧ e.expiresAt ≤ now + 9223372036855000000

/-- The entry that the row of `e` makes at the same instant. -/
def arrived (now : Time) (key : Key) (e : Entry) : Entry :=
  { e with expiresAt := snapshotExpiry now (buildSnapshotEntry now key e) }

variable {now : Time} {key : Key} {e : Entry} {s t : Store}

theorem arrived_undated (undated : e.expiresAt = 0) : (arrived now key e).expiresAt = 0 := by
  simp [arrived, snapshotExpiry, buildSnapshotEntry, undated]

theorem arrived_dated (dated : e.expiresAt ≠ 0) (ahead : now ≤ e.expiresAt) :
    (arrived now key e).expiresAt
      = if now + 1000000 ≤ e.expiresAt then
          now + min ((e.expiresAt - now) / 1000000) 9223372036854 * 1000000
        else 0 := by
  have gap : (0 : Int) ≤ e.expiresAt - now := Int.sub_nonneg.mpr ahead
  have left : (buildSnapshotEntry now key e).ttlMs
      = min ((e.expiresAt - now) / 1000000) 9223372036854 := by
    simp only [buildSnapshotEntry, if_neg dated, inMilliseconds_untilTime ahead]
    omega
  rw [arrived, snapshotExpiry, left, milliseconds_eq (by omega) (by omega)]
  refine if_congr ?_ rfl rfl
  unfold Time at *
  omega

theorem not_past_of_live (live : s.live now key = some e) (dated : e.expiresAt ≠ 0) :
    now ≤ e.expiresAt := by
  have fresh := (alive_eq_some_iff.mp live).2
  simp only [isExpired, dated, ne_eq, not_false_eq_true, true_and, decide_eq_false_iff_not] at fresh
  exact Int.not_lt.mp fresh

theorem alive_arrived (live : s.live now key = some e) :
    alive now (some (arrived now key e)) = some (arrived now key e) := by
  rw [alive_eq_some_iff]
  refine ⟨rfl, ?_⟩
  by_cases undated : e.expiresAt = 0
  · simp [isExpired, arrived_undated undated]
  · simp only [isExpired, arrived_dated undated (not_past_of_live live undated), decide_eq_false_iff_not]
    unfold Time at *
    split <;> omega

/-- A deadline arrives as it should exactly when a row can carry it. -/
theorem carried_iff (clock : 0 ≤ now) (live : s.live now key = some e) :
    (((arrived now key e).expiresAt = 0 ↔ e.expiresAt = 0) ∧ (arrived now key e).expiresAt ≤ e.expiresAt
      ∧ e.expiresAt ≤ (arrived now key e).expiresAt + 1000000) ↔ Carried now e := by
  unfold Carried
  by_cases undated : e.expiresAt = 0
  · simp [arrived_undated undated, undated]
  · have ahead := not_past_of_live live undated
    rw [arrived_dated undated ahead]
    unfold Time at *
    split <;> omega

theorem snapshotValue_build (now : Time) (key : Key) (e : Entry) :
    snapshotValue (buildSnapshotEntry now key e).value = some e.value := by
  obtain ⟨value, expiresAt⟩ := e
  cases value with
  | set members =>
    simp only [buildSnapshotEntry, snapshotValue, Option.some.injEq, Value.set.injEq]
    ext member
    rw [List.mem_toFinset, mem_sortedElems]
  | _ => rfl

theorem applySnapshotEntry_built (live : s.live now key = some e) (unlimited : t.maxMem = 0) :
    ∃ u, t.applySnapshotEntry now (buildSnapshotEntry now key e) = (u, .ok ()) ∧ u.maxMem = 0
      ∧ u.live now = Function.update (t.live now) key ((s.live now key).map (arrived now key)) := by
  have shown := live_replaceEntry t now key (t.stored key) (arrived now key e)
  rw [alive_arrived live] at shown
  refine ⟨t.replaceEntry key (t.stored key) (arrived now key e), ?_,
    (replaceEntry_maxMem ..).trans unlimited, ?_⟩
  · simp only [applySnapshotEntry, snapshotValue_build, ensureMemoryWithRetry, unlimited, true_or,
      if_true]
    rfl
  · rw [shown, live]
    rfl

/-- Rows of one store leave their keys as they arrive, and the other keys as they were. -/
theorem applySnapshotEntries_built (rows : List SnapshotEntry)
    (built : ∀ row ∈ rows, ∃ key e, s.live now key = some e ∧ row = buildSnapshotEntry now key e)
    (unlimited : t.maxMem = 0) :
    (t.applySnapshotEntries now rows).2 = .ok ()
      ∧ ∀ key, (t.applySnapshotEntries now rows).1.live now key
        = if key ∈ rows.map SnapshotEntry.key then (s.live now key).map (arrived now key)
          else t.live now key := by
  induction rows generalizing t with
  | nil => exact ⟨rfl, fun key => rfl⟩
  | cons row rest ih =>
    obtain ⟨⟨key, e, live, rfl⟩, others⟩ := List.forall_mem_cons.mp built
    obtain ⟨u, first, unlimited, shown⟩ := applySnapshotEntry_built live unlimited
    obtain ⟨answer, later⟩ := ih others unlimited
    simp only [applySnapshotEntries, first]
    refine ⟨answer, fun other => ?_⟩
    rw [later, shown, List.map_cons]
    by_cases same : other = key
    · subst same
      rw [Function.update_self, ite_self]
      exact (if_pos List.mem_cons_self).symm
    · simp only [Function.update_of_ne same, List.mem_cons, buildSnapshotEntry, same, false_or]

theorem applySnapshot_live (placed : s.Placed) (unlimited : t.maxMem = 0)
    {rows : List SnapshotEntry} (order : rows.Perm (s.snapshotCtx now).2) :
    (t.applySnapshot now rows).2 = .ok ()
      ∧ ∀ key, (t.applySnapshot now rows).1.live now key
        = (s.live now key).map (arrived now key) := by
  have taken (row : SnapshotEntry) :
      row ∈ rows ↔ ∃ key e, s.live now key = some e ∧ row = buildSnapshotEntry now key e := by
    have visits : (s.snapshotCtx now).2 = s.storedKeys.filterMap _ :=
      visitShards_eq placed now fun key e => some (buildSnapshotEntry now key e)
    rw [order.mem_iff, visits, List.mem_filterMap]
    constructor
    · rintro ⟨key, -, found⟩
      obtain ⟨e, live, built⟩ := Option.bind_eq_some_iff.mp found
      exact ⟨key, e, live, (Option.some.inj built).symm⟩
    · rintro ⟨key, e, live, rfl⟩
      exact ⟨key, mem_storedKeys_of_live placed (Option.isSome_of_eq_some live), by rw [live]; rfl⟩
  obtain ⟨answer, shown⟩ := applySnapshotEntries_built (t := t.flushDB) rows
    (fun row listed => (taken row).mp listed) ((t.flushDB_live now).2.trans unlimited)
  refine ⟨answer, fun key => (shown key).trans ?_⟩
  rw [(t.flushDB_live now).1, ite_eq_left_iff]
  intro unlisted
  cases live : s.live now key with
  | none => rfl
  | some e => exact absurd (List.mem_map_of_mem ((taken _).mpr ⟨key, e, live, rfl⟩)) unlisted

/-- Applied in any order to any store, the rows of a snapshot restore it exactly when every
deadline is one that a row can carry. -/
theorem snapshot_restores_iff (source target : Store) (now : Time) (clock : 0 ≤ now)
    (placed : source.Placed) (unlimited : target.maxMem = 0) (rows : List SnapshotEntry)
    (order : rows.Perm (source.snapshotCtx now).2) :
    (target.applySnapshot now rows).2 = .ok ()
      ∧ (Restores now source (target.applySnapshot now rows).1
        ↔ ∀ key e, source.live now key = some e → Carried now e) := by
  obtain ⟨answer, copied⟩ := applySnapshot_live placed unlimited order
  refine ⟨answer, fun restores key e live => ?_, fun carried => ⟨fun key => ?_, ?_⟩⟩
  · refine (carried_iff clock live).mp (restores.deadlines key e _ live ?_)
    rw [copied, live]
    rfl
  · rw [copied, Option.map_map]
    rfl
  · intro key e e' live arrives
    rw [copied, live] at arrives
    cases arrives
    exact (carried_iff clock live).mpr (carried key e live)

/-- A store with one key, which expires at `deadline`. -/
def lasting (deadline : Time) : Store :=
  ((newStore .noeviction 0 sortedOracle).run 7 (ascii "k") (KeyOp.set (ascii "k") (ascii "v") deadline)).1

theorem lasting_placed (deadline : Time) : (lasting deadline).Placed :=
  (run_evolves _ 7 _ _).placed fun _ _ member => absurd member Finmap.notMem_empty

theorem lasting_live (deadline : Time) : (lasting deadline).live 7
    = Function.update (fun _ => none) (ascii "k")
        (alive 7 (some { value := .string (ascii "v"), expiresAt := deadline })) :=
  run_live _ 7 _ rfl (KeyOp.set_regular _ deadline)

/-- A key with half a millisecond left never expires in the copy. -/
theorem short_deadline_lost : ¬ Restores 7 (lasting 500007)
    (applySnapshot (lasting 0) 7 ((lasting 500007).snapshotCtx 7).2).1 := by
  intro restores
  have copied := (applySnapshot_live (t := lasting 0) (lasting_placed 500007) rfl
    (.refl ((lasting 500007).snapshotCtx 7).2)).2 (ascii "k")
  have live := congrFun (lasting_live 500007) (ascii "k")
  rw [live] at copied
  exact absurd (restores.deadlines _ _ _ live copied).1 (by decide)

theorem two_ms_restored : (0 : Time) ≤ 7
    ∧ Restores 7 (lasting 2000007) (applySnapshot (lasting 0) 7 ((lasting 2000007).snapshotCtx 7).2).1 := by
  refine ⟨by decide, (snapshot_restores_iff _ (lasting 0) 7 (by decide) (lasting_placed _) rfl _
    (.refl _)).2.mpr fun key e live => ?_⟩
  rw [lasting_live] at live
  by_cases same : key = ascii "k"
  · rw [same, Function.update_self] at live
    cases live
    exact .inr (by decide)
  · rw [Function.update_of_ne same] at live
    cases live

end Store

end SuperCache
