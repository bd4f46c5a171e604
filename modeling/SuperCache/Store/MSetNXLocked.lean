import SuperCache.Store.Linearize
import SuperCache.Store.Locks

/-! # `MSetNX` among other operations

`MSetNX` locks the shards of its keys, looks at the keys, releases the locks to make room,
locks the shards again, looks again, and stores.  Here each of its steps is a move, and
between any two of them others may do whatever they like to the shards that `MSetNX` has
not locked.  Whatever they do, all pairs are stored while all locks are held and none of
the keys is live, or none is stored.
-/

namespace SuperCache

open Lib

/-! ## The machine -/

inductive NXNext where
  | evict (delta : Int)
  | answer (result : Bool)
deriving DecidableEq

/-- Where a call stands.  `again` is set in the second locked region, `entered` once
`evictUntilFits` has found that there is a limit. -/
inductive NXPhase where
  | locking (again : Bool) (left : List (Fin 256))
  | checking (again : Bool) (left : Finset Key)
  | pricing (left : Finset Key) (delta : Int)
  | releasing (left : List (Fin 256)) (next : NXNext)
  | evicting (delta : Int) (entered : Bool)
  | storing (left : Finset Key)
  | returned (result : Except StoreErr Bool)
deriving DecidableEq

structure NXWorld where
  store : Store
  clock : Time
  held : Finset (Fin 256)
  phase : NXPhase

inductive NXMove where
  /-- Others leave the store as it is here, but for the locked shards. -/
  | other (t : Store) (now : Time)
  | lock
  | check (key : Key) (now : Time)
  | price (key : Key) (now : Time)
  | unlock
  | evict (victim : Key)
  | refuse
  | put (key : Key) (now : Time)
  /-- A loop has come to its end. -/
  | next

def NXMove.own : NXMove → Bool
  | .other _ _ => false
  | _ => true

def Store.meanwhile (s : Store) (held : Finset (Fin 256)) (t : Store) : Store :=
  { t with shards := fun si => if si ∈ held then s.shards si else t.shards si, route := s.route }

namespace NXWorld

variable (pairs : GoMap Bytes)

def locks (w : NXWorld) : List (Fin 256) :=
  acquireShardsInOrderKeys w.store.route (sortedElems pairs.keys)

def start (s : Store) (now : Time) : NXWorld where
  store := s
  clock := now
  held := ∅
  phase := .locking false (acquireShardsInOrderKeys s.route (sortedElems pairs.keys))

def goOn (w : NXWorld) : Option NXWorld :=
  match w.phase with
  | .locking again [] => some { w with phase := .checking again pairs.keys }
  | .checking again left =>
    if left = ∅ then
      some { w with phase := if again then .storing pairs.keys else .pricing pairs.keys 0 }
    else none
  | .pricing left delta =>
    if left = ∅ then some { w with phase := .releasing (w.locks pairs) (.evict delta) } else none
  | .releasing [] (.evict delta) => some { w with phase := .evicting delta false }
  | .releasing [] (.answer result) => some { w with phase := .returned (.ok result) }
  | .evicting delta false =>
    if w.store.maxMem = 0 then some { w with phase := .locking true (w.locks pairs) }
    else some { w with phase := .evicting delta true }
  | .evicting delta true =>
    if w.store.overLimit delta then none else some { w with phase := .locking true (w.locks pairs) }
  | .storing left =>
    if left = ∅ then some { w with phase := .releasing (w.locks pairs) (.answer true) } else none
  | _ => none

def step (w : NXWorld) : NXMove → Option NXWorld
  | .other t now =>
    if w.clock ≤ now then some { w with store := w.store.meanwhile w.held t, clock := now } else none
  | .lock =>
    match w.phase with
    | .locking again (si :: left) =>
      some { w with held := insert si w.held, phase := .locking again left }
    | _ => none
  | .check key now =>
    match w.phase with
    | .checking again left =>
      if key ∈ left ∧ w.clock ≤ now then
        if (w.store.lookup now key).isLive then
          some { w with clock := now, phase := .releasing (w.locks pairs) (.answer false) }
        else some { w with clock := now, phase := .checking again (left.erase key) }
      else none
    | _ => none
  | .price key now =>
    match w.phase, pairs.lookup key with
    | .pricing left delta, some val =>
      if key ∈ left ∧ w.clock ≤ now then
        let (store, delta) := Store.priceNew now (w.store, delta) (key, val)
        some { w with store := store, clock := now, phase := .pricing (left.erase key) delta }
      else none
    | _, _ => none
  | .unlock =>
    match w.phase with
    | .releasing (si :: left) next =>
      some { w with held := w.held.erase si, phase := .releasing left next }
    | _ => none
  | .evict victim =>
    match w.phase with
    | .evicting delta true =>
      if w.store.overLimit delta then
        (w.store.evictOne [] victim).map fun store => { w with store := store }
      else none
    | _ => none
  | .refuse =>
    match w.phase with
    | .evicting delta true =>
      if w.store.overLimit delta then some { w with phase := .returned (.error .oom) } else none
    | _ => none
  | .put key now =>
    match w.phase, pairs.lookup key with
    | .storing left, some val =>
      if key ∈ left ∧ w.clock ≤ now then
        some { w with
          store := w.store.installNew now (key, val), clock := now, phase := .storing (left.erase key) }
      else none
    | _, _ => none
  | .next => w.goOn pairs

variable {pairs} {w next : NXWorld} {move : NXMove}

/-! ## What a call has to do -/

def StoresNothing (pairs : GoMap Bytes) (w : NXWorld) (move : NXMove) : Prop :=
  move.own = true → ∀ next, w.step pairs move = some next →
    ∀ key, next.store.stored key = w.store.stored key ∨ next.store.stored key = none

def Locked (pairs : GoMap Bytes) (w : NXWorld) : Prop :=
  ∀ key ∈ pairs, w.store.route key ∈ w.held

def NoneLive (pairs : GoMap Bytes) (w : NXWorld) : Prop :=
  ∀ key ∈ pairs, (w.store.lookup w.clock key).isLive = false

def SomeLive (pairs : GoMap Bytes) (w : NXWorld) : Prop :=
  ∃ key ∈ pairs, (w.store.lookup w.clock key).isLive = true

/-- The locked shards of `last` are those of `first` with the pairs, but for the keys that
are left. -/
def HasPut (pairs : GoMap Bytes) (left : Finset Key) (first last : NXWorld) : Prop :=
  ∀ key, last.store.route key ∈ last.held → last.store.stored key =
    match pairs.lookup key with
    | some val => if key ∈ left then first.store.stored key else some { value := .string val }
    | none => first.store.stored key

section Runs

variable (pairs : GoMap Bytes) (s : Store) (now : Time)

def Quiet (moves : List NXMove) : Prop :=
  Machine.Guarded (step pairs) (StoresNothing pairs) (start pairs s now) moves

/-- The call is storing: it has been quiet until all keys were locked and none was live,
and has held the locks since. -/
def Storing (moves : List NXMove) (left : Finset Key) (w : NXWorld) : Prop :=
  ∃ before during first, moves = before ++ during
    ∧ Machine.run (step pairs) (start pairs s now) before = some first
    ∧ Machine.run (step pairs) first during = some w
    ∧ Quiet pairs s now before ∧ NoneLive pairs first
    ∧ Machine.Guarded (step pairs) (fun w _ => Locked pairs w) first during
    ∧ HasPut pairs left first w

/-- The call has stored all pairs, in a part of the run over which it had all the locks,
and nothing before and after. -/
def StoredAtOnce (moves : List NXMove) : Prop :=
  ∃ stored after last, moves = stored ++ after ∧ Storing pairs s now stored ∅ last
    ∧ Locked pairs last ∧ Machine.Guarded (step pairs) (StoresNothing pairs) last after

end Runs

/-! ## Single steps -/

theorem purgeExpired_route (s : Store) (key : Key) (found : Look) :
    (s.purgeExpired key found).route = s.route := by
  cases found with
  | missing | live => rfl
  | expired e => exact Store.purgeEntryLocked_route ..

theorem look_isLive_mono {early late : Time} (passes : early ≤ late) {stored : Option Entry}
    (dead : (look early stored).isLive = false) : (look late stored).isLive = false := by
  cases stored with
  | none => rfl
  | some e =>
    simp only [look, isExpired] at dead ⊢
    by_cases gone : e.expiresAt ≠ 0 ∧ e.expiresAt < early
    · have later : e.expiresAt ≠ 0 ∧ e.expiresAt < late := ⟨gone.1, gone.2.trans_le passes⟩
      simp [later, Look.isLive]
    · simp [gone, Look.isLive] at dead

theorem stored_meanwhile {s t : Store} {held : Finset (Fin 256)} {key : Key}
    (locked : s.route key ∈ held) : (s.meanwhile held t).stored key = s.stored key := by
  simp [Store.stored, Store.meanwhile, locked]

theorem priceNew_stored (now : Time) (s : Store) (delta : Int) (pair : Key × Bytes) (key : Key) :
    (Store.priceNew now (s, delta) pair).1.stored key = s.stored key
      ∨ (Store.priceNew now (s, delta) pair).1.stored key = none := by
  have purged := s.stored_purgeExpired now pair.1 key
  simp only [Store.priceNew]
  rw [purged]
  by_cases same : key = pair.1
  · subst same
    rw [if_pos rfl]
    obtain ⟨found, stored⟩ | ⟨e, found, stored, -⟩ | ⟨e, found, stored, -⟩ :=
      s.lookup_cases now pair.1
    · simp [found, Look.current]
    · simp [found, Look.current]
    · simp [found, Look.current, stored]
  · simp [same]

theorem evictOne_stored {s t : Store} {victim : Key} (evicts : s.evictOne [] victim = some t)
    (key : Key) : t.stored key = s.stored key ∨ t.stored key = none := by
  unfold Store.evictOne at evicts
  split at evicts
  · split at evicts
    · cases evicts
      rw [Store.stored_purgeOwn]
      by_cases same : key = victim
      · simp [same]
      · simp [same]
    · cases evicts
  · cases evicts

theorem installNew_stored (now : Time) (s : Store) (key other : Key) (val : Bytes) :
    (s.installNew now (key, val)).stored other
      = if other = key then some { value := .string val } else s.stored other := by
  simp only [Store.installNew]
  rw [Store.stored_replaceEntry, s.stored_purgeExpired now key other]
  by_cases same : other = key
  · simp [same]
  · simp [same]

theorem goOn_frame (gone : w.goOn pairs = some next) :
    next.store = w.store ∧ next.clock = w.clock ∧ next.held = w.held := by
  unfold goOn at gone
  repeat' split at gone
  all_goals first
    | cases gone; exact ⟨rfl, rfl, rfl⟩
    | cases gone

inductive Stepped (pairs : GoMap Bytes) (w : NXWorld) : NXMove → NXWorld → Prop
  | other (t : Store) (now : Time) (passes : w.clock ≤ now) :
      Stepped pairs w (.other t now) { w with store := w.store.meanwhile w.held t, clock := now }
  | lock (again : Bool) (si : Fin 256) (left : List (Fin 256))
      (at_ : w.phase = .locking again (si :: left)) :
      Stepped pairs w .lock { w with held := insert si w.held, phase := .locking again left }
  | found (again : Bool) (left : Finset Key) (key : Key) (now : Time)
      (at_ : w.phase = .checking again left) (listed : key ∈ left) (passes : w.clock ≤ now)
      (live : (w.store.lookup now key).isLive = true) :
      Stepped pairs w (.check key now)
        { w with clock := now, phase := .releasing (w.locks pairs) (.answer false) }
  | vacant (again : Bool) (left : Finset Key) (key : Key) (now : Time)
      (at_ : w.phase = .checking again left) (passes : w.clock ≤ now)
      (dead : (w.store.lookup now key).isLive = false) :
      Stepped pairs w (.check key now) { w with clock := now, phase := .checking again (left.erase key) }
  | price (left : Finset Key) (delta : Int) (key : Key) (val : Bytes) (now : Time)
      (at_ : w.phase = .pricing left delta) :
      Stepped pairs w (.price key now)
        { w with
          store := (Store.priceNew now (w.store, delta) (key, val)).1
          clock := now
          phase := .pricing (left.erase key) (Store.priceNew now (w.store, delta) (key, val)).2 }
  | unlock (si : Fin 256) (left : List (Fin 256)) (after : NXNext)
      (at_ : w.phase = .releasing (si :: left) after) :
      Stepped pairs w .unlock { w with held := w.held.erase si, phase := .releasing left after }
  | evict (delta : Int) (victim : Key) (store : Store) (at_ : w.phase = .evicting delta true)
      (evicts : w.store.evictOne [] victim = some store) :
      Stepped pairs w (.evict victim) { w with store := store }
  | refuse (delta : Int) (at_ : w.phase = .evicting delta true) :
      Stepped pairs w .refuse { w with phase := .returned (.error .oom) }
  | put (left : Finset Key) (key : Key) (val : Bytes) (now : Time) (at_ : w.phase = .storing left)
      (listed : key ∈ left) (has : pairs.lookup key = some val) (passes : w.clock ≤ now) :
      Stepped pairs w (.put key now)
        { w with
          store := w.store.installNew now (key, val), clock := now, phase := .storing (left.erase key) }
  | next (after : NXWorld) (gone : w.goOn pairs = some after) : Stepped pairs w .next after

theorem stepped_of_step (stepped : w.step pairs move = some next) : Stepped pairs w move next := by
  revert stepped
  fun_cases step pairs w move <;> intro stepped
  case case14 victim delta at_ full =>
    obtain ⟨store, evicts, rfl⟩ := Option.map_eq_some_iff.mp stepped
    exact .evict _ victim store at_ evicts
  case case23 => exact .next _ stepped
  all_goals cases stepped
  · next t now passes => exact .other t now passes
  · next at_ => exact .lock _ _ _ at_
  · next key now again left at_ allowed live =>
    exact .found _ _ key now at_ allowed.1 allowed.2 live
  · next key now again left at_ allowed dead =>
    exact .vacant _ _ key now at_ allowed.2 (Bool.eq_false_iff.mpr dead)
  · next key now left delta val has at_ allowed store price priced =>
    have stepped : Stepped pairs w (.price key now) _ := .price left delta key val now at_
    rwa [priced] at stepped
  · next at_ => exact .unlock _ _ _ at_
  · next at_ full => exact .refuse _ at_
  · next key now left val has at_ allowed => exact .put _ key _ now at_ allowed.1 has allowed.2

theorem step_route (stepped : w.step pairs move = some next) : next.store.route = w.store.route := by
  cases stepped_of_step stepped with
  | other | lock | found | vacant | unlock | refuse => rfl
  | price left delta key val now at_ => exact purgeExpired_route ..
  | evict delta victim store at_ evicts =>
    unfold Store.evictOne at evicts
    split at evicts
    · split at evicts
      · cases evicts
        exact Store.purgeEntryLocked_route ..
      · cases evicts
    · cases evicts
  | put left key val now at_ listed has passes =>
    simp only [Store.installNew]
    rw [Store.replaceEntry_route, purgeExpired_route]
  | next after gone => rw [(goOn_frame gone).1]

theorem storesNothing_next : StoresNothing pairs w .next := by
  intro own next stepped key
  have gone : w.goOn pairs = some next := stepped
  exact .inl (by rw [(goOn_frame gone).1])

theorem storesNothing (elsewhere : ∀ left, w.phase ≠ .storing left) : StoresNothing pairs w move := by
  intro own next stepped key
  cases stepped_of_step stepped with
  | other => cases own
  | lock | found | vacant | unlock | refuse => exact .inl rfl
  | price left delta key' val now at_ => exact priceNew_stored now w.store delta (key', val) key
  | evict delta victim store at_ evicts => exact evictOne_stored evicts key
  | put left key' val now at_ listed has passes => exact absurd at_ (elsewhere left)
  | next after gone => exact storesNothing_next own next gone key

/-! ## The run so far -/

section History

variable {s : Store} {now : Time} {moves : List NXMove}

/-- What a call that answers `result` has done. -/
def Answered (pairs : GoMap Bytes) (s : Store) (now : Time) (moves : List NXMove) : Bool → Prop
  | true => StoredAtOnce pairs s now moves
  | false => Quiet pairs s now moves
      ∧ Machine.Passes (step pairs) (start pairs s now) moves (SomeLive pairs)

def Known (pairs : GoMap Bytes) (s : Store) (now : Time) (moves : List NXMove) (w : NXWorld) :
    NXPhase → Prop
  | .locking _ left => Quiet pairs s now moves ∧ ∀ si ∈ w.locks pairs, si ∈ left ∨ si ∈ w.held
  | .checking _ left =>
    Quiet pairs s now moves ∧ Locked pairs w ∧ left ⊆ pairs.keys
      ∧ ∀ key ∈ pairs, key ∉ left → (w.store.lookup w.clock key).isLive = false
  | .releasing _ (.answer result) | .returned (.ok result) => Answered pairs s now moves result
  | .pricing _ _ | .releasing _ (.evict _) | .evicting _ _ | .returned (.error _) =>
    Quiet pairs s now moves
  | .storing left => Storing pairs s now moves left w ∧ Locked pairs w

theorem Quiet.concat (quiet : Quiet pairs s now moves)
    (ran : Machine.run (step pairs) (start pairs s now) moves = some w)
    (elsewhere : ∀ left, w.phase ≠ .storing left) : Quiet pairs s now (moves ++ [move]) :=
  Machine.Guarded.concat quiet ran (storesNothing elsewhere)

theorem StoredAtOnce.concat (stored : StoredAtOnce pairs s now moves)
    (ran : Machine.run (step pairs) (start pairs s now) moves = some w)
    (elsewhere : ∀ left, w.phase ≠ .storing left) : StoredAtOnce pairs s now (moves ++ [move]) := by
  obtain ⟨until_, after, last, rfl, storing, locked, quiet⟩ := stored
  have storing' := storing
  obtain ⟨before, during, first, rfl, reaches, stores, -⟩ := storing'
  have reached : Machine.run (step pairs) last after = some w := by
    obtain ⟨mid, toMid, fromMid⟩ := Machine.run_append.mp ran
    obtain ⟨first', toFirst, toLast⟩ := Machine.run_append.mp toMid
    cases reaches.symm.trans toFirst
    cases stores.symm.trans toLast
    exact fromMid
  exact ⟨_, after ++ [move], last, List.append_assoc .., storing, locked,
    Machine.Guarded.concat quiet reached (storesNothing elsewhere)⟩

theorem Answered.concat {result : Bool} (answered : Answered pairs s now moves result)
    (ran : Machine.run (step pairs) (start pairs s now) moves = some w)
    (elsewhere : ∀ left, w.phase ≠ .storing left) : Answered pairs s now (moves ++ [move]) result := by
  cases result with
  | true => exact StoredAtOnce.concat answered ran elsewhere
  | false => exact ⟨answered.1.concat ran elsewhere, answered.2.append _⟩

theorem lookup_meanwhile_dead {t : Store} {later : Time} (passes : w.clock ≤ later) {key : Key}
    (locked : w.store.route key ∈ w.held) (dead : (w.store.lookup w.clock key).isLive = false) :
    ((w.store.meanwhile w.held t).lookup later key).isLive = false := by
  unfold Store.lookup at dead ⊢
  rw [stored_meanwhile locked]
  exact look_isLive_mono passes dead

theorem known_other (t : Store) (later : Time) (passes : w.clock ≤ later)
    (ran : Machine.run (step pairs) (start pairs s now) moves = some w)
    (known : Known pairs s now moves w w.phase) :
    Known pairs s now (moves ++ [.other t later])
      { w with store := w.store.meanwhile w.held t, clock := later } w.phase := by
  have stepped : w.step pairs (.other t later)
      = some { w with store := w.store.meanwhile w.held t, clock := later } := by
    simp [step, passes]
  obtain ⟨store, clock, held, phase⟩ := w
  cases phase with
  | locking again left => exact ⟨known.1.concat ran (by simp), known.2⟩
  | checking again left =>
    obtain ⟨quiet, locked, own, dead⟩ := known
    exact ⟨quiet.concat ran (by simp), locked, own, fun key has gone =>
      lookup_meanwhile_dead passes (locked key has) (dead key has gone)⟩
  | pricing left delta => exact Quiet.concat known ran (by simp)
  | evicting delta entered => exact Quiet.concat known ran (by simp)
  | releasing left after =>
    cases after with
    | evict delta => exact Quiet.concat known ran (by simp)
    | answer result => exact Answered.concat known ran (by simp)
  | returned result =>
    cases result with
    | error failure => exact Quiet.concat known ran (by simp)
    | ok result => exact Answered.concat known ran (by simp)
  | storing left =>
    obtain ⟨⟨before, during, first, rfl, reaches, stores, quiet, noneLive, locks, put⟩, locked⟩ := known
    refine ⟨⟨before, during ++ [.other t later], first, List.append_assoc .., reaches,
      Machine.run_concat stores stepped, quiet, noneLive,
      Machine.Guarded.concat locks stores locked, fun key routed => ?_⟩, locked⟩
    have same : (store.meanwhile held t).stored key = store.stored key := stored_meanwhile routed
    exact same.trans (put key routed)

theorem locked_of_locks (all : ∀ si ∈ w.locks pairs, si ∈ w.held) : Locked pairs w := by
  intro key has
  refine all _ (((acquireShardsInOrderKeys_spec _ _).2 _).mpr ⟨key, ?_, rfl⟩)
  exact mem_sortedElems.mpr (Finmap.mem_keys.mpr has)

theorem known_next (gone : w.goOn pairs = some next)
    (ran : Machine.run (step pairs) (start pairs s now) moves = some w)
    (known : Known pairs s now moves w w.phase) :
    Known pairs s now (moves ++ [.next]) next next.phase := by
  have stepped : w.step pairs .next = some next := gone
  obtain ⟨store, clock, held, phase⟩ := w
  cases phase with
  | locking again left =>
    cases left with
    | nil =>
      cases gone
      obtain ⟨quiet, all⟩ := known
      refine ⟨quiet.concat ran (by simp), locked_of_locks fun si listed => ?_,
        Finset.Subset.refl _, fun key has left => ?_⟩
      · exact (all si listed).resolve_left List.not_mem_nil
      · exact absurd (Finmap.mem_keys.mpr has) left
    | cons si left => cases gone
  | checking again left =>
    obtain ⟨quiet, locked, -, dead⟩ := known
    cases again with
    | false =>
      simp only [goOn, Bool.false_eq_true, if_false, Option.ite_none_right_eq_some,
        Option.some.injEq] at gone
      obtain ⟨rfl, rfl⟩ := gone
      exact quiet.concat ran (by simp)
    | true =>
      simp only [goOn, if_true, Option.ite_none_right_eq_some, Option.some.injEq] at gone
      obtain ⟨rfl, rfl⟩ := gone
      -- The second look is over: what follows is stored under the same locks.
      refine ⟨⟨moves ++ [.next], [], _, (List.append_nil _).symm, Machine.run_concat ran stepped, rfl,
        quiet.concat ran (by simp), fun key has => dead key has (Finset.notMem_empty key), trivial,
        fun key routed => ?_⟩, locked⟩
      split
      · next val has =>
        rw [if_pos (Finmap.mem_keys.mpr (Finmap.mem_of_lookup_eq_some has))]
      · rfl
  | pricing left delta =>
    simp only [goOn, Option.ite_none_right_eq_some, Option.some.injEq] at gone
    obtain ⟨rfl, rfl⟩ := gone
    exact Quiet.concat known ran (by simp)
  | releasing left after =>
    cases left with
    | cons si left => cases after <;> cases gone
    | nil =>
      cases after with
      | evict delta =>
        cases gone
        exact Quiet.concat known ran (by simp)
      | answer result =>
        cases gone
        exact Answered.concat known ran (by simp)
  | evicting delta entered =>
    have quiet : Quiet pairs s now (moves ++ [.next]) := Quiet.concat known ran (by simp)
    cases entered with
    | false =>
      simp only [goOn] at gone
      split at gone
      · cases gone
        exact ⟨quiet, fun si listed => .inl listed⟩
      · cases gone
        exact quiet
    | true =>
      simp only [goOn, Option.ite_none_left_eq_some, Option.some.injEq] at gone
      obtain ⟨-, rfl⟩ := gone
      exact ⟨quiet, fun si listed => .inl listed⟩
  | storing left =>
    simp only [goOn, Option.ite_none_right_eq_some, Option.some.injEq] at gone
    obtain ⟨rfl, rfl⟩ := gone
    exact ⟨moves, [.next], _, rfl, known.1, known.2, ⟨storesNothing_next, fun _ _ => trivial⟩⟩
  | returned result => cases gone

theorem Storing.put {left : Finset Key} {key : Key} {val : Bytes} {later : Time}
    (storing : Storing pairs s now moves left w) (locked : Locked pairs w)
    (has : pairs.lookup key = some val)
    (stepped : w.step pairs (.put key later) = some { w with
      store := w.store.installNew later (key, val), clock := later, phase := .storing (left.erase key) }) :
    Storing pairs s now (moves ++ [.put key later]) (left.erase key) { w with
      store := w.store.installNew later (key, val), clock := later, phase := .storing (left.erase key) } := by
  have route := step_route stepped
  obtain ⟨before, during, first, rfl, reaches, stores, quiet, noneLive, locks, put⟩ := storing
  refine ⟨before, during ++ [.put key later], first, List.append_assoc .., reaches,
    Machine.run_concat stores stepped, quiet, noneLive, Machine.Guarded.concat locks stores locked,
    fun other routed => ?_⟩
  rw [route] at routed
  have before := put other routed
  simp only [installNew_stored]
  by_cases same : other = key
  · subst same
    simp [has]
  · rw [if_neg same, before]
    simp [same]

theorem known_step (stepped : w.step pairs move = some next)
    (ran : Machine.run (step pairs) (start pairs s now) moves = some w)
    (known : Known pairs s now moves w w.phase) :
    Known pairs s now (moves ++ [move]) next next.phase := by
  have ranOn := Machine.run_concat ran stepped
  have inversion := stepped_of_step stepped
  cases inversion with
  | other t later passes => exact known_other t later passes ran known
  | next after gone => exact known_next gone ran known
  | lock again si left at_ =>
    rw [at_] at known
    refine ⟨known.1.concat ran (by simp [at_]), fun sj listed => ?_⟩
    rcases known.2 sj listed with waits | has
    · rcases List.mem_cons.mp waits with rfl | later
      · exact .inr (Finset.mem_insert_self ..)
      · exact .inl later
    · exact .inr (Finset.mem_insert_of_mem has)
  | found again left key later at_ listed passes live =>
    rw [at_] at known
    obtain ⟨quiet, locked, own, -⟩ := known
    exact ⟨quiet.concat ran (by simp [at_]),
      .here ranOn ⟨key, Finmap.mem_keys.mp (own listed), live⟩⟩
  | vacant again left key later at_ passes dead =>
    rw [at_] at known
    obtain ⟨quiet, locked, own, gone⟩ := known
    refine ⟨quiet.concat ran (by simp [at_]), locked, (Finset.erase_subset _ _).trans own,
      fun other has notLeft => ?_⟩
    by_cases same : other = key
    · rw [same]
      exact dead
    · refine look_isLive_mono passes (gone other has fun left => ?_)
      exact notLeft (Finset.mem_erase.mpr ⟨same, left⟩)
  | price left delta key val later at_ =>
    rw [at_] at known
    exact Quiet.concat known ran (by simp [at_])
  | unlock si left after at_ =>
    rw [at_] at known
    cases after with
    | evict delta => exact Quiet.concat known ran (by simp [at_])
    | answer result => exact Answered.concat known ran (by simp [at_])
  | evict delta victim store at_ evicts =>
    rw [at_] at known
    show Known _ _ _ _ _ w.phase
    rw [at_]
    exact Quiet.concat known ran (by simp [at_])
  | refuse delta at_ =>
    rw [at_] at known
    exact Quiet.concat known ran (by simp [at_])
  | put left key val later at_ listed has passes =>
    rw [at_] at known
    have route := step_route stepped
    refine ⟨known.1.put known.2 has stepped, fun other there => ?_⟩
    rw [route]
    exact known.2 other there

end History

/-- Every call returns with all pairs stored in one part of the run, over which it had all
the locks and before which no key was live, or with none stored; and if it says that a key
was there, then one was. -/
theorem mSetNX_all_or_nothing (pairs : GoMap Bytes) (s : Store) (now : Time) (moves : List NXMove)
    (w : NXWorld) (result : Except StoreErr Bool)
    (ran : Machine.run (step pairs) (start pairs s now) moves = some w)
    (returned : w.phase = .returned result) :
    (result = .ok true ∧ StoredAtOnce pairs s now moves
      ∨ result ≠ .ok true ∧ Quiet pairs s now moves)
    ∧ (result = .ok false →
      Machine.Passes (step pairs) (start pairs s now) moves (SomeLive pairs)) := by
  have known : Machine.run (step pairs) (start pairs s now) moves = some w
      ∧ Known pairs s now moves w w.phase := by
    refine Machine.run_history
      (fun moves w => Machine.run (step pairs) (start pairs s now) moves = some w
        ∧ Known pairs s now moves w w.phase) ⟨rfl, trivial, fun si listed => .inl listed⟩ ?_ ran
    rintro moves w move next ⟨ran, known⟩ stepped
    exact ⟨Machine.run_concat ran stepped, known_step stepped ran known⟩
  obtain ⟨-, known⟩ := known
  rw [returned] at known
  cases result with
  | error failure => exact ⟨.inr ⟨by simp, known⟩, by simp⟩
  | ok answer =>
    cases answer with
    | true => exact ⟨.inl ⟨rfl, known⟩, by simp⟩
    | false => exact ⟨.inr ⟨by simp, known.1⟩, fun _ => known.2⟩

def twoPairs : GoMap Bytes :=
  (Finmap.singleton (ascii "a") (ascii "1")).insert (ascii "b") (ascii "2")

def twoPairsStart : Store :=
  newStore .noeviction 0 sortedOracle

def twoPairsMoves : List NXMove :=
  [.lock, .lock, .next, .check (ascii "b") 1, .check (ascii "a") 1, .next,
    .price (ascii "a") 1, .price (ascii "b") 2, .next, .unlock, .unlock, .next, .next, .lock,
    .other (twoPairsStart.replaceEntry (ascii "c") none { value := .string (ascii "3") }) 3,
    .lock, .next, .check (ascii "a") 3, .check (ascii "b") 4, .next,
    .put (ascii "b") 4, .put (ascii "a") 4, .next, .unlock, .unlock, .next]

theorem twoPairs_stored_at_once :
    ∃ w, Machine.run (step twoPairs) (start twoPairs twoPairsStart 1) twoPairsMoves = some w
      ∧ w.phase = .returned (.ok true) ∧ StoredAtOnce twoPairs twoPairsStart 1 twoPairsMoves := by
  refine ⟨_, Machine.ran (by decide +kernel), by decide +kernel, ?_⟩
  obtain ⟨⟨-, stored⟩ | ⟨notTrue, -⟩, -⟩ := mSetNX_all_or_nothing twoPairs twoPairsStart 1
    twoPairsMoves _ (.ok true) (Machine.ran (by decide +kernel)) (by decide +kernel)
  · exact stored
  · exact absurd rfl notTrue

end NXWorld

end SuperCache
