import SuperCache.Store.Closed
import Mathlib.Algebra.BigOperators.Fin

/-! # Memory accounting

`total` is what the `mem` counter stands for: the sum of `estimateMem` over all
stored entries.  `Sound exact` relates the two.  With `exact` they are equal;
without, the counter may only be too large.

An operation keeps the relation when it gives back what the entry it removes is
worth.  `Action.Accounts` states this for one decision, `run_sound` and
`run_within` carry it through the eviction loop, and the last section checks the
decision of every operation.
-/

namespace SuperCache

open Lib

namespace Store

/-! ## The true total -/

def total (s : Store) : Int :=
  Finset.univ.sum fun si => weight estimateMem (s.shards si).m

theorem total_nonneg (s : Store) : 0 ≤ s.total :=
  Finset.sum_nonneg fun si _ =>
    weight_nonneg estimateMem (fun key e => (estimateMem_pos key e).le) (s.shards si).m

variable {s : Store}

variable {t : Store}

theorem total_change (si : Fin 256) (others : ∀ sj, sj ≠ si → (t.shards sj).m = (s.shards sj).m) :
    t.total = s.total - weight estimateMem (s.shards si).m + weight estimateMem (t.shards si).m := by
  have splitOld := Finset.add_sum_erase Finset.univ
    (fun sj => weight estimateMem (s.shards sj).m) (Finset.mem_univ si)
  have splitNew := Finset.add_sum_erase Finset.univ
    (fun sj => weight estimateMem (t.shards sj).m) (Finset.mem_univ si)
  have sameRest : (Finset.univ.erase si).sum (fun sj => weight estimateMem (t.shards sj).m)
      = (Finset.univ.erase si).sum (fun sj => weight estimateMem (s.shards sj).m) := by
    apply Finset.sum_congr rfl
    intro sj member
    rw [others sj (Finset.ne_of_mem_erase member)]
  unfold total
  rw [← splitOld, ← splitNew, sameRest]
  abel

theorem total_congr (same : ∀ si, (t.shards si).m = (s.shards si).m) : t.total = s.total := by
  unfold total
  exact Finset.sum_congr rfl fun si _ => by rw [same si]

theorem total_purgeEntryLocked {si : Fin 256} {key : Key} {e : Entry}
    (found : (s.shards si).m.lookup key = some e) (read : Entry) :
    (s.purgeEntryLocked si key read).total = s.total - estimateMem key e := by
  rw [total_change (s := s) si fun sj other => by rw [purgeEntryLocked_m, if_neg other]]
  rw [purgeEntryLocked_m, if_pos rfl, weight_erase estimateMem found]
  abel

theorem total_replaceEntry (s : Store) (key : Key) (old : Option Entry) (ne : Entry) :
    (s.replaceEntry key old ne).total
      = s.total - oldBytes key (s.stored key) + estimateMem key ne := by
  rw [total_change (s := s) (s.route key)
    fun sj other => by rw [replaceEntry_m, if_neg other]]
  rw [replaceEntry_m, if_pos rfl, weight_insert]
  have stored : ((s.shards (s.route key)).m.lookup key).elim 0 (estimateMem key)
      = oldBytes key (s.stored key) := by
    unfold stored
    cases (s.shards (s.route key)).m.lookup key <;> rfl
  rw [stored]
  abel

theorem oldBytes_le_total (s : Store) (key : Key) : oldBytes key (s.stored key) ≤ s.total := by
  cases found : s.stored key with
  | none => exact s.total_nonneg
  | some e =>
    have rest := (s.purgeEntryLocked (s.route key) key e).total_nonneg
    rw [total_purgeEntryLocked found] at rest
    simp only [oldBytes]
    omega

theorem mem_addMem {delta : Int} (nonzero : delta ≠ 0) :
    (s.addMem delta).mem = max 0 (s.mem + delta) := by
  unfold addMem
  rw [if_neg nonzero]

theorem mem_purgeEntryLocked (s : Store) (si : Fin 256) (key : Key) (e : Entry) :
    (s.purgeEntryLocked si key e).mem = max 0 (s.mem - estimateMem key e) := by
  have positive := estimateMem_pos key e
  simp only [purgeEntryLocked, bumpWatchKey_mem]
  rw [mem_addMem (by omega)]
  rfl

theorem mem_releaseOld (nonneg : 0 ≤ s.mem) (key : Key) (old : Option Entry) :
    (s.releaseOld key old).mem = max 0 (s.mem - oldBytes key old) := by
  cases old with
  | none =>
    simp only [releaseOld, oldBytes]
    omega
  | some e =>
    have positive := estimateMem_pos key e
    simp only [releaseOld, oldBytes]
    rw [mem_addMem (by omega)]
    rfl

theorem mem_replaceEntry (nonneg : 0 ≤ s.mem) (key : Key) (old : Option Entry) (ne : Entry) :
    (s.replaceEntry key old ne).mem
      = max 0 (s.mem - oldBytes key old) + estimateMem key ne := by
  have positive := estimateMem_pos key ne
  simp only [replaceEntry, bumpWatchKey_mem]
  rw [mem_addMem (by omega)]
  have released : ((s.releaseOld key old).install key old ne).mem
      = max 0 (s.mem - oldBytes key old) :=
    mem_releaseOld nonneg key old
  rw [released]
  omega

end Store

/-! ## The relation between counter and total -/

/-- `amount` covers `owed`, exactly so when `exact` is set. -/
def Covers (exact : Bool) (amount owed : Int) : Prop :=
  owed ≤ amount ∧ (exact = true → amount = owed)

theorem Covers.refl (exact : Bool) (amount : Int) : Covers exact amount amount :=
  ⟨le_refl amount, fun _ => rfl⟩

variable {amount owed : Int}

theorem Covers.sub {exact : Bool} {gone paid : Int} (covered : Covers exact amount owed)
    (payment : Covers exact gone paid) (remains : gone ≤ owed) :
    Covers exact (max 0 (amount - paid)) (owed - gone) := by
  obtain ⟨enough, exactly⟩ := covered
  obtain ⟨fair, fairly⟩ := payment
  refine ⟨by omega, fun isExact => ?_⟩
  have := exactly isExact
  have := fairly isExact
  omega

theorem Covers.add {exact : Bool} (covered : Covers exact amount owed) (more : Int) :
    Covers exact (amount + more) (owed + more) := by
  obtain ⟨enough, exactly⟩ := covered
  refine ⟨by omega, fun isExact => ?_⟩
  have := exactly isExact
  omega

namespace Store

structure Sound (exact : Bool) (limit : Nat) (s : Store) : Prop where
  covers : Covers exact s.mem s.total
  maxMem : s.maxMem = limit

section Primitives

variable {exact : Bool} {limit : Nat} {s t : Store} {si : Fin 256} {key : Key}

theorem Sound.mem_nonneg (sound : s.Sound exact limit) : 0 ≤ s.mem :=
  s.total_nonneg.trans sound.covers.1

theorem Sound.of_eq (sound : s.Sound exact limit) (sameMem : t.mem = s.mem)
    (sameLimit : t.maxMem = s.maxMem) (same : ∀ si, (t.shards si).m = (s.shards si).m) :
    t.Sound exact limit := by
  refine ⟨?_, sameLimit.trans sound.maxMem⟩
  rw [sameMem, total_congr same]
  exact sound.covers

theorem Sound.purgeEntryLocked {e read : Entry} (sound : s.Sound exact limit)
    (found : (s.shards si).m.lookup key = some e)
    (payment : Covers exact (estimateMem key e) (estimateMem key read)) :
    (s.purgeEntryLocked si key read).Sound exact limit := by
  have rest := (s.purgeEntryLocked si key read).total_nonneg
  rw [total_purgeEntryLocked found] at rest
  refine ⟨?_, (purgeEntryLocked_maxMem _ _ _ _).trans sound.maxMem⟩
  rw [mem_purgeEntryLocked, total_purgeEntryLocked found]
  exact sound.covers.sub payment (by omega)

theorem Sound.replaceEntry {old : Option Entry} (sound : s.Sound exact limit)
    (payment : Covers exact (oldBytes key (s.stored key)) (oldBytes key old)) (ne : Entry) :
    (s.replaceEntry key old ne).Sound exact limit := by
  refine ⟨?_, (replaceEntry_maxMem _ _ _ _).trans sound.maxMem⟩
  rw [mem_replaceEntry sound.mem_nonneg, total_replaceEntry]
  exact (sound.covers.sub payment (s.oldBytes_le_total key)).add (estimateMem key ne)

theorem sound_closed : Closed (Sound exact limit) where
  quiet sound shards _ _ mem maxMem _ := sound.of_eq mem maxMem fun si => by rw [shards]
  purge sound found := sound.purgeEntryLocked found (.refl _ _)
  write ne sound stored := sound.replaceEntry (by rw [stored]; exact .refl _ _) ne
  forget sound := sound.of_eq rfl rfl fun _ => rfl
  drop {_ key e} sound found :=
    -- Dropping the source is a purge without the bump of its watch version.
    (sound.purgeEntryLocked found (.refl _ (estimateMem key e))).of_eq rfl rfl fun _ => rfl

end Primitives

end Store

/-! ## Decisions that account for what they replace -/

section Accounts

variable {ρ : Type}

def Commit.Accounts (exact : Bool) (key : Key) (cur : Option Entry) : Commit ρ → Prop
  | .keep _ => True
  | .purge e _ => ∃ held, cur = some held ∧
      Covers exact (estimateMem key held) (estimateMem key e)
  | .replace old _ _ => Covers exact (oldBytes key cur) (oldBytes key old)

def Commit.Shrinks (key : Key) : Commit ρ → Prop
  | .replace old ne _ => estimateMem key ne ≤ oldBytes key old
  | _ => True

def Commit.Puts (ne : Entry) : Commit ρ → Prop
  | .replace _ ne' _ => ne' = ne
  | _ => True

def Retry.Accounts (exact : Bool) (key : Key) (found : Look) (ne : Entry) : Retry ρ → Prop
  | .stored => True
  | .recheck _ decide => ∀ again, again = .missing ∨ (again = found ∧ again.isLive = true) →
      (decide again).Accounts exact key again.current ∧ (decide again).Puts ne

def Action.Accounts (exact : Bool) (key : Key) (found : Look) : Action ρ → Prop
  | .done _ commit =>
    commit.Accounts exact key found.current ∧ commit.Shrinks key
  | .ensure _ delta old ne _ retry =>
    Covers exact (oldBytes key found.current) (oldBytes key old) ∧
      delta = estimateMem key ne - oldBytes key found.current ∧
      retry.Accounts exact key found ne

/-- The part of `Accounts` the limit needs: room is asked for what is added. -/
def Action.Sized (key : Key) (found : Look) : Action ρ → Prop
  | .done _ commit =>
    commit.Accounts false key found.current ∧ commit.Shrinks key
  | .ensure _ delta _ ne _ retry =>
    delta = estimateMem key ne - oldBytes key found.current ∧ retry.Accounts false key found ne

theorem Action.Accounts.sized {key : Key} {found : Look} {action : Action ρ}
    (accounts : action.Accounts false key found) : action.Sized key found := by
  cases action with
  | done kind commit => exact accounts
  | ensure kind delta old ne result retry => exact accounts.2

def Action.MakesRoom : Action ρ → Prop
  | .done _ _ => False
  | .ensure .. => True

end Accounts

namespace Store

variable {ρ : Type} {exact : Bool} {limit : Nat} {s t : Store} {now : Time} {key : Key}

theorem Sound.touch (sound : s.Sound exact limit) (key : Key) (kind : Touch) (found : Look) :
    (s.touch key kind found).Sound exact limit :=
  sound.of_eq (touch_frame s key kind found).2.1 (touch_frame s key kind found).2.2.1
    (touch_frame s key kind found).1

theorem Sound.commit {commit : Commit ρ} (sound : s.Sound exact limit)
    (accounts : commit.Accounts exact key (s.stored key)) : (s.commit key commit).1.Sound exact limit := by
  cases commit with
  | keep result => exact sound
  | purge e result =>
    obtain ⟨held, stored, payment⟩ := accounts
    exact sound.purgeEntryLocked stored payment
  | replace old ne result => exact sound.replaceEntry accounts ne

variable {found : Look} {evicted : Bool} {ne : Entry} {result : ρ} {delta : Int}

variable {op : KeyOp ρ} {avoidKey : Key} {old : Option Entry} {retry : Retry ρ}
  {commit : Commit ρ}

theorem again_cases (now : Time) (before : s.stored key = found.current)
    (live : ∀ e, found = .live e → isExpired now e = false) (evictions : Evictions avoidKey s t) :
    t.lookup now key = .missing ∨ (t.lookup now key = found ∧ (t.lookup now key).isLive = true) := by
  obtain same | gone := evictions.stored key
  · rw [before] at same
    cases found with
    | missing => exact .inl (by simp [lookup, look, same, Look.current])
    | expired e => exact .inl (by simp [lookup, look, same, Look.current])
    | live e =>
      have again : t.lookup now key = .live e := by
        simp [lookup, look, same, Look.current, live e rfl]
      exact .inr ⟨again, by rw [again]; rfl⟩
  · exact .inl (by simp [lookup, look, gone])

theorem purgeExpired_again (again : t.lookup now key = .missing ∨
      (t.lookup now key = found ∧ (t.lookup now key).isLive = true)) (purge : Bool) :
    (if purge then t.purgeExpired key (t.lookup now key) else t) = t
      ∧ t.stored key = (t.lookup now key).current := by
  obtain ⟨missing, stored⟩ | ⟨e, expired, -⟩ | ⟨e, live, stored, -⟩ := t.lookup_cases now key
  · rw [missing]
    exact ⟨by cases purge <;> rfl, stored⟩
  · rw [expired] at again
    simp [Look.isLive] at again
  · rw [live]
    exact ⟨by cases purge <;> rfl, stored⟩

theorem Sound.resume (sound : s.Sound exact limit) (before : s.stored key = found.current)
    (live : ∀ e, found = .live e → isExpired now e = false) (room : Room key delta s t evicted)
    (payment : Covers exact (oldBytes key found.current) (oldBytes key old))
    (again : retry.Accounts exact key found ne) :
    (t.resume now key evicted old ne result retry).1.Sound exact limit := by
  have soundRoom := sound_closed.evictions sound room.evictions
  cases evicted with
  | false =>
    have unchanged := room.unchanged rfl
    subst unchanged
    exact sound.replaceEntry (by rw [before]; exact payment) ne
  | true =>
    cases retry with
    | stored => exact soundRoom.replaceEntry (.refl _ _) ne
    | recheck purge decide =>
      have cases := again_cases now before live room.evictions
      obtain ⟨unpurged, stored⟩ := purgeExpired_again cases purge
      simp only [Store.resume, if_true, unpurged]
      exact soundRoom.commit (by rw [stored]; exact (again _ cases).1)

theorem run_sound (sound : s.Sound exact limit)
    (accounts : (op (s.lookup now key)).Accounts exact key (s.lookup now key)) :
    (s.run now key op).1.Sound exact limit := by
  have entered := sound_closed.purgeExpired sound now key
  have held := s.stored_purgeExpired_self now key
  unfold run
  simp only
  cases decision : op (s.lookup now key) with
  | done kind commit =>
    rw [decision] at accounts
    exact (entered.touch key kind _).commit (by rw [stored_touch, held]; exact accounts.1)
  | ensure kind delta old ne result retry =>
    rw [decision] at accounts
    obtain ⟨payment, -, again⟩ := accounts
    have touched := entered.touch key kind (s.lookup now key)
    simp only
    split
    · next failed => exact sound_closed.evictions touched (ensureMemoryWithRetry_error failed).2.2.2
    · next succeeded =>
      exact touched.resume (by rw [stored_touch, held]) (fun e found => (lookup_live found).2)
        (ensureMemoryWithRetry_ok succeeded) payment again

/-! ## The limit -/

theorem total_purgeExpired_le (s : Store) (now : Time) (key : Key) :
    (s.purgeExpired key (s.lookup now key)).total ≤ s.total := by
  obtain ⟨found, -⟩ | ⟨e, found, stored, -⟩ | ⟨e, found, -⟩ := s.lookup_cases now key
  · rw [found]
    exact le_refl _
  · have positive := estimateMem_pos key e
    rw [found]
    simp only [purgeExpired]
    rw [total_purgeEntryLocked stored]
    omega
  · rw [found]
    exact le_refl _

theorem Evictions.total_le (evictions : Evictions avoidKey s t) : t.total ≤ s.total := by
  induction evictions with
  | refl s => exact le_refl _
  | draw tick cursor rest ih => exact ih
  | purge si victim e found spared rest ih =>
    have positive := estimateMem_pos victim e
    rw [total_purgeEntryLocked found] at ih
    omega

theorem total_touch (s : Store) (key : Key) (kind : Touch) (found : Look) :
    (s.touch key kind found).total = s.total :=
  total_congr (touch_frame s key kind found).1

theorem total_commit_le (accounts : commit.Accounts false key (s.stored key))
    (shrinks : commit.Shrinks key) : (s.commit key commit).1.total ≤ s.total := by
  cases commit with
  | keep result => exact le_refl _
  | purge e result =>
    obtain ⟨held, stored, -⟩ := accounts
    have positive := estimateMem_pos key held
    simp only [Store.commit]
    rw [total_purgeEntryLocked stored]
    omega
  | replace old ne result =>
    have paid := accounts.1
    simp only [Store.commit, Commit.Shrinks] at shrinks ⊢
    rw [total_replaceEntry]
    omega

theorem total_commit_puts (accounts : commit.Accounts false key (s.stored key))
    (puts : commit.Puts ne) :
    (s.commit key commit).1.total
      ≤ max s.total (s.total + (estimateMem key ne - oldBytes key (s.stored key))) := by
  cases commit with
  | keep result => exact le_max_left _ _
  | purge e result =>
    obtain ⟨held, stored, -⟩ := accounts
    have positive := estimateMem_pos key held
    simp only [Store.commit]
    rw [total_purgeEntryLocked stored]
    omega
  | replace old ne' result =>
    simp only [Store.commit, Commit.Puts] at puts ⊢
    subst puts
    rw [total_replaceEntry]
    omega

theorem overLimit_eq_false (small : s.maxMem < 2 ^ 63) (fits : s.overLimit delta = false) :
    s.mem + delta ≤ s.maxMem := by
  have limit : wrap64 s.maxMem = s.maxMem := by
    apply wrap64_eq_self
    unfold IsInt64 minInt64 maxInt64
    omega
  unfold overLimit at fits
  rw [limit] at fits
  simpa using fits

/-- Whether eviction can take the operation's own live entry away: it protects
its key by name, and the empty name protects nothing. -/
def MayEvictItself (s : Store) (now : Time) (key : Key) : Prop :=
  key = [] ∧ (s.lookup now key).isLive = true ∧ s.policy ≠ .noeviction

theorem stored_after_room (before : s.stored key = found.current)
    (room : Room key delta s t evicted)
    (itself : ¬ (key = [] ∧ found.isLive = true ∧ s.policy ≠ .noeviction)) :
    t.stored key = found.current := by
  cases evicted with
  | false =>
    rw [room.unchanged rfl]
    exact before
  | true =>
    by_cases emptyKey : key = []
    · have notLive : found.current = none := by
        cases found with
        | missing => rfl
        | expired e => rfl
        | live e => exact absurd ⟨emptyKey, rfl, room.policy rfl⟩ itself
      rw [notLive] at before ⊢
      obtain same | gone := room.evictions.stored key
      · rw [same, before]
      · exact gone
    · rw [room.evictions.stored_avoided emptyKey, before]

/-- A write that fits leaves the total within the limit.  `delta ≤ 0` needs no
room, so the case split is on the sign of the growth. -/
theorem resume_within (sound : s.Sound false limit) (limited : limit ≠ 0) (small : limit < 2 ^ 63)
    (within : s.total ≤ limit) (before : s.stored key = found.current)
    (live : ∀ e, found = .live e → isExpired now e = false)
    (itself : ¬ (key = [] ∧ found.isLive = true ∧ s.policy ≠ .noeviction))
    (room : Room key (estimateMem key ne - oldBytes key found.current) s t evicted)
    (again : retry.Accounts false key found ne) :
    (t.resume now key evicted old ne result retry).1.total ≤ limit := by
  have held := stored_after_room before room itself
  obtain ⟨covered, sameLimit⟩ := sound_closed.evictions sound room.evictions
  have enough := covered.1
  -- What the write adds to the total it now finds is what room was made for.
  have bound : max t.total (t.total + (estimateMem key ne - oldBytes key (t.stored key)))
      ≤ limit := by
    rw [held]
    by_cases grows : 0 < estimateMem key ne - oldBytes key found.current
    · have fits := overLimit_eq_false (by rw [sameLimit]; exact small)
        (room.fits (by rw [sound.maxMem]; exact limited) grows)
      rw [sameLimit] at fits
      omega
    · have shrunk := room.evictions.total_le
      omega
  cases evicted with
  | false =>
    refine le_trans ?_ bound
    simp only [Store.resume, Bool.false_eq_true, if_false, Store.commit]
    rw [total_replaceEntry]
    omega
  | true =>
    cases retry with
    | stored =>
      refine le_trans ?_ bound
      simp only [Store.resume, if_true, Store.commit]
      rw [total_replaceEntry]
      omega
    | recheck purge decide =>
      have cases := again_cases now before live room.evictions
      obtain ⟨unpurged, stored⟩ := purgeExpired_again cases purge
      obtain ⟨accounts, puts⟩ := again _ cases
      refine le_trans ?_ bound
      simp only [Store.resume, if_true, unpurged]
      exact total_commit_puts (by rw [stored]; exact accounts) puts

theorem run_total_le (settles : ¬ (op (s.lookup now key)).MakesRoom)
    (sized : (op (s.lookup now key)).Sized key (s.lookup now key)) :
    (s.run now key op).1.total ≤ s.total := by
  have smaller := s.total_purgeExpired_le now key
  have held := s.stored_purgeExpired_self now key
  unfold run
  simp only
  cases decision : op (s.lookup now key) with
  | done kind commit =>
    rw [decision] at sized
    obtain ⟨pays, shrinks⟩ := sized
    refine le_trans (total_commit_le ?_ shrinks) ?_
    · rw [stored_touch, held]
      exact pays
    · rw [total_touch]
      exact smaller
  | ensure kind delta old ne value retry =>
    rw [decision] at settles
    exact absurd trivial settles

/-- A successful operation that asks for the room it needs keeps the total within
the limit, unless it evicted its own entry while making room. -/
theorem run_within (sound : s.Sound false limit) (limited : limit ≠ 0) (small : limit < 2 ^ 63)
    (within : s.total ≤ limit)
    (itself : (op (s.lookup now key)).MakesRoom → ¬ s.MayEvictItself now key)
    (sized : (op (s.lookup now key)).Sized key (s.lookup now key))
    (succeeded : (s.run now key op).2 = .ok result) : (s.run now key op).1.total ≤ limit := by
  cases decision : op (s.lookup now key) with
  | done kind commit =>
    refine (run_total_le ?_ sized).trans within
    rw [decision]
    exact id
  | ensure kind delta old ne value retry =>
    have entered := sound_closed.purgeExpired sound now key
    have smaller := s.total_purgeExpired_le now key
    have held := s.stored_purgeExpired_self now key
    rw [decision] at sized
    unfold run at succeeded ⊢
    simp only [decision] at succeeded ⊢
    obtain ⟨growth, again⟩ := sized
    have samePolicy := (touch_frame (s.purgeExpired key (s.lookup now key)) key kind
      (s.lookup now key)).2.2.2
    rw [purgeExpired_policy] at samePolicy
    split at succeeded
    · cases succeeded
    · next made =>
      subst growth
      refine resume_within (entered.touch key kind _) limited small ?_ (by rw [stored_touch, held])
        (fun e found => (lookup_live found).2) ?_ (ensureMemoryWithRetry_ok made) again
      · rw [total_touch]
        omega
      · rw [samePolicy]
        exact itself (by rw [decision]; trivial)

end Store

end SuperCache
