import SuperCache.Commands.Reads

/-! # Unions, intersections and differences

The loops behind `SUNION`, `SINTER` and `SDIFF` read one key after another, and some stop
early.  What they gather is compared with the sets that the keys hold, a missing key holding
the empty one.  The `STORE` forms put it at the destination, which may be one of the keys.
-/

namespace SuperCache

open Lib

def membersAt (view : Keyspace) (key : Key) : Finset Bytes :=
  match view key with
  | some { value := .set members, .. } => members
  | _ => ∅

def setOrMissing (view : Keyspace) (key : Key) : Bool :=
  match view key with
  | none | some { value := .set _, .. } => true
  | _ => false

/-- The call answers with `value`, or fails because it was not `ready`. -/
inductive Yields {ρ : Type} (ready : Prop) (value : ρ) : Except StoreErr ρ → Prop
  | ok : Yields ready value (.ok value)
  | fails (failure : StoreErr) (unready : ¬ ready) : Yields ready value (.error failure)

section Gathering

variable {ρ σ : Type} {ready : Prop} {value : ρ} {result : Except StoreErr ρ} {now : Time}
  {s : Store} {view : Keyspace}

theorem Yields.eq {found : ρ} (yields : Yields ready value result) (read : result = .ok found) :
    found = value := by
  cases yields with
  | ok => exact (Except.ok.inj read).symm
  | fails => cases read

theorem Yields.of_ready (yields : Yields ready value result) (met : ready) : result = .ok value := by
  cases yields with
  | ok => rfl
  | fails failure unready => exact absurd met unready

theorem Yields.mono {stronger : Prop} (yields : Yields ready value result)
    (needs : stronger → ready) : Yields stronger value result := by
  cases yields with
  | ok => exact .ok
  | fails failure unready => exact .fails failure fun met => unready (needs met)

theorem Yields.onward {later : Prop} {gathered : σ} {call : Store × Except StoreErr ρ}
    {next : Store → ρ → Store × Except StoreErr σ} (first : Yields ready value call.2)
    (rest : Yields later gathered (next call.1 value).2) :
    Yields (ready ∧ later) gathered (onward call next).2 := by
  obtain ⟨t, result⟩ := call
  cases first with
  | ok => exact rest.mono And.right
  | fails failure unready => exact .fails failure fun met => unready met.1

theorem sMembers_yields {key : Key} (same : s.live now = view) :
    Yields (setOrMissing view key = true) (membersAt view key) (s.run now key KeyOp.sMembers).2 := by
  subst same
  have outcome : (s.run now key KeyOp.sMembers).2 = KeyOp.sMembers.outcome (s.live now key) :=
    s.run_read_outcome now key (KeyOp.readLive_regular _ _) (KeyOp.readLive_readOnly _ _)
  rw [outcome, membersAt, setOrMissing]
  rcases s.live now key with _ | ⟨value, deadline⟩
  · exact .ok
  · cases value with
    | set members => exact .ok
    | _ => exact .fails _ Bool.false_ne_true

theorem unionMembers_yields (keys : List Key) (same : s.live now = view) :
    Yields (∀ key ∈ keys, setOrMissing view key = true) (keys.toFinset.biUnion (membersAt view))
      (unionMembers now s keys).2 := by
  induction keys generalizing s with
  | nil => exact .ok
  | cons key rest ih =>
    rw [unionMembers_cons, List.toFinset_cons, Finset.biUnion_insert, List.forall_mem_cons,
      ← and_true (∀ other ∈ rest, _)]
    exact (sMembers_yields same).onward ((ih ((sMembers_reads key).live.1.trans same)).onward .ok)

theorem interLoop_yields (keys : List Key) (same : s.live now = view) (cand : Finset Bytes) :
    Yields (∀ key ∈ keys, setOrMissing view key = true)
      (cand.filter fun m => ∀ key ∈ keys, m ∈ membersAt view key) (interLoop now s cand keys).2 := by
  induction keys generalizing s cand with
  | nil =>
    simp only [List.not_mem_nil, false_imp_iff, implies_true, Finset.filter_true]
    exact .ok
  | cons key rest ih =>
    have narrowed : (cand ∩ membersAt view key).filter (fun m => ∀ other ∈ rest, m ∈ membersAt view other)
        = cand.filter fun m => ∀ other ∈ key :: rest, m ∈ membersAt view other := by
      ext m
      simp [and_assoc]
    rw [interLoop_cons, ← narrowed, List.forall_mem_cons]
    apply (sMembers_yields same).onward
    split
    · next empty =>
      rw [empty, Finset.filter_empty]
      exact .ok
    · exact ih ((sMembers_reads key).live.1.trans same) _

theorem diffLoop_yields (keys : List Key) (same : s.live now = view) (left : Finset Bytes) :
    Yields (∀ key ∈ keys, setOrMissing view key = true)
      (left.filter fun m => ∀ key ∈ keys, m ∉ membersAt view key) (diffLoop now s left keys).2 := by
  induction keys generalizing s left with
  | nil =>
    simp only [List.not_mem_nil, false_imp_iff, implies_true, Finset.filter_true]
    exact .ok
  | cons key rest ih =>
    have narrowed : (left \ membersAt view key).filter (fun m => ∀ other ∈ rest, m ∉ membersAt view other)
        = left.filter fun m => ∀ other ∈ key :: rest, m ∉ membersAt view other := by
      ext m
      simp [and_assoc]
    rw [diffLoop_cons, ← narrowed, List.forall_mem_cons]
    exact (sMembers_yields same).onward (ih ((sMembers_reads key).live.1.trans same) _)

theorem firstMembers_yields {next : Store → Finset Bytes → Store × Except StoreErr (Finset Bytes)}
    {keep : Bytes → Prop} [DecidablePred keep] {key : Key} (same : s.live now = view)
    (rest : ∀ t : Store, t.live now = view →
      Yields ready ((membersAt view key).filter keep) (next t (membersAt view key)).2) :
    Yields (setOrMissing view key = true ∧ ready) ((membersAt view key).filter keep)
      (firstMembers now s key next).2 := by
  rw [firstMembers_eq]
  apply (sMembers_yields same).onward
  split
  · exact rest _ ((sMembers_reads key).live.1.trans same)
  · next dead =>
    have gone : view key = none := by
      subst same
      obtain found | ⟨e, -, gone⟩ := s.lookup_eq now key
      · cases live : s.live now key with
        | none => rfl
        | some e =>
          rw [found, live] at dead
          exact absurd rfl dead
      · exact gone
    rw [membersAt, gone, Finset.filter_empty]
    exact .ok

theorem interMembers_yields (key : Key) (rest : List Key) (same : s.live now = view) :
    Yields (∀ other ∈ key :: rest, setOrMissing view other = true)
      ((membersAt view key).filter fun m => ∀ other ∈ rest, m ∈ membersAt view other)
      (interMembers now s (key :: rest)).2 := by
  rw [List.forall_mem_cons]
  exact firstMembers_yields same fun _ same => interLoop_yields rest same _

theorem diffMembers_yields (key : Key) (rest : List Key) (same : s.live now = view) :
    Yields (∀ other ∈ key :: rest, setOrMissing view other = true)
      ((membersAt view key).filter fun m => ∀ other ∈ rest, m ∉ membersAt view other)
      (diffMembers now s (key :: rest)).2 := by
  rw [List.forall_mem_cons]
  exact firstMembers_yields same fun _ same => diffLoop_yields rest same _

end Gathering

/-! ## The commands -/

/-- The read form lists what `holds` in order, and the `STORE` form puts it at the destination
under the deadline that was there. -/
structure Computes (now : Time) (s : Store) (name dest : Bytes) (keys : List Key)
    (read store : CmdFunc) (holds : Bytes → Prop) : Prop where
  listed : ∃ out : List Bytes, (read now s (name :: keys)).reply = .array (out.map some)
    ∧ out.Pairwise (· < ·) ∧ ∀ m, m ∈ out ↔ holds m
  stored : ∃ members : Finset Bytes, (∀ m, m ∈ members ↔ holds m)
    ∧ (store now s (name :: dest :: keys)).reply = .int members.card
    ∧ (store now s (name :: dest :: keys)).store.live now
      = Function.update (s.live now) dest (some {
          value := .set members
          expiresAt := ((s.live now dest).map Entry.expiresAt).getD 0 })

section Commands

variable {now : Time} {s : Store}

theorem replaceSet_effect (key : Key) (members : Finset Bytes) {cur : Option Entry}
    (live : alive now cur = cur) : (KeyOp.replaceSet key (sortedElems members)).effect now cur
      = some { value := .set members, expiresAt := (cur.map Entry.expiresAt).getD 0 } := by
  have same : (sortedElems members).toFinset = members := by
    ext m
    rw [List.mem_toFinset, mem_sortedElems]
  simp only [KeyOp.effect, KeyOp.after, KeyOp.replaceSet, Action.post, same]
  cases cur with
  | none => exact alive_of_no_deadline _
  | some e => exact alive_same_deadline _ live

theorem computes_of_gathered {members : Time → Store → List Key → Store × Except StoreErr (Finset Bytes)}
    {first : Key} {rest : List Key} {found : Finset Bytes} {holds : Bytes → Prop} (cmd cmd' : String)
    (name dest : Bytes) (unlimited : s.maxMem = 0)
    (reads : Store.Reads now s (members now s (first :: rest)).1)
    (gathered : (members now s (first :: rest)).2 = .ok found) (exactly : ∀ m, m ∈ found ↔ holds m) :
    Computes now s name dest (first :: rest) (combineSets cmd members) (storeSets cmd' members) holds := by
  obtain ⟨t, call⟩ : ∃ t, members now s (first :: rest) = (t, .ok found) := ⟨_, Prod.ext rfl gathered⟩
  rw [call] at reads
  obtain ⟨sameLive, sameLimit⟩ := reads.live
  have regular : (KeyOp.replaceSet dest (sortedElems found)).Regular := KeyOp.replaceSet_regular _
  have answer := t.run_outcome now dest (sameLimit.trans unlimited) regular
  have effect := t.run_live now dest (sameLimit.trans unlimited) regular
  rw [sameLive, replaceSet_effect dest found (s.alive_live now dest)] at effect
  obtain ⟨u, run⟩ : ∃ u, t.run now dest (KeyOp.replaceSet dest (sortedElems found)) = (u, .ok ()) :=
    ⟨_, Prod.ext rfl answer⟩
  rw [run] at effect
  constructor
  · refine ⟨sortedElems found, ?_, pairwise_sortedElems found, fun m => mem_sortedElems.trans (exactly m)⟩
    simp only [combineSets, call, Outcome.ofCall, Outcome.onOk]
  · refine ⟨found, exactly, ?_, ?_⟩
    · simp only [storeSets, call, Outcome.ofCall, Outcome.onOk, run]
    · simp only [storeSets, call, Outcome.ofCall, Outcome.onOk, run]
      exact effect

/-- Of keys that hold sets or nothing, the union, the intersection, and the first without the
others. -/
theorem set_algebra (s : Store) (now : Time) (name dest : Bytes) (first : Key) (rest : List Key)
    (unlimited : s.maxMem = 0) (sets : ∀ key ∈ first :: rest, setOrMissing (s.live now) key = true) :
    Computes now s name dest (first :: rest) cmdSUnion cmdSUnionStore
        (fun m => ∃ key ∈ first :: rest, m ∈ membersAt (s.live now) key)
      ∧ Computes now s name dest (first :: rest) cmdSInter cmdSInterStore
        (fun m => ∀ key ∈ first :: rest, m ∈ membersAt (s.live now) key)
      ∧ Computes now s name dest (first :: rest) cmdSDiff cmdSDiffStore
        (fun m => m ∈ membersAt (s.live now) first
          ∧ ¬ ∃ key ∈ rest, m ∈ membersAt (s.live now) key) := by
  refine ⟨?_, ?_, ?_⟩
  · refine computes_of_gathered _ _ name dest unlimited (unionMembers_reads s _)
      ((unionMembers_yields _ rfl).of_ready sets) fun m => ?_
    simp only [Finset.mem_biUnion, List.mem_toFinset]
  · refine computes_of_gathered _ _ name dest unlimited (interMembers_reads s _)
      ((interMembers_yields first rest rfl).of_ready sets) fun m => ?_
    simp only [Finset.mem_filter, List.forall_mem_cons]
  · refine computes_of_gathered _ _ name dest unlimited (diffMembers_reads s _)
      ((diffMembers_yields first rest rfl).of_ready sets) fun m => ?_
    simp only [Finset.mem_filter, not_exists, not_and]

def twoSets : Store :=
  let s := (newStore .noeviction 0 sortedOracle).run 1 (ascii "a")
    (KeyOp.sAdd (ascii "a") [ascii "x", ascii "y"])
  (s.1.run 1 (ascii "b") (KeyOp.sAdd (ascii "b") [ascii "y", ascii "z"])).1

/-- The common members of two sets, stored at the first of them. -/
theorem twoSets_stored : ∃ members : Finset Bytes,
    (∀ m, m ∈ members ↔ ∀ key ∈ [ascii "a", ascii "b"], m ∈ membersAt (twoSets.live 1) key)
    ∧ (cmdSInterStore 1 twoSets [ascii "SINTERSTORE", ascii "a", ascii "a", ascii "b"]).reply
      = .int members.card := by
  have computed := (set_algebra twoSets 1 (ascii "SINTERSTORE") (ascii "a") (ascii "a") [ascii "b"]
    (by decide +kernel) (by decide +kernel)).2.1
  obtain ⟨members, exactly, reply, -⟩ := computed.stored
  exact ⟨members, exactly, reply⟩

end Commands

end SuperCache
