import SuperCache.Commands.SetAlgebra
import SuperCache.Commands.Server

/-! # The lengths of replies

An array reply is no longer than what the command was given and what it found.
-/

namespace SuperCache

open Lib

/-! ## What there is already -/

def Value.extent : Value → Nat
  | .string bytes => bytes.length
  | .hash fields => 2 * fields.keys.card
  | .list elements => elements.length
  | .set members => members.card

def Store.extent (s : Store) (now : Time) (key : Key) : Nat :=
  ((s.live now key).map fun e => e.value.extent).getD 0

/-- The length of what a command finds: the value of its key, the sets it combines, or the
keys it lists. -/
def Command.existing (now : Time) (s : Store) (args : List Bytes) : Command → Nat
  | .sunion | .sinter | .sdiff => ((args.drop 1).map (s.extent now)).sum
  | .sunionstore | .sinterstore | .sdiffstore => ((args.drop 2).map (s.extent now)).sum
  | .session .keys | .session .scan | .session .randomKey =>
    (s.visitShards now fun key _ => some key).length
  | _ => ((args.drop 1).head?.map (s.extent now)).getD 0

/-! ## Replies that fit -/

/-- An array has at most `n` elements. -/
def Reply.Fits (n : Nat) : Reply → Prop
  | .array elems => elems.length ≤ n
  | _ => True

attribute [simp] Reply.ok Reply.ofBool

@[simp] theorem Reply.int_fits (n : Nat) (m : Int) : (Reply.int m).Fits n := trivial

@[simp] theorem Reply.bulk_fits (n : Nat) (bytes : Bytes) : (Reply.bulk bytes).Fits n := trivial

@[simp] theorem Reply.simple_fits (n : Nat) (text : String) : (Reply.simple text).Fits n := trivial

@[simp] theorem Reply.nil_fits (n : Nat) : Reply.nil.Fits n := trivial

@[simp] theorem Reply.ofBytes_fits (n : Nat) (bytes : Option Bytes) : (Reply.ofBytes bytes).Fits n := by
  cases bytes <;> trivial

section Rules

variable {now : Time} {s : Store} {n : Nat} {ρ : Type} {call : Store × Except StoreErr ρ}
  {onError : StoreErr → Reply}

theorem Reply.fits_of_rejects {reply : Reply} (rejects : reply.accepts = false) : reply.Fits n := by
  cases reply with
  | array elems => cases rejects
  | _ => trivial

theorem fits_onOk {next : Store → ρ → Outcome} (rejects : ∀ failure, (onError failure).accepts = false)
    (goesOn : ∀ t result, call = (t, .ok result) → (next t result).reply.Fits n) :
    (Outcome.onOk call onError next).reply.Fits n := by
  obtain ⟨t, failure | result⟩ := call
  · exact Reply.fits_of_rejects (rejects failure)
  · exact goesOn t result rfl

theorem fits_ofCall {sent : ρ → List ReplicatePayload} {answer : ρ → Reply}
    (rejects : ∀ failure, (onError failure).accepts = false)
    (answers : ∀ result, call.2 = .ok result → (answer result).Fits n) :
    (Outcome.ofCall call onError sent answer).reply.Fits n :=
  fits_onOk rejects fun _ result done => answers result (congrArg Prod.snd done)

/-! ## The lengths of what is read -/

variable {values : List (Option Bytes)} {out : List Bytes}

theorem mGet_length {keys : List Key} (read : (s.mGet now keys).2 = .ok values) :
    values.length = keys.length := by
  induction keys generalizing s values with
  | nil =>
    cases read
    rfl
  | cons key rest ih =>
    rw [mGet_cons] at read
    obtain ⟨t, value, -, read⟩ := onward_ok read
    obtain ⟨u, others, later, read⟩ := onward_ok read
    cases read
    rw [List.length_cons, List.length_cons, ih (congrArg Prod.snd later)]

variable {key : Key}

theorem hGetEach_length {fields : List Bytes} (read : (hGetEach now s key fields).2 = .ok values) :
    values.length = fields.length := by
  induction fields generalizing s values with
  | nil =>
    cases read
    rfl
  | cons field rest ih =>
    rw [hGetEach_cons] at read
    obtain ⟨t, value, -, read⟩ := onward_ok read
    obtain ⟨u, others, later, read⟩ := onward_ok read
    cases read
    rw [List.length_cons, List.length_cons, ih (congrArg Prod.snd later)]

theorem extent_of_live {e : Entry} (live : s.live now key = some e) :
    s.extent now key = e.value.extent := by
  unfold Store.extent
  rw [live]
  rfl

theorem readLive_extent (size : ρ → Nat) {absent : ρ} {read : Value → Option ρ} {result : ρ}
    (nothing : size absent = 0)
    (within : ∀ value result, read value = some result → size result ≤ value.extent)
    (succeeded : (s.run now key (KeyOp.readLive absent read)).2 = .ok result) :
    size result ≤ s.extent now key := by
  rw [s.run_read_outcome now key (KeyOp.readLive_regular absent read)
    (KeyOp.readLive_readOnly absent read)] at succeeded
  cases live : s.live now key with
  | none =>
    rw [live] at succeeded
    cases succeeded
    exact nothing.trans_le (Nat.zero_le _)
  | some e =>
    rw [live] at succeeded
    rw [extent_of_live live]
    simp only [KeyOp.outcome, KeyOp.answer, KeyOp.readLive, Look.ofLive] at succeeded
    cases value : read e.value with
    | none =>
      rw [value] at succeeded
      cases succeeded
    | some found =>
      rw [value] at succeeded
      cases succeeded
      exact within _ _ value

theorem hGetAll_extent {fields : GoMap Bytes} (read : (s.run now key KeyOp.hGetAll).2 = .ok fields) :
    2 * fields.keys.card ≤ s.extent now key := by
  refine readLive_extent (fun fields : GoMap Bytes => 2 * fields.keys.card) rfl ?_ read
  intro value result found
  cases value with
  | hash old =>
    cases found
    exact le_refl _
  | _ => cases found

theorem Store.membersAt_extent (s : Store) (now : Time) (key : Key) :
    (membersAt (s.live now) key).card ≤ s.extent now key := by
  unfold membersAt
  split
  · next live =>
    rw [extent_of_live live]
    exact le_refl _
  · exact Nat.zero_le _

theorem lRange_extent {start stop : Int}
    (read : (s.run now key (KeyOp.lRange start stop)).2 = .ok out) :
    out.length ≤ s.extent now key := by
  refine readLive_extent List.length rfl ?_ read
  intro value result found
  cases value with
  | list elements =>
    cases found
    simp only [KeyOp.lRangeOf]
    split
    · exact Nat.zero_le _
    · split
      · exact Nat.zero_le _
      · split
        · exact Nat.zero_le _
        · unfold KeyOp.slice
          rw [List.length_take, List.length_drop]
          exact (min_le_right _ _).trans (Nat.sub_le _ _)
  | _ => cases found

theorem listPop_extent {take : List Bytes → List Bytes × List Bytes}
    (within : ∀ elements, (take elements).1.length ≤ elements.length)
    (popped : (s.run now key (KeyOp.listPop take)).2 = .ok out) : out.length ≤ s.extent now key := by
  rw [(s.run_immediate now key (KeyOp.listPop_regular take) (KeyOp.listPop_immediate take)).2] at popped
  cases live : s.live now key with
  | none =>
    rw [live] at popped
    cases popped
    exact Nat.zero_le _
  | some e =>
    rw [live] at popped
    rw [extent_of_live live]
    simp only [KeyOp.outcome, KeyOp.answer, KeyOp.listPop, Look.ofLive] at popped
    split at popped
    · cases popped
      exact Nat.zero_le _
    · next elements filled value =>
      simp only [Action.result, KeyOp.commitMutated_ok] at popped
      cases popped
      rw [value]
      exact within elements
    · cases popped

theorem unionMembers_extent (s : Store) (keys : List Key) (found : Finset Bytes)
    (combined : (unionMembers now s keys).2 = .ok found) :
    found.card ≤ (keys.map (s.extent now)).sum := by
  rw [(unionMembers_yields keys rfl).eq combined]
  clear combined
  induction keys with
  | nil => exact Nat.zero_le _
  | cons key rest ih =>
    rw [List.toFinset_cons, Finset.biUnion_insert, List.map_cons, List.sum_cons]
    exact (Finset.card_union_le _ _).trans (Nat.add_le_add (s.membersAt_extent now key) ih)

theorem filter_extent (s : Store) (keep : Bytes → Prop) [DecidablePred keep] (rest : List Key) :
    ((membersAt (s.live now) key).filter keep).card ≤ ((key :: rest).map (s.extent now)).sum := by
  rw [List.map_cons, List.sum_cons]
  have here := s.membersAt_extent now key
  exact (Finset.card_filter_le _ _).trans (here.trans (Nat.le_add_right _ _))

theorem interMembers_extent (s : Store) (keys : List Key) (found : Finset Bytes)
    (combined : (interMembers now s keys).2 = .ok found) :
    found.card ≤ (keys.map (s.extent now)).sum := by
  cases keys with
  | nil =>
    cases combined
    exact Nat.zero_le _
  | cons key rest =>
    rw [(interMembers_yields key rest rfl).eq combined]
    exact filter_extent s _ rest

theorem diffMembers_extent (s : Store) (keys : List Key) (found : Finset Bytes)
    (combined : (diffMembers now s keys).2 = .ok found) :
    found.card ≤ (keys.map (s.extent now)).sum := by
  cases keys with
  | nil =>
    cases combined
    exact Nat.zero_le _
  | cons key rest =>
    rw [(diffMembers_yields key rest rfl).eq combined]
    exact filter_extent s _ rest

/-! ## The handlers with arrays -/

variable (args : List Bytes)

theorem cmdMGet_fits (short : args.length ≤ n) : (cmdMGet now s args).reply.Fits n := by
  unfold cmdMGet
  split
  · refine fits_ofCall (by simp) fun values read => ?_
    rw [List.length_cons] at short
    exact (mGet_length read).trans_le ((Nat.le_succ _).trans short)
  · trivial

theorem cmdHMGet_fits (short : args.length ≤ n) : (cmdHMGet now s args).reply.Fits n := by
  unfold cmdHMGet
  split
  · next name key field rest =>
    simp only [List.length_cons] at short
    have few : (field :: rest).length ≤ n := by
      rw [List.length_cons]
      omega
    refine fits_onOk (by simp) fun t kind _ => ?_
    split
    · exact (List.length_map _).trans_le few
    · exact fits_ofCall (by simp) fun values read => (hGetEach_length read).trans_le few
    · trivial
  · trivial

theorem length_listing (fields : GoMap Bytes) {row : Bytes → Bytes → List Bytes}
    (atMostTwo : ∀ field val, (row field val).length ≤ 2) :
    ((Store.pairsIn fields (sortedElems fields.keys)).flatMap fun pair => row pair.1 pair.2).length
      ≤ 2 * fields.keys.card := by
  have pairs : (Store.pairsIn fields (sortedElems fields.keys)).length ≤ fields.keys.card := by
    refine (List.length_filterMap_le _ _).trans_eq ?_
    rw [← Multiset.coe_card, coe_sortedElems]
    rfl
  rw [List.length_flatMap]
  refine (List.sum_le_card_nsmul _ 2 ?_).trans ?_
  · intro length mem
    obtain ⟨pair, -, rfl⟩ := List.mem_map.mp mem
    exact atMostTwo _ _
  · rw [List.length_map, smul_eq_mul, Nat.mul_comm]
    exact Nat.mul_le_mul_left 2 pairs

def firstExtent (now : Time) (s : Store) (args : List Bytes) : Nat :=
  ((args.drop 1).head?.map (s.extent now)).getD 0

theorem firstExtent_cons (now : Time) (s : Store) (name : Bytes) (key : Key) (rest : List Bytes) :
    firstExtent now s (name :: key :: rest) = s.extent now key :=
  rfl

theorem hashListing_fits (cmd : String) (row : Bytes → Bytes → List Bytes)
    (atMostTwo : ∀ field val, (row field val).length ≤ 2) (short : firstExtent now s args ≤ n) :
    (hashListing cmd row now s args).reply.Fits n := by
  unfold hashListing
  split
  · refine fits_ofCall (by simp) fun fields read => (List.length_map _).trans_le ?_
    exact (length_listing fields atMostTwo).trans ((hGetAll_extent read).trans short)
  · trivial

theorem popList_fits {take : Int → List Bytes → List Bytes × List Bytes} (cmd : String)
    (replOp : ReplOp) (within : ∀ count elements, (take count elements).1.length ≤ elements.length)
    (short : firstExtent now s args ≤ n) :
    (popList cmd (fun count => KeyOp.listPop (take count)) replOp now s args).reply.Fits n := by
  unfold popList
  split
  · exact fits_ofCall (by simp) (by simp)
  · split
    · trivial
    · split
      · trivial
      · refine fits_ofCall (by simp) fun out popped => (List.length_map _).trans_le ?_
        exact (listPop_extent (within _) popped).trans short
  · trivial

theorem cmdLRange_fits (short : firstExtent now s args ≤ n) : (cmdLRange now s args).reply.Fits n := by
  unfold cmdLRange
  split
  · split
    · refine fits_ofCall (by simp) fun out read => (List.length_map _).trans_le ?_
      exact (lRange_extent read).trans short
    · trivial
  · trivial

theorem length_sortedElems (elems : Finset Bytes) : (sortedElems elems).length = elems.card := by
  rw [← Multiset.coe_card, coe_sortedElems]
  rfl

theorem cmdSMembers_fits (short : firstExtent now s args ≤ n) :
    (cmdSMembers now s args).reply.Fits n := by
  unfold cmdSMembers
  split
  · refine fits_ofCall (by simp) fun members read => (List.length_map _).trans_le ?_
    rw [length_sortedElems, (sMembers_yields rfl).eq read]
    exact (s.membersAt_extent now _).trans short
  · trivial

theorem combineSets_fits (cmd : String)
    {members : Time → Store → List Key → Store × Except StoreErr (Finset Bytes)}
    (extent : ∀ s keys found, (members now s keys).2 = .ok found →
      found.card ≤ (keys.map (s.extent now)).sum)
    (short : ((args.drop 1).map (s.extent now)).sum ≤ n) :
    (combineSets cmd members now s args).reply.Fits n := by
  unfold combineSets
  split
  · refine fits_ofCall (by simp) fun found combined => (List.length_map _).trans_le ?_
    rw [length_sortedElems]
    exact (extent s _ found combined).trans short
  · trivial

end Rules

/-! ## The registry -/

theorem Command.handler_fits (fl : FloatOps) (now : Time) (s : Store) (args : List Bytes)
    (cmd : Command) :
    (cmd.handler fl now s args).reply.Fits (args.length + cmd.existing now s args) := by
  cases cmd with
  | mget => exact cmdMGet_fits args (Nat.le_add_right _ _)
  | hmget => exact cmdHMGet_fits args (Nat.le_add_right _ _)
  | hgetall => exact hashListing_fits args _ _ (fun _ _ => le_refl 2) (Nat.le_add_left _ _)
  | hkeys => exact hashListing_fits args _ _ (fun _ _ => Nat.le_succ 1) (Nat.le_add_left _ _)
  | hvals => exact hashListing_fits args _ _ (fun _ _ => Nat.le_succ 1) (Nat.le_add_left _ _)
  | lpop =>
    refine popList_fits args _ _ (fun count elements => ?_) (Nat.le_add_left _ _)
    exact List.length_take_le' _ _
  | rpop =>
    refine popList_fits args _ _ (fun count elements => ?_) (Nat.le_add_left _ _)
    exact (List.length_take_le' _ _).trans_eq List.length_reverse
  | lrange => exact cmdLRange_fits args (Nat.le_add_left _ _)
  | smembers => exact cmdSMembers_fits args (Nat.le_add_left _ _)
  | sunion => exact combineSets_fits args _ unionMembers_extent (Nat.le_add_left _ _)
  | sinter => exact combineSets_fits args _ interMembers_extent (Nat.le_add_left _ _)
  | sdiff => exact combineSets_fits args _ diffMembers_extent (Nat.le_add_left _ _)
  | get | setnx | getset | strlen | incr | decr | hsetnx | hdel | lpush | rpush | lpushx | rpushx
  | llen | sadd | srem | sismember | scard | persist | ttl | pttl | type | rename =>
    -- one call of the store, whose result is the reply
    simp only [handler, cmdGet, cmdSetNX, cmdGetSet, cmdStrLen, cmdIncr, cmdDecr, doIncr,
      countAndReplicate, cmdHSetNX, cmdHDel, cmdLPush, cmdRPush, pushList, cmdLPushX, cmdRPushX,
      pushListX, cmdLLen, cmdSAdd, cmdSRem, cmdSIsMember, cmdSCard, cmdPersist, cmdTTL, cmdPTTL,
      remaining, cmdType, cmdRename]
    split
    · exact fits_ofCall (by simp) (by simp)
    · trivial
  | setex | psetex | incrby | decrby | hset | hmset | hincrby | hincrbyfloat | lindex | lset | lrem
  | linsert | expire | expireat | pexpire | pexpireat =>
    -- the same after an argument is read
    simp only [handler, cmdSetEX, cmdPSetEX, setWithTTL, setAndReplicate, cmdIncrBy, cmdDecrBy,
      countBy, countAndReplicate, cmdHSet, cmdHMSet, hashSet, cmdHIncrBy, cmdHIncrByFloat, cmdLIndex,
      cmdLSet, cmdLRem, cmdLInsert, cmdExpire, cmdExpireAt, cmdPExpire, cmdPExpireAt, expireCommand]
    split
    · split
      · trivial
      · exact fits_ofCall (by simp) (by simp)
    · trivial
  | getrange | ltrim =>
    simp only [handler, cmdGetRange, cmdLTrim]
    split
    · split
      · exact fits_ofCall (by simp) (by simp)
      · trivial
    · trivial
  | append | hget | hexists | hlen | getdel =>
    simp only [handler, cmdAppend, cmdHGet, cmdHExists, cmdHLen, cmdGetDel]
    split
    · refine fits_onOk (by simp) fun _ _ _ => ?_
      try split
      all_goals trivial
    · trivial
  | sunionstore | sinterstore | sdiffstore =>
    simp only [handler, cmdSUnionStore, cmdSInterStore, cmdSDiffStore, storeSets]
    split
    · exact fits_onOk (by simp) fun _ _ _ => fits_ofCall (by simp) (by simp)
    · trivial
  | set =>
    simp only [handler, cmdSet, setParsed, applySet]
    split
    · split
      · trivial
      · split
        · trivial
        · split
          · refine fits_onOk (by simp) fun _ _ _ => fits_ofCall (by simp) fun ok _ => ?_
            cases ok <;> simp
          · refine fits_ofCall (by simp) fun ok _ => ?_
            cases ok <;> simp
    · trivial
  | getex =>
    simp only [handler, cmdGetEx, getExFinish]
    split
    · exact fits_ofCall (by simp) (by simp)
    · split
      · trivial
      · split
        · exact Reply.fits_of_rejects (by simp)
        · trivial
        · split <;> trivial
    · trivial
  | mset =>
    simp only [handler, cmdMSet]
    split
    · split
      · trivial
      · exact fits_onOk (by simp) fun _ _ _ => trivial
    · trivial
  | msetnx =>
    simp only [handler, cmdMSetNX]
    split
    · split
      · trivial
      · refine fits_onOk (by simp) fun _ _ _ => ?_
        split <;> trivial
    · trivial
  | incrbyfloat | setrange =>
    simp only [handler, cmdIncrByFloat, cmdSetRange, setAndReplicate]
    split
    · split
      · trivial
      · first
        | split
          · trivial
          · exact fits_onOk (by simp) fun _ _ _ => fits_ofCall (by simp) (by simp)
        | refine fits_onOk (by simp) fun _ _ _ => ?_
          split
          · trivial
          · exact fits_ofCall (by simp) (by simp)
    · trivial
  | renamenx =>
    simp only [handler, cmdRenameNX]
    split
    · split
      · trivial
      · exact fits_ofCall (by simp) (by simp)
    · trivial
  | del | exists' | dbsize | select =>
    simp only [handler, cmdDel, cmdExists, cmdDBSize, cmdSelect]
    split
    · try split
      all_goals trivial
    · trivial
  | flushdb | flushall | session => trivial

end SuperCache
