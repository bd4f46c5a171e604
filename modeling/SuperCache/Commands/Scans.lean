import SuperCache.Commands.Server
import SuperCache.Store.Alike

/-! # Iterating over the keys

A cursor of `SCAN` is a position in the sorted list of the keys as the call finds them.  A
key that stays is passed over when keys before the position go away; the views of a keyspace
that nothing changes agree unless a key has a slash, which no `*` matches.
-/

namespace SuperCache

open Lib

/-! ## Iterations -/

/-- One call of an iteration: the time, the store it finds, and its `COUNT`. -/
structure ScanCall where
  now : Time
  store : Store
  count : Int

/-- The next cursor and the keys of a reply to `SCAN`. -/
def scanPage : List RespValue → Option (Nat × List Key)
  | [.array [.bulk next, keys]] =>
    (parseUint next).bind fun next => (valueToArgs keys).map fun keys => (next, keys)
  | _ => none

/-- What a client reads that sends the cursor with every option. -/
def ScanCall.page (pattern wantType : Bytes) (cursor : Nat) (call : ScanCall) :
    Option (Nat × List Key) :=
  scanPage (cmdScan { ServerState.ofStore call.store with now := call.now } (newSession 0).state
    [ascii "SCAN", formatInt cursor, ascii "MATCH", pattern, ascii "COUNT", formatInt call.count,
      ascii "TYPE", wantType]).written

/-- The keys an iteration of calls returns, from this cursor on until the cursor is 0 again.  There
are none while the iteration has not ended. -/
def scans (pattern wantType : Bytes) : Nat → List ScanCall → Option (List Key)
  | _, [] => none
  | cursor, call :: rest =>
    (call.page pattern wantType cursor).bind fun found =>
      if found.1 = 0 then some found.2
      else (scans pattern wantType found.1 rest).map (found.2 ++ ·)

def ScanCall.listed (pattern wantType : Bytes) (call : ScanCall) : List Key :=
  (call.store.scanned call.now pattern wantType).2

def ScanCall.Finds (pattern wantType : Bytes) (key : Key) (call : ScanCall) : Prop :=
  ∃ e kind, call.store.live call.now key = some e
    ∧ KeyOp.typeName.outcome (some e) = .ok kind
    ∧ matchGlob (if pattern = [] then [42] else pattern) key = true
    ∧ (wantType = [] ∨ equalFoldType kind wantType = true)

/-- From one call to the next, the list still has as many keys up to the last one returned as
the cursor says. -/
def Steady (pattern wantType : Bytes) : Nat → List ScanCall → Prop
  | cursor, call :: later :: rest => ∀ next keys,
    call.page pattern wantType cursor = some (next, keys) → next ≠ 0 →
      (∀ last ∈ keys.getLast?, next ≤ ((later.listed pattern wantType).filter (· ≤ last)).length)
      ∧ Steady pattern wantType next (later :: rest)
  | _, _ => True

/-! ## Pages of a sorted list -/

theorem mem_drop_of_sorted {α : Type} [LinearOrder α] {all : List α} {key last : α} {n : Nat}
    (sorted : all.Pairwise (· ≤ ·)) (listed : key ∈ all) (after : last < key)
    (enough : n ≤ (all.filter (· ≤ last)).length) : key ∈ all.drop n := by
  induction all generalizing n with
  | nil => cases listed
  | cons first rest ih =>
    obtain ⟨least, sorted⟩ := List.pairwise_cons.mp sorted
    cases n with
    | zero => exact listed
    | succ n =>
      by_cases early : first ≤ last
      · rw [List.filter_cons_of_pos (by simpa using early), List.length_cons] at enough
        obtain rfl | listed := List.mem_cons.mp listed
        · exact absurd early (not_le.mpr after)
        · exact ih sorted listed (by omega)
      · -- the list is beyond the last key already
        have none : (first :: rest).filter (· ≤ last) = [] := by
          simp only [List.filter_eq_nil_iff, decide_eq_true_eq]
          intro other member
          obtain rfl | member := List.mem_cons.mp member
          · exact early
          · exact fun small => early ((least other member).trans small)
        rw [none] at enough
        cases enough

section Pages

variable {cursor next : Nat} {count : Int} {all out : List Key}

theorem drop_eq_append {α : Type} {all : List α} {m n : Nat} (order : m ≤ n) (inside : n ≤ all.length) :
    all.drop m = (all.take n).drop m ++ all.drop n := by
  rw [← List.drop_append_of_le_length (by rw [List.length_take]; omega), List.take_append_drop]

theorem page_cases (small : (cursor : Int) ≤ maxInt64) (positive : 1 ≤ count) (fits : count ≤ maxInt64)
    (paged : Store.page cursor count all = some (next, out)) :
    (next = 0 ∧ out = all.drop cursor) ∨ (cursor < next ∧ next < all.length ∧ next ≤ maxInt64
      ∧ out = (all.take next).drop cursor) := by
  have start : wrap64 cursor = cursor := wrap64_eq_self ⟨by unfold minInt64; omega, small⟩
  unfold maxInt64 at *
  simp only [Store.page, start] at paged
  split at paged
  · next late =>
    cases paged
    exact .inl ⟨rfl, (List.drop_eq_nil_of_le (by omega)).symm⟩
  · split at paged
    · cases paged
    · next early valid =>
      -- a sum that overflows is negative, and would not be a valid end
      have bounded : (cursor + count : Int) ≤ 2 ^ 63 - 1 := by
        unfold wrap64 at valid
        omega
      have sum : wrap64 (cursor + count) = cursor + count :=
        wrap64_eq_self ⟨by unfold minInt64; omega, bounded⟩
      rw [sum] at paged
      simp only [Option.some.injEq, Prod.mk.injEq] at paged
      obtain ⟨rfl, rfl⟩ := paged
      split
      · next more =>
        refine .inr ⟨by omega, by omega, by omega, rfl⟩
      · next whole =>
        refine .inl ⟨rfl, ?_⟩
        rw [List.take_of_length_le (by omega), Int.toNat_natCast]

theorem page_isSome (positive : 1 ≤ count) (fits : cursor + count ≤ maxInt64) :
    ∃ page, Store.page cursor count all = some page := by
  have start : wrap64 cursor = cursor :=
    wrap64_eq_self ⟨by unfold minInt64; omega, by omega⟩
  have sum : wrap64 (cursor + count) = cursor + count :=
    wrap64_eq_self ⟨by unfold minInt64; omega, fits⟩
  simp only [Store.page, start, sum]
  split
  · exact ⟨_, rfl⟩
  · rw [if_neg (by omega)]
    exact ⟨_, rfl⟩

theorem page_covers {key : Key} (small : (cursor : Int) ≤ maxInt64) (positive : 1 ≤ count)
    (fits : count ≤ maxInt64) (paged : Store.page cursor count all = some (next, out))
    (sorted : all.Pairwise (· ≤ ·)) (ahead : key ∈ all.drop cursor) (missed : key ∉ out) :
    next ≠ 0 ∧ next ≤ maxInt64 ∧ ∃ last ∈ out.getLast?, last < key := by
  obtain ⟨-, rfl⟩ | ⟨order, inside, bounded, rfl⟩ := page_cases small positive fits paged
  · exact absurd ahead missed
  · rw [drop_eq_append order.le inside.le, List.mem_append, or_iff_right missed] at ahead
    have full : (all.take next).drop cursor ≠ [] := by
      rw [← List.length_pos_iff, List.length_drop, List.length_take]
      omega
    refine ⟨by omega, bounded, _, List.getLast?_eq_getLast_of_ne_nil full, ?_⟩
    have member := List.getLast_mem full
    rw [← List.take_append_drop next all] at sorted
    have order := (List.pairwise_append.mp sorted).2.2 _ (List.mem_of_mem_drop member) _ ahead
    exact lt_of_le_of_ne order fun same => missed (same ▸ member)

end Pages

/-! ## The listed keys -/

section Listed

variable {now : Time} {s : Store} {key : Key} {pattern wantType : Bytes}

theorem mem_keys_of_live {e : Entry} (live : s.live now key = some e)
    (fits : matchGlob pattern key = true) : key ∈ (s.keys now pattern).2 := by
  have stored := alive_eq_some_iff.mp live
  refine List.mem_flatMap.mpr ⟨s.route key, List.mem_finRange _, List.mem_filterMap.mpr ⟨key, ?_, ?_⟩⟩
  · rw [Store.mem_rangeOrder, Finmap.mem_keys, ← Finmap.lookup_isSome]
    exact Option.isSome_of_eq_some stored.1
  · have found : ((s.shards (s.route key)).m.lookup key) = some e := stored.1
    simp [found, stored.2, fits]

theorem mem_keepType {keys : List Key} {kind : KeyOp.TypeName} (listed : key ∈ keys)
    (typed : KeyOp.typeName.outcome (s.live now key) = .ok kind)
    (wanted : equalFoldType kind wantType = true) : key ∈ (Store.keepType now wantType s keys).2 := by
  induction keys generalizing s with
  | nil => cases listed
  | cons first rest ih =>
    have answer := s.run_read_outcome now first KeyOp.typeName_regular KeyOp.typeName_readOnly
    have kept := (s.run_read now first KeyOp.typeName_readOnly).1
    simp only [Store.keepType]
    obtain rfl | listed := List.mem_cons.mp listed
    · rw [answer, typed]
      simp [wanted]
    · have later := ih listed (s := (s.run now first KeyOp.typeName).1) (by rw [kept]; exact typed)
      split
      · split
        · exact List.mem_cons_of_mem _ later
        · exact later
      · exact later

theorem keepType_sublist (keys : List Key) : (Store.keepType now wantType s keys).2.Sublist keys := by
  induction keys generalizing s with
  | nil => exact .slnil
  | cons first rest ih =>
    simp only [Store.keepType]
    split
    · split
      · exact ih.cons_cons _
      · exact ih.cons _
    · exact ih.cons _

variable {call : ScanCall}

theorem ScanCall.Finds.mem_listed (finds : call.Finds pattern wantType key) :
    key ∈ call.listed pattern wantType := by
  obtain ⟨e, kind, live, typed, fits, wanted⟩ := finds
  have sorted := (List.mem_insertionSort (· ≤ ·)).mpr (mem_keys_of_live live fits)
  simp only [ScanCall.listed, Store.scanned]
  split
  · exact sorted
  · next limited => exact mem_keepType sorted (live ▸ typed) (wanted.resolve_left limited)

theorem listed_sorted : (call.listed pattern wantType).Pairwise (· ≤ ·) := by
  simp only [ScanCall.listed, Store.scanned]
  split
  · exact List.pairwise_insertionSort _ _
  · exact (List.pairwise_insertionSort _ _).sublist (keepType_sublist _)

theorem scanPage_written {next : Nat} {keys : List Key} (small : next < 2 ^ 64) :
    scanPage [.array [.bulk (formatInt next), keysReply keys]] = some (next, keys) := by
  have read : valueToArgs (keysReply keys) = some keys := by
    simp only [valueToArgs, keysReply]
    induction keys with
    | nil => rfl
    | cons key rest ih => simp [List.mapM_cons, argOf, ih]
  rw [scanPage, parseUint_formatInt small, Option.bind_some, read]
  rfl

theorem parseScanOptions_all {count : Int} (positive : 1 ≤ count) (fits : count ≤ maxInt64) :
    parseScanOptions {} [ascii "MATCH", pattern, ascii "COUNT", formatInt count, ascii "TYPE", wantType]
      = .ok { pattern, count, wantType } := by
  have words : scanOption (ascii "MATCH") = some .pattern ∧ scanOption (ascii "COUNT") = some .count
      ∧ scanOption (ascii "TYPE") = some .type := by
    decide +kernel
  have read : positiveOperand (formatInt count) = some count := by
    rw [positiveOperand, parseInt_formatInt ⟨by unfold minInt64; omega, fits⟩, Option.bind_some,
      if_neg (by omega)]
  simp [parseScanOptions, words, ScanOptions.with, read]

theorem page_eq {cursor : Nat} (small : (cursor : Int) ≤ maxInt64) (positive : 1 ≤ call.count)
    (fits : call.count ≤ maxInt64) : call.page pattern wantType cursor
      = Store.page cursor call.count (call.listed pattern wantType) := by
  have word : parseUint (formatInt cursor) = some cursor :=
    parseUint_formatInt (by unfold maxInt64 at small; omega)
  simp only [ScanCall.page, cmdScan, word, parseScanOptions_all positive fits, ScanCall.listed,
    ServerState.ofStore, Store.scan_eq, if_neg (show ¬ call.count ≤ 0 by omega)]
  rcases paged : Store.page cursor call.count _ with _ | ⟨next, keys⟩
  · rfl
  · have bounded : (next : Int) ≤ maxInt64 := by
      obtain ⟨rfl, -⟩ | ⟨-, -, bounded, -⟩ := page_cases small positive fits paged
      · unfold maxInt64
        omega
      · exact bounded
    exact scanPage_written (by unfold maxInt64 at bounded; omega)

end Listed

/-- An iteration returns every key that all its calls find, if the list never loses a key up
to the cursor without gaining another there. -/
theorem scan_covers {pattern wantType : Bytes} {calls : List ScanCall} {returned : List Key} {key : Key}
    (iterated : scans pattern wantType 0 calls = some returned)
    (counts : ∀ call ∈ calls, 1 ≤ call.count ∧ call.count ≤ maxInt64)
    (stays : ∀ call ∈ calls, call.Finds pattern wantType key)
    (steady : Steady pattern wantType 0 calls) : key ∈ returned := by
  -- the key is never before the cursor unless it has been returned
  suffices run : ∀ (cursor : Nat), (cursor : Int) ≤ maxInt64 → Steady pattern wantType cursor calls →
      scans pattern wantType cursor calls = some returned →
      (∀ call ∈ calls.head?, key ∈ (call.listed pattern wantType).drop cursor) → key ∈ returned by
    refine run 0 (by unfold maxInt64; omega) steady iterated fun call first => ?_
    exact (stays call (List.mem_of_mem_head? first)).mem_listed
  clear steady iterated
  intro cursor small steady iterated ahead
  induction calls generalizing cursor returned with
  | nil => cases iterated
  | cons call rest ih =>
    obtain ⟨⟨positive, fits⟩, counts⟩ := List.forall_mem_cons.mp counts
    rw [scans] at iterated
    obtain ⟨⟨next, keys⟩, paged, iterated⟩ := Option.bind_eq_some_iff.mp iterated
    have covers := page_covers small positive fits (page_eq small positive fits ▸ paged) listed_sorted
      (ahead call rfl)
    simp only at iterated
    split at iterated
    · next done =>
      cases iterated
      by_contra missed
      exact (covers missed).1 done
    · next more =>
      obtain ⟨later, goesOn, rfl⟩ := Option.map_eq_some_iff.mp iterated
      rw [List.mem_append, or_iff_not_imp_left]
      intro missed
      obtain ⟨-, bounded, last, lastOne, before⟩ := covers missed
      cases rest with
      | nil => cases goesOn
      | cons second rest =>
        obtain ⟨enough, steady⟩ := steady next keys paged more
        refine ih counts (List.forall_mem_cons.mp stays).2 next bounded steady goesOn ?_
        intro first same
        cases Option.some.inj same
        have listed := (stays second (List.mem_cons_of_mem _ List.mem_cons_self)).mem_listed
        exact mem_drop_of_sorted listed_sorted listed before (enough last lastOne)

/-! ## A keyspace that stays -/

section Views

variable {now : Time} {s : Store} {pattern : Bytes} {keys : List Key}

theorem star_matches (key : Key) : matchGlob (ascii "*") key = true ↔ (47 : Byte) ∉ key := by
  simp [matchGlob, pathMatch, ascii, Glob.matchWith, Glob.scanChunk, Glob.cutChunk]

theorem keys_eq (placed : s.Placed) : (s.keys now pattern).2 = s.storedKeys.filter fun key =>
    (s.live now key).isSome && matchGlob pattern key := by
  rw [Store.keys, s.visitShards_eq placed, ← List.filterMap_eq_filter]
  refine List.filterMap_congr fun key _ => ?_
  cases live : s.live now key <;> simp [live, Option.guard]

theorem mem_keys_iff (placed : s.Placed) (key : Key) :
    key ∈ (s.keys now pattern).2 ↔ (s.live now key).isSome ∧ matchGlob pattern key = true := by
  rw [keys_eq placed, List.mem_filter, Bool.and_eq_true, and_iff_right_iff_imp]
  exact fun both => Store.mem_storedKeys_of_live placed both.1

theorem sortedKeys_eq (placed : s.Placed) (sorted : keys.Pairwise (· < ·))
    (members : ∀ key, key ∈ keys ↔ (s.live now key).isSome ∧ matchGlob pattern key = true) :
    (s.keys now pattern).2.insertionSort (· ≤ ·) = keys := by
  have distinct : (s.keys now pattern).2.Nodup := by
    rw [keys_eq placed]
    exact (Store.nodup_storedKeys placed).filter _
  refine List.Perm.eq_of_pairwise (fun _ _ _ _ => le_antisymm) (List.pairwise_insertionSort _ _)
    (sorted.imp le_of_lt) ?_
  refine (List.perm_insertionSort _ _).trans ((List.perm_ext_iff_of_nodup distinct
    (sorted.imp ne_of_lt)).mpr fun key => ?_)
  rw [mem_keys_iff placed, members]

theorem listed_star (call : ScanCall) (placed : call.store.Placed) (sorted : keys.Pairwise (· < ·))
    (members : ∀ key, key ∈ keys ↔ (call.store.live call.now key).isSome)
    (plain : ∀ key ∈ keys, (47 : Byte) ∉ key) : call.listed (ascii "*") [] = keys := by
  refine sortedKeys_eq placed sorted fun key => ?_
  rw [if_neg (by decide), star_matches, ← members]
  exact ⟨fun live => ⟨live, plain key live⟩, And.left⟩

theorem dbSize_eq_length (placed : s.Placed) (distinct : keys.Nodup)
    (members : ∀ key, key ∈ keys ↔ (s.live now key).isSome) : s.dbSize now = keys.length := by
  have every : (s.visitShards now fun key _ => some key)
      = s.storedKeys.filter fun key => (s.live now key).isSome := by
    rw [s.visitShards_eq placed, ← List.filterMap_eq_filter]
    refine List.filterMap_congr fun key _ => ?_
    cases live : s.live now key <;> simp [live, Option.guard]
  rw [s.dbSize_eq now, every]
  refine ((List.perm_ext_iff_of_nodup ((Store.nodup_storedKeys placed).filter _) distinct).mpr
    fun key => ?_).length_eq
  rw [List.mem_filter, members, and_iff_right_iff_imp]
  exact Store.mem_storedKeys_of_live placed

theorem scans_eq {wantType : Bytes} {calls : List ScanCall}
    (same : ∀ call ∈ calls, call.listed pattern wantType = keys ∧ 1 ≤ call.count
      ∧ call.count + keys.length ≤ maxInt64)
    (cursor : Nat) (inside : cursor ≤ keys.length) (enough : keys.length < cursor + calls.length) :
    scans pattern wantType cursor calls = some (keys.drop cursor) := by
  induction calls generalizing cursor with
  | nil =>
    rw [List.length_nil] at enough
    omega
  | cons call rest ih =>
    obtain ⟨⟨listed, positive, fits⟩, later⟩ := List.forall_mem_cons.mp same
    obtain ⟨⟨next, out⟩, paged⟩ : ∃ page, Store.page cursor call.count keys = some page :=
      page_isSome positive (by omega)
    rw [scans, page_eq (by omega) positive (by omega), listed, paged, Option.bind_some]
    obtain ⟨rfl, rfl⟩ | ⟨order, before, -, rfl⟩ := page_cases (by omega) positive (by omega) paged
    · rw [if_pos rfl]
    · rw [List.length_cons] at enough
      rw [if_neg (by omega), ih later next before.le (by omega), Option.map_some,
        ← drop_eq_append order.le before.le]

end Views

def Undisturbed (server : ServerState) (call : ScanCall) : Prop :=
  call.store.Placed ∧ call.store.live call.now = server.store.live server.now
    ∧ 1 ≤ call.count ∧ call.count + server.store.dbSize server.now ≤ maxInt64

def ViewsAgree (env : CommandEnv) (server : ServerState) (session : SessionState) (name : Bytes) :
    Prop :=
  ∃ keys : List Key, keys.Nodup ∧ (∀ key, key ∈ keys ↔ (server.store.live server.now key).isSome)
    ∧ (cmdKeys server session [name, ascii "*"]).written = [keysReply keys]
    ∧ (cmdDBSize server.now server.store [name]).reply = .int keys.length
    ∧ (∀ calls : List ScanCall, (∀ call ∈ calls, Undisturbed server call) →
        keys.length < calls.length → scans (ascii "*") [] 0 calls = some keys)
    ∧ ((cmdRandomKey env server session [name]).written = [.nullBulk] ↔ keys = [])

theorem keys_written {server : ServerState} (session : SessionState) (name : Bytes) {pattern : Bytes}
    {keys : List Key} (listing : (server.store.keys server.now pattern).2.insertionSort (· ≤ ·) = keys) :
    (cmdKeys server session [name, pattern]).written = [keysReply keys] := by
  rw [cmdKeys, ← listing]
  rfl

/-- The views agree exactly when no live key has a slash. -/
theorem views_agree_iff (env : CommandEnv) {server : ServerState} (session : SessionState)
    (name : Bytes) (placed : server.store.Placed) : ViewsAgree env server session name
      ↔ ∀ key, (server.store.live server.now key).isSome → (47 : Byte) ∉ key := by
  constructor
  · rintro ⟨keys, -, members, listed, -⟩ key live
    have same : (server.store.keys server.now (ascii "*")).2.insertionSort (· ≤ ·) = keys := by
      simp only [cmdKeys, Handled.onStore, keysReply, List.cons.injEq, RespValue.array.injEq,
        and_true] at listed
      exact List.map_injective_iff.mpr (fun _ _ => RespValue.bulk.inj) listed
    rw [← members, ← same, List.mem_insertionSort, mem_keys_iff placed, star_matches] at live
    exact live.2
  · intro plain
    obtain ⟨keys, listing⟩ :
        ∃ keys, (server.store.keys server.now (ascii "*")).2.insertionSort (· ≤ ·) = keys := ⟨_, rfl⟩
    have members (key : Key) : key ∈ keys ↔ (server.store.live server.now key).isSome := by
      rw [← listing, List.mem_insertionSort, mem_keys_iff placed, star_matches]
      exact ⟨And.left, fun live => ⟨live, plain key live⟩⟩
    have distinct : keys.Nodup := by
      rw [← listing, (List.perm_insertionSort _ _).nodup_iff, keys_eq placed]
      exact (Store.nodup_storedKeys placed).filter _
    have sorted : keys.Pairwise (· < ·) := by
      have weakly : keys.Pairwise (· ≤ ·) := listing ▸ List.pairwise_insertionSort _ _
      exact (weakly.and distinct).imp fun both => lt_of_le_of_ne both.1 both.2
    have size := dbSize_eq_length placed distinct members
    refine ⟨keys, distinct, members, ?_, ?_, fun calls undisturbed enough => ?_, ?_⟩
    · exact keys_written session name listing
    · rw [cmdDBSize, ← size]
      rfl
    · refine scans_eq (fun call made => ?_) 0 (Nat.zero_le _) (by omega)
      obtain ⟨placed', same, positive, fits⟩ := undisturbed call made
      exact ⟨listed_star _ placed' sorted (same ▸ members) fun key live => plain key ((members key).mp live),
        positive, by omega⟩
    · rw [← listing, ← List.length_eq_zero_iff, List.length_insertionSort, List.length_eq_zero_iff]
      simp only [cmdRandomKey]
      change _ ↔ (server.store.keys server.now [42]).2 = []
      cases (server.store.keys server.now [42]).2 with
      | nil => simp [Handled.onStore]
      | cons first rest => simp [Handled.onStore]

/-! ## Runs -/

def Holds (s : Store) (keys : List Key) : Prop :=
  s.Placed ∧ s.maxMem = 0 ∧ ∀ key, key ∈ keys ↔ (s.live 1 key).isSome

def filled : List Key → Store
  | [] => newStore .noeviction 0 sortedOracle
  | key :: keys => ((filled keys).run 1 key (KeyOp.set key (ascii "v") 0)).1

theorem filled_holds (keys : List Key) : Holds (filled keys) keys := by
  induction keys with
  | nil =>
    refine ⟨fun si key member => absurd member Finmap.notMem_empty, rfl, fun key => ?_⟩
    simp [filled, Store.live, Store.stored, newStore]
  | cons first keys ih =>
    obtain ⟨placed, unlimited, members⟩ := ih
    refine ⟨((filled keys).run_evolves 1 first _).placed placed,
      ((filled keys).run_frame 1 first _).1.trans unlimited, fun key => ?_⟩
    rw [filled, (filled keys).run_live 1 first unlimited (KeyOp.set_regular _ 0), List.mem_cons, members]
    by_cases same : key = first
    · have effect : (KeyOp.set first (ascii "v") 0).effect 1 ((filled keys).live 1 first) = some _ :=
        alive_of_no_deadline _
      rw [same, Function.update_self, effect]
      simp
    · rw [Function.update_of_ne same, or_iff_right same]

/-- A `SCAN` was made, and then a key was deleted. -/
def deleted (key : Key) (s : Store) : Store :=
  (s.visited.run 1 key KeyOp.del).1

theorem deleted_holds {s : Store} {keys : List Key} (holds : Holds s keys) (gone : Key) :
    Holds (deleted gone s) (keys.filter (· ≠ gone)) := by
  obtain ⟨placed, unlimited, members⟩ := holds
  refine ⟨(s.visited.run_evolves 1 gone _).placed placed,
    (s.visited.run_frame 1 gone _).1.trans unlimited, fun key => ?_⟩
  rw [deleted, s.visited.run_live 1 gone unlimited KeyOp.del_regular, List.mem_filter, members]
  by_cases same : key = gone
  · have effect : KeyOp.del.effect 1 (s.visited.live 1 gone) = none := by
      cases s.visited.live 1 gone <;> rfl
    rw [same, Function.update_self, effect]
    simp
  · rw [Function.update_of_ne same]
    simp only [ne_eq, same, not_false_eq_true, decide_true, and_true]
    rfl

theorem Holds.finds {s : Store} {keys : List Key} (holds : Holds s keys) {key : Key} (held : key ∈ keys)
    (plain : (47 : Byte) ∉ key) : ScanCall.Finds (ascii "*") [] key ⟨1, s, 2⟩ := by
  obtain ⟨e, live⟩ := Option.isSome_iff_exists.mp ((holds.2.2 key).mp held)
  exact ⟨e, _, live, rfl, by rw [if_neg (by decide)]; exact (star_matches key).mpr plain, .inl rfl⟩

theorem Holds.page {s : Store} {keys : List Key} (holds : Holds s keys) (sorted : keys.Pairwise (· < ·))
    (plain : ∀ key ∈ keys, (47 : Byte) ∉ key) {cursor : Nat} (small : (cursor : Int) ≤ maxInt64) :
    ScanCall.page (ascii "*") [] cursor ⟨1, s, 2⟩ = Store.page cursor 2 keys := by
  rw [page_eq small (by show (1 : Int) ≤ 2; decide) (by show (2 : Int) ≤ maxInt64; decide),
    listed_star _ holds.1 sorted holds.2.2 plain]

theorem scans_two {pattern wantType : Bytes} {one two : ScanCall} {next : Nat} {first second : List Key}
    (more : next ≠ 0) (page : one.page pattern wantType 0 = some (next, first))
    (page' : two.page pattern wantType next = some (0, second)) :
    scans pattern wantType 0 [one, two] = some (first ++ second) := by
  simp [scans, page, page', more]

def letters : List Key := ["a", "b", "c", "d"].map ascii

theorem letters_page {s : Store} (holds : Holds s letters) :
    ScanCall.page (ascii "*") [] 0 ⟨1, s, 2⟩ = some (2, ["a", "b"].map ascii) := by
  rw [holds.page (by decide) (by decide) (by decide)]
  decide

/-- Three of four keys are still there: a key is missed that is there all along, as the
deletion of `a` has moved `c` to before the cursor. -/
theorem scan_misses_key :
    scans (ascii "*") [] 0 [⟨1, filled letters, 2⟩, ⟨1, deleted (ascii "a") (filled letters), 2⟩]
        = some (["a", "b", "d"].map ascii)
      ∧ ScanCall.Finds (ascii "*") [] (ascii "c") ⟨1, filled letters, 2⟩
      ∧ ScanCall.Finds (ascii "*") [] (ascii "c") ⟨1, deleted (ascii "a") (filled letters), 2⟩
      ∧ ascii "c" ∉ ["a", "b", "d"].map ascii := by
  have holds := filled_holds letters
  have kept := deleted_holds holds (ascii "a")
  have page : ScanCall.page (ascii "*") [] 2 ⟨1, deleted (ascii "a") (filled letters), 2⟩
      = some (0, ["d"].map ascii) := by
    rw [kept.page (by decide) (by decide) (by decide)]
    decide
  exact ⟨scans_two (by decide) (letters_page holds) page, holds.finds (by decide) (by decide),
    kept.finds (by decide) (by decide), by decide⟩

/-- The deletion of `d` moves nothing that is still to come. -/
theorem scan_finds_key :
    ∃ returned, scans (ascii "*") [] 0
        [⟨1, filled letters, 2⟩, ⟨1, deleted (ascii "d") (filled letters), 2⟩] = some returned
      ∧ ascii "c" ∈ returned := by
  have holds := filled_holds letters
  have kept := deleted_holds holds (ascii "d")
  have page : ScanCall.page (ascii "*") [] 2 ⟨1, deleted (ascii "d") (filled letters), 2⟩
      = some (0, ["c"].map ascii) := by
    rw [kept.page (by decide) (by decide) (by decide)]
    decide
  have scanned := scans_two (by decide) (letters_page holds) page
  refine ⟨_, scanned, scan_covers scanned ?_ ?_ ?_⟩
  · simp [maxInt64]
  · simp only [List.forall_mem_cons, List.not_mem_nil, false_implies, implies_true, and_true]
    exact ⟨holds.finds (by decide) (by decide), kept.finds (by decide) (by decide)⟩
  · intro next keys first _
    rw [letters_page holds] at first
    cases first
    rw [listed_star _ kept.1 (by decide) kept.2.2 (by decide)]
    exact ⟨by decide, trivial⟩

def serving (keys : List Key) : ServerState :=
  { ServerState.ofStore (filled keys) with now := 1 }

/-- `KEYS *` does not list the key that `DBSIZE` counts. -/
theorem slash_key_unlisted :
    (cmdKeys (serving [ascii "a/b"]) (newSession 0).state [ascii "KEYS", ascii "*"]).written = [keysReply []]
      ∧ (cmdDBSize 1 (filled [ascii "a/b"]) [ascii "DBSIZE"]).reply = .int 1 := by
  obtain ⟨placed, -, members⟩ := filled_holds [ascii "a/b"]
  constructor
  · have listing : ((filled [ascii "a/b"]).keys 1 (ascii "*")).2.insertionSort (· ≤ ·) = [] := by
      refine sortedKeys_eq placed .nil fun key => ⟨fun none => absurd none List.not_mem_nil, ?_⟩
      rintro ⟨live, shown⟩
      rw [← members, List.mem_singleton] at live
      rw [live, star_matches] at shown
      exact absurd (by decide) shown
    exact keys_written _ _ listing
  · rw [cmdDBSize, dbSize_eq_length placed (List.nodup_singleton _) members]
    rfl

theorem plain_keys_agree :
    (∀ key ∈ letters, (47 : Byte) ∉ key)
      ∧ ViewsAgree .plain (serving letters) (newSession 0).state (ascii "KEYS") := by
  have holds := filled_holds letters
  have plain : ∀ key ∈ letters, (47 : Byte) ∉ key := by decide
  exact ⟨plain, (views_agree_iff _ _ _ holds.1).mpr fun key live => plain key ((holds.2.2 key).mpr live)⟩

end SuperCache
