import SuperCache.Commands.Outcomes
import SuperCache.Lib.Access
import SuperCache.Resp.Reader

/-! # The slices of the handlers

The indices, slice expressions, `make` and `bytes.Repeat` of the handlers and of the store
methods they call whose place or length is computed: from the number of arguments, from an
integer argument, or from what the store holds.  Left out are loops over the very slice they
index, and every `make` of a map or of the length of a slice or map that the same function has
in hand (the members a set operation collects, the copies `helpers.go` sends, a hash or set
that is written anew): such a length is not negative, and nothing is made that is longer than
what is there.
-/

namespace SuperCache

open Lib

/-! ## Arguments -/

section Arguments

variable (args : List Bytes)

/-- The arguments before the `k`-th, read by their numbers. -/
def argsBefore (k : Nat) : List Access :=
  (List.range' 1 (k - 1)).map fun (i : Nat) => .index i args.length

/-- A handler that goes on with `n` arguments only and reads each of them. -/
def fixedArgs (n : Nat) : List Access :=
  if args.length = n then argsBefore args n else []

/-- A handler that copies the arguments from the `k`-th on. -/
def copiedArgs (k : Nat) : List Access :=
  if args.length ≤ k then [] else argsBefore args k ++ copyFrom k args.length

/-- A handler that reads pairs of arguments from the `k`-th on. -/
def pairedArgs (k : Nat) : List Access :=
  if args.length < k + 2 ∨ (args.length - k) % 2 ≠ 0 then []
  else argsBefore args k ++ pairsFrom k args.length

/-- The loop over the names of `SUBSCRIBE` and its kin and over the keys of `WATCH`. -/
def loopedArgs : List Access :=
  eachFrom 1 args.length

def setTakes (opt : Bytes) : Option Bool :=
  (setOption opt).map fun
    | .expiry _ => true
    | _ => false

def setValid (opt operand : Bytes) : Bool :=
  match setOption opt with
  | some (.expiry kind) => (expiryOperand kind operand).isSome
  | _ => false

def setArgs : List Access :=
  if args.length < 3 then []
  else argsBefore args 3 ++ optionLoop setTakes setValid args.length 3 (args.drop 3)

def getExTakes (opt : Bytes) : Option Bool :=
  (getExOption opt).map fun
    | .expiry _ => true
    | .persist => false

def getExValid (opt operand : Bytes) : Bool :=
  match getExOption opt with
  | some (.expiry kind) => (expiryOperand kind operand).isSome
  | _ => false

/-- The options of `GETEX` are a slice of the arguments. -/
def getExArgs : List Access :=
  if args.length < 2 then []
  else argsBefore args 2 ++
    if args.length = 2 then []
    else .slice 2 args.length args.length
      :: optionLoop getExTakes getExValid (args.length - 2) 0 (args.drop 2)

def scanTakes (opt : Bytes) : Option Bool :=
  (scanOption opt).map fun _ => true

def scanValid (opt operand : Bytes) : Bool :=
  ((scanOption opt).bind fun kind => ({} : ScanOptions).with operand kind).isSome

def scanArgs : List Access :=
  match args with
  | _ :: cursor :: opts =>
    .index 1 args.length
      :: if (parseUint cursor).isSome then optionLoop scanTakes scanValid args.length 2 opts else []
  | _ => []

/-- `LPOP` and `RPOP` take a count or none. -/
def popArgs : List Access :=
  if args.length = 2 ∨ args.length = 3 then eachFrom 1 args.length else []

/-- `INFO` and `PING` with a word. -/
def wordArg : List Access :=
  if args.length < 2 then [] else [.index 1 args.length]

def clientArgs : List Access :=
  match args with
  | _ :: word :: operands =>
    .index 1 args.length
      :: if (clientSub word).isSome ∧ operands.length = 1 then [.index 2 args.length] else []
  | _ => []

def commandArgs : List Access :=
  match args with
  | _ :: word :: operands =>
    .index 1 args.length
      :: if toUpper word = ascii "INFO" ∧ operands ≠ [] then
          [.slice 2 args.length args.length, .make operands.length]
        else []
  | _ => []

/-- `interMembers` and `diffMembers` on the keys from the `k`-th argument on. -/
def firstAndRest (k : Nat) : List Access :=
  if args.length ≤ k then []
  else [.index 0 (args.length - k), .slice 1 (args.length - k : Nat) (args.length - k)]

end Arguments

def Command.argAccesses (args : List Bytes) : Command → List Access
  | .get | .getdel | .incr | .decr | .strlen | .hgetall | .hlen | .hkeys | .hvals | .llen
  | .smembers | .scard | .type | .ttl | .pttl | .persist | .select => fixedArgs args 2
  | .setnx | .getset | .incrby | .decrby | .incrbyfloat | .append | .hget | .hexists | .lindex
  | .sismember | .expire | .expireat | .pexpire | .pexpireat | .rename | .renamenx =>
    fixedArgs args 3
  | .setex | .psetex | .getrange | .setrange | .hincrby | .hincrbyfloat | .hsetnx | .lset | .lrem
  | .lrange | .ltrim => fixedArgs args 4
  | .linsert => fixedArgs args 5
  | .set => setArgs args
  | .getex => getExArgs args
  | .mget | .del | .exists' | .sunion => copiedArgs args 1
  | .sinter | .sdiff => copiedArgs args 1 ++ firstAndRest args 1
  | .hmget | .hdel | .lpush | .rpush | .lpushx | .rpushx | .sadd | .srem | .sunionstore =>
    copiedArgs args 2
  | .sinterstore | .sdiffstore => copiedArgs args 2 ++ firstAndRest args 2
  | .mset | .msetnx => pairedArgs args 1
  | .hset | .hmset => pairedArgs args 2
  | .lpop | .rpop => popArgs args
  | .dbsize | .flushdb | .flushall => []
  | .session .keys | .session .echo | .session .auth => fixedArgs args 2
  | .session .publish => fixedArgs args 3
  | .session .scan => scanArgs args
  | .session .ping | .session .info => wordArg args
  | .session .client => clientArgs args
  | .session .command => commandArgs args
  | .session .subscribe | .session .psubscribe | .session .unsubscribe | .session .punsubscribe
  | .session .watch => loopedArgs args
  | .session .randomKey | .session .time | .session .multi | .session .discard
  | .session .unwatch => []

/-! ## Integers -/

/-- `LPop` and `RPop`: the capacity of the result is the count. -/
def popMakes (count : Int) (elements : List Bytes) : List Access :=
  if elements = [] then [] else [.make count]

def lRangeMakes (start stop : Int) (elements : List Bytes) : List Access :=
  let n := elements.length
  if n = 0 ∨ (0 ≤ start ∧ n ≤ start) then []
  else
    let st := max 0 (KeyOp.normalizeListIndex start n)
    let en := min (n - 1 : Int) (KeyOp.normalizeListIndex stop n)
    if en < st then [] else [.make (en - st + 1)]

/-- `listElemAt` for `LINDEX` and `LSET`. -/
def lIndexReads (index : Int) (elements : List Bytes) : List Access :=
  let n := elements.length
  let idx := KeyOp.normalizeListIndex index n
  if (0 ≤ index ∧ n ≤ index) ∨ idx < 0 ∨ n ≤ idx then [] else [.index idx n]

def getRangeSlice (start stop : Int) (bytes : Bytes) : List Access :=
  let n := bytes.length
  let st := normRange start n
  let en := normRange stop n
  if n = 0 ∨ en < st then [] else [.slice st (en + 1) n]

/-- `SETRANGE` on the value it finds: the padding, the longer copy, and the part the value
is written to.  The sum of offset and length is an `int`. -/
def setRangeMakes (base : Bytes) (offset : Int) (val : Bytes) : List Access :=
  let padded : Int := max base.length offset
  let stop := wrap64 (offset + val.length)
  (if base.length < offset then [.make (offset - base.length)] else [])
    ++ (if padded < stop then [.make stop] else [])
    ++ [.slice offset (max padded stop) (max padded stop).toNat]

/-- `all[start:end]` of `Scan`. -/
def pageSlice (cursor : Nat) (count : Int) (len : Nat) : List Access :=
  let start := wrap64 cursor
  if len ≤ start then [] else [.slice start (min (wrap64 (start + count)) len) len]

namespace Store

variable (s : Store) (now : Time)

def listAt (key : Key) : Option (List Bytes) :=
  match (s.live now key).map Entry.value with
  | some (.list elements) => some elements
  | _ => none

def stringAt (key : Key) : Option Bytes :=
  match (s.live now key).map Entry.value with
  | none => some []
  | some (.string bytes) => some bytes
  | _ => none

end Store

section Integers

variable (env : CommandEnv) (now : Time) (s : Store) (args : List Bytes)

def popAccesses : List Access :=
  match args with
  | [_, key] => ((s.listAt now key).map (popMakes 1)).getD []
  | [_, key, count] =>
    match positiveOperand count with
    | none => []
    | some n => ((s.listAt now key).map (popMakes n)).getD []
  | _ => []

def lIndexAccesses : List Access :=
  match args with
  | _ :: key :: index :: _ =>
    match parseInt index with
    | none => []
    | some n => ((s.listAt now key).map (lIndexReads n)).getD []
  | _ => []

def lRangeAccesses : List Access :=
  match args with
  | [_, key, start, stop] =>
    match parseInt start, parseInt stop with
    | some start, some stop => ((s.listAt now key).map (lRangeMakes start stop)).getD []
    | _, _ => []
  | _ => []

def getRangeAccesses : List Access :=
  match args with
  | [_, key, start, stop] =>
    match parseInt start, parseInt stop with
    | some start, some stop => ((s.stringAt now key).map (getRangeSlice start stop)).getD []
    | _, _ => []
  | _ => []

def setRangeAccesses : List Access :=
  match args with
  | [_, key, offset, val] =>
    match parseInt offset with
    | none => []
    | some n =>
      if n < 0 then []
      else ((s.stringAt now key).map fun base => setRangeMakes base n val).getD []
  | _ => []

/-- `SCAN` slices the sorted keys and copies the page. -/
def scanAccesses : List Access :=
  match args with
  | _ :: cursor :: opts =>
    match parseUint cursor, parseScanOptions {} opts with
    | some cursor, .ok o =>
      let all := (s.scanned now o.pattern o.wantType).2
      pageSlice cursor o.count all.length
        ++ [.make (((Store.page cursor o.count all).map fun found => found.2.length).getD 0 : Nat)]
    | _, _ => []
  | _ => []

def keysAccesses : List Access :=
  match args with
  | [_, pattern] => [.make (s.keys now pattern).2.length]
  | _ => []

def randomKeyAccesses : List Access :=
  match (s.keys now [42]).2 with
  | [] => []
  | _ :: rest =>
    [.index (env.randIntn s.visited rest.length).val (rest.length + 1)]

def Command.integerAccesses : Command → List Access
  | .lpop | .rpop => popAccesses now s args
  | .lindex | .lset => lIndexAccesses now s args
  | .lrange => lRangeAccesses now s args
  | .getrange => getRangeAccesses now s args
  | .setrange => setRangeAccesses now s args
  | .session .scan => scanAccesses now s args
  | .session .keys => keysAccesses now s args
  | .session .randomKey => randomKeyAccesses env now s
  | .session .command => [.make registered.length]
  | _ => []

def Reply.makes : Reply → List Access
  | .array elems => [.make elems.length]
  | _ => []

/-- All of them, with those of `ValueToArgs` before the handler. -/
def Command.accesses (cmd : Command) : List Access :=
  copyFrom 0 args.length ++ cmd.argAccesses args ++ cmd.integerAccesses env now s args
    ++ (cmd.handler env.fl now s args).reply.makes

end Integers

/-! ## The arguments are there -/

section ArgumentsSafe

variable {args : List Bytes} {bound : Nat}

theorem argsBefore_safe {k : Nat} (reach : k ≤ args.length) : AllSafe bound (argsBefore args k) := by
  intro access mem
  obtain ⟨i, inside, rfl⟩ := List.mem_map.mp mem
  rw [List.mem_range'_1] at inside
  rw [Access.safe_index_nat]
  omega

theorem fixedArgs_safe (n : Nat) : AllSafe bound (fixedArgs args n) := by
  unfold fixedArgs
  split
  · next length => exact argsBefore_safe length.ge
  · simp

theorem copiedArgs_safe (k : Nat) (short : args.length ≤ bound) :
    AllSafe bound (copiedArgs args k) := by
  unfold copiedArgs
  split
  · simp
  · next more =>
    rw [allSafe_append]
    exact ⟨argsBefore_safe (by omega), allSafe_copyFrom (by omega) short⟩

theorem pairedArgs_safe (k : Nat) : AllSafe bound (pairedArgs args k) := by
  unfold pairedArgs
  split
  · simp
  · next paired =>
    rw [not_or, not_ne_iff] at paired
    rw [allSafe_append]
    exact ⟨argsBefore_safe (by omega), allSafe_pairsFrom paired.2⟩

theorem setArgs_safe : AllSafe bound (setArgs args) := by
  unfold setArgs
  split
  · simp
  · rw [allSafe_append]
    refine ⟨argsBefore_safe (by omega), allSafe_optionLoop _ _ ?_⟩
    rw [List.length_drop]
    omega

theorem getExArgs_safe : AllSafe bound (getExArgs args) := by
  unfold getExArgs
  split
  · simp
  · rw [allSafe_append]
    refine ⟨argsBefore_safe (by omega), ?_⟩
    split
    · simp
    · rw [allSafe_cons]
      refine ⟨⟨by omega, by omega, le_refl _⟩, allSafe_optionLoop _ _ ?_⟩
      rw [List.length_drop]
      omega

theorem scanArgs_safe : AllSafe bound (scanArgs args) := by
  unfold scanArgs
  split
  · next name cursor opts =>
    rw [allSafe_cons]
    constructor
    · rw [show (1 : Int) = (1 : Nat) from rfl, Access.safe_index_nat]
      simp
    · split
      · refine allSafe_optionLoop _ _ ?_
        simp only [List.length_cons]
        omega
      · simp
  · simp

theorem popArgs_safe : AllSafe bound (popArgs args) := by
  unfold popArgs
  split
  · exact allSafe_eachFrom
  · simp

theorem wordArg_safe : AllSafe bound (wordArg args) := by
  unfold wordArg
  split
  · simp
  · simp [Access.Safe]
    omega

theorem clientArgs_safe : AllSafe bound (clientArgs args) := by
  unfold clientArgs
  split
  · split
    · next named => simp [Access.Safe, named.2]
    · simp [Access.Safe]
  · simp

theorem commandArgs_safe (short : args.length ≤ bound) : AllSafe bound (commandArgs args) := by
  unfold commandArgs
  split
  · next name word operands =>
    simp only [List.length_cons] at short
    split
    · simp [Access.Safe]
      omega
    · simp [Access.Safe]
  · simp

theorem firstAndRest_safe (k : Nat) : AllSafe bound (firstAndRest args k) := by
  unfold firstAndRest
  split
  · simp
  · simp [Access.Safe]
    omega

theorem Command.argAccesses_safe (short : args.length ≤ bound) (cmd : Command) :
    AllSafe bound (cmd.argAccesses args) := by
  have copied (k : Nat) := copiedArgs_safe k short
  have listed := commandArgs_safe short
  have looped : AllSafe bound (loopedArgs args) := allSafe_eachFrom
  unfold Command.argAccesses
  split <;> simp only [fixedArgs_safe, copied, pairedArgs_safe, setArgs_safe, getExArgs_safe,
    scanArgs_safe, popArgs_safe, wordArg_safe, clientArgs_safe, listed, looped, firstAndRest_safe,
    allSafe_append, allSafe_nil, and_self]

end ArgumentsSafe

/-! ## The integers -/

section IntegersSafe

variable {now : Time} {s : Store} {args : List Bytes} {bound : Nat}

variable {count n : Int} {key : Key} {elements : List Bytes} {α : Type} {cursor : Nat}
  {operand : Bytes} {o : ScanOptions}

theorem extent_of_listAt (found : s.listAt now key = some elements) :
    s.extent now key = elements.length := by
  unfold Store.listAt at found
  unfold Store.extent
  cases live : s.live now key with
  | none =>
    rw [live] at found
    cases found
  | some e =>
    rw [live, Option.map_some] at found
    split at found
    · next value =>
      cases found
      rw [Option.map_some, Option.some.inj value]
      rfl
    · cases found

theorem extent_of_stringAt {bytes : Bytes} (found : s.stringAt now key = some bytes) :
    s.extent now key = bytes.length := by
  unfold Store.stringAt at found
  unfold Store.extent
  cases live : s.live now key with
  | none =>
    rw [live] at found
    cases found
    rfl
  | some e =>
    rw [live, Option.map_some] at found
    split at found
    · next value => cases value
    · next value =>
      cases found
      rw [Option.map_some, Option.some.inj value]
      rfl
    · cases found

theorem allSafe_found {found : Option α} {accesses : α → List Access} :
    AllSafe bound ((found.map accesses).getD []) ↔ ∀ a, found = some a → AllSafe bound (accesses a) := by
  cases found with
  | none => simp
  | some a => simp

theorem lIndexReads_safe (index : Int) (elements : List Bytes) :
    AllSafe bound (lIndexReads index elements) := by
  simp only [lIndexReads]
  split
  · simp
  · next inside =>
    rw [allSafe_cons]
    refine ⟨⟨?_, ?_⟩, allSafe_nil⟩
    · omega
    · omega

theorem lRangeMakes_safe (start stop : Int) (fits : elements.length ≤ bound) :
    AllSafe bound (lRangeMakes start stop elements) := by
  unfold lRangeMakes
  simp only
  split
  · simp
  · split
    · simp
    · rw [allSafe_cons]
      refine ⟨⟨?_, ?_⟩, allSafe_nil⟩
      · omega
      · omega

theorem normRange_inside (idx : Int) {n : Nat} (some : n ≠ 0) :
    0 ≤ normRange idx n ∧ normRange idx n < n := by
  simp only [normRange]
  split
  · omega
  · split
    · omega
    · omega

theorem getRangeSlice_safe (start stop : Int) (bytes : Bytes) :
    AllSafe bound (getRangeSlice start stop bytes) := by
  simp only [getRangeSlice]
  split
  · simp
  · next inside =>
    rw [not_or] at inside
    have first := normRange_inside start inside.1
    have last := normRange_inside stop inside.1
    rw [allSafe_cons]
    exact ⟨⟨first.1, by omega, by omega⟩, allSafe_nil⟩

theorem popMakes_safe_iff (positive : 0 ≤ count) (elements : List Bytes) :
    AllSafe bound (popMakes count elements) ↔ (elements ≠ [] → count ≤ bound) := by
  unfold popMakes
  split
  · next empty => simp [empty]
  · next some => simp [some, Access.Safe, positive]

theorem setRangeMakes_safe_iff {base val : Bytes} (positive : 0 ≤ n) :
    AllSafe bound (setRangeMakes base n val) ↔
      n ≤ bound + base.length
        ∧ (max (base.length : Int) n < wrap64 (n + val.length) → wrap64 (n + val.length) ≤ bound) := by
  simp only [setRangeMakes, allSafe_append, allSafe_cons, allSafe_nil, and_true]
  generalize wrap64 (n + val.length) = stop
  have padding : AllSafe bound (if base.length < n then [.make (n - base.length)] else [])
      ↔ n ≤ bound + base.length := by
    split
    · simp only [allSafe_cons, Access.Safe, allSafe_nil, and_true]
      omega
    · simp only [allSafe_nil, true_iff]
      omega
  have copy : AllSafe bound (if max (base.length : Int) n < stop then [.make stop] else [])
      ↔ (max (base.length : Int) n < stop → stop ≤ bound) := by
    split
    · next longer =>
      simp only [allSafe_cons, Access.Safe, allSafe_nil, and_true, longer, true_imp_iff]
      omega
    · next short => simp [short]
  have written : (Access.slice n (max (max (base.length : Int) n) stop)
      (max (max (base.length : Int) n) stop).toNat).Safe bound := by
    simp only [Access.Safe]
    omega
  rw [padding, copy]
  simp only [written, and_true]

theorem pageSlice_safe_iff (word : cursor < 2 ^ 64) (positive : 1 ≤ count) (fits : count < 2 ^ 63)
    (len : Nat) :
    AllSafe bound (pageSlice cursor count len) ↔
      cursor < 2 ^ 63 ∧ (cursor < len → cursor + count < 2 ^ 63) := by
  simp only [pageSlice]
  by_cases small : cursor < 2 ^ 63
  · have start : wrap64 cursor = cursor := by
      unfold wrap64
      omega
    rw [start]
    split
    · next past =>
      simp only [allSafe_nil, small, true_and, true_iff]
      omega
    · simp only [allSafe_cons, Access.Safe, allSafe_nil, and_true, wrap64]
      omega
  · have start : wrap64 cursor < 0 := by
      unfold wrap64
      omega
    rw [if_neg (by omega)]
    simp only [allSafe_cons, Access.Safe, allSafe_nil, and_true]
    omega

/-! ## Listings -/

theorem length_filterMap_mono {β γ : Type} {f : α → Option β} {g : α → Option γ}
    (narrower : ∀ a, (f a).isSome → (g a).isSome) (l : List α) :
    (l.filterMap f).length ≤ (l.filterMap g).length := by
  rw [List.length_filterMap_eq_countP, List.length_filterMap_eq_countP]
  exact List.countP_mono_left fun a _ => narrower a

theorem length_keys_le (pattern : Bytes) :
    (s.keys now pattern).2.length ≤ (s.visitShards now fun key _ => some key).length := by
  unfold Store.keys Store.visitShards
  rw [List.length_flatMap, List.length_flatMap]
  refine List.sum_le_sum fun si _ => length_filterMap_mono (fun key => ?_) _
  cases (s.shards si).m.lookup key with
  | none => exact id
  | some e =>
    rw [Option.bind_some, Option.bind_some]
    split
    · exact id
    · exact fun _ => rfl

theorem length_keepType_le (wantType : Bytes) (s : Store) (all : List Key) :
    (Store.keepType now wantType s all).2.length ≤ all.length := by
  induction all generalizing s with
  | nil => exact le_refl 0
  | cons key rest ih =>
    have later := ih (s.run now key KeyOp.typeName).1
    rw [Store.keepType]
    simp only [List.length_cons]
    split
    · split
      · rw [List.length_cons]
        omega
      · omega
    · omega

theorem length_scanned_le (pattern wantType : Bytes) :
    (s.scanned now pattern wantType).2.length ≤ (s.visitShards now fun key _ => some key).length := by
  have listed : (s.keys now (if pattern = [] then [42] else pattern)).2.length ≤ _ :=
    length_keys_le _
  simp only [Store.scanned]
  split
  · rwa [List.length_insertionSort]
  · refine (length_keepType_le _ _ _).trans ?_
    rwa [List.length_insertionSort]

theorem length_page_le {next : Nat} {all found : List Key}
    (paged : Store.page cursor count all = some (next, found)) : found.length ≤ all.length := by
  simp only [Store.page] at paged
  split at paged
  · cases paged
    exact Nat.zero_le _
  · split at paged
    · cases paged
    · simp only [Option.some.injEq, Prod.mk.injEq] at paged
      rw [← paged.2, List.length_drop]
      exact (Nat.sub_le _ _).trans (List.length_take_le' _ _)

theorem positiveOperand_range (read : positiveOperand operand = some n) : 1 ≤ n ∧ n < 2 ^ 63 := by
  unfold positiveOperand at read
  obtain ⟨m, parsed, positive⟩ := Option.bind_eq_some_iff.mp read
  have fits := parseInt_isInt64 parsed
  unfold IsInt64 maxInt64 at fits
  split at positive
  · cases positive
  · cases positive
    omega

theorem ScanOptions.with_count {next : ScanOptions} {kind : ScanOption}
    (start : 1 ≤ o.count ∧ o.count < 2 ^ 63) (set : o.with operand kind = some next) :
    1 ≤ next.count ∧ next.count < 2 ^ 63 := by
  cases kind with
  | pattern =>
    cases set
    exact start
  | type =>
    cases set
    exact start
  | count =>
    obtain ⟨n, read, rfl⟩ := Option.map_eq_some_iff.mp set
    exact positiveOperand_range read

theorem parseScanOptions_count {found : ScanOptions} {opts : List Bytes}
    (start : 1 ≤ o.count ∧ o.count < 2 ^ 63) (parsed : parseScanOptions o opts = .ok found) :
    1 ≤ found.count ∧ found.count < 2 ^ 63 := by
  induction opts using List.twoStepInduction generalizing o with
  | nil =>
    cases parsed
    exact start
  | singleton opt =>
    rw [parseScanOptions] at parsed
    · cases parsed
    · intro kind operand rest _ more
      cases more
  | cons_cons opt operand rest ih _ =>
    rw [parseScanOptions.eq_def] at parsed
    simp only at parsed
    cases option : scanOption opt with
    | none =>
      rw [option] at parsed
      cases parsed
    | some kind =>
      rw [option] at parsed
      simp only at parsed
      cases set : o.with operand kind with
      | none =>
        rw [set] at parsed
        cases parsed
      | some next =>
        rw [set] at parsed
        exact ih (ScanOptions.with_count start set) parsed

end IntegersSafe

/-! ## What oversteps -/

section Oversteps

variable (now : Time) (s : Store) (args : List Bytes)

def PopOversteps : Prop :=
  ∃ name key count n elements, args = [name, key, count] ∧ positiveOperand count = some n
    ∧ s.listAt now key = some elements ∧ elements ≠ []
    ∧ RespValue.maxBulkBytes + elements.length < n

/-- A `SETRANGE` whose padding or whose end is beyond the limit and the string it finds. -/
def SetRangeOversteps : Prop :=
  ∃ name key offset val n base, args = [name, key, offset, val] ∧ parseInt offset = some n
    ∧ 0 ≤ n ∧ s.stringAt now key = some base
    ∧ (RespValue.maxBulkBytes + 2 * base.length < n
      ∨ (max (base.length : Int) n < wrap64 (n + val.length)
        ∧ RespValue.maxBulkBytes + base.length < wrap64 (n + val.length)))

/-- A `SCAN` from a cursor that is no positive `int`, or whose page ends beyond one. -/
def ScanOversteps : Prop :=
  ∃ name word opts cursor o, args = name :: word :: opts ∧ parseUint word = some cursor
    ∧ parseScanOptions {} opts = .ok o
    ∧ (2 ^ 63 ≤ cursor
      ∨ (cursor < (s.scanned now o.pattern o.wantType).2.length ∧ 2 ^ 63 ≤ cursor + o.count))

def Command.Oversteps : Command → Prop
  | .lpop | .rpop => PopOversteps now s args
  | .setrange => SetRangeOversteps now s args
  | .session .scan => ScanOversteps now s args
  | _ => False

end Oversteps

section Main

variable {env : CommandEnv} {now : Time} {s : Store} {args : List Bytes} {limit : Nat}

theorem popAccesses_safe_iff :
    AllSafe (RespValue.maxBulkBytes + firstExtent now s args) (popAccesses now s args)
      ↔ ¬PopOversteps now s args := by
  unfold popAccesses
  split
  · next name key =>
    have safe : AllSafe (RespValue.maxBulkBytes + s.extent now key)
        (((s.listAt now key).map (popMakes 1)).getD []) := by
      rw [allSafe_found]
      intro elements found
      rw [popMakes_safe_iff (by omega)]
      intro
      simp only [RespValue.maxBulkBytes]
      omega
    refine iff_of_true safe ?_
    rintro ⟨_, _, _, _, _, three, _⟩
    cases three
  · next name key count =>
    cases read : positiveOperand count with
    | none =>
      refine iff_of_true allSafe_nil ?_
      rintro ⟨_, _, _, n, _, same, number, _⟩
      cases same
      cases read.symm.trans number
    | some n =>
      have positive := positiveOperand_range read
      rw [allSafe_found]
      constructor
      · rintro safe ⟨_, _, _, m, elements, same, number, found, some, beyond⟩
        cases same
        cases read.symm.trans number
        have within := (popMakes_safe_iff (by omega) elements).mp (safe elements found) some
        have extent := extent_of_listAt found
        rw [firstExtent_cons, extent] at within
        omega
      · intro within elements found
        rw [popMakes_safe_iff (by omega)]
        intro some
        by_contra beyond
        refine within ⟨name, key, count, n, elements, rfl, read, found, some, ?_⟩
        have extent := extent_of_listAt found
        rw [firstExtent_cons, extent] at beyond
        omega
  · next noPop noCount =>
    refine iff_of_true allSafe_nil ?_
    rintro ⟨name, key, count, _, _, same, _⟩
    exact noCount name key count same

theorem setRangeAccesses_safe_iff :
    AllSafe (RespValue.maxBulkBytes + firstExtent now s args) (setRangeAccesses now s args)
      ↔ ¬SetRangeOversteps now s args := by
  unfold setRangeAccesses
  split
  · next name key offset val =>
    cases read : parseInt offset with
    | none =>
      refine iff_of_true allSafe_nil ?_
      rintro ⟨_, _, _, _, n, _, same, number, _⟩
      cases same
      cases read.symm.trans number
    | some n =>
      simp only
      split
      · next negative =>
        refine iff_of_true allSafe_nil ?_
        rintro ⟨_, _, _, _, m, _, same, number, positive, _⟩
        cases same
        cases read.symm.trans number
        omega
      · next positive =>
        rw [Int.not_lt] at positive
        rw [allSafe_found]
        constructor
        · rintro safe ⟨_, _, _, _, m, base, same, number, _, found, beyond⟩
          cases same
          cases read.symm.trans number
          have within := (setRangeMakes_safe_iff positive).mp (safe base found)
          rw [firstExtent_cons, extent_of_stringAt found] at within
          omega
        · intro within base found
          rw [setRangeMakes_safe_iff positive, firstExtent_cons, extent_of_stringAt found]
          by_contra beyond
          refine within ⟨name, key, offset, val, n, base, rfl, read, positive, found, ?_⟩
          omega
  · next other =>
    refine iff_of_true allSafe_nil ?_
    rintro ⟨name, key, offset, val, _, _, same, _⟩
    exact other name key offset val same

theorem scanAccesses_safe_iff :
    AllSafe (RespValue.maxBulkBytes + (s.visitShards now fun key _ => some key).length)
        (scanAccesses now s args)
      ↔ ¬ScanOversteps now s args := by
  unfold scanAccesses
  split
  · next name word opts =>
    cases read : parseUint word with
    | none =>
      refine iff_of_true allSafe_nil ?_
      rintro ⟨_, _, _, n, _, same, number, _⟩
      cases same
      cases read.symm.trans number
    | some cursor =>
      cases parsed : parseScanOptions {} opts with
      | error err =>
        refine iff_of_true allSafe_nil ?_
        rintro ⟨_, _, _, _, o, same, _, options, _⟩
        cases same
        cases parsed.symm.trans options
      | ok o =>
        have count := parseScanOptions_count (by decide) parsed
        have small : cursor < 2 ^ 64 := by
          obtain ⟨n, -, bounded⟩ := Option.bind_eq_some_iff.mp read
          split at bounded
          · next small => exact Option.some.inj bounded ▸ small
          · cases bounded
        have copied : (((Store.page cursor o.count (s.scanned now o.pattern o.wantType).2).map
            fun found => found.2.length).getD 0)
              ≤ RespValue.maxBulkBytes + (s.visitShards now fun key _ => some key).length := by
          cases paged : Store.page cursor o.count (s.scanned now o.pattern o.wantType).2 with
          | none => exact Nat.zero_le _
          | some found =>
            have inside := (length_page_le paged).trans (length_scanned_le o.pattern o.wantType)
            rw [Option.map_some, Option.getD_some]
            omega
        simp only [allSafe_append, allSafe_cons, Access.safe_make_nat, copied, allSafe_nil, and_true]
        rw [pageSlice_safe_iff small count.1 count.2]
        constructor
        · rintro within ⟨_, _, _, _, _, same, number, options, beyond⟩
          cases same
          cases read.symm.trans number
          cases parsed.symm.trans options
          omega
        · intro within
          by_contra beyond
          refine within ⟨name, word, opts, cursor, o, rfl, read, parsed, ?_⟩
          omega
  · next other =>
    refine iff_of_true allSafe_nil ?_
    rintro ⟨name, word, opts, _, _, same, _⟩
    exact other name word opts same

theorem lIndexAccesses_safe : AllSafe limit (lIndexAccesses now s args) := by
  unfold lIndexAccesses
  split
  · split
    · exact allSafe_nil
    · exact allSafe_found.mpr fun elements _ => lIndexReads_safe _ elements
  · exact allSafe_nil

theorem lRangeAccesses_safe (fits : firstExtent now s args ≤ limit) :
    AllSafe limit (lRangeAccesses now s args) := by
  unfold lRangeAccesses
  split
  · split
    · refine allSafe_found.mpr fun elements found => lRangeMakes_safe _ _ ?_
      rwa [firstExtent_cons, extent_of_listAt found] at fits
    · exact allSafe_nil
  · exact allSafe_nil

theorem getRangeAccesses_safe : AllSafe limit (getRangeAccesses now s args) := by
  unfold getRangeAccesses
  split
  · split
    · exact allSafe_found.mpr fun bytes _ => getRangeSlice_safe _ _ bytes
    · exact allSafe_nil
  · exact allSafe_nil

theorem keysAccesses_safe (fits : (s.visitShards now fun key _ => some key).length ≤ limit) :
    AllSafe limit (keysAccesses now s args) := by
  unfold keysAccesses
  split
  · rw [allSafe_cons, Access.safe_make_nat]
    exact ⟨(length_keys_le _).trans fits, allSafe_nil⟩
  · exact allSafe_nil

theorem randomKeyAccesses_safe : AllSafe limit (randomKeyAccesses env now s) := by
  unfold randomKeyAccesses
  split
  · exact allSafe_nil
  · next first rest _ =>
    rw [allSafe_cons, Access.safe_index_nat]
    exact ⟨(env.randIntn s.visited rest.length).isLt, allSafe_nil⟩

/-- Of the slices whose place or length comes from an integer, only those of the pops, of
`SETRANGE` and of `SCAN` can be unsafe. -/
theorem Command.integerAccesses_safe_iff (cmd : Command) :
    AllSafe (RespValue.maxBulkBytes + cmd.existing now s args) (cmd.integerAccesses env now s args)
      ↔ ¬cmd.Oversteps now s args := by
  cases cmd with
  | lpop => exact popAccesses_safe_iff
  | rpop => exact popAccesses_safe_iff
  | setrange => exact setRangeAccesses_safe_iff
  | lindex => exact iff_of_true lIndexAccesses_safe id
  | lset => exact iff_of_true lIndexAccesses_safe id
  | lrange => exact iff_of_true (lRangeAccesses_safe (Nat.le_add_left _ _)) id
  | getrange => exact iff_of_true getRangeAccesses_safe id
  | session cmd =>
    cases cmd with
    | scan => exact scanAccesses_safe_iff
    | keys => exact iff_of_true (keysAccesses_safe (Nat.le_add_left _ _)) id
    | randomKey => exact iff_of_true randomKeyAccesses_safe id
    | command =>
      have few : registered.length ≤ RespValue.maxBulkBytes := by
        rw [registered, List.length_insertionSort]
        decide
      refine iff_of_true ?_ id
      simp only [Command.integerAccesses, allSafe_cons, Access.safe_make_nat, allSafe_nil, and_true]
      omega
    | _ => exact iff_of_true allSafe_nil id
  | _ => exact iff_of_true allSafe_nil id

theorem length_of_mapM {α β : Type} {f : α → Option β} {l : List α} {found : List β}
    (mapped : l.mapM f = some found) : found.length = l.length := by
  induction l generalizing found with
  | nil =>
    cases mapped
    rfl
  | cons a l ih =>
    rw [List.mapM_cons] at mapped
    obtain ⟨first, -, more⟩ := Option.bind_eq_some_iff.mp mapped
    obtain ⟨later, below, same⟩ := Option.bind_eq_some_iff.mp more
    cases same
    rw [List.length_cons, List.length_cons, ih below]

theorem length_of_valueToArgs {v : RespValue} (taken : valueToArgs v = some args) :
    ∃ elems, v = .array elems ∧ args.length = elems.length := by
  cases v with
  | array elems =>
    exact ⟨elems, rfl, length_of_mapM taken⟩
  | _ => cases taken

end Main

def RespValue.ofWords (words : List Bytes) : RespValue :=
  .array (words.map .bulk)

def oneElement : Store :=
  (newStore .noeviction 0 sortedOracle).replaceEntry (ascii "k") none { value := .list [ascii "a"] }

end SuperCache
