import SuperCache.Store.Strings

/-! # Hash, list and set operations

The single-key operations of `store_collections.go`, `store_list_extra.go` and
`store_hash_incr.go`.  Most writers clone the old value before they change it.
`LPop`, `RPop`, `LRem` and `LSet` change the stored list itself, so the entry
they account for as the old one already has the new elements.
-/

namespace SuperCache

open Lib

/-- The `float64` arithmetic of `HIncrByFloat` and `INCRBYFLOAT`, left open:
`strconv.ParseFloat`, addition, the tests for infinities and NaN, and
`strconv.FormatFloat(x, 'f', -1, 64)`. -/
structure FloatOps where
  F : Type
  zero : F
  parse : Bytes → Option F
  add : F → F → F
  isInfOrNaN : F → Bool
  format : F → Bytes

def integerFloats : FloatOps where
  F := Int
  zero := 0
  parse := parseInt
  add := (· + ·)
  isInfOrNaN := fun _ => false
  format := formatInt

namespace KeyOp

/-! ## Hashes -/

def hashOf : Look → Except StoreErr (GoMap Bytes)
  | .live e =>
    match e.value with
    | .hash fields => .ok fields
    | _ => .error .wrongType
  | _ => .ok ∅

/-- The write shared by `HSet`, `HIncrBy` and `HIncrByFloat`: replace the hash,
keep the deadline of a live entry. -/
def putHash {ρ : Type} (key : Key) (found : Look) (fields : GoMap Bytes) (result : ρ) :
    Action ρ :=
  let ne : Entry := { value := .hash fields, expiresAt := found.deadline }
  .ensure .none (estimateMem key ne - oldBytes key found.current) found.current ne result .stored

/-- `HSet` once it holds the lock; `Store.hSet` is the guard before it. -/
def hSet (key : Key) (pairs : GoMap Bytes) : KeyOp Int :=
  fun found =>
    match hashOf found with
    | .error failure => .done .none (.keep (.error failure))
    | .ok old => putHash key found (pairs ∪ old) (pairs.keys \ old.keys).card

def readLive {ρ : Type} (absent : ρ) (read : Value → Option ρ) : KeyOp ρ
  | .live e =>
    match read e.value with
    | some result => .done .lru (.keep (.ok result))
    | none => .done .none (.keep (.error .wrongType))
  | _ => .done .none (.keep (.ok absent))

def hGet (field : Bytes) : KeyOp (Option Bytes) :=
  readLive none fun
    | .hash fields => some ((fields.lookup field).bind nilIfEmpty)
    | _ => none

def hGetAll : KeyOp (GoMap Bytes) :=
  readLive ∅ fun
    | .hash fields => some fields
    | _ => none

def hExists (field : Bytes) : KeyOp Bool :=
  readLive false fun
    | .hash fields => some (fields.lookup field).isSome
    | _ => none

def hLen : KeyOp Int :=
  readLive 0 fun
    | .hash fields => some fields.keys.card
    | _ => none

def hDel (fields : List Bytes) : KeyOp Int
  | .live e =>
    match e.value with
    | .hash old =>
      let rest := fields.foldl (fun h field => h.erase field) old
      let n : Int := (old.keys ∩ fields.toFinset).card
      if rest.keys = ∅ then .done .none (.purge e n)
      else .done .none (.replace (some e) { value := .hash rest, expiresAt := e.expiresAt } n)
    | _ => .done .none (.keep (.error .wrongType))
  | _ => .done .none (.keep (.ok 0))

def hSetNX (key : Key) (field val : Bytes) : KeyOp Int :=
  fun found =>
    match hashOf found with
    | .error failure => .done .none (.keep (.error failure))
    | .ok old =>
      if (old.lookup field).isSome then .done .none (.keep (.ok 0))
      else putHash key found (old.insert field val) 1

def hIncrBy (key : Key) (field : Bytes) (delta : Int) : KeyOp Int :=
  fun found =>
    match hashOf found with
    | .error failure => .done .none (.keep (.error failure))
    | .ok old =>
      match parseCounter ((old.lookup field).getD []) with
      | .error failure => .done .none (.keep (.error failure))
      | .ok cur =>
        match addInt64 cur delta with
        | none => .done .none (.keep (.error .overflow))
        | some next => putHash key found (old.insert field (formatInt next)) next

def parseFloatCounter (fl : FloatOps) (text : Bytes) : Except StoreErr fl.F :=
  let numeral := trimSpace text
  if numeral = [] then .ok fl.zero
  else
    match fl.parse numeral with
    | some x => .ok x
    | none => .error .notFloat

def hIncrByFloat (fl : FloatOps) (key : Key) (field : Bytes) (delta : fl.F) : KeyOp fl.F :=
  fun found =>
    match hashOf found with
    | .error failure => .done .none (.keep (.error failure))
    | .ok old =>
      match parseFloatCounter fl ((old.lookup field).getD []) with
      | .error failure => .done .none (.keep (.error failure))
      | .ok cur =>
        let next := fl.add cur delta
        putHash key found (old.insert field (fl.format next)) next

/-! ## Lists -/

/-- `listLenLocked`, which is also `LLen`; it does not touch the LRU lists. -/
def lLen : KeyOp Int
  | .live e =>
    match e.value with
    | .list elements => .done .none (.keep (.ok elements.length))
    | _ => .done .none (.keep (.error .wrongType))
  | _ => .done .none (.keep (.ok 0))

def pushAll (left : Bool) (elements vals : List Bytes) : List Bytes :=
  if left then vals.foldl (fun list val => val :: list) elements else elements ++ vals

def listPush (key : Key) (vals : List Bytes) (left : Bool) : KeyOp Int :=
  if vals = [] then lLen
  else fun found =>
    let push (old : List Bytes) : Action Int :=
      let ne : Entry := { value := .list (pushAll left old vals), expiresAt := found.deadline }
      .ensure .none (estimateMem key ne - oldBytes key found.current) found.current ne
        (pushAll left old vals).length .stored
    match found.current.map Entry.value with
    | none => push []
    | some (.list old) => push old
    | some _ => .done .none (.keep (.error .wrongType))

def lPush (key : Key) (vals : List Bytes) : KeyOp Int :=
  listPush key vals true

def rPush (key : Key) (vals : List Bytes) : KeyOp Int :=
  listPush key vals false

def listPushX (key : Key) (vals : List Bytes) (left : Bool) : KeyOp Int :=
  if vals = [] then lLen
  else fun
    | .live e =>
      match e.value with
      | .list old =>
        let ne : Entry := { value := .list (pushAll left old vals), expiresAt := e.expiresAt }
        .ensure .none (estimateMem key ne - estimateMem key e) (some e) ne
          (pushAll left old vals).length .stored
      | _ => .done .none (.keep (.error .wrongType))
    | _ => .done .none (.keep (.ok 0))

def lPushX (key : Key) (vals : List Bytes) : KeyOp Int :=
  listPushX key vals true

def rPushX (key : Key) (vals : List Bytes) : KeyOp Int :=
  listPushX key vals false

/-- The commit of the operations that have already shortened the stored list
`e` holds: `rest` is what is left, in the old entry as in the new one. -/
def commitMutated {ρ : Type} (e : Entry) (rest : List Bytes) (result : ρ) : Commit ρ :=
  let mutated : Entry := { value := .list rest, expiresAt := e.expiresAt }
  if rest = [] then .purge mutated result else .replace (some mutated) mutated result

/-- `LPop` and `RPop`; `take` splits off what is popped. -/
def listPop (take : List Bytes → List Bytes × List Bytes) : KeyOp (List Bytes)
  | .live e =>
    match e.value with
    | .list [] => .done .lru (.keep (.ok []))
    | .list elements =>
      let (out, rest) := take elements
      .done .lru (commitMutated e rest out)
    | _ => .done .none (.keep (.error .wrongType))
  | _ => .done .none (.keep (.ok []))

def popCount (count : Int) : Nat :=
  if count ≤ 0 then 1 else count.toNat

def lPop (count : Int) : KeyOp (List Bytes) :=
  listPop fun elements => (elements.take (popCount count), elements.drop (popCount count))

def rPop (count : Int) : KeyOp (List Bytes) :=
  listPop fun elements =>
    (elements.reverse.take (popCount count), (elements.reverse.drop (popCount count)).reverse)

def normalizeListIndex (idx : Int) (n : Nat) : Int :=
  let idx := if idx < 0 then n + idx else idx
  if idx < 0 then 0 else if n ≤ idx then n - 1 else idx

/-- The elements from `st` to `en`, both included. -/
def slice (elements : List Bytes) (st en : Int) : List Bytes :=
  (elements.drop st.toNat).take (en + 1 - st).toNat

def lRangeOf (start stop : Int) (elements : List Bytes) : List Bytes :=
  let n := elements.length
  if n = 0 then []
  else if 0 ≤ start ∧ n ≤ start then []
  else
    let st := max 0 (normalizeListIndex start n)
    let en := min (n - 1 : Int) (normalizeListIndex stop n)
    if en < st then [] else slice elements st en

def lRange (start stop : Int) : KeyOp (List Bytes) :=
  readLive [] fun
    | .list elements => some (lRangeOf start stop elements)
    | _ => none

def lIndexOf (index : Int) (elements : List Bytes) : Option Bytes :=
  let n := elements.length
  if n = 0 then none
  else if 0 ≤ index ∧ n ≤ index then none
  else (elements[(normalizeListIndex index n).toNat]?).bind nilIfEmpty

def lIndex (index : Int) : KeyOp (Option Bytes) :=
  readLive none fun
    | .list elements => some (lIndexOf index elements)
    | _ => none

def lSet (index : Int) (val : Bytes) : KeyOp Unit
  | .live e =>
    match e.value with
    | .list elements =>
      let n := elements.length
      let idx := normalizeListIndex index n
      if (0 ≤ index ∧ n ≤ index) ∨ idx < 0 ∨ n ≤ idx then
        .done .none (.keep (.error .listIndex))
      else
        -- The element is overwritten before the old entry is accounted for.
        let mutated : Entry :=
          { value := .list (elements.set idx.toNat val), expiresAt := e.expiresAt }
        .done .none (.replace (some mutated) mutated ())
    | _ => .done .none (.keep (.error .wrongType))
  | _ => .done .none (.keep (.error .keyNotFound))

/-- Remove at most `limit` occurrences of `value`, from the front. -/
def dropMatches (value : Bytes) : Nat → List Bytes → List Bytes
  | _, [] => []
  | limit, element :: rest =>
    if element = value ∧ 0 < limit then dropMatches value (limit - 1) rest
    else element :: dropMatches value limit rest

/-- The three loops of `LRem`.  Negating the least `int` gives itself back, and
then nothing is removed. -/
def lRemOf (count : Int) (value : Bytes) (elements : List Bytes) : List Bytes :=
  if count = 0 then elements.filter fun element => element ≠ value
  else if 0 < count then dropMatches value count.toNat elements
  else (dropMatches value (wrap64 (-count)).toNat elements.reverse).reverse

def lRem (count : Int) (value : Bytes) : KeyOp Int
  | .live e =>
    match e.value with
    | .list [] => .done .lru (.keep (.ok 0))
    | .list elements =>
      let rest := lRemOf count value elements
      .done .lru (commitMutated e rest (elements.length - rest.length))
    | _ => .done .none (.keep (.error .wrongType))
  | _ => .done .none (.keep (.ok 0))

def lTrim (start stop : Int) : KeyOp Unit
  | .live e =>
    match e.value with
    | .list elements =>
      let n := elements.length
      if n = 0 then .done .lru (.keep (.ok ()))
      else
        let st := max 0 (normalizeListIndex start n)
        let en := min (n - 1 : Int) (normalizeListIndex stop n)
        if en < st then .done .lru (.purge e ())
        else
          let kept := slice elements st en
          if kept = [] then .done .lru (.purge e ())
          else
            .done .lru (.replace (some e) { value := .list kept, expiresAt := e.expiresAt } ())
    | _ => .done .none (.keep (.error .wrongType))
  | _ => .done .none (.keep (.ok ()))

/-- The list with `insert` before or after the first `pivot`. -/
def lInsertOf (before : Bool) (pivot insert : Bytes) (elements : List Bytes) :
    Option (List Bytes) :=
  (elements.findIdx? fun element => element = pivot).map fun idx =>
    let cut := if before then idx else idx + 1
    elements.take cut ++ insert :: elements.drop cut

def lInsert (key : Key) (before : Bool) (pivot insert : Bytes) : KeyOp Int
  | .live e =>
    match e.value with
    | .list elements =>
      match lInsertOf before pivot insert elements with
      | none => .done .lru (.keep (.ok (-1)))
      | some grown =>
        let ne : Entry := { value := .list grown, expiresAt := e.expiresAt }
        .ensure .lru (estimateMem key ne - estimateMem key e) (some e) ne grown.length .stored
    | _ => .done .none (.keep (.error .wrongType))
  | _ => .done .none (.keep (.ok 0))

/-! ## Sets -/

/-- `SAdd` once it holds the lock; `Store.sAdd` is the guard before it. -/
def sAdd (key : Key) (members : List Bytes) : KeyOp Int :=
  fun found =>
    let add (old : Finset Bytes) : Action Int :=
      let ne : Entry := { value := .set (old ∪ members.toFinset), expiresAt := found.deadline }
      .ensure .none (estimateMem key ne - oldBytes key found.current) found.current ne
        (members.toFinset \ old).card .stored
    match found.current.map Entry.value with
    | none => add ∅
    | some (.set old) => add old
    | some _ => .done .none (.keep (.error .wrongType))

def sRem (members : List Bytes) : KeyOp Int
  | .live e =>
    match e.value with
    | .set old =>
      let rest := old \ members.toFinset
      let n : Int := (old ∩ members.toFinset).card
      if rest = ∅ then .done .none (.purge e n)
      else .done .none (.replace (some e) { value := .set rest, expiresAt := e.expiresAt } n)
    | _ => .done .none (.keep (.error .wrongType))
  | _ => .done .none (.keep (.ok 0))

/-- `SMembers`, as a set: the order of the slice is the map's, and every caller
sorts it or puts it back into a map. -/
def sMembers : KeyOp (Finset Bytes) :=
  readLive ∅ fun
    | .set members => some members
    | _ => none

def sIsMember (member : Bytes) : KeyOp Bool :=
  readLive false fun
    | .set members => some (decide (member ∈ members))
    | _ => none

def sCard : KeyOp Int :=
  readLive 0 fun
    | .set members => some members.card
    | _ => none

/-- `ReplaceSet` stores an empty set when there are no members, and keeps the
deadline of a live entry of any type. -/
def replaceSet (key : Key) (members : List Bytes) : KeyOp Unit :=
  fun found =>
    let ne : Entry := { value := .set members.toFinset, expiresAt := found.deadline }
    .ensure .none (estimateMem key ne - oldBytes key found.current) found.current ne () .stored

end KeyOp

namespace Store

/-- `HSet` returns before it takes the lock when there are no pairs. -/
def hSet (s : Store) (now : Time) (key : Key) (pairs : GoMap Bytes) :
    Store × Except StoreErr Int :=
  if pairs = ∅ then (s, .ok 0) else s.run now key (KeyOp.hSet key pairs)

/-- `SAdd` returns before it takes the lock when there are no members. -/
def sAdd (s : Store) (now : Time) (key : Key) (members : List Bytes) :
    Store × Except StoreErr Int :=
  if members = [] then (s, .ok 0) else s.run now key (KeyOp.sAdd key members)

end Store

end SuperCache
