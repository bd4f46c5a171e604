import SuperCache.Store.KeyOp

/-! # String operations

`Get`, `Set`, `SetNX`, `SetXX`, `GetSet`, `Append`, `IncrBy` and `DecrBy` of
`store.go`, each as the decision it takes under the lock; the method itself is
`Store.run` of that decision.
-/

namespace SuperCache

open Lib

def oldBytes (key : Key) : Option Entry → Int
  | some e => estimateMem key e
  | none => 0

def nilIfEmpty (bytes : Bytes) : Option Bytes :=
  if bytes = [] then none else some bytes

def Look.isLive : Look → Bool
  | .live _ => true
  | _ => false

def Look.deadline : Look → Time
  | .live e => e.expiresAt
  | _ => 0

namespace KeyOp

def get : KeyOp (Option Bytes)
  | .live e =>
    match e.value with
    | .string bytes => .done .read (.keep (.ok (nilIfEmpty bytes)))
    | _ => .done .none (.keep (.error .wrongType))
  | _ => .done .none (.keep (.ok none))

/-- The tests `setLocked` makes before and after making room. -/
def setBlocked (nx xx : Bool) (found : Look) : Bool :=
  (nx && found.isLive) || (xx && !found.isLive)

def setLocked (key : Key) (val : Bytes) (expiresAt : Time) (nx xx : Bool) : KeyOp Unit :=
  fun found =>
    if setBlocked nx xx found then .done .none (.keep (.ok ()))
    else
      let ne : Entry := { value := .string val, expiresAt := expiresAt }
      .ensure .none (estimateMem key ne - oldBytes key found.current) found.current ne ()
        (.recheck true fun again =>
          if setBlocked nx xx again then .keep (.ok ()) else .replace again.current ne ())

def set (key : Key) (val : Bytes) (expiresAt : Time) : KeyOp Unit :=
  setLocked key val expiresAt false false

def setNX (key : Key) (val : Bytes) (expiresAt : Time) : KeyOp Bool :=
  fun found =>
    if found.isLive then .done .none (.keep (.ok false))
    else
      let ne : Entry := { value := .string val, expiresAt := expiresAt }
      .ensure .none (estimateMem key ne) none ne true
        (.recheck true fun again =>
          if again.isLive then .keep (.ok false) else .replace none ne true)

def setXX (key : Key) (val : Bytes) (expiresAt : Time) : KeyOp Bool
  | .live old =>
    let ne : Entry := { value := .string val, expiresAt := expiresAt }
    .ensure .none (estimateMem key ne - estimateMem key old) (some old) ne true
      (.recheck true fun
        | .live again => .replace (some again) ne true
        | _ => .keep (.ok false))
  | _ => .done .none (.keep (.ok false))

/-- `GetSet`; the value returned is nil for a missing key and for an empty one. -/
def getSet (key : Key) (val : Bytes) (expiresAt : Time) : KeyOp (Option Bytes) :=
  fun found =>
    let ne : Entry := { value := .string val, expiresAt := expiresAt }
    let delta := estimateMem key ne - oldBytes key found.current
    match found.current.map Entry.value with
    | none => .ensure .none delta none ne none .stored
    | some (.string prev) => .ensure .none delta found.current ne (nilIfEmpty prev) .stored
    | some _ => .done .none (.keep (.error .wrongType))

/-- What `Append` does to a live string, when it finds one at once and when one
appeared while it made room for a new key. -/
def appended (e : Entry) (old tail : Bytes) : Entry :=
  { value := .string (old ++ tail), expiresAt := e.expiresAt }

def append (key : Key) (tail : Bytes) : KeyOp Int
  | .live e =>
    match e.value with
    | .string old =>
      let ne := appended e old tail
      .ensure .none (estimateMem key ne - estimateMem key e) (some e) ne
        (old ++ tail).length .stored
    | _ => .done .none (.keep (.error .wrongType))
  | _ =>
    let ne : Entry := { value := .string tail }
    .ensure .none (estimateMem key ne) none ne tail.length
      (.recheck false fun
        | .live cur =>
          match cur.value with
          | .string old => .replace (some cur) (appended cur old tail) (old ++ tail).length
          | _ => .keep (.error .wrongType)
        | _ => .replace none ne tail.length)

def parseCounter (text : Bytes) : Except StoreErr Int :=
  let numeral := trimSpace text
  if numeral = [] then .ok 0
  else
    match parseInt numeral with
    | some n => .ok n
    | none => .error (.notInteger numeral)

/-- `addInt64`; `none` is an overflow. -/
def addInt64 (a b : Int) : Option Int :=
  if 0 < b ∧ maxInt64 - b < a then none
  else if b < 0 ∧ a < minInt64 - b then none
  else some (a + b)

/-- The entry `incrBy` hands to `replaceEntry` as the old one.  After an expired
entry was purged the variable still points to it. -/
def incrOld : Look → Option Entry
  | .live e => some e
  | .expired e => some e
  | .missing => none

/-- The counter `incrBy` starts from. -/
def incrStart : Look → Except StoreErr Int
  | .live e =>
    match e.value with
    | .string text => parseCounter text
    | _ => .error .wrongType
  | _ => .ok 0

def incrBy (key : Key) (delta : Int) : KeyOp Int :=
  fun found =>
    match incrStart found with
    | .error failure => .done .none (.keep (.error failure))
    | .ok cur =>
      match addInt64 cur delta with
      | none => .done .none (.keep (.error .overflow))
      | some next =>
        let ne : Entry := { value := .string (formatInt next), expiresAt := found.deadline }
        .ensure .none (estimateMem key ne - oldBytes key found.current) (incrOld found) ne next
          .stored

/-- `DecrBy` negates its argument in 64 bits. -/
def decrBy (key : Key) (delta : Int) : KeyOp Int :=
  incrBy key (wrap64 (-delta))

end KeyOp

end SuperCache
