import SuperCache.Store.Keyspace
import SuperCache.Lib.Glob

/-! # Reading the whole keyspace

`Keys`, `ExpireKeyCount`, `Scan`, `SampleKeysForDebug` and a whole `SnapshotCtx`.
Each of them visits the shards one after another and skips what has expired
without removing it.
-/

namespace SuperCache

open Lib

def matchGlob (pattern : Bytes) (key : Key) : Bool :=
  pathMatch pattern key = some true

/-- The letter a code point becomes under `strings.ToLower` and the folding of
`strings.EqualFold`.  The three beside the capitals are the dotted capital I, the
long s and the Kelvin sign. -/
def foldRune (rune : Nat) : Nat :=
  if 65 ≤ rune ∧ rune ≤ 90 then rune + 32
  else if rune = 0x130 then 105
  else if rune = 0x17F then 115
  else if rune = 0x212A then 107
  else rune

/-- `strings.EqualFold(typeName, strings.ToLower(wantType))`; type names are lower
case letters. -/
def equalFoldType (kind : KeyOp.TypeName) (wantType : Bytes) : Bool :=
  (Utf8.runes wantType).map foldRune = (ascii (typeText kind)).map Fin.val

namespace Store

/-- The loop over shards and over the entries of each: what `visit` makes of every
entry that is not expired. -/
def visitShards {β : Type} (s : Store) (now : Time) (visit : Key → Entry → Option β) : List β :=
  (List.finRange 256).flatMap fun si =>
    (rangeOrder s.oracle s.tick (s.shards si).m.keys).filterMap fun key =>
      ((s.shards si).m.lookup key).bind fun e => if isExpired now e then none else visit key e

def visited (s : Store) : Store :=
  s.drawn (s.tick + 1) s.evictCursor

def keys (s : Store) (now : Time) (pattern : Bytes) : Store × List Key :=
  (s.visited, s.visitShards now fun key _ => if matchGlob pattern key then some key else none)

def expireKeyCount (s : Store) (now : Time) : Store × Nat :=
  (s.visited, (s.visitShards now fun _ e => if e.hasTTL then some () else none).length)

/-- `SnapshotCtx` while nothing else runs and its context is not cancelled. -/
def snapshotCtx (s : Store) (now : Time) : Store × List SnapshotEntry :=
  (s.visited, (List.finRange 256).flatMap (s.snapshotShard now))

/-! ## `Scan` -/

/-- The keys of a list whose `Type` is the wanted one. -/
def keepType (now : Time) (wantType : Bytes) : Store → List Key → Store × List Key
  | s, [] => (s, [])
  | s, key :: rest =>
    let (s, kind) := s.run now key KeyOp.typeName
    let (s, kept) := keepType now wantType s rest
    (s, match kind with
      | .ok kind => if equalFoldType kind wantType then key :: kept else kept
      | .error _ => kept)

/-- The page of a sorted list.  The arithmetic is on `int`; `none` is the panic of a
slice expression out of bounds. -/
def page (cursor : Nat) (count : Int) (all : List Key) : Option (Nat × List Key) :=
  let start := wrap64 cursor
  if (all.length : Int) ≤ start then some (0, [])
  else
    let stop := min (wrap64 (start + count)) all.length
    if start < 0 ∨ stop < start then none
    else
      some (if stop < all.length then stop.toNat else 0,
        (all.take stop.toNat).drop start.toNat)

def scan (s : Store) (now : Time) (cursor : Nat) (pattern : Bytes) (count : Int) (wantType : Bytes) :
    Store × Option (Nat × List Key) :=
  let pattern := if pattern = [] then [42] else pattern
  let count := if count ≤ 0 then 10 else count
  let (s, all) := s.keys now pattern
  let all := all.insertionSort (· ≤ ·)
  let (s, all) := if wantType = [] then (s, all) else keepType now wantType s all
  (s, page cursor count all)

/-- The keys `Scan` pages through. -/
def scanned (s : Store) (now : Time) (pattern wantType : Bytes) : Store × List Key :=
  let (s, all) := s.keys now (if pattern = [] then [42] else pattern)
  let all := all.insertionSort (· ≤ ·)
  if wantType = [] then (s, all) else keepType now wantType s all

theorem scan_eq (s : Store) (now : Time) (cursor : Nat) (pattern : Bytes) (count : Int) (wantType : Bytes) :
    s.scan now cursor pattern count wantType
      = ((s.scanned now pattern wantType).1,
        page cursor (if count ≤ 0 then 10 else count) (s.scanned now pattern wantType).2) := by
  unfold scan scanned
  split <;> split <;> rfl

/-! ## `SampleKeysForDebug` -/

structure DebugRow where
  key : Key
  type : Except StoreErr KeyOp.TypeName
  ttlSeconds : Except StoreErr Int

def debugRows (now : Time) : Store → List Key → Store × List DebugRow
  | s, [] => (s, [])
  | s, key :: rest =>
    let (s, kind) := s.run now key KeyOp.typeName
    let (s, left) := s.run now key (KeyOp.ttl now)
    let (s, rows) := debugRows now s rest
    (s, ⟨key, kind, left⟩ :: rows)

def sampleKeysForDebug (s : Store) (now : Time) (max : Int) : Store × List DebugRow :=
  let max := if max ≤ 0 then 10 else max
  let (s, keys) := s.keys now [42]
  debugRows now s ((keys.insertionSort (· ≤ ·)).take max.toNat)

end Store

end SuperCache
