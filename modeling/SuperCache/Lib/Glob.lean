import SuperCache.Lib.Utf8

/-! # Shell patterns

`path.Match` of the Go library.  A pattern is cut at its stars into chunks; a
chunk matches the beginning of a text character by character, and after a star
it may match after any number of bytes other than a slash.  A malformed pattern
is an error (`none`), also where the text has already failed to match.
-/

namespace SuperCache.Lib

namespace Glob

/-- `getEsc`: a character of a class, possibly escaped, and what follows it. -/
def getEsc : Bytes → Option (Nat × Bytes)
  | [] => none
  | first :: rest =>
    if first = 45 ∨ first = 93 then none
    else
      let text := if first = 92 then rest else first :: rest
      let (rune, width) := Utf8.decodeRune text
      -- A class is closed by a bracket, so the chunk cannot end here.
      if (rune = 0xFFFD ∧ width = 1) ∨ text.drop width = [] then none
      else some (rune, text.drop width)

/-- The ranges of a class after its opening bracket: whether one holds the rune,
and what follows the closing bracket. -/
def scanClass (rune : Nat) : Nat → Bool → Bool → Bytes → Option (Bool × Bytes)
  | 0, _, _, _ => none
  | fuel + 1, started, matched, chunk =>
    if started ∧ chunk.head? = some 93 then some (matched, chunk.tail)
    else
      match getEsc chunk with
      | none => none
      | some (low, chunk) =>
        if chunk.head? = some 45 then
          match getEsc chunk.tail with
          | none => none
          | some (high, chunk) =>
            scanClass rune fuel true (matched || (low ≤ rune && rune ≤ high)) chunk
        else scanClass rune fuel true (matched || low = rune) chunk

def takeByte (byte : Byte) : Bytes → Option Bytes
  | [] => none
  | first :: rest => if first = byte then some rest else none

def takeRune (text : Bytes) : Option Bytes :=
  if text.head? = some 47 then none else some (text.drop (Utf8.decodeRune text).2)

/-- `matchChunk`.  The subject is the text still to match, `none` once the match
has failed; the chunk is read to its end in any case. -/
def matchChunkWith : Nat → Bytes → Option Bytes → Option (Option Bytes)
  | _, [], subject => some subject
  | 0, _, _ => none
  | fuel + 1, operator :: chunk, subject =>
    let subject := subject.filter (· ≠ [])
    if operator = 91 then
      let negated := chunk.head? = some 94
      let chunk := if negated then chunk.tail else chunk
      let rune := subject.elim 0 fun text => (Utf8.decodeRune text).1
      match scanClass rune (chunk.length + 1) false false chunk with
      | none => none
      | some (matched, chunk) =>
        matchChunkWith fuel chunk
          (if matched = negated then none
            else subject.map fun text => text.drop (Utf8.decodeRune text).2)
    else if operator = 63 then matchChunkWith fuel chunk (subject.bind takeRune)
    else if operator = 92 then
      match chunk with
      | [] => none
      | byte :: chunk => matchChunkWith fuel chunk (subject.bind (takeByte byte))
    else matchChunkWith fuel chunk (subject.bind (takeByte operator))

def matchChunk (chunk text : Bytes) : Option (Option Bytes) :=
  matchChunkWith chunk.length chunk (some text)

def cutChunk (inrange : Bool) : Bytes → Bytes × Bytes
  | [] => ([], [])
  | [last] => if last = 42 ∧ !inrange then ([], [last]) else ([last], [])
  | first :: next :: rest =>
    if first = 92 then
      let (chunk, rest) := cutChunk inrange rest
      (first :: next :: chunk, rest)
    else if first = 42 ∧ !inrange then ([], first :: next :: rest)
    else
      let (chunk, rest) := cutChunk (first = 91 ∨ (first ≠ 93 ∧ inrange)) (next :: rest)
      (first :: chunk, rest)

/-- `scanChunk`: whether stars lead, the chunk after them, and the rest. -/
def scanChunk (pattern : Bytes) : Bool × Bytes × Bytes :=
  (pattern.head? = some 42, cutChunk false (pattern.dropWhile (· = 42)))

def skips : Bytes → List Bytes
  | [] => []
  | first :: rest => if first = 47 then [] else rest :: skips rest

def wellFormed : Nat → Bytes → Bool
  | _, [] => true
  | 0, _ => false
  | fuel + 1, pattern =>
    let (_, chunk, rest) := scanChunk pattern
    (matchChunk chunk []).isSome && wellFormed fuel rest

def matchWith : Nat → Bytes → Bytes → Option Bool
  | _, [], name => some (name = [])
  | 0, _, _ => none
  | fuel + 1, pattern, name =>
    let (star, chunk, rest) := scanChunk pattern
    if star ∧ chunk = [] then some (47 ∉ name)
    else
      -- Whether a chunk is malformed does not depend on the text.
      match matchChunk chunk name with
      | none => none
      | some _ =>
        let places := name :: if star then skips name else []
        let fits := fun text =>
          (matchChunk chunk text).join.filter fun left => left = [] ∨ rest ≠ []
        match places.findSome? fits with
        | some left => matchWith fuel rest left
        | none => if wellFormed fuel rest then some false else none

end Glob

/-- `path.Match`. -/
def pathMatch (pattern name : Bytes) : Option Bool :=
  Glob.matchWith pattern.length pattern name

example : pathMatch (ascii "user:[a-c]?*") (ascii "user:b7x") = some true := by decide

example : pathMatch (ascii "a*[") (ascii "zz") = none := by decide

end SuperCache.Lib
