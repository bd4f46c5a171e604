import SuperCache.Lib.Bytes

/-! # RESP values

The values of the client protocol, how `Writer` encodes them, and how `Parser` reads
one value or one inline command from the bytes of a connection.
-/

namespace SuperCache

open Lib

inductive RespValue where
  | simple (text : Bytes)
  | error (text : Bytes)
  | int (n : Int)
  | nullBulk
  | bulk (bytes : Bytes)
  | nullArray
  | array (elems : List RespValue)

namespace RespValue

/-! ## The writer -/

def crlf : Bytes := [13, 10]

mutual

/-- `WriteValue`. -/
def encode : RespValue → Bytes
  | .simple text => 43 :: text ++ crlf
  | .error text => 45 :: text ++ crlf
  | .int n => 58 :: formatInt n ++ crlf
  | .nullBulk => ascii "$-1" ++ crlf
  | .bulk bytes => 36 :: formatInt bytes.length ++ crlf ++ bytes ++ crlf
  | .nullArray => ascii "*-1" ++ crlf
  | .array elems => 42 :: formatInt elems.length ++ crlf ++ encodeAll elems

def encodeAll : List RespValue → Bytes
  | [] => []
  | first :: rest => encode first ++ encodeAll rest

end

/-! ## The parser -/

def maxBulkBytes : Nat := 512 * 1024 * 1024

def maxArrayElements : Nat := 2 ^ 20

def maxLineBytes : Nat := 64 * 1024

/-- The second loop of `readLineBytes`, on a buffer of the heap. -/
def readLineHeap (buf : Bytes) : Bytes → Option (Bytes × Bytes)
  | [] => none
  | 13 :: rest =>
    if buf.length > maxLineBytes then none
    else match rest with
      | 10 :: rest => some (buf, rest)
      | _ => none
  | byte :: rest => if buf.length > maxLineBytes then none else readLineHeap (buf ++ [byte]) rest

/-- The first loop of `readLineBytes`, on 4096 bytes of the stack. -/
def readLineStack (stack : Bytes) : Bytes → Option (Bytes × Bytes)
  | [] => none
  | 13 :: rest =>
    match rest with
    | 10 :: rest => some (stack, rest)
    | _ => none
  | byte :: rest =>
    if stack.length ≥ 4096 then readLineHeap (stack ++ [byte]) rest
    else readLineStack (stack ++ [byte]) rest

def readLineBytes (input : Bytes) : Option (Bytes × Bytes) :=
  readLineStack [] input

/-- `trimSpaceBytes`: spaces and tabs only. -/
def trimBlanks (text : Bytes) : Bytes :=
  let blank (byte : Byte) : Bool := byte = 32 ∨ byte = 9
  ((text.dropWhile blank).reverse.dropWhile blank).reverse

def readNumber (input : Bytes) : Option (Int × Bytes) :=
  (readLineBytes input).bind fun found => (parseInt (trimBlanks found.1)).map (·, found.2)

def parseBulkString (input : Bytes) : Option (RespValue × Bytes) :=
  match readNumber input with
  | none => none
  | some (n, rest) =>
    if n < -1 then none
    else if n = -1 then some (.nullBulk, rest)
    else if n > maxBulkBytes then none
    else if rest.length < n.toNat then none
    else match rest.drop n.toNat with
      | 13 :: 10 :: after => some (.bulk (rest.take n.toNat), after)
      | _ => none

def readMany {α : Type} (read : Bytes → Option (α × Bytes)) : Nat → Bytes → Option (List α × Bytes)
  | 0, input => some ([], input)
  | n + 1, input =>
    match read input with
    | none => none
    | some (first, rest) => (readMany read n rest).map fun found => (first :: found.1, found.2)

def parseSimpleStringValue (input : Bytes) : Option (RespValue × Bytes) :=
  (readLineBytes input).bind fun found =>
    if found.1.length > 65536 then none else some (.simple found.1, found.2)

def parseErrorValue (input : Bytes) : Option (RespValue × Bytes) :=
  (readLineBytes input).bind fun found =>
    if found.1.length > maxLineBytes then none else some (.error found.1, found.2)

def parseIntegerValue (input : Bytes) : Option (RespValue × Bytes) :=
  (readNumber input).map fun found => (.int found.1, found.2)

def parseArray (read : Bytes → Option (RespValue × Bytes)) (input : Bytes) : Option (RespValue × Bytes) :=
  match readNumber input with
  | none => none
  | some (n, rest) =>
    if n < -1 then none
    else if n = -1 then some (.nullArray, rest)
    else if n > maxArrayElements then none
    else (readMany read n.toNat rest).map fun found => (.array found.1, found.2)

/-- The switch of `parseRESPValue` on the first byte. -/
def parseTyped (read : Bytes → Option (RespValue × Bytes)) (type : Byte) :
    Bytes → Option (RespValue × Bytes) :=
  if type = 43 then parseSimpleStringValue
  else if type = 45 then parseErrorValue
  else if type = 58 then parseIntegerValue
  else if type = 36 then parseBulkString
  else if type = 42 then parseArray read
  else fun _ => none

/-- `parseRESPValue`; `fuel` bounds the depth, which the number of bytes does. -/
def parseRESPValue : Nat → Bytes → Option (RespValue × Bytes)
  | 0, _ | _, [] => none
  | fuel + 1, type :: input => parseTyped (parseRESPValue fuel) type input

def parseInlineCommand (input : Bytes) : Option (RespValue × Bytes) :=
  (readLineBytes input).bind fun found =>
    match fields (trimSpace found.1) with
    | [] => none
    | words => some (.array (words.map .bulk), found.2)

/-- `skipIdleNoise`: line ends before a value. -/
def skipIdleNoise : Bytes → Option Bytes
  | [] => none
  | 13 :: 10 :: rest => skipIdleNoise rest
  | 13 :: _ => none
  | 10 :: rest => skipIdleNoise rest
  | input => some input

/-- `Parse`; `none` stands for every error, the end of the input included. -/
def parse (input : Bytes) : Option (RespValue × Bytes) :=
  match skipIdleNoise input with
  | none => none
  | some [] => none
  | some (first :: rest) =>
    if first = 43 ∨ first = 45 ∨ first = 58 ∨ first = 36 ∨ first = 42 then
      parseRESPValue (first :: rest).length (first :: rest)
    else parseInlineCommand (first :: rest)

end RespValue

end SuperCache
