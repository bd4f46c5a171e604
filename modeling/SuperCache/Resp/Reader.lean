import SuperCache.Resp.Parser

/-! # Reading back what was written

`Parser` reads a value up to limits: lines, bulk strings and arrays that are too long are
errors, and numbers are those of an `int64`.  A value within these limits whose lines have no
carriage return is read back as it was written.
-/

namespace SuperCache

open Lib

/-! ## Numerals -/

theorem le_digitByte {digit : Nat} (small : digit < 10) : 45 ≤ (digitByte digit).val := by
  unfold digitByte
  rw [Fin.val_ofNat]
  omega

variable {byte : Byte}

variable {fuel n : Nat} {line : Bytes}

theorem le_of_mem_formatDigits (mem : byte ∈ formatDigits fuel n) : 45 ≤ byte.val := by
  induction fuel generalizing n with
  | zero => cases mem
  | succ fuel ih =>
    unfold formatDigits at mem
    split at mem
    · next small =>
      rw [List.mem_singleton.mp mem]
      exact le_digitByte small
    · rcases List.mem_append.mp mem with front | last
      · exact ih front
      · rw [List.mem_singleton.mp last]
        exact le_digitByte (Nat.mod_lt n (by omega))

theorem le_of_mem_formatInt {n : Int} (mem : byte ∈ formatInt n) : 45 ≤ byte.val := by
  unfold formatInt at mem
  split at mem
  · rcases List.mem_cons.mp mem with rfl | digit
    · decide
    · exact le_of_mem_formatDigits digit
  · exact le_of_mem_formatDigits mem

theorem length_formatDigits_le {k : Nat} (below : n < 10 ^ (k + 1)) :
    (formatDigits fuel n).length ≤ k + 1 := by
  induction fuel generalizing n k with
  | zero => exact Nat.zero_le _
  | succ fuel ih =>
    unfold formatDigits
    split
    · exact Nat.le_add_left 1 k
    · next large =>
      rw [List.length_append, List.length_singleton]
      cases k with
      | zero => omega
      | succ k =>
        have tenth : n / 10 < 10 ^ (k + 1) :=
          (Nat.div_lt_iff_lt_mul (by omega)).mpr (by rwa [Nat.pow_succ] at below)
        have fewer := ih tenth
        omega

theorem length_formatInt_le {n : Int} (fits : IsInt64 n) : (formatInt n).length ≤ 21 := by
  have below : n.natAbs < 10 ^ (19 + 1) := by
    unfold IsInt64 minInt64 maxInt64 at fits
    omega
  have digits : (formatDigits (n.natAbs + 1) n.natAbs).length ≤ 20 := length_formatDigits_le below
  unfold formatInt
  split
  · rw [List.length_cons]
    omega
  · omega

theorem trimBlanks_formatInt (n : Int) : RespValue.trimBlanks (formatInt n) = formatInt n := by
  have kept (text : Bytes) (plain : ∀ byte ∈ text, 45 ≤ byte.val) :
      text.dropWhile (fun byte => decide (byte = 32 ∨ byte = 9)) = text := by
    cases text with
    | nil => rfl
    | cons first rest =>
      have large := plain first List.mem_cons_self
      refine List.dropWhile_cons_of_neg ?_
      rw [decide_eq_true_eq]
      rintro (rfl | rfl)
      · exact absurd large (by decide)
      · exact absurd large (by decide)
  simp only [RespValue.trimBlanks]
  rw [kept _ fun _ => le_of_mem_formatInt, kept _ fun byte mem => ?_, List.reverse_reverse]
  exact le_of_mem_formatInt (List.mem_reverse.mp mem)

/-! ## Lines -/

def takeLine : Bytes → Option (Bytes × Bytes)
  | [] => none
  | byte :: rest =>
    if byte = 13 then if rest.head? = some 10 then some ([], rest.tail) else none
    else (takeLine rest).map fun found => (byte :: found.1, found.2)

theorem takeLine_end (rest : Bytes) :
    takeLine (13 :: rest) = if rest.head? = some 10 then some ([], rest.tail) else none := by
  rw [takeLine, if_pos rfl]

theorem takeLine_cons (other : byte ≠ 13) (rest : Bytes) :
    takeLine (byte :: rest) = (takeLine rest).map fun found => (byte :: found.1, found.2) := by
  rw [takeLine, if_neg other]

theorem takeLine_append (plain : 13 ∉ line) (rest : Bytes) :
    takeLine (line ++ RespValue.crlf ++ rest) = some (line, rest) := by
  induction line with
  | nil => rfl
  | cons byte line ih =>
    rw [List.mem_cons, not_or] at plain
    rw [List.cons_append, List.cons_append, takeLine_cons (Ne.symm plain.1),
      ih plain.2]
    rfl

theorem takeLine_eq_some {input rest : Bytes} (taken : takeLine input = some (line, rest)) :
    13 ∉ line ∧ input = line ++ RespValue.crlf ++ rest := by
  induction input generalizing line with
  | nil => cases taken
  | cons byte input ih =>
    by_cases ends : byte = 13
    · subst ends
      rw [takeLine_end] at taken
      split at taken
      · next feed =>
        cases taken
        refine ⟨List.not_mem_nil, ?_⟩
        rw [← List.cons_head?_tail feed]
        rfl
      · cases taken
    · rw [takeLine_cons ends, Option.map_eq_some_iff] at taken
      obtain ⟨⟨found, after⟩, below, same⟩ := taken
      cases same
      obtain ⟨plain, rfl⟩ := ih below
      refine ⟨?_, rfl⟩
      rw [List.mem_cons, not_or]
      exact ⟨Ne.symm ends, plain⟩

namespace RespValue

theorem readLineHeap_end (buf rest : Bytes) :
    readLineHeap buf (13 :: rest) = if buf.length > maxLineBytes then none
      else if rest.head? = some 10 then some (buf, rest.tail) else none := by
  rw [readLineHeap.eq_def]
  refine if_congr Iff.rfl rfl ?_
  split
  · rfl
  · next other =>
    refine (if_neg fun feed => ?_).symm
    exact other rest.tail (List.cons_head?_tail feed).symm

theorem readLineStack_end (stack rest : Bytes) :
    readLineStack stack (13 :: rest)
      = if rest.head? = some 10 then some (stack, rest.tail) else none := by
  rw [readLineStack.eq_def]
  simp only
  split
  · rfl
  · next other =>
    refine (if_neg fun feed => ?_).symm
    exact other rest.tail (List.cons_head?_tail feed).symm

def lineAfter (buf input : Bytes) : Option (Bytes × Bytes) :=
  (takeLine input).bind fun found =>
    if buf.length + found.1.length ≤ maxLineBytes then some (buf ++ found.1, found.2) else none

theorem lineAfter_end (buf rest : Bytes) :
    lineAfter buf (13 :: rest) = if buf.length > maxLineBytes then none
      else if rest.head? = some 10 then some (buf, rest.tail) else none := by
  unfold lineAfter
  rw [takeLine_end]
  by_cases feed : rest.head? = some 10
  · rw [if_pos feed, if_pos feed, Option.bind_some, List.length_nil, Nat.add_zero, List.append_nil]
    by_cases short : buf.length ≤ maxLineBytes
    · rw [if_neg (Nat.not_lt.mpr short), if_pos short]
    · rw [if_pos (Nat.not_le.mp short), if_neg short]
  · rw [if_neg feed, if_neg feed, ite_self]
    rfl

theorem lineAfter_cons {byte : Byte} (other : byte ≠ 13) (buf rest : Bytes) :
    lineAfter buf (byte :: rest) = lineAfter (buf ++ [byte]) rest := by
  unfold lineAfter
  rw [takeLine_cons other, Option.bind_map]
  congr 1
  funext found
  have length : buf.length + (byte :: found.1).length = (buf ++ [byte]).length + found.1.length := by
    simp only [List.length_cons, List.length_append, List.length_nil]
    omega
  rw [Function.comp_apply, length, List.append_assoc]
  rfl

theorem lineAfter_long {buf : Bytes} (long : buf.length > maxLineBytes) (input : Bytes) :
    lineAfter buf input = none := by
  refine Option.bind_eq_none_iff.mpr fun found _ => if_neg ?_
  omega

theorem readLineHeap_eq (buf input : Bytes) : readLineHeap buf input = lineAfter buf input := by
  induction input generalizing buf with
  | nil => rfl
  | cons byte rest ih =>
    by_cases ends : byte = 13
    · rw [ends, readLineHeap_end, lineAfter_end]
    · rw [readLineHeap.eq_4 _ _ _ ends]
      split
      · next long => exact (lineAfter_long long _).symm
      · rw [ih, lineAfter_cons ends]

theorem readLineStack_eq {stack : Bytes} (short : stack.length ≤ 4096) (input : Bytes) :
    readLineStack stack input = lineAfter stack input := by
  induction input generalizing stack with
  | nil => rfl
  | cons byte rest ih =>
    by_cases ends : byte = 13
    · have inside : ¬stack.length > maxLineBytes := Nat.not_lt.mpr (short.trans (by decide))
      rw [ends, readLineStack_end, lineAfter_end, if_neg inside]
    · rw [readLineStack.eq_4 _ _ _ ends, lineAfter_cons ends]
      split
      · exact readLineHeap_eq _ _
      · next room =>
        refine ih ?_
        rw [List.length_append, List.length_singleton]
        omega

theorem readLineBytes_eq (input : Bytes) :
    readLineBytes input = (takeLine input).bind fun found =>
      if found.1.length ≤ maxLineBytes then some found else none := by
  unfold readLineBytes
  rw [readLineStack_eq (Nat.zero_le _), lineAfter]
  simp only [List.length_nil, Nat.zero_add, List.nil_append]

/-- A line is read exactly when a line feed follows the first carriage return and at most
65536 bytes come before it.  It is these bytes, and what is left begins behind the two. -/
theorem readLineBytes_eq_some_iff (input line rest : Bytes) :
    readLineBytes input = some (line, rest)
      ↔ line = input.takeWhile (· ≠ 13) ∧ line.length ≤ 65536
        ∧ input.dropWhile (· ≠ 13) = 13 :: 10 :: rest := by
  rw [readLineBytes_eq]
  constructor
  · intro read
    obtain ⟨found, taken, within⟩ := Option.bind_eq_some_iff.mp read
    split at within
    · next short =>
      cases within
      obtain ⟨plain, rfl⟩ := takeLine_eq_some taken
      -- the line has no carriage return, so the first one is the one behind it
      have passed : ∀ byte ∈ line, decide (byte ≠ 13) = true := by
        intro byte listed
        exact decide_eq_true fun ends => plain (ends ▸ listed)
      rw [List.append_assoc, List.takeWhile_append_of_pos passed, List.dropWhile_append_of_pos passed]
      exact ⟨by simp [crlf], short, by simp [crlf]⟩
    · cases within
  · rintro ⟨rfl, short, ends⟩
    have plain : 13 ∉ input.takeWhile (· ≠ 13) := by
      intro listed
      simpa using List.all_eq_true.mp List.all_takeWhile _ listed
    have whole : input = input.takeWhile (· ≠ 13) ++ crlf ++ rest := by
      conv_lhs => rw [← List.takeWhile_append_dropWhile (p := (· ≠ 13)) (l := input), ends]
      simp [crlf]
    have taken := takeLine_append plain rest
    rw [← whole] at taken
    rw [taken, Option.bind_some]
    exact if_pos short

/-! ## Values that are read back -/

mutual

/-- A value tree that the parser of this server accepts: numbers of 64 bits, bulk strings of
up to 512 MiB, lines without a carriage return of up to 64 KiB, and arrays of up to `2 ^ 20`
elements. -/
def Sendable : RespValue → Prop
  | .simple text | .error text => 13 ∉ text ∧ text.length ≤ 65536
  | .int n => IsInt64 n
  | .nullBulk | .nullArray => True
  | .bulk bytes => bytes.length ≤ maxBulkBytes
  | .array elems => elems.length ≤ maxArrayElements ∧ AllSendable elems

def AllSendable : List RespValue → Prop
  | [] => True
  | first :: rest => first.Sendable ∧ AllSendable rest

end

theorem readLineBytes_append (plain : 13 ∉ line) (short : line.length ≤ maxLineBytes) (rest : Bytes) :
    readLineBytes (line ++ crlf ++ rest) = some (line, rest) := by
  rw [readLineBytes_eq, takeLine_append plain, Option.bind_some, if_pos short]

theorem readNumber_formatInt {n : Int} (fits : IsInt64 n) (rest : Bytes) :
    readNumber (formatInt n ++ crlf ++ rest) = some (n, rest) := by
  have plain : 13 ∉ formatInt n := fun mem => absurd (le_of_mem_formatInt mem) (by decide)
  have short : (formatInt n).length ≤ maxLineBytes := (length_formatInt_le fits).trans (by decide)
  rw [readNumber, readLineBytes_append plain short, Option.bind_some, trimBlanks_formatInt,
    parseInt_formatInt fits]
  rfl

theorem isInt64_natCast (small : n ≤ maxBulkBytes) : IsInt64 n := by
  unfold maxBulkBytes at small
  unfold IsInt64 minInt64 maxInt64
  omega

theorem parseBulkString_encode {bytes : Bytes} (small : bytes.length ≤ maxBulkBytes) (rest : Bytes) :
    parseBulkString (formatInt bytes.length ++ crlf ++ (bytes ++ crlf ++ rest))
      = some (.bulk bytes, rest) := by
  unfold parseBulkString
  rw [readNumber_formatInt (isInt64_natCast small)]
  simp only [Int.toNat_natCast]
  rw [if_neg (by omega), if_neg (by omega), if_neg (by omega), if_neg (by simp), List.append_assoc,
    List.drop_left, List.take_left]
  rfl

mutual

theorem parseRESPValue_encode (v : RespValue) (sendable : v.Sendable) {fuel : Nat}
    (enough : v.encode.length ≤ fuel) (rest : Bytes) :
    parseRESPValue fuel (v.encode ++ rest) = some (v, rest) := by
  obtain ⟨fuel, rfl⟩ : ∃ below, fuel = below + 1 := by
    refine ⟨fuel - 1, ?_⟩
    have : 0 < v.encode.length := by cases v <;> simp [encode, crlf, ascii]
    omega
  cases v with
  | simple text =>
    show parseSimpleStringValue (text ++ crlf ++ rest) = _
    rw [parseSimpleStringValue, readLineBytes_append sendable.1 sendable.2, Option.bind_some]
    exact if_neg (Nat.not_lt.mpr sendable.2)
  | error text =>
    show parseErrorValue (text ++ crlf ++ rest) = _
    rw [parseErrorValue, readLineBytes_append sendable.1 sendable.2, Option.bind_some]
    exact if_neg (Nat.not_lt.mpr sendable.2)
  | int n =>
    show parseIntegerValue (formatInt n ++ crlf ++ rest) = _
    rw [parseIntegerValue, readNumber_formatInt sendable]
    rfl
  | nullBulk =>
    show parseBulkString (formatInt (-1) ++ crlf ++ rest) = _
    rw [parseBulkString, readNumber_formatInt (by decide)]
    rfl
  | bulk bytes =>
    show parseBulkString (formatInt bytes.length ++ crlf ++ bytes ++ crlf ++ rest) = _
    rw [← parseBulkString_encode sendable rest]
    simp only [List.append_assoc]
  | nullArray =>
    show parseArray (parseRESPValue fuel) (formatInt (-1) ++ crlf ++ rest) = _
    rw [parseArray, readNumber_formatInt (by decide)]
    rfl
  | array elems =>
    have shorter : (encodeAll elems).length ≤ fuel := by
      rw [encode] at enough
      simp only [List.length_append, List.length_cons] at enough
      omega
    have small : elems.length ≤ maxBulkBytes := sendable.1.trans (by decide)
    show parseArray (parseRESPValue fuel) (formatInt elems.length ++ crlf ++ encodeAll elems ++ rest) = _
    rw [List.append_assoc, parseArray, readNumber_formatInt (isInt64_natCast small)]
    simp only [Int.toNat_natCast]
    rw [if_neg (by omega), if_neg (by omega), if_neg (by exact_mod_cast Nat.not_lt.mpr sendable.1),
      readMany_encodeAll elems sendable.2 shorter]
    rfl

theorem readMany_encodeAll (elems : List RespValue) (sendable : AllSendable elems) {fuel : Nat}
    (enough : (encodeAll elems).length ≤ fuel) (rest : Bytes) :
    readMany (parseRESPValue fuel) elems.length (encodeAll elems ++ rest) = some (elems, rest) := by
  cases elems with
  | nil => rfl
  | cons first later =>
    rw [encodeAll, List.length_append] at enough
    rw [encodeAll, List.append_assoc, List.length_cons, readMany,
      parseRESPValue_encode first sendable.1 (by omega)]
    simp only [readMany_encodeAll later sendable.2 (show (encodeAll later).length ≤ fuel by omega) rest]
    rfl

end

/-- `Parse` on what `WriteValue` wrote, with anything behind it. -/
theorem parse_writeValue {v : RespValue} (sendable : v.Sendable) (rest : Bytes) :
    parse (v.encode ++ rest) = some (v, rest) := by
  obtain ⟨type, body, starts, kind⟩ : ∃ type body, v.encode ++ rest = type :: body
      ∧ (type = 43 ∨ type = 45 ∨ type = 58 ∨ type = 36 ∨ type = 42) := by
    cases v <;> exact ⟨_, _, rfl, by decide⟩
  have noNoise : skipIdleNoise (type :: body) = some (type :: body) := by
    rcases kind with rfl | rfl | rfl | rfl | rfl <;> rfl
  have enough : v.encode.length ≤ (type :: body).length := by
    rw [← starts, List.length_append]
    exact Nat.le_add_right _ _
  have read := parseRESPValue_encode v sendable enough rest
  rw [starts] at read ⊢
  unfold parse
  rw [noNoise]
  exact (if_pos kind).trans read

/-- An array in an array, with a null and an empty one, before a carriage return. -/
theorem nested_roundTrip :
    parse ((RespValue.array [.int (-7), .array [.nullBulk, .array []], .simple (ascii "OK")]).encode
        ++ [13])
      = some (.array [.int (-7), .array [.nullBulk, .array []], .simple (ascii "OK")], [13]) := by
  have small : IsInt64 (-7) := by decide
  have line : 13 ∉ ascii "OK" ∧ (ascii "OK").length ≤ 65536 := by decide
  refine parse_writeValue ?_ [13]
  exact ⟨by decide, small, ⟨by decide, trivial, ⟨by decide, trivial⟩, trivial⟩, line, trivial⟩

/-! ## The length of an array -/

variable {input rest : Bytes} {elems : List RespValue}

theorem length_of_readMany {read : Bytes → Option (RespValue × Bytes)}
    (many : readMany read n input = some (elems, rest)) : elems.length = n := by
  induction n generalizing input elems with
  | zero =>
    cases many
    rfl
  | succ n ih =>
    rw [readMany] at many
    split at many
    · cases many
    · obtain ⟨⟨later, left⟩, more, same⟩ := Option.map_eq_some_iff.mp many
      cases same
      exact congrArg (· + 1) (ih more)

theorem length_of_parseArray {read : Bytes → Option (RespValue × Bytes)}
    (found : parseArray read input = some (.array elems, rest)) : elems.length ≤ maxArrayElements := by
  revert found
  fun_cases parseArray read input <;> intro found <;> try cases found
  obtain ⟨⟨elems, left⟩, many, ⟨⟩⟩ := Option.map_eq_some_iff.mp found
  rw [length_of_readMany many]
  omega

theorem parseBulkString_ne_array : parseBulkString input ≠ some (.array elems, rest) := by
  unfold parseBulkString
  intro found
  repeat' split at found
  all_goals cases found

theorem length_of_parseRESPValue {fuel : Nat}
    (parsed : parseRESPValue fuel input = some (.array elems, rest)) :
    elems.length ≤ maxArrayElements := by
  cases fuel with
  | zero => cases input <;> cases parsed
  | succ fuel =>
    cases input with
    | nil => cases parsed
    | cons type input =>
      rw [parseRESPValue] at parsed
      revert parsed
      fun_cases parseTyped (parseRESPValue fuel) type <;> intro parsed
      · obtain ⟨found, -, same⟩ := Option.bind_eq_some_iff.mp parsed
        split at same <;> cases same
      · obtain ⟨found, -, same⟩ := Option.bind_eq_some_iff.mp parsed
        split at same <;> cases same
      · obtain ⟨found, -, ⟨⟩⟩ := Option.map_eq_some_iff.mp parsed
      · exact absurd parsed parseBulkString_ne_array
      · exact length_of_parseArray parsed
      · cases parsed

/-! ## Commands of a connection -/

theorem length_spaceRune : ∀ rune ∈ spaceRunes, 0 < rune.length := by
  decide

theorem length_fieldsWith_le (fuel : Nat) (current text : Bytes) :
    (fieldsWith fuel current text).length ≤ text.length + 1 := by
  have one (word : Bytes) : (if word = [] then [] else [word]).length ≤ 1 := by
    split
    · exact Nat.zero_le 1
    · exact le_refl 1
  induction fuel generalizing current text with
  | zero => exact (one current).trans (Nat.le_add_left 1 _)
  | succ fuel ih =>
    cases text with
    | nil => exact one current
    | cons byte rest =>
      rw [fieldsWith]
      split
      · next rune space =>
        have later := ih [] ((byte :: rest).drop rune.length)
        have word := one current
        have wide := length_spaceRune rune (List.mem_of_find?_eq_some space)
        rw [List.length_drop, List.length_cons] at later
        rw [List.length_append, List.length_cons]
        omega
      · exact (ih _ rest).trans (Nat.le_succ _)

theorem length_dropRunes_le (runes : List Bytes) (fuel : Nat) (text : Bytes) :
    (dropRunes runes fuel text).length ≤ text.length :=
  (dropRunes_suffix fuel text).length_le

theorem length_trimSpace_le (text : Bytes) : (trimSpace text).length ≤ text.length := by
  unfold trimSpace
  rw [List.length_reverse]
  refine (length_dropRunes_le _ _ _).trans ?_
  rw [List.length_reverse]
  exact length_dropRunes_le _ _ _

theorem length_of_parse {input rest : Bytes} {elems : List RespValue}
    (parsed : parse input = some (.array elems, rest)) : elems.length ≤ maxArrayElements := by
  unfold parse at parsed
  split at parsed
  · cases parsed
  · cases parsed
  · next first body _ =>
    split at parsed
    · exact length_of_parseRESPValue parsed
    · unfold parseInlineCommand at parsed
      obtain ⟨⟨line, after⟩, taken, words⟩ := Option.bind_eq_some_iff.mp parsed
      rw [readLineBytes_eq] at taken
      obtain ⟨found, -, short⟩ := Option.bind_eq_some_iff.mp taken
      split at short
      · next bounded =>
        cases short
        split at words
        · cases words
        · cases words
          have few := length_fieldsWith_le (trimSpace line).length [] (trimSpace line)
          have trimmed := length_trimSpace_le line
          simp only [maxLineBytes] at bounded
          simp only [List.length_map, fields, maxArrayElements]
          omega
      · cases short

end RespValue

end SuperCache
