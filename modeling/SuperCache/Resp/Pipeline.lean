import SuperCache.Lib.StreamReader
import SuperCache.Resp.Reader

/-! # Values in a stream

A client may send commands without waiting for replies, so the parser is given more than one
value.  Every part of it is a stable reader: it leaves what it has not read, and what comes
after that makes no difference to it.
-/

namespace SuperCache

open Lib

/-! ## Lines and numbers -/

theorem stable_takeLine : Stable takeLine where
  suffix found := by
    obtain ⟨-, rfl⟩ := takeLine_eq_some found
    exact List.suffix_append _ _
  more found extra := by
    obtain ⟨plain, rfl⟩ := takeLine_eq_some found
    rw [List.append_assoc]
    exact takeLine_append plain _

theorem advances_takeLine : Advances takeLine := by
  intro input line rest found
  obtain ⟨-, rfl⟩ := takeLine_eq_some found
  simp only [List.length_append, RespValue.crlf, List.length_cons]
  omega

namespace RespValue

theorem stable_readLineBytes : Stable readLineBytes := by
  have pieces : readLineBytes = andRead takeLine fun line =>
      if line.length ≤ maxLineBytes then fun input => some (line, input) else fun _ => none := by
    funext input
    rw [readLineBytes_eq, andRead]
    congr 1
    funext found
    split <;> rfl
  rw [pieces]
  exact stable_takeLine.andRead fun line => .ite (.done line) .fail

theorem stable_readNumber : Stable readNumber := by
  have pieces : readNumber = andRead readLineBytes fun line input =>
      (parseInt (trimBlanks line)).map (·, input) :=
    rfl
  rw [pieces]
  refine stable_readLineBytes.andRead fun line => ?_
  cases parseInt (trimBlanks line) with
  | none => exact .fail
  | some n => exact .done n

theorem stable_boundedLine (limit : Nat) (wrap : Bytes → RespValue) :
    Stable fun input => (readLineBytes input).bind fun found =>
      if found.1.length > limit then none else some (wrap found.1, found.2) := by
  show Stable (andRead readLineBytes fun line input =>
    if line.length > limit then none else some (wrap line, input))
  refine stable_readLineBytes.andRead fun line => ?_
  split
  · exact .fail
  · exact .done _

/-! ## Bulk strings and arrays -/

def readBody (n : Int) : StreamReader Byte RespValue :=
  if n < -1 then fun _ => none
  else if n = -1 then fun input => some (.nullBulk, input)
  else if n > maxBulkBytes then fun _ => none
  else andRead (takeCount n.toNat) fun bytes => andRead (expect crlf) fun _ input =>
    some (.bulk bytes, input)

theorem parseBulkString_eq_andRead : parseBulkString = andRead readNumber readBody := by
  funext input
  unfold parseBulkString andRead
  cases readNumber input with
  | none => rfl
  | some found =>
    obtain ⟨n, rest⟩ := found
    simp only [readBody, Option.bind_some]
    split
    · rfl
    · split
      · rfl
      · split
        · rfl
        · simp only [andRead, takeCount]
          split
          · rfl
          · -- the line end after the body, read byte by byte or at once
            simp only [Option.bind_some, expect]
            split
            · next ends =>
              rw [ends]
              rfl
            · next other =>
              rw [if_neg ?_]
              · rfl
              · rintro ⟨after, same⟩
                exact other after same.symm

theorem stable_parseBulkString : Stable parseBulkString := by
  rw [parseBulkString_eq_andRead]
  refine stable_readNumber.andRead fun n => ?_
  refine .ite .fail (.ite (.done _) (.ite .fail ?_))
  exact (stable_takeCount _).andRead fun bytes => (stable_expect crlf).andRead fun _ => .done _

theorem stable_readMany {α : Type} {read : StreamReader Byte α} (stable : Stable read) (n : Nat) :
    Stable (readMany read n) := by
  induction n with
  | zero => exact .done []
  | succ n ih =>
    have pieces : readMany read (n + 1) = andRead read fun first input =>
        (readMany read n input).map fun found => (first :: found.1, found.2) := by
      funext input
      rw [readMany, andRead]
      cases read input with
      | none => rfl
      | some found => rfl
    rw [pieces]
    exact stable.andRead fun first => ih.map (first :: ·)

theorem stable_parseArray {read : StreamReader Byte RespValue} (stable : Stable read) :
    Stable (parseArray read) := by
  have pieces : parseArray read = andRead readNumber fun n =>
      if n < -1 then fun _ => none
      else if n = -1 then fun input => some (.nullArray, input)
      else if n > maxArrayElements then fun _ => none
      else fun input => (readMany read n.toNat input).map fun found => (.array found.1, found.2) := by
    funext input
    unfold parseArray andRead
    cases readNumber input with
    | none => rfl
    | some found =>
      simp only [Option.bind_some]
      (repeat' split) <;> rfl
  rw [pieces]
  refine stable_readNumber.andRead fun n => ?_
  exact .ite .fail (.ite (.done _) (.ite .fail ((stable_readMany stable _).map RespValue.array)))

/-! ## Values -/

theorem stable_parseTyped {read : StreamReader Byte RespValue} (stable : Stable read) (type : Byte) :
    Stable (parseTyped read type) := by
  refine .ite (stable_boundedLine _ _) (.ite (stable_boundedLine _ _) ?_)
  refine .ite (stable_readNumber.map RespValue.int) (.ite stable_parseBulkString ?_)
  exact .ite (stable_parseArray stable) .fail

theorem stable_parseRESPValue (fuel : Nat) : Stable (parseRESPValue fuel) := by
  induction fuel with
  | zero =>
    have nothing : parseRESPValue 0 = fun _ => none := by
      funext input
      cases input <;> rfl
    rw [nothing]
    exact .fail
  | succ fuel ih =>
    have typed := stable_parseTyped ih
    constructor
    · intro input v rest found
      cases input with
      | nil => cases found
      | cons type input => exact ((typed type).suffix found).trans (List.suffix_cons _ _)
    · intro input v rest found extra
      cases input with
      | nil => cases found
      | cons type input => exact (typed type).more found extra

/-! ## Enough fuel -/

def Finds {α : Type} (read other : StreamReader Byte α) : Prop :=
  ∀ input found, read input = some found → other input = some found

theorem Finds.readMany {α : Type} {read other : StreamReader Byte α} (finds : Finds read other)
    (n : Nat) : Finds (readMany read n) (readMany other n) := by
  induction n with
  | zero => exact fun _ _ => id
  | succ n ih =>
    intro input found many
    rw [RespValue.readMany] at many ⊢
    split at many
    · cases many
    · next first rest one =>
      rw [finds _ _ one]
      obtain ⟨later, more, same⟩ := Option.map_eq_some_iff.mp many
      simp only [ih _ _ more, Option.map_some, same]

theorem Finds.parseTyped {read other : StreamReader Byte RespValue} (finds : Finds read other)
    (type : Byte) : Finds (parseTyped read type) (parseTyped other type) := by
  by_cases array : type = 42
  · -- only the elements of an array are read with less fuel
    subst array
    intro input found typed
    change parseArray read input = some found at typed
    show parseArray other input = some found
    revert typed
    fun_cases parseArray read input <;> intro typed
    · cases typed
    · cases typed
    · next number _ => simpa [parseArray, number] using typed
    · cases typed
    · next number known notNull short =>
      obtain ⟨elems, many, same⟩ := Option.map_eq_some_iff.mp typed
      simp [parseArray, number, known, notNull, short, finds.readMany _ _ _ many, same]
  · have same : RespValue.parseTyped read type = RespValue.parseTyped other type := by
      unfold RespValue.parseTyped
      rw [if_neg array, if_neg array]
    rw [same]
    exact fun _ _ => id

theorem parseRESPValue_finds {fuel enough : Nat} (le : fuel ≤ enough) :
    Finds (parseRESPValue fuel) (parseRESPValue enough) := by
  induction fuel generalizing enough with
  | zero =>
    intro input found read
    cases input <;> cases read
  | succ fuel ih =>
    obtain ⟨enough, rfl⟩ : ∃ below, enough = below + 1 := ⟨enough - 1, by omega⟩
    intro input found read
    cases input with
    | nil => cases read
    | cons type input => exact Finds.parseTyped (ih (Nat.le_of_succ_le_succ le)) type _ _ read

/-! ## `Parse` -/

theorem skipIdleNoise_other {byte : Byte} (noReturn : byte ≠ 13) (noFeed : byte ≠ 10) (input : Bytes) :
    skipIdleNoise (byte :: input) = some (byte :: input) := by
  rw [skipIdleNoise.eq_def]
  split
  · next same => cases same
  · next same => exact absurd (List.cons.inj same).1 noReturn
  · next same => exact absurd (List.cons.inj same).1 noReturn
  · next same => exact absurd (List.cons.inj same).1 noFeed
  · rfl

variable {input rest : Bytes} {v : RespValue}

theorem skipIdleNoise_spec (skipped : skipIdleNoise input = some rest) :
    rest <:+ input ∧ rest ≠ [] ∧ ∀ extra, skipIdleNoise (input ++ extra) = some (rest ++ extra) := by
  induction input using skipIdleNoise.induct with
  | case1 => cases skipped
  | case2 after ih =>
    obtain ⟨ends, some, more⟩ := ih skipped
    exact ⟨ends.trans (List.suffix_append [13, 10] after), some, more⟩
  | case3 after noFeed =>
    rw [skipIdleNoise.eq_3 _ noFeed] at skipped
    cases skipped
  | case4 after ih =>
    obtain ⟨ends, some, more⟩ := ih skipped
    exact ⟨ends.trans (List.suffix_cons 10 after), some, more⟩
  | case5 input notEmpty noPair noReturn noFeed =>
    rw [skipIdleNoise.eq_5 _ notEmpty noPair noReturn noFeed] at skipped
    cases skipped
    refine ⟨List.suffix_refl _, notEmpty, fun extra => ?_⟩
    cases rest with
    | nil => exact absurd rfl notEmpty
    | cons byte tail =>
      refine skipIdleNoise_other (fun same => ?_) (fun same => ?_) _
      · exact noReturn tail (by rw [same])
      · exact noFeed tail (by rw [same])

def parseFirst (input : Bytes) : Option (RespValue × Bytes) :=
  match input with
  | [] => none
  | first :: rest =>
    if first = 43 ∨ first = 45 ∨ first = 58 ∨ first = 36 ∨ first = 42 then
      parseRESPValue (first :: rest).length (first :: rest)
    else parseInlineCommand (first :: rest)

theorem parse_eq_parseFirst (input : Bytes) : parse input = (skipIdleNoise input).bind parseFirst := by
  unfold parse
  cases skipIdleNoise input with
  | none => rfl
  | some rest =>
    cases rest with
    | nil => rfl
    | cons first rest => rfl

theorem stable_parseInlineCommand : Stable parseInlineCommand := by
  have pieces : parseInlineCommand = andRead readLineBytes fun line input =>
      if fields (trimSpace line) = [] then none
      else some (.array ((fields (trimSpace line)).map .bulk), input) := by
    funext input
    unfold parseInlineCommand andRead
    congr 1
    funext found
    dsimp only
    cases fields (trimSpace found.1) <;> rfl
  rw [pieces]
  refine stable_readLineBytes.andRead fun line => ?_
  split
  · exact .fail
  · exact .done _

theorem advances_parseInlineCommand : Advances parseInlineCommand := by
  intro input v rest parsed
  unfold parseInlineCommand at parsed
  rw [readLineBytes_eq] at parsed
  obtain ⟨line, read, words⟩ := Option.bind_eq_some_iff.mp parsed
  obtain ⟨found, taken, short⟩ := Option.bind_eq_some_iff.mp read
  have shorter := advances_takeLine taken
  split at short
  · cases short
    split at words
    · cases words
    · cases words
      exact shorter
  · cases short

theorem advances_parseRESPValue (fuel : Nat) : Advances (parseRESPValue fuel) := by
  intro input v rest read
  cases fuel with
  | zero => cases input <;> cases read
  | succ fuel =>
    cases input with
    | nil => cases read
    | cons type input =>
      have ends := (stable_parseTyped (stable_parseRESPValue fuel) type).suffix read
      exact Nat.lt_succ_of_le ends.length_le

theorem parseFirst_suffix (parsed : parseFirst input = some (v, rest)) :
    rest <:+ input ∧ rest.length < input.length := by
  cases input with
  | nil => cases parsed
  | cons first body =>
    simp only [parseFirst] at parsed
    split at parsed
    · exact ⟨(stable_parseRESPValue _).suffix parsed, advances_parseRESPValue _ parsed⟩
    · exact ⟨stable_parseInlineCommand.suffix parsed, advances_parseInlineCommand parsed⟩

theorem parseFirst_more (parsed : parseFirst input = some (v, rest)) (extra : Bytes) :
    parseFirst (input ++ extra) = some (v, rest ++ extra) := by
  cases input with
  | nil => cases parsed
  | cons first body =>
    rw [List.cons_append]
    simp only [parseFirst] at parsed ⊢
    split at parsed
    · next typed =>
      have read := (stable_parseRESPValue (first :: body).length).more parsed extra
      have longer : (first :: body).length ≤ (first :: (body ++ extra)).length := by
        simp only [List.length_cons, List.length_append]
        omega
      rw [if_pos typed]
      exact parseRESPValue_finds longer _ _ read
    · next inline =>
      rw [if_neg inline]
      exact stable_parseInlineCommand.more parsed extra

theorem parse_more (parsed : parse input = some (v, rest)) (extra : Bytes) :
    parse (input ++ extra) = some (v, rest ++ extra) := by
  rw [parse_eq_parseFirst] at parsed ⊢
  obtain ⟨start, skipped, first⟩ := Option.bind_eq_some_iff.mp parsed
  rw [(skipIdleNoise_spec skipped).2.2 extra, Option.bind_some]
  exact parseFirst_more first extra

/-- What `Parse` has read is a front of its input, of one byte at least, and whatever comes
after makes no difference.  So two fronts of one stream on which it succeeds give one value
and leave the same. -/
theorem parse_stable {input rest : Bytes} {v : RespValue} (parsed : parse input = some (v, rest)) :
    (∃ used, used ≠ [] ∧ input = used ++ rest)
      ∧ (∀ extra, parse (input ++ extra) = some (v, rest ++ extra))
      ∧ ∀ extra front rest' extra' v', input ++ extra = front ++ extra' →
        parse front = some (v', rest') → v' = v ∧ rest' ++ extra' = rest ++ extra := by
  have taken : rest <:+ input ∧ rest.length < input.length := by
    rw [parse_eq_parseFirst] at parsed
    obtain ⟨start, skipped, first⟩ := Option.bind_eq_some_iff.mp parsed
    obtain ⟨ends, shorter⟩ := parseFirst_suffix first
    have skippedEnds := (skipIdleNoise_spec skipped).1
    exact ⟨ends.trans skippedEnds, shorter.trans_le skippedEnds.length_le⟩
  refine ⟨?_, parse_more parsed, ?_⟩
  · obtain ⟨⟨used, rfl⟩, shorter⟩ := taken
    refine ⟨used, ?_, rfl⟩
    rintro rfl
    exact absurd shorter (Nat.lt_irrefl _)
  · intro extra front rest' extra' v' same other
    have here := parse_more parsed extra
    have there := parse_more other extra'
    rw [same, there] at here
    exact Prod.mk.inj (Option.some.inj here)

/-- `PING` as an array, with a second command behind it. -/
theorem ping_pipelined :
    parse (ascii "*1\r\n$4\r\nPING\r\n") = some (.array [.bulk (ascii "PING")], [])
      ∧ parse (ascii "*1\r\n$4\r\nPING\r\n" ++ ascii "GET k\r\n")
        = some (.array [.bulk (ascii "PING")], ascii "GET k\r\n") := by
  have parsed : parse (ascii "*1\r\n$4\r\nPING\r\n") = some (.array [.bulk (ascii "PING")], []) := by
    rfl
  exact ⟨parsed, (parse_stable parsed).2.1 (ascii "GET k\r\n")⟩

end RespValue

end SuperCache
