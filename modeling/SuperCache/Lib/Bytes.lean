import Mathlib.Data.Finmap
import Mathlib.Data.List.Lex
import Mathlib.Order.Fin.Basic
import Mathlib.Tactic.Linarith

/-! # Byte strings and decimal numerals

Byte strings as lists, with the parts of Go's `strconv` and `strings` packages
that a textual protocol needs: decimal 64-bit integers, white space and case.
`parseInt_formatInt` is the round trip of the numerals.
-/

namespace SuperCache.Lib

/-- A byte.  `Fin 256` rather than `UInt8`, so that byte strings are linearly
ordered as Go orders strings. -/
abbrev Byte := Fin 256

abbrev Bytes := List Byte

/-- A map keyed by strings. -/
abbrev GoMap (β : Type) := Finmap fun _ : Bytes => β

/-- Named, so that a byte literal holds no proof of its own. -/
instance Byte.neZero : NeZero 256 := ⟨by decide⟩

instance Bytes.lawfulBEq : LawfulBEq Bytes := inferInstance

def ascii (text : String) : Bytes :=
  text.toList.map fun char => Fin.ofNat 256 char.toNat

/-- A literal is its list of characters, which need not be decoded. -/
theorem forall_ascii {p : Byte → Prop} [DecidablePred p] {chars : List Char}
    (all : (chars.all fun char => p (Fin.ofNat 256 char.toNat)) = true) :
    ∀ byte ∈ ascii (String.ofList chars), p byte := by
  rw [ascii, String.toList_ofList]
  exact List.forall_mem_map.mpr (by simpa using all)

def zeros (length : Nat) : Bytes :=
  List.replicate length 48

def nuls (length : Nat) : Bytes :=
  List.replicate length 0

/-! ## Machine integers -/

/-- The value of an integer after it is stored in an `int64`. -/
def wrap64 (n : Int) : Int :=
  (n + 2 ^ 63) % 2 ^ 64 - 2 ^ 63

def minInt64 : Int := -(2 ^ 63)

def maxInt64 : Int := 2 ^ 63 - 1

/-- The integers an `int64` holds. -/
def IsInt64 (n : Int) : Prop :=
  minInt64 ≤ n ∧ n ≤ maxInt64

instance (n : Int) : Decidable (IsInt64 n) :=
  inferInstanceAs (Decidable (_ ∧ _))

variable {text : Bytes} {n : Int} {runes : List Bytes}

theorem wrap64_eq_self (fits : IsInt64 n) : wrap64 n = n := by
  unfold wrap64
  obtain ⟨lower, upper⟩ := fits
  unfold minInt64 at lower
  unfold maxInt64 at upper
  omega

theorem isInt64_wrap64 (n : Int) : IsInt64 (wrap64 n) := by
  unfold IsInt64 wrap64 minInt64 maxInt64
  omega

theorem wrap64_eq_iff : wrap64 n = n ↔ IsInt64 n :=
  ⟨fun same => same ▸ isInt64_wrap64 n, wrap64_eq_self⟩

/-! ## Decimal numerals -/

def digitByte (digit : Nat) : Byte :=
  Fin.ofNat 256 (48 + digit)

def digitValue (byte : Byte) : Option Nat :=
  if 48 ≤ byte.val ∧ byte.val ≤ 57 then some (byte.val - 48) else none

theorem digitValue_digitByte {digit : Nat} (small : digit < 10) :
    digitValue (digitByte digit) = some digit := by
  have value : (digitByte digit).val = 48 + digit := by
    unfold digitByte
    rw [Fin.val_ofNat]
    omega
  unfold digitValue
  rw [value, if_pos (by omega)]
  congr 1
  omega

/-- Decimal digits, most significant first; `fuel` bounds their number. -/
def formatDigits : Nat → Nat → Bytes
  | 0, _ => []
  | fuel + 1, n =>
    if n < 10 then [digitByte n] else formatDigits fuel (n / 10) ++ [digitByte (n % 10)]

def parseStep (acc : Option Nat) (byte : Byte) : Option Nat :=
  match acc, digitValue byte with
  | some n, some digit => some (10 * n + digit)
  | _, _ => none

def parseDigits (text : Bytes) : Option Nat :=
  if text = [] then none else text.foldl parseStep (some 0)

/-- `strconv.ParseInt(text, 10, 64)`; `none` stands for its syntax and range
errors alike. -/
def parseInt (text : Bytes) : Option Int :=
  match text with
  | [] => none
  | first :: rest =>
    if first = 45 then
      (parseDigits rest).bind fun n => if n ≤ 2 ^ 63 then some (-(n : Int)) else none
    else
      (parseDigits (if first = 43 then rest else text)).bind fun n =>
        if n < 2 ^ 63 then some (n : Int) else none

/-- `strconv.ParseUint(text, 10, 64)`. -/
def parseUint (text : Bytes) : Option Nat :=
  (parseDigits text).bind fun n => if n < 2 ^ 64 then some n else none

/-- `strconv.FormatInt(n, 10)`. -/
def formatInt (n : Int) : Bytes :=
  if n < 0 then 45 :: formatDigits (n.natAbs + 1) n.natAbs
  else formatDigits (n.natAbs + 1) n.natAbs

theorem foldl_formatDigits {fuel n : Nat} (enough : n < fuel) :
    (formatDigits fuel n).foldl parseStep (some 0) = some n := by
  induction fuel generalizing n with
  | zero => omega
  | succ fuel ih =>
    unfold formatDigits
    split
    · next small =>
      simp only [List.foldl_cons, List.foldl_nil, parseStep, digitValue_digitByte small]
      congr 1
      omega
    · next large =>
      rw [List.foldl_append, ih (by omega)]
      simp only [List.foldl_cons, List.foldl_nil, parseStep,
        digitValue_digitByte (Nat.mod_lt n (by omega : 0 < 10))]
      congr 1
      omega

theorem formatDigits_ne_nil (fuel n : Nat) : formatDigits (fuel + 1) n ≠ [] := by
  unfold formatDigits
  split
  · exact List.cons_ne_nil _ _
  · exact List.append_ne_nil_of_right_ne_nil _ (List.cons_ne_nil _ _)

theorem parseDigits_formatDigits (n : Nat) :
    parseDigits (formatDigits (n + 1) n) = some n := by
  unfold parseDigits
  rw [if_neg (formatDigits_ne_nil n n), foldl_formatDigits (Nat.lt_succ_self n)]

theorem formatDigits_head (fuel n : Nat) :
    ∃ digit rest, digit < 10 ∧ formatDigits (fuel + 1) n = digitByte digit :: rest := by
  induction fuel generalizing n with
  | zero =>
    unfold formatDigits
    split
    · next small => exact ⟨n, [], small, rfl⟩
    · exact ⟨n % 10, [], Nat.mod_lt n (by omega), rfl⟩
  | succ fuel ih =>
    unfold formatDigits
    split
    · next small => exact ⟨n, [], small, rfl⟩
    · obtain ⟨digit, rest, small, equation⟩ := ih (n / 10)
      exact ⟨digit, rest ++ [digitByte (n % 10)], small, by rw [equation]; rfl⟩

theorem digitByte_ne_sign {digit : Nat} (small : digit < 10) :
    digitByte digit ≠ 45 ∧ digitByte digit ≠ 43 := by
  have minus : digitValue 45 = none := by decide
  have plus : digitValue 43 = none := by decide
  have value := digitValue_digitByte small
  constructor
  · intro sign
    rw [sign, minus] at value
    cases value
  · intro sign
    rw [sign, plus] at value
    cases value

/-- The integer a decimal numeral stands for, of any size. -/
def numeral (text : Bytes) : Option Int :=
  match text with
  | [] => none
  | first :: rest =>
    if first = 45 then (parseDigits rest).map fun (n : Nat) => -(n : Int)
    else (parseDigits (if first = 43 then rest else text)).map fun (n : Nat) => (n : Int)

theorem numeral_formatInt (n : Int) : numeral (formatInt n) = some n := by
  unfold formatInt
  split
  · next negative =>
    simp only [numeral, if_pos, parseDigits_formatDigits, Option.map_some]
    congr 1
    omega
  · next nonneg =>
    obtain ⟨digit, rest, small, equation⟩ := formatDigits_head n.natAbs n.natAbs
    have parsed := parseDigits_formatDigits n.natAbs
    obtain ⟨notMinus, notPlus⟩ := digitByte_ne_sign small
    rw [equation] at parsed ⊢
    simp only [numeral, if_neg notMinus, if_neg notPlus, parsed, Option.map_some]
    congr 1
    omega

theorem parseInt_eq_filter (text : Bytes) :
    parseInt text = (numeral text).filter fun n => decide (IsInt64 n) := by
  unfold parseInt numeral
  cases text with
  | nil => rfl
  | cons first rest =>
    simp only
    split
    · cases parseDigits rest with
      | none => rfl
      | some n =>
        have range : IsInt64 (-(n : Int)) ↔ n ≤ 2 ^ 63 := by
          unfold IsInt64 minInt64 maxInt64
          omega
        simp only [Option.bind_some, Option.map_some, Option.filter_some, range,
          decide_eq_true_eq]
    · cases parseDigits (if first = 43 then rest else first :: rest) with
      | none => rfl
      | some n =>
        have range : IsInt64 (n : Int) ↔ n < 2 ^ 63 := by
          unfold IsInt64 minInt64 maxInt64
          omega
        simp only [Option.bind_some, Option.map_some, Option.filter_some, range,
          decide_eq_true_eq]

theorem parseInt_formatInt (fits : IsInt64 n) : parseInt (formatInt n) = some n := by
  rw [parseInt_eq_filter, numeral_formatInt, Option.filter_some, if_pos (decide_eq_true fits)]

theorem parseUint_formatInt {n : Nat} (fits : n < 2 ^ 64) : parseUint (formatInt n) = some n := by
  rw [formatInt, if_neg (by omega), parseUint, Int.natAbs_natCast, parseDigits_formatDigits,
    Option.bind_some, if_pos fits]

theorem parseInt_isInt64 (parsed : parseInt text = some n) : IsInt64 n := by
  rw [parseInt_eq_filter] at parsed
  exact of_decide_eq_true (Option.filter_eq_some_iff.mp parsed).2

/-! ## White space and case -/

/-- The UTF-8 encodings of the runes `unicode.IsSpace` accepts. -/
def spaceRunes : List Bytes :=
  [[9], [10], [11], [12], [13], [32], [194, 133], [194, 160], [225, 154, 128],
   [226, 128, 128], [226, 128, 129], [226, 128, 130], [226, 128, 131], [226, 128, 132],
   [226, 128, 133], [226, 128, 134], [226, 128, 135], [226, 128, 136], [226, 128, 137],
   [226, 128, 138], [226, 128, 168], [226, 128, 169], [226, 128, 175], [226, 129, 159],
   [227, 128, 128]]

def dropRunes (runes : List Bytes) : Nat → Bytes → Bytes
  | 0, text => text
  | fuel + 1, text =>
    match runes.find? fun rune => rune.isPrefixOf text with
    | some rune => dropRunes runes fuel (text.drop rune.length)
    | none => text

/-- `strings.TrimSpace`. -/
def trimSpace (text : Bytes) : Bytes :=
  let front := dropRunes spaceRunes text.length text
  (dropRunes (spaceRunes.map List.reverse) front.length front.reverse).reverse

theorem dropRunes_suffix (fuel : Nat) (text : Bytes) : dropRunes runes fuel text <:+ text := by
  induction fuel generalizing text with
  | zero => exact List.suffix_refl text
  | succ fuel ih =>
    unfold dropRunes
    split
    · next rune _ => exact (ih _).trans (List.drop_suffix _ _)
    · exact List.suffix_refl text

theorem find_dropRunes (proper : [] ∉ runes) (fuel : Nat) (text : Bytes)
    (enough : text.length ≤ fuel) :
    (runes.find? fun rune => rune.isPrefixOf (dropRunes runes fuel text)) = none := by
  induction fuel generalizing text with
  | zero =>
    obtain rfl := List.length_eq_zero_iff.mp (Nat.le_zero.mp enough)
    rw [List.find?_eq_none]
    intro rune listed front
    cases rune with
    | nil => exact proper listed
    | cons byte rest => cases front
  | succ fuel ih =>
    unfold dropRunes
    split
    · next rune found =>
      have listed := List.mem_of_find?_eq_some found
      have positive : 0 < rune.length := List.length_pos_iff.mpr fun empty => proper (empty ▸ listed)
      exact ih _ (by rw [List.length_drop]; omega)
    · next none => exact none

theorem dropRunes_of_find (none : (runes.find? fun rune => rune.isPrefixOf text) = none)
    (fuel : Nat) : dropRunes runes fuel text = text := by
  cases fuel with
  | zero => rfl
  | succ fuel => simp only [dropRunes, none]

theorem trimSpace_trimSpace (text : Bytes) : trimSpace (trimSpace text) = trimSpace text := by
  have proper : [] ∉ spaceRunes ∧ [] ∉ spaceRunes.map List.reverse := by decide
  unfold trimSpace
  simp only
  generalize same : dropRunes spaceRunes text.length text = front
  have none := find_dropRunes proper.1 text.length text le_rfl
  rw [same] at none
  generalize trimmed : dropRunes (spaceRunes.map List.reverse) front.length front.reverse = back
  have noneBack := find_dropRunes proper.2 front.length front.reverse (by rw [List.length_reverse])
  rw [trimmed] at noneBack
  -- What is left is a front part of `front`, so it starts with no space either.
  have part : back.reverse <+: front := by
    rw [← List.reverse_suffix, List.reverse_reverse, ← trimmed]
    exact dropRunes_suffix _ _
  have noneFront : (spaceRunes.find? fun rune => rune.isPrefixOf back.reverse) = .none := by
    rw [List.find?_eq_none] at none ⊢
    intro rune listed front'
    refine none rune listed ?_
    rw [List.isPrefixOf_iff_prefix] at front' ⊢
    exact front'.trans part
  rw [dropRunes_of_find noneFront, List.reverse_reverse, dropRunes_of_find noneBack]

theorem foldl_parseStep_none (text : Bytes) : text.foldl parseStep none = none := by
  induction text with
  | nil => rfl
  | cons byte rest ih => simpa [parseStep] using ih

theorem digits_of_parseDigits {n : Nat} (parsed : parseDigits text = some n) :
    ∀ byte ∈ text, 48 ≤ byte.val ∧ byte.val ≤ 57 := by
  unfold parseDigits at parsed
  split at parsed
  · cases parsed
  · generalize 0 = start at parsed
    induction text generalizing start with
    | nil => simp
    | cons byte rest ih =>
      rw [List.foldl_cons, parseStep.eq_def, digitValue] at parsed
      split at parsed
      · next digit value =>
        split at value
        · next bounds =>
          by_cases last : rest = []
          · simpa [last] using bounds
          · simpa [bounds] using ih last _ parsed
        · cases value
      · rw [foldl_parseStep_none] at parsed
        cases parsed

theorem bytes_of_parseInt (parsed : parseInt text = some n) :
    text ≠ [] ∧ ∀ byte ∈ text, 43 ≤ byte.val ∧ byte.val ≤ 57 := by
  have widen {digits : Bytes} {m : Nat} (numeral : parseDigits digits = some m) :
      ∀ byte ∈ digits, 43 ≤ byte.val ∧ byte.val ≤ 57 := by
    intro byte mem
    have := digits_of_parseDigits numeral byte mem
    omega
  cases text with
  | nil => cases parsed
  | cons first rest =>
    simp only [parseInt] at parsed
    split at parsed
    · next minus =>
      obtain ⟨magnitude, numeral, -⟩ := Option.bind_eq_some_iff.mp parsed
      simpa [minus] using widen numeral
    · obtain ⟨magnitude, numeral, -⟩ := Option.bind_eq_some_iff.mp parsed
      split at numeral
      · next plus => simpa [plus] using widen numeral
      · exact ⟨List.cons_ne_nil _ _, widen numeral⟩

theorem spaceRunes_ends : ∀ rune ∈ spaceRunes ++ spaceRunes.map List.reverse,
    ∃ byte tail, rune = byte :: tail ∧ ¬ (0x21 ≤ byte.val ∧ byte.val ≤ 0x7e) := by
  intro rune listed
  have bounds : ∀ rune ∈ spaceRunes ++ spaceRunes.map List.reverse,
      (rune.head?.map fun byte => decide (0x21 ≤ byte.val ∧ byte.val ≤ 0x7e)) = some false := by
    decide +kernel
  obtain ⟨byte, first, outside⟩ := Option.map_eq_some_iff.mp (bounds rune listed)
  obtain ⟨tail, rfl⟩ := List.head?_eq_some_iff.mp first
  exact ⟨byte, tail, rfl, of_decide_eq_false outside⟩

theorem dropRunes_inside (spaces : runes ⊆ spaceRunes ++ spaceRunes.map List.reverse)
    (inside : ∀ byte ∈ text, 0x21 ≤ byte.val ∧ byte.val ≤ 0x7e) (fuel : Nat) :
    dropRunes runes fuel text = text := by
  apply dropRunes_of_find
  rw [List.find?_eq_none]
  intro rune listed front
  obtain ⟨byte, tail, rfl, outside⟩ := spaceRunes_ends rune (spaces listed)
  exact outside (inside byte ((List.isPrefixOf_iff_prefix.mp front).subset List.mem_cons_self))

theorem trimSpace_printable (inside : ∀ byte ∈ text, 0x21 ≤ byte.val ∧ byte.val ≤ 0x7e) :
    trimSpace text = text := by
  simp only [trimSpace, dropRunes_inside (List.subset_append_left _ _) inside]
  rw [dropRunes_inside (List.subset_append_right _ _) (by simpa using inside), List.reverse_reverse]

theorem trimSpace_of_parseInt (parsed : parseInt text = some n) : trimSpace text = text := by
  refine trimSpace_printable fun byte listed => ?_
  have inside := (bytes_of_parseInt parsed).2 byte listed
  omega

/-- `strings.ToUpper`, exact on every text whose upper case is ASCII: besides
`a`-`z`, only the dotless i and the long s have an ASCII upper case. -/
def toUpper : Bytes → Bytes
  | 196 :: 177 :: rest => 73 :: toUpper rest
  | 197 :: 191 :: rest => 83 :: toUpper rest
  | byte :: rest => (if 97 ≤ byte.val ∧ byte.val ≤ 122 then byte - 32 else byte) :: toUpper rest
  | [] => []

/-- `strings.ToLower`, exact on every text whose lower case is ASCII: besides
`A`-`Z`, only the dotted capital I and the Kelvin sign have an ASCII lower case. -/
def toLower : Bytes → Bytes
  | 196 :: 176 :: rest => 105 :: toLower rest
  | 226 :: 132 :: 170 :: rest => 107 :: toLower rest
  | byte :: rest => (if 65 ≤ byte.val ∧ byte.val ≤ 90 then byte + 32 else byte) :: toLower rest
  | [] => []

private theorem lower_letter : ∀ byte : Byte,
    let up := if 97 ≤ byte.val ∧ byte.val ≤ 122 then byte - 32 else byte
    65 ≤ up.val → up.val ≤ 90 →
      byte ≠ 196 ∧ byte ≠ 226 ∧
        (if 65 ≤ byte.val ∧ byte.val ≤ 90 then byte + 32 else byte) = up + 32 := by
  decide +kernel

/-- On a text whose upper case is all letters the two mappings agree, unless an `I` or an
`S` is the upper case of a letter that is not ASCII. -/
theorem toLower_of_toUpper {name : Bytes}
    (letters : ∀ byte ∈ toUpper name, 65 ≤ byte.val ∧ byte.val ≤ 90) :
    toLower name = (toUpper name).map (· + 32)
      ∨ (73 ∈ toUpper name ∨ 83 ∈ toUpper name) ∧ ∃ byte ∈ toLower name, 128 ≤ byte.val := by
  induction name using toUpper.induct with
  | case1 rest ih => exact .inr ⟨by simp [toUpper], 196, by simp [toLower], by decide⟩
  | case2 rest ih => exact .inr ⟨by simp [toUpper], 197, by simp [toLower], by decide⟩
  | case3 byte rest noI noS ih =>
    rw [toUpper.eq_3 _ _ noI noS] at letters ⊢
    obtain ⟨head, tail⟩ := List.forall_mem_cons.mp letters
    -- A letter starts neither of the two sequences that `toLower` treats apart.
    obtain ⟨noDot, noKelvin, lower⟩ := lower_letter byte head.1 head.2
    rw [toLower.eq_3 _ _ (fun _ h => absurd h noDot) (fun _ h => absurd h noKelvin), lower]
    refine (ih tail).imp (fun same => by rw [same, List.map_cons]) ?_
    rintro ⟨letter, high, listed, big⟩
    exact ⟨letter.imp (List.mem_cons_of_mem _) (List.mem_cons_of_mem _), high,
      List.mem_cons_of_mem _ listed, big⟩
  | case4 => exact .inl rfl

private theorem upper_letter : ∀ byte : Byte,
    let low := if 65 ≤ byte.val ∧ byte.val ≤ 90 then byte + 32 else byte
    97 ≤ low.val → low.val ≤ 122 →
      byte ≠ 196 ∧ byte ≠ 197 ∧
        (if 97 ≤ byte.val ∧ byte.val ≤ 122 then byte - 32 else byte) = low - 32 := by
  decide +kernel

theorem toUpper_of_toLower {name : Bytes}
    (letters : ∀ byte ∈ toLower name,
      97 ≤ byte.val ∧ byte.val ≤ 122 ∧ byte.val ≠ 105 ∧ byte.val ≠ 107) :
    toUpper name = (toLower name).map (· - 32) := by
  induction name using toLower.induct with
  | case1 rest ih => exact absurd rfl (letters 105 (by simp [toLower])).2.2.1
  | case2 rest ih => exact absurd rfl (letters 107 (by simp [toLower])).2.2.2
  | case3 byte rest noDot noKelvin ih =>
    rw [toLower.eq_3 _ _ noDot noKelvin] at letters ⊢
    simp only [List.forall_mem_cons] at letters
    obtain ⟨head, tail⟩ := letters
    obtain ⟨noI, noS, upper⟩ := upper_letter byte head.1 head.2.1
    rw [toUpper.eq_3 _ _ (fun _ h => absurd h noI) (fun _ h => absurd h noS), upper,
      ih tail, List.map_cons]
  | case4 => rfl

/-- `strings.Fields`; `fuel` bounds the number of bytes. -/
def fieldsWith : Nat → Bytes → Bytes → List Bytes
  | 0, current, _ | _, current, [] => if current = [] then [] else [current]
  | fuel + 1, current, byte :: rest =>
    match spaceRunes.find? fun rune => rune.isPrefixOf (byte :: rest) with
    | some rune =>
      (if current = [] then [] else [current])
        ++ fieldsWith fuel [] ((byte :: rest).drop rune.length)
    | none => fieldsWith fuel (current ++ [byte]) rest

def fields (text : Bytes) : List Bytes :=
  fieldsWith text.length [] text

/-- The case folding of `strings.EqualFold` as far as it reaches ASCII: besides
`a`-`z`, only the long s and the Kelvin sign fold to an ASCII letter. -/
def foldCase : Bytes → Bytes
  | 197 :: 191 :: rest => 83 :: foldCase rest
  | 226 :: 132 :: 170 :: rest => 75 :: foldCase rest
  | byte :: rest => (if 97 ≤ byte.val ∧ byte.val ≤ 122 then byte - 32 else byte) :: foldCase rest
  | [] => []

/-- `strings.EqualFold`, exact when one of the texts is ASCII. -/
def equalFold (text want : Bytes) : Bool :=
  foldCase text = foldCase want

/-- `strings.Contains`. -/
def contains (text pattern : Bytes) : Bool :=
  text.tails.any fun suffix => pattern.isPrefixOf suffix

end SuperCache.Lib
