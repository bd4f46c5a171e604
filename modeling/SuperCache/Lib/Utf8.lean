import SuperCache.Lib.Bytes

/-! # UTF-8

The sequences that Go's `utf8` package accepts, and the text in which every byte
that is part of none is replaced by U+FFFD.  Such a text is well formed, and it
is the given one exactly when that is well formed.
-/

namespace SuperCache.Lib

namespace Utf8

def continues (byte : Byte) : Bool :=
  0x80 ≤ byte.val ∧ byte.val ≤ 0xBF

/-- A second byte after `lead`, which excludes overlong forms, surrogates and what
lies above U+10FFFF. -/
def second (lead byte : Byte) : Bool :=
  match lead.val with
  | 0xE0 => 0xA0 ≤ byte.val ∧ byte.val ≤ 0xBF
  | 0xED => 0x80 ≤ byte.val ∧ byte.val ≤ 0x9F
  | 0xF0 => 0x90 ≤ byte.val ∧ byte.val ≤ 0xBF
  | 0xF4 => 0x80 ≤ byte.val ∧ byte.val ≤ 0x8F
  | _ => continues byte

def runeLen : Bytes → Nat
  | [] => 0
  | lead :: rest =>
    if lead.val < 0x80 then 1
    else if 0xC2 ≤ lead.val ∧ lead.val ≤ 0xDF then
      match rest with
      | b :: _ => if continues b then 2 else 0
      | [] => 0
    else if 0xE0 ≤ lead.val ∧ lead.val ≤ 0xEF then
      match rest with
      | b :: c :: _ => if second lead b ∧ continues c then 3 else 0
      | _ => 0
    else if 0xF0 ≤ lead.val ∧ lead.val ≤ 0xF4 then
      match rest with
      | b :: c :: d :: _ => if second lead b ∧ continues c ∧ continues d then 4 else 0
      | _ => 0
    else 0

/-- `utf8.DecodeRuneInString`: the first code point of a text and its width.  A
byte that begins no sequence is U+FFFD of width 1, the empty text has width 0. -/
def decodeRune : Bytes → Nat × Nat
  | [] => (0xFFFD, 0)
  | lead :: rest =>
    match runeLen (lead :: rest), rest with
    | 1, _ => (lead.val, 1)
    | 2, b :: _ => (lead.val % 32 * 64 + b.val % 64, 2)
    | 3, b :: c :: _ => ((lead.val % 16 * 64 + b.val % 64) * 64 + c.val % 64, 3)
    | 4, b :: c :: d :: _ =>
      (((lead.val % 8 * 64 + b.val % 64) * 64 + c.val % 64) * 64 + d.val % 64, 4)
    | _, _ => (0xFFFD, 1)

/-- The code points of a text; `fuel` bounds their number. -/
def runesWith : Nat → Bytes → List Nat
  | _, [] => []
  | 0, _ => []
  | fuel + 1, lead :: rest =>
    (decodeRune (lead :: rest)).1
      :: runesWith fuel (rest.drop ((decodeRune (lead :: rest)).2 - 1))

def runes (text : Bytes) : List Nat :=
  runesWith text.length text

def replacement : Bytes := [0xEF, 0xBF, 0xBD]

/-- The text with invalid bytes replaced; `fuel` bounds the number of its
sequences. -/
def coerceWith : Nat → Bytes → Bytes
  | _, [] => []
  | 0, _ => []
  | fuel + 1, lead :: rest =>
    match runeLen (lead :: rest) with
    | 0 => replacement ++ coerceWith fuel rest
    | n + 1 => lead :: rest.take n ++ coerceWith fuel (rest.drop n)

def coerce (text : Bytes) : Bytes :=
  coerceWith text.length text

def validWith : Nat → Bytes → Bool
  | _, [] => true
  | 0, _ => false
  | fuel + 1, lead :: rest =>
    match runeLen (lead :: rest) with
    | 0 => false
    | n + 1 => validWith fuel (rest.drop n)

/-- `utf8.Valid`. -/
def valid (text : Bytes) : Bool :=
  validWith text.length text

theorem runeLen_le (text : Bytes) : runeLen text ≤ text.length := by
  unfold runeLen
  split
  · exact Nat.le_refl _
  · repeat' split
    all_goals simp only [List.length_cons]; omega

theorem runeLen_take (text more : Bytes) (sequence : runeLen text ≠ 0) :
    runeLen (text.take (runeLen text) ++ more) = runeLen text := by
  revert sequence
  fun_cases runeLen text with
  | case2 lead rest one => simp [runeLen, one]
  | case3 lead range one b rest follows => simp [runeLen, one, range, follows]
  | case6 lead one two range b c rest follow => simp [runeLen, one, two, range, follow]
  | case9 lead one two three range b c d rest follow => simp [runeLen, one, two, three, range, follow]
  | _ => exact fun zero => absurd rfl zero

variable {text : Bytes} {fuel : Nat}

theorem coerceWith_of_valid (ok : validWith fuel text = true) : coerceWith fuel text = text := by
  induction fuel generalizing text with
  | zero =>
    cases text with
    | nil => rfl
    | cons lead rest => cases ok
  | succ fuel ih =>
    cases text with
    | nil => rfl
    | cons lead rest =>
      unfold validWith at ok
      unfold coerceWith
      split at ok
      · cases ok
      · next n sequence =>
        simp only [ih ok, List.cons_append, List.take_append_drop]

theorem valid_coerceWith {fuel' : Nat} (enough : text.length ≤ fuel)
    (enough' : (coerceWith fuel text).length ≤ fuel') :
    validWith fuel' (coerceWith fuel text) = true := by
  induction fuel generalizing text fuel' with
  | zero =>
    cases text with
    | nil =>
      unfold coerceWith validWith
      rfl
    | cons lead rest => cases enough
  | succ fuel ih =>
    cases text with
    | nil =>
      unfold coerceWith validWith
      rfl
    | cons lead rest =>
      have bound := runeLen_le (lead :: rest)
      rw [List.length_cons] at bound enough
      unfold coerceWith at enough' ⊢
      split at enough'
      · simp only [List.length_append, show replacement.length = 3 from rfl] at enough'
        obtain ⟨fuel', rfl⟩ : ∃ n, fuel' = n + 1 := ⟨fuel' - 1, by omega⟩
        exact ih (by omega) (by omega)
      · next n sequence =>
        simp only [List.length_append, List.length_cons] at enough'
        obtain ⟨fuel', rfl⟩ : ∃ n, fuel' = n + 1 := ⟨fuel' - 1, by omega⟩
        have taken := runeLen_take (lead :: rest) (coerceWith fuel (rest.drop n))
          (by rw [sequence]; exact Nat.succ_ne_zero n)
        rw [sequence, List.take_succ_cons, List.cons_append] at taken
        have dropped : (rest.take n ++ coerceWith fuel (rest.drop n)).drop n
            = coerceWith fuel (rest.drop n) :=
          List.drop_left' (by rw [List.length_take]; omega)
        simp only [validWith, List.cons_append, taken, dropped]
        exact ih (by rw [List.length_drop]; omega) (by omega)

theorem valid_of_ascii (ascii : ∀ byte ∈ text, byte.val < 0x80) : valid text = true := by
  unfold valid
  induction text with
  | nil => rfl
  | cons lead rest ih =>
    obtain ⟨small, ascii⟩ := List.forall_mem_cons.mp ascii
    have one : runeLen (lead :: rest) = 1 := if_pos small
    simp only [validWith, List.length_cons, one, List.drop_zero]
    exact ih ascii

theorem valid_coerce (text : Bytes) : valid (coerce text) = true :=
  valid_coerceWith (Nat.le_refl _) (Nat.le_refl _)

theorem coerce_of_valid (ok : valid text = true) : coerce text = text :=
  coerceWith_of_valid ok

theorem coerce_eq_self_iff : coerce text = text ↔ valid text = true := by
  refine ⟨fun same => ?_, coerce_of_valid⟩
  rw [← same]
  exact valid_coerce text

end Utf8

end SuperCache.Lib
