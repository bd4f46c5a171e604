import SuperCache.Lib.Bytes

/-! # Base64

The standard encoding with padding, as Go's `base64.StdEncoding` writes and
reads it: line breaks are skipped on reading, and the bits that padding leaves
over are not looked at.
-/

namespace SuperCache.Lib

namespace Base64

def charOf (value : Nat) : Byte :=
  Fin.ofNat 256 <|
    if value < 26 then 65 + value
    else if value < 52 then 97 + (value - 26)
    else if value < 62 then 48 + (value - 52)
    else if value = 62 then 43
    else 47

def valueOf (char : Byte) : Option Nat :=
  let code := char.val
  if 65 ≤ code ∧ code ≤ 90 then some (code - 65)
  else if 97 ≤ code ∧ code ≤ 122 then some (code - 97 + 26)
  else if 48 ≤ code ∧ code ≤ 57 then some (code - 48 + 52)
  else if code = 43 then some 62
  else if code = 47 then some 63
  else none

def pad : Byte := 61

def encode : Bytes → Bytes
  | first :: second :: third :: rest =>
    charOf (first.val / 4) :: charOf (first.val % 4 * 16 + second.val / 16)
      :: charOf (second.val % 16 * 4 + third.val / 64) :: charOf (third.val % 64) :: encode rest
  | [first, second] =>
    [charOf (first.val / 4), charOf (first.val % 4 * 16 + second.val / 16),
      charOf (second.val % 16 * 4), pad]
  | [first] => [charOf (first.val / 4), charOf (first.val % 4 * 16), pad, pad]
  | [] => []

def decodeGroups : Bytes → Option Bytes
  | a :: b :: c :: d :: rest =>
    match valueOf a, valueOf b with
    | some u, some v =>
      let first : Byte := Fin.ofNat 256 (u * 4 + v / 16)
      if c = pad then if d = pad ∧ rest = [] then some [first] else none
      else
        match valueOf c with
        | some w =>
          let second : Byte := Fin.ofNat 256 (v % 16 * 16 + w / 4)
          if d = pad then if rest = [] then some [first, second] else none
          else
            match valueOf d, decodeGroups rest with
            | some x, some later =>
              some (first :: second :: Fin.ofNat 256 (w % 4 * 64 + x) :: later)
            | _, _ => none
        | none => none
    | _, _ => none
  | [] => some []
  | _ => none

def decode (text : Bytes) : Option Bytes :=
  decodeGroups (text.filter fun char => char ≠ 10 ∧ char ≠ 13)

theorem charOf_facts (value : Fin 64) : valueOf (charOf value) = some value.val
    ∧ charOf value ≠ pad ∧ charOf value ≠ 10 ∧ charOf value ≠ 13 := by
  revert value
  decide

theorem valueOf_charOf {value : Nat} (small : value < 64) : valueOf (charOf value) = some value :=
  (charOf_facts ⟨value, small⟩).1

theorem charOf_ne_pad {value : Nat} (small : value < 64) : charOf value ≠ pad :=
  (charOf_facts ⟨value, small⟩).2.1

theorem ofNat_eq (byte : Byte) {n : Nat} (same : n = byte.val) : Fin.ofNat 256 n = byte := by
  subst same
  exact Fin.ofNat_val_eq_self byte

theorem decodeGroups_encode (bytes : Bytes) : decodeGroups (encode bytes) = some bytes := by
  induction bytes using encode.induct with
  | case1 first second third rest ih =>
    have := first.isLt
    have := second.isLt
    have := third.isLt
    simp only [encode, decodeGroups,
      valueOf_charOf (show first.val / 4 < 64 by omega),
      valueOf_charOf (show first.val % 4 * 16 + second.val / 16 < 64 by omega),
      valueOf_charOf (show second.val % 16 * 4 + third.val / 64 < 64 by omega),
      valueOf_charOf (show third.val % 64 < 64 by omega),
      if_neg (charOf_ne_pad (show second.val % 16 * 4 + third.val / 64 < 64 by omega)),
      if_neg (charOf_ne_pad (show third.val % 64 < 64 by omega)), ih]
    rw [ofNat_eq first (by omega), ofNat_eq second (by omega),
      ofNat_eq third (by omega)]
  | case2 first second =>
    have := first.isLt
    have := second.isLt
    simp only [encode, decodeGroups,
      valueOf_charOf (show first.val / 4 < 64 by omega),
      valueOf_charOf (show first.val % 4 * 16 + second.val / 16 < 64 by omega),
      valueOf_charOf (show second.val % 16 * 4 < 64 by omega),
      if_neg (charOf_ne_pad (show second.val % 16 * 4 < 64 by omega)), if_true]
    rw [ofNat_eq first (by omega), ofNat_eq second (by omega)]
  | case3 first =>
    have := first.isLt
    simp only [encode, decodeGroups,
      valueOf_charOf (show first.val / 4 < 64 by omega),
      valueOf_charOf (show first.val % 4 * 16 < 64 by omega), if_true, and_self]
    rw [ofNat_eq first (by omega)]
  | case4 => rfl

theorem encode_no_break (bytes : Bytes) : ∀ char ∈ encode bytes, char ≠ 10 ∧ char ≠ 13 := by
  have small (value : Nat) (below : value < 64) : charOf value ≠ 10 ∧ charOf value ≠ 13 :=
    (charOf_facts ⟨value, below⟩).2.2
  induction bytes using encode.induct with
  | case1 first second third rest ih =>
    have := first.isLt
    have := second.isLt
    have := third.isLt
    simp only [encode, List.forall_mem_cons]
    exact ⟨small _ (by omega), small _ (by omega), small _ (by omega), small _ (by omega),
      ih⟩
  | case2 first second =>
    have := first.isLt
    have := second.isLt
    simp only [encode, List.forall_mem_cons]
    exact ⟨small _ (by omega), small _ (by omega), small _ (by omega), by decide, nofun⟩
  | case3 first =>
    have := first.isLt
    simp only [encode, List.forall_mem_cons]
    exact ⟨small _ (by omega), small _ (by omega), by decide, by decide, nofun⟩
  | case4 => exact nofun

theorem decode_encode (bytes : Bytes) : decode (encode bytes) = some bytes := by
  unfold decode
  rw [List.filter_eq_self.mpr fun char member => decide_eq_true (encode_no_break bytes char member),
    decodeGroups_encode]

end Base64

end SuperCache.Lib
