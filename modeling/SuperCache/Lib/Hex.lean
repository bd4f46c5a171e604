import SuperCache.Lib.Bytes

/-! # Hexadecimal texts

Go's `encoding/hex`: two lower case digits for each byte; digits of either case are
read back.
-/

namespace SuperCache.Lib

namespace Hex

def digit (value : Nat) : Byte :=
  if value < 10 then Fin.ofNat 256 (48 + value) else Fin.ofNat 256 (87 + value)

def value? (byte : Byte) : Option Nat :=
  if 48 ≤ byte.val ∧ byte.val ≤ 57 then some (byte.val - 48)
  else if 97 ≤ byte.val ∧ byte.val ≤ 102 then some (byte.val - 87)
  else if 65 ≤ byte.val ∧ byte.val ≤ 70 then some (byte.val - 55)
  else none

/-- `hex.EncodeToString`. -/
def encode : Bytes → Bytes
  | [] => []
  | byte :: rest => digit (byte.val / 16) :: digit (byte.val % 16) :: encode rest

/-- `hex.DecodeString`; `none` stands for a digit that is none and for an odd
length. -/
def decode : Bytes → Option Bytes
  | [] => some []
  | [_] => none
  | high :: low :: rest =>
    match value? high, value? low with
    | some a, some b => (decode rest).map (Fin.ofNat 256 (16 * a + b) :: ·)
    | _, _ => none

theorem value?_digit {value : Nat} (small : value < 16) : value? (digit value) = some value := by
  decide +revert

@[simp] theorem decode_encode (bytes : Bytes) : decode (encode bytes) = some bytes := by
  induction bytes with
  | nil => rfl
  | cons byte rest ih =>
    have high : byte.val / 16 < 16 := by omega
    have low : byte.val % 16 < 16 := by omega
    -- the two halves make the byte again
    have whole : Fin.ofNat 256 (16 * (byte.val / 16) + byte.val % 16) = byte := by
      ext
      rw [Fin.val_ofNat]
      omega
    simp only [encode, decode, value?_digit high, value?_digit low, ih,
      Option.map_some, whole]

theorem lt_of_mem_encode {bytes : Bytes} {byte : Byte} (listed : byte ∈ encode bytes) :
    byte.val < 128 := by
  have ascii : ∀ value < 16, (digit value).val < 128 := by decide
  induction bytes with
  | nil => cases listed
  | cons first rest ih =>
    simp only [encode, List.mem_cons] at listed
    rcases listed with rfl | rfl | later
    · exact ascii _ (by omega)
    · exact ascii _ (by omega)
    · exact ih later

end Hex

end SuperCache.Lib
