import Mathlib.Logic.Function.Basic

/-!
# Hexadecimal text

Bytes written as lowercase hex, and hex of either case read back. The one fact anything
needs is that writing loses nothing: `decode_encode`, and with it that two byte strings of
the same text are the same bytes.
-/

namespace Lib.Hex

/-- The digit of a value below 16. -/
def digit (n : Nat) : Char := if n < 10 then Char.ofNat (48 + n) else Char.ofNat (87 + n)

/-- The value of a digit of either case. -/
def value (c : Char) : Option Nat :=
  if '0' ≤ c ∧ c ≤ '9' then some (c.toNat - 48)
  else if 'a' ≤ c ∧ c ≤ 'f' then some (c.toNat - 87)
  else if 'A' ≤ c ∧ c ≤ 'F' then some (c.toNat - 55)
  else none

/-- The digits of a byte string, high half first. -/
def digits : List UInt8 → List Char
  | [] => []
  | b :: bs => digit (b.toNat / 16) :: digit (b.toNat % 16) :: digits bs

/-- Read digits two at a time; an odd number of them is an error. -/
def read : List Char → Option (List UInt8)
  | [] => some []
  | [_] => none
  | c :: d :: cs =>
    match value c, value d, read cs with
    | some x, some y, some bs => some (UInt8.ofNat (16 * x + y) :: bs)
    | _, _, _ => none

def encode (bs : List UInt8) : String := String.ofList (digits bs)

def decode (s : String) : Option (List UInt8) := read s.toList

theorem value_digit : ∀ {n : Nat}, n < 16 → value (digit n) = some n := by
  decide

theorem read_digits : ∀ bs : List UInt8, read (digits bs) = some bs
  | [] => rfl
  | b :: bs => by
    have hb : b.toNat < 256 := b.toNat_lt
    have hhi : value (digit (b.toNat / 16)) = some (b.toNat / 16) := value_digit (by omega)
    have hlo : value (digit (b.toNat % 16)) = some (b.toNat % 16) := value_digit (by omega)
    have hsum : 16 * (b.toNat / 16) + b.toNat % 16 = b.toNat := Nat.div_add_mod _ _
    rw [digits, read, hhi, hlo, read_digits bs]
    simp only [hsum, UInt8.ofNat_toNat]

/-- **Reading hex back gives the bytes it was written from.** -/
theorem decode_encode (bs : List UInt8) : decode (encode bs) = some bs := by
  rw [decode, encode, String.toList_ofList, read_digits]

theorem encode_injective : Function.Injective encode := fun a b h =>
  Option.some.inj (by rw [← decode_encode a, h, decode_encode])

end Lib.Hex
