import Mathlib

/-! # Big-endian integers

A number of a given width in bytes, most significant byte first, and the
number a list of bytes stands for.
-/

namespace Library.BigEndian

def encode : Nat → Nat → List UInt8
  | 0, _ => []
  | width + 1, n => UInt8.ofNat (n / 256 ^ width) :: encode width n

/-- The value read so far, shifted by each further byte. -/
def decodeFrom (acc : Nat) (bytes : List UInt8) : Nat :=
  bytes.foldl (fun n b => n * 256 + b.toNat) acc

def decode (bytes : List UInt8) : Nat := decodeFrom 0 bytes

@[simp] theorem length_encode (width n : Nat) : (encode width n).length = width := by
  induction width with
  | zero => rfl
  | succ width ih => rw [encode, List.length_cons, ih]

@[simp] theorem decodeFrom_nil (acc : Nat) : decodeFrom acc [] = acc := rfl

@[simp] theorem decodeFrom_cons (acc : Nat) (b : UInt8) (bytes : List UInt8) :
    decodeFrom acc (b :: bytes) = decodeFrom (acc * 256 + b.toNat) bytes := rfl

theorem decodeFrom_encode (acc width n : Nat) :
    decodeFrom acc (encode width n) = acc * 256 ^ width + n % 256 ^ width := by
  induction width generalizing acc with
  | zero => simp [encode, Nat.mod_one]
  | succ width ih =>
    have hDigit : (UInt8.ofNat (n / 256 ^ width)).toNat = n / 256 ^ width % 256 :=
      UInt8.toNat_ofNat'
    rw [encode, decodeFrom_cons, ih, hDigit]
    calc (acc * 256 + n / 256 ^ width % 256) * 256 ^ width + n % 256 ^ width
        = acc * 256 ^ (width + 1) +
            (n % 256 ^ width + 256 ^ width * (n / 256 ^ width % 256)) := by ring
      _ = acc * 256 ^ (width + 1) + n % 256 ^ (width + 1) := by
          rw [← Nat.mod_mul, ← Nat.pow_succ]

theorem decode_encode {width n : Nat} (h : n < 256 ^ width) : decode (encode width n) = n := by
  rw [decode, decodeFrom_encode, Nat.zero_mul, Nat.zero_add, Nat.mod_eq_of_lt h]

theorem decodeFrom_lt (acc : Nat) (bytes : List UInt8) :
    decodeFrom acc bytes < (acc + 1) * 256 ^ bytes.length := by
  induction bytes generalizing acc with
  | nil => simp
  | cons b bytes ih =>
    have hDigit : acc * 256 + b.toNat + 1 ≤ (acc + 1) * 256 := by
      have hByte := b.toNat_lt
      omega
    calc decodeFrom acc (b :: bytes)
        < (acc * 256 + b.toNat + 1) * 256 ^ bytes.length := ih _
      _ ≤ (acc + 1) * 256 * 256 ^ bytes.length := Nat.mul_le_mul_right _ hDigit
      _ = (acc + 1) * 256 ^ (b :: bytes).length := by
          rw [List.length_cons, Nat.pow_succ, Nat.mul_assoc, Nat.mul_comm 256]

theorem decode_lt (bytes : List UInt8) : decode bytes < 256 ^ bytes.length := by
  have hBound := decodeFrom_lt 0 bytes
  rwa [Nat.zero_add, Nat.one_mul] at hBound

end Library.BigEndian
