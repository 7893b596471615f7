import Minnow.Library.BigEndian
import Minnow.Library.OnesComplement
import Minnow.Parser

/-! # The internet checksum -/

namespace Minnow

open Library

def u32 (n : Nat) : Nat := n % 2 ^ 32

theorem u32_eq {n : Nat} (h : n < 2 ^ 32) : u32 n = n := Nat.mod_eq_of_lt h

structure InternetChecksum where
  sum : Nat
  parity : Bool
deriving DecidableEq

namespace InternetChecksum

def new (sum : Nat) : InternetChecksum := ⟨sum, false⟩

def addByte (self : InternetChecksum) (i : Byte) : InternetChecksum where
  sum := u32 (self.sum + if self.parity then i.toNat else i.toNat <<< 8)
  parity := !self.parity

def add (self : InternetChecksum) (data : Buffer) : InternetChecksum := data.foldl addByte self

def addAll (self : InternetChecksum) (bufs : List Buffer) : InternetChecksum := bufs.foldl add self

def value (self : InternetChecksum) : UInt16 :=
  UInt16.ofNat (2 ^ 32 - 1 - OnesComplement.fold self.sum)

/-- The sum of the 16-bit words; `parity` is set between the two halves of one. -/
def wordSum : Bool → List Byte → Nat
  | _, [] => 0
  | parity, b :: rest => (if parity then b.toNat else b.toNat * 256) + wordSum (!parity) rest

theorem addAll_eq (c : InternetChecksum) (bufs : List Buffer) :
    c.addAll bufs = c.add bufs.flatten := by
  induction bufs generalizing c with
  | nil => rfl
  | cons b bufs ih =>
    rw [List.flatten_cons, add, List.foldl_append]
    exact ih (c.add b)

theorem add_sum {c : InternetChecksum} {data : List Byte}
    (h : c.sum + wordSum c.parity data < 2 ^ 32) :
    (c.add data).sum = c.sum + wordSum c.parity data := by
  induction data generalizing c with
  | nil => rfl
  | cons b data ih =>
    have hByte : (c.addByte b).sum = c.sum + if c.parity then b.toNat else b.toNat * 256 := by
      rw [wordSum] at h
      simp only [addByte, Nat.shiftLeft_eq, Nat.reducePow]
      rw [u32_eq]
      omega
    have hRest : (c.addByte b).sum + wordSum (c.addByte b).parity data =
        c.sum + wordSum c.parity (b :: data) := by
      rw [hByte, wordSum, Nat.add_assoc]
      rfl
    change ((c.addByte b).add data).sum = _
    rw [ih (hRest ▸ h), hRest]

theorem add_new {p words : Nat} {data : List Byte}
    (hWords : wordSum false data = words) (hFits : p + words < 2 ^ 32) :
    ((new p).add data).sum = p + words := by
  subst hWords
  exact add_sum (c := new p) hFits

theorem wordSum_append (parity : Bool) (xs ys : List Byte) :
    wordSum parity (xs ++ ys) =
      wordSum parity xs + wordSum (parity ^^ decide (xs.length % 2 = 1)) ys := by
  induction xs generalizing parity with
  | nil => simp [wordSum]
  | cons b xs ih =>
    have hFlip : (!parity ^^ decide (xs.length % 2 = 1)) =
        (parity ^^ decide ((xs.length + 1) % 2 = 1)) := by
      obtain h | h := Nat.mod_two_eq_zero_or_one xs.length <;>
        cases parity <;> simp [h, Nat.add_mod]
    rw [List.cons_append, wordSum, wordSum, ih, hFlip, List.length_cons, Nat.add_assoc]

theorem wordSum_le (parity : Bool) (data : List Byte) :
    wordSum parity data ≤ 65280 * data.length := by
  induction data generalizing parity with
  | nil => exact Nat.le_refl 0
  | cons b data ih =>
    have hByte := b.toNat_lt
    have hRest := ih (!parity)
    rw [wordSum, List.length_cons]
    cases parity <;> simp only [Bool.false_eq_true, if_false, if_true] <;> omega

theorem wordSum_encode (v : Nat) (h : v < 2 ^ 16) :
    wordSum false (BigEndian.encode 2 v) = v := by
  have hHigh : (UInt8.ofNat (v / 256)).toNat = v / 256 := UInt8.toNat_ofNat_of_lt' (by
    change v / 256 < 256
    omega)
  have hLow : (UInt8.ofNat v).toNat = v % 256 := UInt8.toNat_ofNat'
  simp only [BigEndian.encode, wordSum, Nat.pow_one, Nat.pow_zero, Nat.div_one, hHigh, hLow,
    Bool.not_false, Bool.false_eq_true, if_false, if_true]
  omega

theorem value_toNat (c : InternetChecksum) :
    c.value.toNat = 0xffff - OnesComplement.fold c.sum := by
  have hFold := OnesComplement.fold_le c.sum
  rw [value, UInt16.toNat_ofNat']
  omega

theorem wordSum_field (before after : List Byte) (hEven : before.length % 2 = 0) (v : Nat)
    (hv : v < 2 ^ 16) :
    wordSum false (before ++ (BigEndian.encode 2 v ++ after)) =
      wordSum false before + wordSum false after + v := by
  have hBefore : decide (before.length % 2 = 1) = false := decide_eq_false (by omega)
  have hField : decide ((BigEndian.encode 2 v).length % 2 = 1) = false := by
    rw [BigEndian.length_encode]
    rfl
  rw [wordSum_append, hBefore, Bool.xor_false, wordSum_append, hField, Bool.xor_false,
    wordSum_encode v hv]
  omega

/-- A checksum stored at an even place, where it was computed with zeros, makes the sum of
everything all ones. -/
theorem value_of_stored (start : Nat) (before after : List Byte) (hEven : before.length % 2 = 0)
    (hFits : start + wordSum false before + wordSum false after + 0xffff < 2 ^ 32) :
    let zeroed := (new start).add (before ++ (BigEndian.encode 2 0 ++ after))
    ((new start).add (before ++ (BigEndian.encode 2 zeroed.value.toNat ++ after))).value = 0 := by
  intro zeroed
  have hZero := wordSum_field before after hEven 0 (by omega)
  have hValue : zeroed.value.toNat =
      0xffff - OnesComplement.fold (start + (wordSum false before + wordSum false after)) := by
    rw [value_toNat, add_new hZero (by omega), Nat.add_zero]
  have hStored := wordSum_field before after hEven zeroed.value.toNat
    zeroed.value.toNat_lt
  have hLe : zeroed.value.toNat ≤ 0xffff := Nat.le_of_lt_succ zeroed.value.toNat_lt
  rw [← UInt16.toNat_inj, value_toNat, add_new hStored (by omega), hValue, ← Nat.add_assoc,
    OnesComplement.fold_add_complement]
  rfl

end InternetChecksum

end Minnow
