import Minnow.IPv4Wire

/-! # What the checksum stands for

Up to 65535 bytes the 32-bit accumulator is the plain sum of the words, so its
folding is their sum with end-around carry, however the bytes are split up.
-/

namespace Minnow.InternetChecksum

open Library

/-- The bytes as big-endian words, the last one filled up with a zero byte. -/
def words : List Byte → List Nat
  | [] => []
  | [b] => [b.toNat * 256]
  | a :: b :: rest => (a.toNat * 256 + b.toNat) :: words rest

theorem sum_words (data : List Byte) : (words data).sum = wordSum false data := by
  induction data using words.induct with
  | case1 => rfl
  | case2 b => rfl
  | case3 a b rest ih =>
    rw [words, List.sum_cons, ih, wordSum, wordSum, Nat.add_assoc]
    rfl

theorem words_le (data : List Byte) : ∀ w ∈ words data, w ≤ 0xffff := by
  induction data using words.induct with
  | case1 =>
    intro w hMem
    cases hMem
  | case2 b =>
    intro w hMem
    rw [List.mem_singleton.mp hMem]
    have hByte := b.toNat_lt
    omega
  | case3 a b rest ih =>
    intro w hMem
    obtain rfl | hMem := List.mem_cons.mp hMem
    · have hHigh := a.toNat_lt
      have hLow := b.toNat_lt
      omega
    · exact ih w hMem

/-- A 32-bit starting sum as two words. -/
def startWords (start : Nat) : List Nat := [start / 2 ^ 16, start % 2 ^ 16]

section Fits

variable {start : Nat} {data : List Byte}

theorem fits_of_length (hStart : start ≤ 6 * 0xffff) (hLength : data.length ≤ 65535) :
    start + wordSum false data < 2 ^ 32 := by
  have hWords := wordSum_le false data
  omega

theorem value_eq (hFits : start + wordSum false data < 2 ^ 32) :
    ((new start).add data).value.toNat =
      0xffff - OnesComplement.sum (startWords start ++ words data) := by
  have hWords : ∀ w ∈ startWords start ++ words data, w ≤ 0xffff := by
    intro w hMem
    obtain hMem | hMem := List.mem_append.mp hMem
    · simp only [startWords, List.mem_cons, List.not_mem_nil, or_false] at hMem
      omega
    · exact words_le data w hMem
  have hSum : (startWords start ++ words data).sum =
      start / 2 ^ 16 + start % 2 ^ 16 + wordSum false data := by
    rw [List.sum_append, sum_words, startWords, List.sum_cons, List.sum_cons, List.sum_nil,
      Nat.add_zero]
  rw [value_toNat, add_new rfl hFits, OnesComplement.sum_eq_fold hWords, hSum,
    OnesComplement.fold_split]

end Fits

/-- Over at most 65535 bytes and from any starting sum of a pseudo header: the accumulator never
wraps, the value is the complement of the one's-complement sum, the split into buffers does not
matter, and the value stored into its own zeroed field makes the sum come out as zero. -/
theorem addAll_value (bufs : List Buffer) (start : Nat)
    (hStart : start = 0 ∨ ∃ h : IPv4Header, start = h.pseudoChecksum)
    (hLength : bufs.flatten.length ≤ 65535) :
    let c := (new start).addAll bufs
    (∀ front, front <+: bufs.flatten →
        ((new start).add front).sum = start + (words front).sum ∧
          start + (words front).sum < 2 ^ 32) ∧
      c.value.toNat = 0xffff - OnesComplement.sum (startWords start ++ words bufs.flatten) ∧
      (∀ bufs', bufs'.flatten = bufs.flatten → (new start).addAll bufs' = c) ∧
      ∀ before after bufs', before.length % 2 = 0 → bufs.flatten = before ++ 0 :: 0 :: after →
        bufs'.flatten = before ++ BigEndian.encode 2 c.value.toNat ++ after →
        ((new start).addAll bufs').value = 0 := by
  intro c
  have hSmall : start ≤ 6 * 0xffff := by
    obtain rfl | ⟨h, rfl⟩ := hStart
    · exact Nat.zero_le _
    · exact h.pseudoChecksum_le
  refine ⟨?_, ?_, ?_, ?_⟩
  · intro front hFront
    have hFits := fits_of_length hSmall (hFront.length_le.trans hLength)
    rw [sum_words]
    exact ⟨add_new rfl hFits, hFits⟩
  · change ((new start).addAll bufs).value.toNat = _
    rw [addAll_eq]
    exact value_eq (fits_of_length hSmall hLength)
  · intro bufs' hSame
    change _ = (new start).addAll bufs
    rw [addAll_eq, addAll_eq, hSame]
  · intro before after bufs' hEven hZeroed hStored
    have hBytes : before.length + after.length + 2 ≤ 65535 := by
      rw [hZeroed, List.length_append, List.length_cons, List.length_cons] at hLength
      omega
    have hBefore := wordSum_le false before
    have hAfter := wordSum_le false after
    have hValue := value_of_stored start before after hEven (by omega)
    have hc : c = (new start).add (before ++ (BigEndian.encode 2 0 ++ after)) := by
      change (new start).addAll bufs = _
      rw [addAll_eq, hZeroed]
      rfl
    rw [addAll_eq, hStored, List.append_assoc, hc]
    exact hValue

theorem addAll_value_odd :
    ((new ({} : IPv4Header).pseudoChecksum).addAll
      [[1], [], [2, 255, 255], [7]]).value.toNat = 63498 := by
  have h := addAll_value [[1], [], [2, 255, 255], [7]] ({} : IPv4Header).pseudoChecksum
    (.inr ⟨{}, rfl⟩) (by decide)
  exact h.2.1.trans (by decide +kernel)

end Minnow.InternetChecksum
