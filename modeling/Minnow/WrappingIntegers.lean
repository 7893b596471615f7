import Mathlib

/-! # Wrapped sequence numbers

`uint64_t` values are naturals; `u64` stands where the source's arithmetic may
leave the range. The cumulative counters of the program are plain naturals:
they count bytes and flags that were really carried.
-/

namespace Minnow

def u64 (n : Nat) : Nat := n % 2 ^ 64

theorem u64_eq {n : Nat} (h : n < 2 ^ 64) : u64 n = n := Nat.mod_eq_of_lt h

theorem u64_lt (n : Nat) : u64 n < 2 ^ 64 := Nat.mod_lt _ (by decide)

theorem u64_le (n : Nat) : u64 n ≤ n := Nat.mod_le _ _

structure Wrap32 where
  rawValue : UInt32
deriving DecidableEq, Repr

namespace Wrap32

def wrap (n : Nat) (zeroPoint : Wrap32) : Wrap32 :=
  let sum := u64 (n + zeroPoint.rawValue.toNat)
  ⟨UInt32.ofNat (sum % 2 ^ 32)⟩

def unwrap (self zeroPoint : Wrap32) (checkpoint : Nat) : Nat :=
  let mod := 2 ^ 32
  let offset := (self.rawValue.toNat + mod - zeroPoint.rawValue.toNat) % mod
  -- the mask clears the low 32 bits of the checkpoint
  let candidate := u64 (checkpoint - checkpoint % mod + offset)
  if u64 (candidate + mod / 2) < checkpoint then u64 (candidate + mod)
  else if u64 (checkpoint + mod / 2) < candidate ∧ mod ≤ candidate then candidate - mod
  else candidate

theorem wrap_rawValue (n : Nat) (zeroPoint : Wrap32) :
    (wrap n zeroPoint).rawValue.toNat = (n + zeroPoint.rawValue.toNat) % 2 ^ 32 := by
  simp only [wrap, u64, UInt32.toNat_ofNat']
  omega

@[simp] theorem wrap_zero (zeroPoint : Wrap32) : wrap 0 zeroPoint = zeroPoint := by
  obtain ⟨raw⟩ := zeroPoint
  have hRaw := wrap_rawValue 0 ⟨raw⟩
  have hLt := raw.toNat_lt
  simp only [Nat.zero_add] at hRaw
  rw [Nat.mod_eq_of_lt hLt] at hRaw
  cases hWrap : wrap 0 ⟨raw⟩ with
  | mk raw' =>
    rw [hWrap] at hRaw
    exact congrArg Wrap32.mk (UInt32.toNat_inj.mp hRaw)

theorem offset_wrap (n : Nat) (zeroPoint : Wrap32) :
    ((wrap n zeroPoint).rawValue.toNat + 2 ^ 32 - zeroPoint.rawValue.toNat) % 2 ^ 32 =
      n % 2 ^ 32 := by
  rw [wrap_rawValue]
  have hLt := zeroPoint.rawValue.toNat_lt
  omega

/-- How far the raw value lies above the zero point, within one turn of 32 bits. -/
def offset (self zeroPoint : Wrap32) : Nat :=
  (self.rawValue.toNat + 2 ^ 32 - zeroPoint.rawValue.toNat) % 2 ^ 32

theorem offset_lt (self zeroPoint : Wrap32) : self.offset zeroPoint < 2 ^ 32 :=
  Nat.mod_lt _ (by decide)

theorem wrap_eq_iff {self zeroPoint : Wrap32} {n : Nat} :
    wrap n zeroPoint = self ↔ n % 2 ^ 32 = self.offset zeroPoint := by
  constructor
  · rintro rfl
    exact (offset_wrap n zeroPoint).symm
  · intro hOffset
    have hRaw : (wrap n zeroPoint).rawValue.toNat = self.rawValue.toNat := by
      have hSelf := self.rawValue.toNat_lt
      have hZero := zeroPoint.rawValue.toNat_lt
      rw [wrap_rawValue]
      rw [offset] at hOffset
      omega
    obtain ⟨raw⟩ := self
    cases hWrap : wrap n zeroPoint with
    | mk raw' =>
      rw [hWrap] at hRaw
      exact congrArg Wrap32.mk (UInt32.toNat_inj.mp hRaw)

/-- `v` is a 64-bit number with this wrap, and none is closer to the checkpoint. -/
structure Nearest (raw zeroPoint : Wrap32) (checkpoint v : Nat) : Prop where
  lt : v < 2 ^ 64
  wrap : wrap v zeroPoint = raw
  closest : ∀ n < 2 ^ 64, Wrap32.wrap n zeroPoint = raw →
    Nat.dist v checkpoint ≤ Nat.dist n checkpoint

/-- A number at most half a turn away is the nearest of its residue class. -/
theorem dist_le_of_mod_eq {v n checkpoint : Nat} (hMod : v % 2 ^ 32 = n % 2 ^ 32)
    (hHalf : Nat.dist v checkpoint ≤ 2 ^ 31) : Nat.dist v checkpoint ≤ Nat.dist n checkpoint := by
  simp only [Nat.dist] at *
  omega

theorem eq_of_mod_eq {v n checkpoint : Nat} (hMod : v % 2 ^ 32 = n % 2 ^ 32)
    (hHalf : Nat.dist v checkpoint ≤ 2 ^ 31) (hNear : Nat.dist n checkpoint < 2 ^ 31) : v = n := by
  simp only [Nat.dist] at *
  omega

/-- None of the three sums of `unwrap` leaves 64 bits. -/
def NoOverflow (self zeroPoint : Wrap32) (checkpoint : Nat) : Prop :=
  checkpoint < 2 ^ 64 - 2 ^ 31 ∧
    (checkpoint < 2 ^ 64 - 2 ^ 32 ∨ self.offset zeroPoint < 2 ^ 31)

instance (self zeroPoint : Wrap32) (checkpoint : Nat) :
    Decidable (NoOverflow self zeroPoint checkpoint) :=
  inferInstanceAs (Decidable (_ ∧ _))

/-- Unwrapping recovers any number less than `2 ^ 31` away from the checkpoint. -/
theorem unwrap_wrap {n checkpoint : Nat} (zeroPoint : Wrap32) (hAbove : n < checkpoint + 2 ^ 31)
    (hBelow : checkpoint < n + 2 ^ 31) (hRange : checkpoint < 2 ^ 63) :
    (wrap n zeroPoint).unwrap zeroPoint checkpoint = n := by
  have hOffset := offset_wrap n zeroPoint
  simp only [unwrap, hOffset, u64]
  split
  · omega
  · split <;> omega

section Nearest

variable {self zeroPoint : Wrap32} {checkpoint : Nat}

/-- The number with this wrap in the turn of the checkpoint. -/
def candidate (self zeroPoint : Wrap32) (checkpoint : Nat) : Nat :=
  checkpoint - checkpoint % 2 ^ 32 + self.offset zeroPoint

theorem candidate_lt (hRange : checkpoint < 2 ^ 64) :
    self.candidate zeroPoint checkpoint < 2 ^ 64 := by
  have hLt := self.offset_lt zeroPoint
  rw [candidate]
  omega

theorem unwrap_cases (self zeroPoint : Wrap32) (hRange : checkpoint < 2 ^ 64) :
    let k := self.candidate zeroPoint checkpoint
    (u64 (k + 2 ^ 31) < checkpoint ∧ self.unwrap zeroPoint checkpoint = u64 (k + 2 ^ 32)) ∨
    (checkpoint ≤ u64 (k + 2 ^ 31) ∧ u64 (checkpoint + 2 ^ 31) < k ∧ 2 ^ 32 ≤ k ∧
      self.unwrap zeroPoint checkpoint = k - 2 ^ 32) ∨
    (checkpoint ≤ u64 (k + 2 ^ 31) ∧ (k ≤ u64 (checkpoint + 2 ^ 31) ∨ k < 2 ^ 32) ∧
      self.unwrap zeroPoint checkpoint = k) := by
  intro k
  have hk : u64 (checkpoint - checkpoint % 2 ^ 32 + self.offset zeroPoint) = k :=
    u64_eq (candidate_lt hRange)
  have hUnwrap : self.unwrap zeroPoint checkpoint =
      if u64 (k + 2 ^ 31) < checkpoint then u64 (k + 2 ^ 32)
      else if u64 (checkpoint + 2 ^ 31) < k ∧ 2 ^ 32 ≤ k then k - 2 ^ 32 else k := by
    rw [← hk]
    rfl
  rw [hUnwrap]
  split
  · rename_i hUp
    exact .inl ⟨hUp, rfl⟩
  · rename_i hUp
    split
    · rename_i hDown
      exact .inr (.inl ⟨Nat.not_lt.mp hUp, hDown.1, hDown.2, rfl⟩)
    · exact .inr (.inr ⟨Nat.not_lt.mp hUp, by omega, rfl⟩)

theorem unwrap_mod (self zeroPoint : Wrap32) (hRange : checkpoint < 2 ^ 64) :
    self.unwrap zeroPoint checkpoint % 2 ^ 32 = self.offset zeroPoint ∧
      self.unwrap zeroPoint checkpoint < 2 ^ 64 := by
  have hOffset := self.offset_lt zeroPoint
  have hLt : self.candidate zeroPoint checkpoint < 2 ^ 64 := candidate_lt hRange
  have hMod : self.candidate zeroPoint checkpoint % 2 ^ 32 = self.offset zeroPoint := by
    rw [candidate]
    omega
  obtain ⟨-, hEq⟩ | ⟨-, -, hTurn, hEq⟩ | ⟨-, -, hEq⟩ :=
    unwrap_cases self zeroPoint hRange
  · rw [hEq, u64]
    omega
  · rw [hEq]
    omega
  · rw [hEq]
    exact ⟨hMod, hLt⟩

/-- Close to the checkpoint, or still in the first turn, where nothing lies below. -/
theorem unwrap_near (hOk : NoOverflow self zeroPoint checkpoint) :
    Nat.dist (self.unwrap zeroPoint checkpoint) checkpoint ≤ 2 ^ 31 ∨
      (checkpoint < self.unwrap zeroPoint checkpoint ∧
        self.unwrap zeroPoint checkpoint < 2 ^ 32) := by
  have hOffset := self.offset_lt zeroPoint
  obtain ⟨hTop, hLast⟩ := hOk
  obtain ⟨hUp, hEq⟩ | ⟨hUp, hDown, hTurn, hEq⟩ | ⟨hUp, hDown, hEq⟩ :=
    unwrap_cases self zeroPoint (by omega : checkpoint < 2 ^ 64)
  all_goals
    rw [hEq]
    simp only [candidate, u64, Nat.dist] at *
    omega

/-- Past the top the sums wrap around and the answer is more than half a turn away, though the
turn of the checkpoint holds a number closer to it. -/
theorem unwrap_far (hRange : checkpoint < 2 ^ 64)
    (hOver : ¬ NoOverflow self zeroPoint checkpoint) :
    Nat.dist (self.candidate zeroPoint checkpoint) checkpoint <
      Nat.dist (self.unwrap zeroPoint checkpoint) checkpoint := by
  have hOffset := self.offset_lt zeroPoint
  simp only [NoOverflow, not_and_or, not_or] at hOver
  obtain ⟨hUp, hEq⟩ | ⟨hUp, hDown, hTurn, hEq⟩ | ⟨hUp, hDown, hEq⟩ :=
    unwrap_cases self zeroPoint hRange
  all_goals
    rw [hEq]
    simp only [candidate, u64, Nat.dist] at *
    omega

end Nearest

/-- `unwrap` gives the nearest number, and recovers every number less than `2 ^ 31` away,
exactly where its sums stay within 64 bits. -/
theorem unwrap_nearest_iff (self zeroPoint : Wrap32) (checkpoint : Nat)
    (hRange : checkpoint < 2 ^ 64) :
    (Nearest self zeroPoint checkpoint (self.unwrap zeroPoint checkpoint) ∧
        ∀ n < 2 ^ 64, wrap n zeroPoint = self → Nat.dist n checkpoint < 2 ^ 31 →
          self.unwrap zeroPoint checkpoint = n) ↔
      NoOverflow self zeroPoint checkpoint := by
  obtain ⟨hMod, hLt⟩ := unwrap_mod self zeroPoint hRange
  constructor
  · rintro ⟨hNearest, -⟩
    by_contra hOver
    have hOffset := self.offset_lt zeroPoint
    have hWrap : wrap (self.candidate zeroPoint checkpoint) zeroPoint = self := by
      rw [wrap_eq_iff, candidate]
      omega
    have hClosest := hNearest.closest _ (candidate_lt hRange) hWrap
    exact absurd (unwrap_far hRange hOver) (Nat.not_lt.mpr hClosest)
  · intro hOk
    have hNear := unwrap_near hOk
    constructor
    · refine ⟨hLt, wrap_eq_iff.mpr hMod, ?_⟩
      intro n _ hWrap
      have hSame := hMod.trans (wrap_eq_iff.mp hWrap).symm
      cases hNear with
      | inl hHalf => exact dist_le_of_mod_eq hSame hHalf
      | inr hFirst =>
        simp only [Nat.dist]
        omega
    · intro n _ hWrap hDist
      have hSame := hMod.trans (wrap_eq_iff.mp hWrap).symm
      cases hNear with
      | inl hHalf => exact eq_of_mod_eq hSame hHalf hDist
      | inr hFirst =>
        simp only [Nat.dist] at hDist
        omega

theorem unwrap_nearest_iff_wrapped :
    Nearest ⟨4⟩ ⟨7⟩ (2 ^ 33) ((⟨4⟩ : Wrap32).unwrap ⟨7⟩ (2 ^ 33)) ∧
      (⟨4⟩ : Wrap32).unwrap ⟨7⟩ (2 ^ 33) = 2 ^ 33 - 3 := by
  have h := (unwrap_nearest_iff ⟨4⟩ ⟨7⟩ (2 ^ 33) (by decide)).mpr (by decide)
  exact ⟨h.1, by decide⟩

/-- The largest number, unwrapped next to itself, comes back as `2 ^ 32 - 1`. -/
theorem not_nearest_of_top :
    let n := 2 ^ 64 - 1
    let v := (wrap n ⟨0⟩).unwrap ⟨0⟩ n
    v = 2 ^ 32 - 1 ∧ Nat.dist n n < 2 ^ 31 ∧ v ≠ n ∧ ¬ Nearest (wrap n ⟨0⟩) ⟨0⟩ n v := by
  refine ⟨by decide, by decide, by decide, ?_⟩
  intro h
  exact absurd (h.closest (2 ^ 64 - 1) (by decide) rfl) (by decide)

end Wrap32

end Minnow
