import Mathlib

/-! # Folding a sum to sixteen bits

The carries above the low word are added back until none is left, which is
addition modulo `2 ^ 16 - 1` with zero kept apart.
-/

namespace Library.OnesComplement

def fold (n : Nat) : Nat :=
  if 0xffff < n then fold (n / 2 ^ 16 + n % 2 ^ 16) else n
termination_by n
decreasing_by omega

theorem fold_zero : fold 0 = 0 := by
  rw [fold, if_neg (by omega)]

theorem fold_of_pos {n : Nat} (h : 0 < n) : fold n = (n - 1) % 0xffff + 1 := by
  induction n using Nat.strongRecOn with
  | ind n ih =>
    rw [fold]
    split
    · rw [ih _ (by omega) (by omega)]
      omega
    · omega

theorem fold_le (n : Nat) : fold n ≤ 0xffff := by
  obtain rfl | hPos := Nat.eq_zero_or_pos n
  · rw [fold_zero]
    omega
  · rw [fold_of_pos hPos]
    omega

/-- A sum with its own complement folds to all ones. -/
theorem fold_add_complement (n : Nat) : fold (n + (0xffff - fold n)) = 0xffff := by
  obtain rfl | hPos := Nat.eq_zero_or_pos n
  · rw [fold_zero, fold_of_pos (by omega)]
  · rw [fold_of_pos hPos, fold_of_pos (by omega)]
    omega

theorem fold_of_le {n : Nat} (h : n ≤ 0xffff) : fold n = n := by
  rw [fold, if_neg (Nat.not_lt.mpr h)]

/-- The high half of a number may be added to its low half before folding. -/
theorem fold_split (m n : Nat) : fold (m / 2 ^ 16 + m % 2 ^ 16 + n) = fold (m + n) := by
  obtain hZero | hPos := Nat.eq_zero_or_pos (m + n)
  · obtain ⟨rfl, rfl⟩ : m = 0 ∧ n = 0 := by omega
    rfl
  · rw [fold_of_pos hPos, fold_of_pos (by omega)]
    omega

theorem fold_fold_add (m n : Nat) : fold (fold m + n) = fold (m + n) := by
  obtain rfl | hPos := Nat.eq_zero_or_pos m
  · rw [fold_zero]
  · rw [fold_of_pos hPos, fold_of_pos (n := m + n) (by omega), fold_of_pos (by omega)]
    omega

/-- Addition of 16-bit words: the carry out of the top comes back in at the bottom. -/
def add (a b : Nat) : Nat := (a + b) / 2 ^ 16 + (a + b) % 2 ^ 16

def sum (words : List Nat) : Nat := words.foldl add 0

theorem add_eq_fold {a b : Nat} (ha : a ≤ 0xffff) (hb : b ≤ 0xffff) : add a b = fold (a + b) := by
  have hSplit := fold_split (a + b) 0
  rw [Nat.add_zero, Nat.add_zero] at hSplit
  rw [← hSplit, add, fold_of_le]
  omega

theorem foldl_add {words : List Nat} (h : ∀ w ∈ words, w ≤ 0xffff) {a : Nat} :
    words.foldl add (fold a) = fold (a + words.sum) := by
  induction words generalizing a with
  | nil => rfl
  | cons w words ih =>
    have hHead : add (fold a) w = fold (a + w) := by
      rw [add_eq_fold (fold_le a) (h w List.mem_cons_self), fold_fold_add]
    rw [List.foldl_cons, hHead, ih fun v hMem => h v (List.mem_cons_of_mem w hMem), List.sum_cons,
      Nat.add_assoc]

/-- Adding words one by one with end-around carry is folding their plain sum. -/
theorem sum_eq_fold {words : List Nat} (h : ∀ w ∈ words, w ≤ 0xffff) :
    sum words = fold words.sum := by
  have hFold := foldl_add h (a := 0)
  rw [fold_zero, Nat.zero_add] at hFold
  exact hFold

end Library.OnesComplement
