import Mathlib

/-! # Lists of intervals laid end to end

`Tiles start len lo xs hi` says that the items of `xs`, none of them empty,
cover the numbers from `lo` to `hi` in order. Such a list is a queue: items are
appended at `hi`, and everything below a threshold is dropped from the front.
-/

namespace Library

variable {α : Type*} {start len : α → Nat} {lo mid hi i : Nat} {x y : α} {xs ys : List α}

def Tiles (start len : α → Nat) : Nat → List α → Nat → Prop
  | lo, [], hi => lo = hi
  | lo, x :: xs, hi => start x = lo ∧ 0 < len x ∧ Tiles start len (lo + len x) xs hi

def totalLength (len : α → Nat) (xs : List α) : Nat := (xs.map len).sum

@[simp] theorem totalLength_nil : totalLength len [] = 0 := rfl

@[simp] theorem totalLength_cons : totalLength len (x :: xs) = len x + totalLength len xs :=
  List.sum_cons

@[simp] theorem totalLength_append :
    totalLength len (xs ++ ys) = totalLength len xs + totalLength len ys := by
  rw [totalLength, List.map_append, List.sum_append, totalLength, totalLength]

theorem length_le_totalLength (h : ∀ x ∈ xs, 0 < len x) : xs.length ≤ totalLength len xs := by
  rw [totalLength, ← List.length_map len]
  apply List.length_le_sum_of_one_le
  intro n hMem
  obtain ⟨x, hIn, rfl⟩ := List.mem_map.mp hMem
  exact h x hIn

theorem totalLength_le {n : Nat} (h : ∀ x ∈ xs, len x ≤ n) :
    totalLength len xs ≤ n * xs.length := by
  induction xs with
  | nil => exact Nat.zero_le _
  | cons x xs ih =>
    have hHead := h x List.mem_cons_self
    have hTail := ih fun y hMem => h y (List.mem_cons_of_mem x hMem)
    rw [totalLength_cons, List.length_cons, Nat.mul_succ]
    omega

theorem totalLength_eraseIdx (h : xs[i]? = some x) :
    len x + totalLength len (xs.eraseIdx i) = totalLength len xs := by
  obtain ⟨hLt, rfl⟩ := List.getElem?_eq_some_iff.mp h
  have hPerm := (List.getElem_cons_eraseIdx_perm hLt).map len
  rw [totalLength, totalLength, ← hPerm.sum_eq]
  rfl

namespace Tiles

theorem add_totalLength (h : Tiles start len lo xs hi) : lo + totalLength len xs = hi := by
  induction xs generalizing lo with
  | nil => exact h
  | cons x xs ih =>
    have hTail := ih h.2.2
    rw [totalLength_cons]
    omega

theorem le (h : Tiles start len lo xs hi) : lo ≤ hi := by
  have hSum := h.add_totalLength
  omega

theorem append (h : Tiles start len lo xs mid) (h' : Tiles start len mid ys hi) :
    Tiles start len lo (xs ++ ys) hi := by
  induction xs generalizing lo with
  | nil =>
    obtain rfl : lo = mid := h
    exact h'
  | cons x xs ih => exact ⟨h.1, h.2.1, ih h.2.2⟩

theorem split (h : Tiles start len lo (xs ++ ys) hi) :
    ∃ mid, Tiles start len lo xs mid ∧ Tiles start len mid ys hi := by
  induction xs generalizing lo with
  | nil => exact ⟨lo, rfl, h⟩
  | cons x xs ih =>
    obtain ⟨mid, hFirst, hRest⟩ := ih h.2.2
    exact ⟨mid, ⟨h.1, h.2.1, hFirst⟩, hRest⟩

theorem eq_nil_iff (h : Tiles start len lo xs hi) : xs = [] ↔ lo = hi := by
  cases xs with
  | nil => exact iff_of_true rfl h
  | cons x xs =>
    have hLe := h.2.2.le
    have hPos := h.2.1
    exact iff_of_false (List.cons_ne_nil x xs) (by omega)

theorem concat (h : Tiles start len lo xs hi) (hStart : start y = hi) (hLen : 0 < len y) :
    Tiles start len lo (xs ++ [y]) (hi + len y) :=
  h.append ⟨hStart, hLen, rfl⟩

theorem len_pos (h : Tiles start len lo xs hi) (hMem : x ∈ xs) : 0 < len x := by
  induction xs generalizing lo with
  | nil => cases hMem
  | cons y ys ih =>
    obtain rfl | hMem := List.mem_cons.mp hMem
    · exact h.2.1
    · exact ih h.2.2 hMem

theorem bounds (h : Tiles start len lo xs hi) (hMem : x ∈ xs) :
    lo ≤ start x ∧ start x + len x ≤ hi := by
  induction xs generalizing lo with
  | nil => cases hMem
  | cons y ys ih =>
    obtain ⟨hStart, hPos, hTail⟩ := h
    obtain rfl | hMem := List.mem_cons.mp hMem
    · have hLe := hTail.le
      omega
    · have hBounds := ih hTail hMem
      omega

theorem covers (h : Tiles start len lo xs hi) (hLo : lo ≤ i) (hHi : i < hi) :
    ∃ x ∈ xs, start x ≤ i ∧ i < start x + len x := by
  induction xs generalizing lo with
  | nil =>
    obtain rfl : lo = hi := h
    omega
  | cons y ys ih =>
    obtain ⟨hStart, hPos, hTail⟩ := h
    by_cases hIn : i < lo + len y
    · exact ⟨y, List.mem_cons_self, by omega, by omega⟩
    · obtain ⟨x, hMem, hIn⟩ := ih hTail (Nat.not_lt.mp hIn)
      exact ⟨x, List.mem_cons_of_mem y hMem, hIn⟩

theorem isChain (h : Tiles start len lo xs hi) :
    xs.IsChain fun x y => start y = start x + len x := by
  induction xs generalizing lo with
  | nil => exact List.IsChain.nil
  | cons x xs ih =>
    obtain ⟨hStart, hPos, hTail⟩ := h
    cases xs with
    | nil => exact List.IsChain.singleton x
    | cons y ys =>
      refine List.IsChain.cons_cons ?_ (ih hTail)
      rw [hTail.1, hStart]

theorem start_head (h : Tiles start len lo xs hi) (hHead : x ∈ xs.head?) : start x = lo := by
  cases xs with
  | nil => cases hHead
  | cons y ys =>
    obtain rfl : y = x := by simpa using hHead
    exact h.1

theorem end_getLast (h : Tiles start len lo xs hi) (hLast : x ∈ xs.getLast?) :
    start x + len x = hi := by
  induction xs generalizing lo with
  | nil => cases hLast
  | cons y ys ih =>
    obtain ⟨hStart, hPos, hTail⟩ := h
    cases ys with
    | nil =>
      obtain rfl : y = x := by simpa using hLast
      rw [hStart]
      exact hTail
    | cons z zs => exact ih hTail (by rwa [List.getLast?_cons_cons] at hLast)

/-- Dropping every item that ends at or below a threshold in the range leaves a tiling whose
first item contains the threshold. -/
theorem dropWhile (h : Tiles start len lo xs hi) (hLo : lo ≤ i) (hHi : i ≤ hi) :
    ∃ mid ≤ i, Tiles start len mid (xs.dropWhile fun x => start x + len x ≤ i) hi ∧
      (∀ x ∈ (xs.dropWhile fun x => start x + len x ≤ i).head?, i < start x + len x) ∧
      (xs.dropWhile (fun x => start x + len x ≤ i) = [] → i = hi) := by
  induction xs generalizing lo with
  | nil =>
    obtain rfl : lo = hi := h
    refine ⟨lo, hLo, rfl, fun x hHead => ?_, fun _ => le_antisymm hHi hLo⟩
    cases hHead
  | cons y ys ih =>
    rw [List.dropWhile_cons]
    by_cases hDone : start y + len y ≤ i
    · rw [if_pos (decide_eq_true hDone)]
      exact ih h.2.2 (by have hStart := h.1; omega)
    · rw [if_neg (by simpa using hDone)]
      refine ⟨lo, hLo, h, fun x hHead => ?_, fun hNil => ?_⟩
      · obtain rfl : y = x := by simpa using hHead
        exact Nat.not_le.mp hDone
      · cases hNil

end Tiles

end Library
