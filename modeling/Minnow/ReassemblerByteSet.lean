import Minnow.Library.Run
import Minnow.ReassemblerStream

/-! # The reassembler refines a set of indices

The abstract model forgets chunks, trims and merges: it keeps the indices that
were offered inside the window and whether the end was announced. Everything
the reassembler shows is a function of these and the stream.
-/

namespace Minnow.Reassembler

open Library Library.ChunkMap

inductive Action where
  | insert (i j : Nat) (isLastSubstring : Bool)
  | pop (len : Nat)
deriving DecidableEq

def step (S : List Byte) (r : Reassembler) : Action → Reassembler
  | .insert i j isLast => r.insert i (S.extract i j) isLast
  | .pop len => r.pop len

def Substring (S : List Byte) (_ : Reassembler) : Action → Prop
  | .insert i j isLast => i ≤ j ∧ j ≤ S.length ∧ (isLast = true → j = S.length)
  | .pop _ => True

instance (S : List Byte) (r : Reassembler) (a : Action) : Decidable (Substring S r a) :=
  match a with
  | .insert i j isLast =>
    inferInstanceAs (Decidable (i ≤ j ∧ j ≤ S.length ∧ (isLast = true → j = S.length)))
  | .pop _ => instDecidableTrue

/-- The byte-set model, with the bytes the reader has popped. -/
structure ByteSet where
  seen : Finset Nat
  ended : Bool
  delivered : List Byte

namespace ByteSet

def initial : ByteSet := ⟨∅, false, []⟩

/-- An insert adds the indices of the substring that lie below `bytes_popped + capacity`. -/
def record (x : ByteSet) (r : Reassembler) : Action → ByteSet
  | .insert i j isLast =>
    { x with
      seen := x.seen ∪
        (Finset.Ico i j).filter (fun k => k < r.output.bytesPopped + r.output.capacity)
      ended := x.ended || isLast }
  | .pop len => { x with delivered := x.delivered ++ r.output.peek.take len }

end ByteSet

def HasByte (r : Reassembler) (i : Nat) (b : Byte) : Prop :=
  ∃ k v, (k, v) ∈ r.pending ∧ k ≤ i ∧ v[i - k]? = some b

structure Refines (S : List Byte) (capacity : Nat) (r : Reassembler) (x : ByteSet) : Prop where
  assembles : Assembles S true r
  capacity : r.output.capacity = capacity
  delivered : x.delivered = S.take r.output.totalPopped
  seen : ∀ i, i ∈ x.seen ↔ i < r.nextIndex ∨ Covers r.pending i
  ended : x.ended = r.lastSeen

section Step

variable {S : List Byte} {capacity : Nat} {r : Reassembler} {x : ByteSet}

theorem Refines.streamLimit_eq (h : Refines S capacity r x)
    (hRange : S.length + capacity < 2 ^ 64) :
    r.streamLimit = r.output.totalPopped + r.output.capacity := by
  have hPopped := h.assembles.popped_le
  have hBound := h.assembles.bound
  apply Reassembler.streamLimit_eq h.assembles.wellFormed.next_eq
  rw [h.capacity]
  omega

theorem Refines.mem_record (h : Refines S capacity r x) (hRange : S.length + capacity < 2 ^ 64)
    {i j : Nat} (isLast : Bool) (hij : i ≤ j) (hj : j ≤ S.length) (k : Nat) :
    k ∈ (x.record r (.insert i j isLast)).seen ↔
      (k < r.nextIndex ∨ Covers r.pending k) ∨
        Within i (S.extract i j) k ∧ k < r.streamLimit := by
  simp only [ByteSet.record, Finset.mem_union, Finset.mem_filter, Finset.mem_Ico, h.seen]
  rw [Within, extract_end hij hj, h.streamLimit_eq hRange]
  rfl

/-- What the abstract model records of an insert is what the reassembler knows after it. -/
theorem Refines.seen_insert (h : Refines S capacity r x) (hRange : S.length + capacity < 2 ^ 64)
    {i j : Nat} {isLast : Bool} (hij : i ≤ j) (hj : j ≤ S.length)
    (hLast : isLast = true → true = true ∧ i + (S.extract i j).length = S.length) (k : Nat) :
    k ∈ (x.record r (.insert i j isLast)).seen ↔
      k < (r.insert i (S.extract i j) isLast).nextIndex ∨
        Covers (r.insert i (S.extract i j) isLast).pending k := by
  have hS : S.length < 2 ^ 64 := by omega
  have hFits : i + (S.extract i j).length ≤ S.length := (extract_end hij hj).trans_le hj
  obtain ⟨-, hPending, hNext, -⟩ := markEnd_output r i (S.extract i j) isLast
  rw [h.mem_record hRange isLast hij hj]
  obtain ⟨hEq, -, hFull⟩ | ⟨hEq, -, hAdvance, -, -⟩ := h.assembles.insert_cases hS hFits hLast
  · -- everything below the end is already assembled
    rw [hEq]
    simp only [closeOutput, hPending, hNext]
    apply or_iff_left_of_imp
    rintro ⟨hIn, -⟩
    left
    rw [hFull]
    exact hIn.2.trans_le hFits
  · have hLe := hAdvance.next_le
    have hKnown := hAdvance.known_iff (i := k)
    rw [hEq]
    rw [hNext] at hLe hKnown
    obtain hk | hk := Nat.lt_or_ge k r.nextIndex
    · exact iff_of_true (.inl (.inl hk)) (.inl (hk.trans_le hLe))
    · rw [← hKnown hk, or_iff_right (Nat.not_lt.mpr hk), Known, and_iff_right hk]

theorem Refines.insert (h : Refines S capacity r x) (hRange : S.length + capacity < 2 ^ 64)
    {i j : Nat} {isLast : Bool} (hij : i ≤ j) (hj : j ≤ S.length)
    (hLast : isLast = true → j = S.length) :
    Refines S capacity (r.insert i (S.extract i j) isLast) (x.record r (.insert i j isLast)) := by
  have hS : S.length < 2 ^ 64 := by omega
  have hEnd : i + (S.extract i j).length = j := extract_end hij hj
  have hFits : i + (S.extract i j).length ≤ S.length := hEnd.trans_le hj
  have hLast' : isLast = true → true = true ∧ i + (S.extract i j).length = S.length :=
    fun hTrue => ⟨rfl, hEnd.trans (hLast hTrue)⟩
  have hSame := insert_sameOutput r i (S.extract i j) isLast
  refine { assembles := ?_, capacity := hSame.capacity.trans h.capacity, delivered := ?_,
           seen := h.seen_insert hRange hij hj hLast', ended := ?_ }
  · exact h.assembles.insert hS (extract_prefix_drop S i j) hFits hLast'
  · rw [hSame.popped]
    exact h.delivered
  · have hForward := h.assembles.insert_forward hS hFits hLast'
    rw [hForward.2.2, ← h.ended]
    rfl

theorem Refines.pop (h : Refines S capacity r x) (len : Nat) :
    Refines S capacity (r.pop len) (x.record r (.pop len)) where
  assembles := h.assembles.pop len
  capacity := h.capacity
  delivered := by
    rw [← h.assembles.take_append_pop len, ← h.delivered]
    rfl
  seen := h.seen
  ended := h.ended

theorem Refines.step (hRange : S.length + capacity < 2 ^ 64) (h : Refines S capacity r x)
    {a : Action} (hOk : Substring S r a) : Refines S capacity (step S r a) (x.record r a) := by
  cases a with
  | insert i j isLast => exact h.insert hRange hOk.1 hOk.2.1 hOk.2.2
  | pop len => exact h.pop len

theorem Refines.isGreatest (h : Refines S capacity r x) :
    IsGreatest {n | ∀ i < n, i ∈ x.seen} r.nextIndex := by
  constructor
  · intro i hi
    exact (h.seen i).mpr (.inl hi)
  · intro n hn
    by_contra hLt
    obtain hlt | hCov := (h.seen r.nextIndex).mp (hn _ (Nat.not_le.mp hLt))
    · exact lt_irrefl _ hlt
    · exact absurd (h.assembles.wellFormed.separated.le_of_covers hCov) (Nat.not_succ_le_self _)

theorem Refines.covers_iff (h : Refines S capacity r x) (i : Nat) :
    Covers r.pending i ↔ i ∈ x.seen ∧ r.nextIndex < i := by
  rw [h.seen]
  constructor
  · intro hCov
    exact ⟨.inr hCov, h.assembles.wellFormed.separated.le_of_covers hCov⟩
  · rintro ⟨hlt | hCov, hgt⟩
    · exact absurd hlt (Nat.not_lt.mpr hgt.le)
    · exact hCov

theorem Refines.hasByte_iff (h : Refines S capacity r x) (i : Nat) (b : Byte) :
    HasByte r i b ↔ i ∈ x.seen ∧ r.nextIndex < i ∧ S[i]? = some b := by
  have hSlice : ∀ {k v}, (k, v) ∈ r.pending → k ≤ i → i < k + v.length → v[i - k]? = S[i]? := by
    intro k v hMem hLe hLt
    obtain ⟨rest, hRest⟩ := h.assembles.slices hMem
    rw [← List.getElem?_append_left (by omega : i - k < v.length), hRest, List.getElem?_drop,
      Nat.add_sub_cancel' hLe]
  rw [← and_assoc, ← h.covers_iff]
  constructor
  · rintro ⟨k, v, hMem, hLe, hGet⟩
    obtain ⟨hLt, _⟩ := List.getElem?_eq_some_iff.mp hGet
    have hLt' : i < k + v.length := by omega
    exact ⟨⟨k, v, hMem, hLe, hLt'⟩, (hSlice hMem hLe hLt').symm.trans hGet⟩
  · rintro ⟨⟨k, v, hMem, hLe, hLt⟩, hGet⟩
    exact ⟨k, v, hMem, hLe, (hSlice hMem hLe hLt).trans hGet⟩

theorem Refines.countBytesPending_eq (h : Refines S capacity r x) :
    r.countBytesPending = (x.seen.filter (r.nextIndex < ·)).card := by
  rw [countBytesPending, ← h.assembles.wellFormed.separated.card_indices]
  congr 1
  ext i
  rw [Finset.mem_filter, mem_indicesOf, ← h.covers_iff]
  rfl

theorem Refines.pushed_eq (h : Refines S capacity r x) :
    x.delivered ++ r.output.peek = S.take r.nextIndex := by
  rw [h.delivered, h.assembles.take_append_buffer]

end Step

theorem refines_new (S : List Byte) (capacity : Nat) :
    Refines S capacity (new (ByteStream.new capacity)) ByteSet.initial where
  assembles := assembles_new S true capacity
  capacity := rfl
  delivered := rfl
  seen i := by simp [ByteSet.initial, new, not_covers_empty]
  ended := rfl

/-- After any calls with substrings of `S` and any pops, the bytes pushed are the longest
prefix of `S` whose indices were all seen, the pending bytes are the seen ones above it,
and the output is closed exactly when the end was announced and reached. -/
theorem run_refines_byteSet (S : List Byte) (capacity : Nat) (actions : List Action)
    (hRange : S.length + capacity < 2 ^ 64)
    (hOk : Run.Along (step S) (Substring S) (new (ByteStream.new capacity)) actions) :
    let reached := Run.run (Run.withHistory (step S) ByteSet.record)
      (new (ByteStream.new capacity), ByteSet.initial) actions
    let r := reached.1
    let x := reached.2
    let n := r.output.bytesPushed
    n ≤ S.length ∧ x.delivered ++ r.output.peek = S.take n ∧
      IsGreatest {n | ∀ i < n, i ∈ x.seen} n ∧
      (∀ i b, HasByte r i b ↔ i ∈ x.seen ∧ n < i ∧ S[i]? = some b) ∧
      r.countBytesPending = (x.seen.filter (n < ·)).card ∧
      (r.output.isClosed = true ↔ x.ended = true ∧ n = S.length) := by
  intro reached r x n
  have h : Refines S capacity r x := by
    refine Run.invariant (P := fun y : Reassembler × ByteSet => Refines S capacity y.1 y.2)
      (fun y a hOk h => h.step hRange hOk) (Run.along_withHistory.mpr hOk) ?_
    exact refines_new S capacity
  have hNext : n = r.nextIndex := h.assembles.wellFormed.next_eq.symm
  rw [hNext]
  refine ⟨h.assembles.bound, h.pushed_eq, h.isGreatest, h.hasByte_iff, h.countBytesPending_eq, ?_⟩
  rw [ByteStream.isClosed, h.assembles.closed_iff, h.ended]

theorem run_refines_byteSet_hole :
    let S : List Byte := [1, 2, 3, 4, 5]
    let reached := Run.run (Run.withHistory (step S) ByteSet.record)
      (new (ByteStream.new 5), ByteSet.initial)
      [.insert 2 4 false, .insert 3 5 true, .pop 1, .insert 0 2 false]
    reached.1.output.bytesPushed = 5 ∧
      (reached.1.output.isClosed = true ↔ reached.2.ended = true ∧ 5 = S.length) := by
  have h := run_refines_byteSet [1, 2, 3, 4, 5] 5
    [.insert 2 4 false, .insert 3 5 true, .pop 1, .insert 0 2 false] (by decide) (by decide +kernel)
  have hPushed : (Run.run (step [1, 2, 3, 4, 5]) (new (ByteStream.new 5))
      [.insert 2 4 false, .insert 3 5 true, .pop 1, .insert 0 2 false]).output.bytesPushed = 5 := by
    decide +kernel
  simp only [Run.run_withHistory_fst] at h ⊢
  rw [hPushed] at h
  exact ⟨hPushed, h.2.2.2.2.2⟩

end Minnow.Reassembler
