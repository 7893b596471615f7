import Minnow.ReassemblerStore

/-! # What one insert does

`Advance` states every change of `place`: the next index moves over the known
bytes to the first unknown one, those bytes are pushed, the later ones stay
pending. Invariants of a whole run only use this and the cases of `insert`.
-/

namespace Minnow.Reassembler

open Library Library.ChunkMap

/-- No chunk reaches past this index; the sum of the source may wrap below it. -/
def windowEnd (self : Reassembler) : Nat :=
  min (self.output.totalPopped + self.output.capacity) (2 ^ 64 - 1)

structure WellFormed (r : Reassembler) : Prop where
  next_eq : r.nextIndex = r.output.totalPushed
  separated : Separated (r.nextIndex + 1) r.windowEnd r.pending

theorem windowEnd_lt (r : Reassembler) : r.windowEnd < 2 ^ 64 := by
  have h : r.windowEnd ≤ 2 ^ 64 - 1 := min_le_right _ _
  omega

theorem streamLimit_le {r : Reassembler} (h : r.nextIndex = r.output.totalPushed) :
    r.streamLimit ≤ r.windowEnd := by
  have hSum : r.nextIndex + r.output.availableCapacity =
      r.output.totalPopped + r.output.capacity := by
    have hLe := r.output.buffer_le
    have hPushed := r.output.pushed_eq
    rw [ByteStream.availableCapacity]
    omega
  rw [streamLimit, hSum]
  exact le_min (u64_le _) (Nat.le_sub_one_of_lt (u64_lt _))

theorem streamLimit_eq {r : Reassembler} (h : r.nextIndex = r.output.totalPushed)
    (hRange : r.output.totalPopped + r.output.capacity < 2 ^ 64) :
    r.streamLimit = r.output.totalPopped + r.output.capacity := by
  have hLe := r.output.buffer_le
  have hPushed := r.output.pushed_eq
  rw [streamLimit, ByteStream.availableCapacity, u64_eq (by omega)]
  omega

/-- The step from `r` to `r'` when exactly the indices in `known` are known beyond `r`. -/
structure Advance (known : Nat → Prop) (r r' : Reassembler) : Prop where
  lastSeen : r'.lastSeen = r.lastSeen
  lastIndex : r'.lastIndex = r.lastIndex
  wellFormed : WellFormed r'
  next_le : r.nextIndex ≤ r'.nextIndex
  assembled : ∀ i, r.nextIndex ≤ i → i < r'.nextIndex → known i
  unknown : ¬ known r'.nextIndex
  pending : ∀ i, Covers r'.pending i ↔ known i ∧ r'.nextIndex < i

structure Carries (S : List Byte) (r r' : Reassembler) : Prop where
  slices : Slices S r'.pending
  pushed : r'.output.buffer =
    r.output.buffer ++ (S.drop r.nextIndex).take (r'.nextIndex - r.nextIndex)
  bound : r.nextIndex ≤ S.length → r'.nextIndex ≤ S.length

theorem advance_self {known : Nat → Prop} {r : Reassembler} (hWell : WellFormed r)
    (hKnown : ∀ i, known i ↔ Covers r.pending i) : Advance known r r := by
  have hLower : ∀ i, Covers r.pending i → r.nextIndex < i :=
    fun i hCov => hWell.separated.le_of_covers hCov
  refine { lastSeen := rfl, lastIndex := rfl, wellFormed := hWell, next_le := le_rfl,
           assembled := ?_, unknown := ?_, pending := ?_ }
  · intro i hLe hLt
    exact absurd hLt (Nat.not_lt.mpr hLe)
  · intro hHere
    exact lt_irrefl _ (hLower r.nextIndex ((hKnown _).mp hHere))
  · intro i
    rw [hKnown]
    exact ⟨fun hCov => ⟨hCov, hLower i hCov⟩, And.left⟩

theorem Advance.known_iff {known : Nat → Prop} {r r' : Reassembler} (h : Advance known r r')
    {i : Nat} (hi : r.nextIndex ≤ i) : known i ↔ i < r'.nextIndex ∨ Covers r'.pending i := by
  rw [h.pending]
  constructor
  · intro hKnown
    obtain hlt | rfl | hgt := lt_trichotomy i r'.nextIndex
    · exact .inl hlt
    · exact absurd hKnown h.unknown
    · exact .inr ⟨hKnown, hgt⟩
  · rintro (hlt | ⟨hKnown, -⟩)
    · exact h.assembled i hi hlt
    · exact hKnown

theorem Advance.close {known : Nat → Prop} {r r' : Reassembler} (h : Advance known r r') :
    Advance known r r'.closeIfAtEnd := by
  unfold closeIfAtEnd
  split
  · exact { h with wellFormed := ⟨h.wellFormed.next_eq, h.wellFormed.separated⟩ }
  · exact h

theorem Carries.close {S : List Byte} {r r' : Reassembler} (h : Carries S r r') :
    Carries S r r'.closeIfAtEnd := by
  unfold closeIfAtEnd
  split
  · exact ⟨h.slices, h.pushed, h.bound⟩
  · exact h

theorem closed_closeIfAtEnd (r : Reassembler) :
    r.closeIfAtEnd.output.closed = (r.output.closed || r.closeIfAtEnd.atEnd) := by
  unfold closeIfAtEnd
  cases h : r.atEnd with
  | false => simp [h]
  | true => simpa [closeOutput, atEnd] using .inr (by simpa [atEnd] using h)

structure SameOutput (s t : ByteStream) : Prop where
  popped : t.totalPopped = s.totalPopped
  capacity : t.capacity = s.capacity
  error : t.error = s.error

theorem SameOutput.trans {s t u : ByteStream} (h : SameOutput s t) (h' : SameOutput t u) :
    SameOutput s u :=
  ⟨h'.popped.trans h.popped, h'.capacity.trans h.capacity, h'.error.trans h.error⟩

theorem flush_sameOutput (r : Reassembler) :
    SameOutput r.output r.flush.output ∧ r.flush.output.closed = r.output.closed := by
  fun_induction flush r with
  | case1 r h => exact ⟨⟨rfl, rfl, rfl⟩, rfl⟩
  | case2 r chunk h ih => exact ⟨⟨ih.1.popped, ih.1.capacity, ih.1.error⟩, ih.2⟩

theorem closeIfAtEnd_sameOutput (r : Reassembler) : SameOutput r.output r.closeIfAtEnd.output := by
  unfold closeIfAtEnd
  split <;> exact ⟨rfl, rfl, rfl⟩

theorem place_sameOutput (r : Reassembler) (firstIndex : Nat) (data : List Byte) :
    SameOutput r.output (r.place firstIndex data).output := by
  unfold place
  split
  · exact ⟨rfl, rfl, rfl⟩
  · dsimp only
    split
    · exact ⟨rfl, rfl, rfl⟩
    · split
      · exact ⟨rfl, rfl, rfl⟩
      · generalize store r.pending _ _ = pending
        exact (flush_sameOutput { r with pending := pending }).1.trans (closeIfAtEnd_sameOutput _)

theorem markEnd_output (r : Reassembler) (firstIndex : Nat) (data : List Byte) (isLast : Bool) :
    (r.markEnd firstIndex data isLast).output = r.output ∧
      (r.markEnd firstIndex data isLast).pending = r.pending ∧
      (r.markEnd firstIndex data isLast).nextIndex = r.nextIndex ∧
      (r.markEnd firstIndex data isLast).lastSeen = (r.lastSeen || isLast) := by
  cases isLast <;> simp [markEnd]

theorem insert_sameOutput (r : Reassembler) (firstIndex : Nat) (data : List Byte) (isLast : Bool) :
    SameOutput r.output (r.insert firstIndex data isLast).output := by
  rw [insert, ← (markEnd_output r firstIndex data isLast).1]
  split
  · exact ⟨rfl, rfl, rfl⟩
  · exact place_sameOutput _ firstIndex data

theorem place_closed {r : Reassembler} {firstIndex : Nat} {data : List Byte}
    (h : (r.place firstIndex data).output.closed = true) :
    r.output.closed = true ∨ (r.place firstIndex data).atEnd = true := by
  unfold place at h ⊢
  split at h
  · exact .inl h
  · dsimp only at h
    split at h
    · exact .inl h
    · split at h
      · exact .inl h
      · rw [closed_closeIfAtEnd, (flush_sameOutput _).2, Bool.or_eq_true] at h
        rename_i hOld hBeyond hEmpty
        simp only [if_neg hOld, if_neg hBeyond, if_neg hEmpty]
        exact h

theorem insert_closed {r : Reassembler} {firstIndex : Nat} {data : List Byte} {isLast : Bool}
    (h : (r.insert firstIndex data isLast).output.closed = true) :
    r.output.closed = true ∨ (r.insert firstIndex data isLast).atEnd = true := by
  rw [← (markEnd_output r firstIndex data isLast).1]
  rw [insert] at h ⊢
  split at h
  · rename_i hEnd
    rw [if_pos hEnd]
    exact .inr hEnd
  · rename_i hEnd
    rw [if_neg hEnd]
    exact place_closed h

theorem closed_insert {r : Reassembler} (h : r.output.closed = true) (firstIndex : Nat)
    (data : List Byte) (isLast : Bool) : (r.insert firstIndex data isLast).output.closed = true := by
  rw [← (markEnd_output r firstIndex data isLast).1] at h
  rw [insert]
  split
  · rfl
  · unfold place
    split
    · exact h
    · dsimp only
      split
      · exact h
      · split
        · exact h
        · rw [closed_closeIfAtEnd, (flush_sameOutput _).2]
          exact (Bool.or_eq_true _ _).mpr (.inl h)

theorem insert_of_closed {r : Reassembler} {firstIndex : Nat} {data : List Byte} {isLast : Bool}
    (hClosed : r.output.closed = true) (hEnd : r.atEnd = true)
    (hLast : isLast = true → u64 (firstIndex + data.length) = r.nextIndex) :
    r.insert firstIndex data isLast = r := by
  have hMark : r.markEnd firstIndex data isLast = r := by
    cases isLast with
    | false => rfl
    | true =>
      obtain ⟨hSeen, hNext⟩ : r.lastSeen = true ∧ r.nextIndex = r.lastIndex := by
        simpa [atEnd] using hEnd
      rw [markEnd, if_pos rfl, (hLast rfl).trans hNext, ← hSeen]
  have hClose : r.output.close = r.output := ByteStream.ext rfl rfl rfl rfl rfl hClosed.symm
  rw [insert, hMark, if_pos hEnd, closeOutput, hClose]

theorem flush_none {r : Reassembler} (h : r.pending.find? r.nextIndex = none) : r.flush = r := by
  rw [flush]
  split
  · rfl
  · rename_i hSome
    rw [h] at hSome
    cases hSome

theorem flush_some {r : Reassembler} {chunk : List Byte}
    (h : r.pending.find? r.nextIndex = some chunk) :
    r.flush = flush { r with
      output := r.output.push chunk
      nextIndex := r.nextIndex + chunk.length
      pending := r.pending.erase r.nextIndex } := by
  rw [flush]
  split
  · rename_i hNone
    rw [h] at hNone
    cases hNone
  · rename_i chunk' hSome
    rw [h] at hSome
    cases hSome
    rfl

theorem flush_cases {r : Reassembler} (hSep : Separated r.nextIndex r.windowEnd r.pending) :
    (r.flush = r ∧ r.pending.find? r.nextIndex = none) ∨
    ∃ chunk, (r.nextIndex, chunk) ∈ r.pending ∧ r.flush = { r with
      output := r.output.push chunk
      nextIndex := r.nextIndex + chunk.length
      pending := r.pending.erase r.nextIndex } := by
  cases hFind : r.pending.find? r.nextIndex with
  | none => exact .inl ⟨flush_none hFind, rfl⟩
  | some chunk =>
    have hMem := SortedMap.find?_eq_some.mp hFind
    refine .inr ⟨chunk, hMem, ?_⟩
    rw [flush_some hFind]
    apply flush_none
    refine SortedMap.find?_eq_none.mpr fun v hMem' => ?_
    obtain ⟨hMem', hNe⟩ := SortedMap.mem_erase.mp hMem'
    have hGap := hSep.gap hMem hMem' (lt_of_le_of_ne (hSep.lower hMem') (Ne.symm hNe))
    exact lt_irrefl _ hGap

theorem push_fits {r : Reassembler} (hNext : r.nextIndex = r.output.totalPushed)
    {chunk : List Byte} (h : r.nextIndex + chunk.length ≤ r.windowEnd) :
    chunk.length ≤ r.output.availableCapacity := by
  have hWindow : r.windowEnd ≤ r.output.totalPopped + r.output.capacity := min_le_left _ _
  have hPushed := r.output.pushed_eq
  rw [ByteStream.availableCapacity]
  omega

theorem flush_advance {r : Reassembler} (hNext : r.nextIndex = r.output.totalPushed)
    (hSep : Separated r.nextIndex r.windowEnd r.pending) :
    Advance (Covers r.pending) r r.flush := by
  obtain ⟨hFlush, hFind⟩ | ⟨chunk, hMem, hFlush⟩ := flush_cases hSep
  · have hSep' : Separated (r.nextIndex + 1) r.windowEnd r.pending := by
      apply hSep.raise
      intro k v hMem
      have hNe : k ≠ r.nextIndex := by
        rintro rfl
        exact SortedMap.find?_eq_none.mp hFind v hMem
      have hLe := hSep.lower hMem
      omega
    rw [hFlush]
    exact advance_self ⟨hNext, hSep'⟩ fun _ => Iff.rfl
  · have hFits := push_fits hNext (hSep.upper hMem)
    have hAfter : ∀ {k v}, (k, v) ∈ r.pending.erase r.nextIndex →
        r.nextIndex + chunk.length + 1 ≤ k := by
      intro k v hMem'
      obtain ⟨hMem', hNe⟩ := SortedMap.mem_erase.mp hMem'
      exact hSep.gap hMem hMem' (lt_of_le_of_ne (hSep.lower hMem') (Ne.symm hNe))
    have hSep' := (hSep.erase r.nextIndex).raise hAfter
    have hSplit : ∀ i, Covers r.pending i ↔
        Covers (r.pending.erase r.nextIndex) i ∨ Within r.nextIndex chunk i :=
      fun i => covers_iff_erase hMem
    rw [hFlush]
    refine { lastSeen := rfl, lastIndex := rfl, wellFormed := ⟨?_, hSep'⟩,
             next_le := Nat.le_add_right _ _, assembled := ?_,
             unknown := hSep.not_covers_end hMem, pending := ?_ }
    · rw [ByteStream.push_totalPushed_of_le hFits, hNext]
    · intro i hLe hLt
      exact (hSplit i).mpr (.inr ⟨hLe, hLt⟩)
    · intro i
      constructor
      · intro hCov
        exact ⟨(hSplit i).mpr (.inl hCov), hSep'.le_of_covers hCov⟩
      · rintro ⟨hCov, hLt⟩
        obtain hCov | hIn := (hSplit i).mp hCov
        · exact hCov
        · exact absurd hLt (Nat.not_lt.mpr hIn.2.le)

theorem flush_carries {r : Reassembler} (hNext : r.nextIndex = r.output.totalPushed)
    (hSep : Separated r.nextIndex r.windowEnd r.pending) {S : List Byte}
    (hSlices : Slices S r.pending) : Carries S r r.flush := by
  obtain ⟨hFlush, _⟩ | ⟨chunk, hMem, hFlush⟩ := flush_cases hSep
  · rw [hFlush]
    exact ⟨hSlices, by simp, id⟩
  · have hFits := push_fits hNext (hSep.upper hMem)
    have hPrefix := hSlices hMem
    have hLength := hPrefix.length_le
    rw [List.length_drop] at hLength
    rw [hFlush]
    refine ⟨hSlices.erase _, ?_, fun hBound => ?_⟩
    · rw [ByteStream.push_buffer, List.take_of_length_le hFits, Nat.add_sub_cancel_left]
      exact congrArg _ (List.prefix_iff_eq_take.mp hPrefix)
    · change r.nextIndex + chunk.length ≤ S.length
      omega

section Trim

variable {firstIndex nextIndex streamLimit : Nat} {data : List Byte}

theorem leftTrim_eq : leftTrim nextIndex firstIndex data =
    (max firstIndex nextIndex, data.drop (nextIndex - firstIndex)) := by
  unfold leftTrim
  split
  · rename_i hLt
    rw [max_eq_right hLt.le]
  · rename_i hLe
    rw [max_eq_left (Nat.not_lt.mp hLe), Nat.sub_eq_zero_of_le (Nat.not_lt.mp hLe), List.drop_zero]

theorem rightTrim_eq (h : firstIndex + data.length < 2 ^ 64) :
    rightTrim streamLimit firstIndex data = data.take (streamLimit - firstIndex) := by
  rw [rightTrim, u64_eq h]
  split
  · have hPad : streamLimit - firstIndex - data.length = 0 := by omega
    rw [resize, hPad, List.replicate_zero, List.append_nil]
  · rw [List.take_of_length_le (by omega)]

end Trim

/-- An index is known once a chunk holds it or the new data brings it inside the window. -/
def Known (r : Reassembler) (firstIndex : Nat) (data : List Byte) (i : Nat) : Prop :=
  Covers r.pending i ∨ Within firstIndex data i ∧ r.nextIndex ≤ i ∧ i < r.streamLimit

/-- What `place` goes into the flushing loop with; `none` on an early return. -/
def beforeFlush (self : Reassembler) (firstIndex : Nat) (data : List Byte) : Option Reassembler :=
  if u64 (firstIndex + data.length) ≤ self.nextIndex then none
  else
    let (firstIndex, data) := leftTrim self.nextIndex firstIndex data
    if self.streamLimit ≤ firstIndex then none
    else
      let data := rightTrim self.streamLimit firstIndex data
      if data.isEmpty then none
      else some { self with pending := store self.pending firstIndex data }

theorem place_eq (r : Reassembler) (firstIndex : Nat) (data : List Byte) :
    r.place firstIndex data =
      ((r.beforeFlush firstIndex data).map fun s => s.flush.closeIfAtEnd).getD r := by
  unfold place beforeFlush
  split
  · rfl
  · dsimp only
    split
    · rfl
    · split <;> rfl

theorem beforeFlush_eq (r : Reassembler) {firstIndex : Nat} {data : List Byte}
    (hEnd : firstIndex + data.length < 2 ^ 64) :
    let index := max firstIndex r.nextIndex
    let trimmed := (data.drop (r.nextIndex - firstIndex)).take (r.streamLimit - index)
    (r.beforeFlush firstIndex data = none ∧ trimmed = []) ∨
    (r.beforeFlush firstIndex data = some { r with pending := store r.pending index trimmed } ∧
      trimmed ≠ []) := by
  intro index trimmed
  rw [beforeFlush, u64_eq hEnd]
  split
  · rename_i hOld
    refine .inl ⟨rfl, ?_⟩
    rw [List.take_eq_nil_iff, List.drop_eq_nil_iff]
    omega
  · rename_i hNew
    have hRight :
        rightTrim r.streamLimit index (data.drop (r.nextIndex - firstIndex)) = trimmed := by
      apply rightTrim_eq
      rw [List.length_drop]
      omega
    simp only [leftTrim_eq]
    split
    · rename_i hBeyond
      refine .inl ⟨rfl, ?_⟩
      rw [List.take_eq_nil_iff]
      omega
    · rw [hRight]
      split
      · rename_i hEmpty
        exact .inl ⟨rfl, List.isEmpty_iff.mp hEmpty⟩
      · rename_i hEmpty
        exact .inr ⟨rfl, fun hNil => hEmpty (List.isEmpty_iff.mpr hNil)⟩

/-- Whatever the trimmed data is merged into stays inside the window. -/
theorem stored_spec {r : Reassembler} (hWell : WellFormed r) {firstIndex : Nat} {data : List Byte}
    (hNe : (data.drop (r.nextIndex - firstIndex)).take
      (r.streamLimit - max firstIndex r.nextIndex) ≠ []) :
    let index := max firstIndex r.nextIndex
    let trimmed := (data.drop (r.nextIndex - firstIndex)).take (r.streamLimit - index)
    Separated r.nextIndex r.windowEnd (store r.pending index trimmed) ∧
      (∀ i, Covers (store r.pending index trimmed) i ↔
        Covers r.pending i ∨ Within index trimmed i) ∧
      ∀ S, Slices S r.pending → trimmed <+: S.drop index →
        Slices S (store r.pending index trimmed) := by
  intro index trimmed
  have hSep : Separated r.nextIndex r.windowEnd r.pending :=
    hWell.separated.mono (Nat.le_succ _) le_rfl
  have hUpper : index + trimmed.length ≤ r.windowEnd := by
    have hLimit := streamLimit_le hWell.next_eq
    have hPos := List.length_pos_iff.mpr hNe
    simp only [trimmed, List.length_take] at hPos ⊢
    omega
  exact store_spec hSep (windowEnd_lt r) hNe (le_max_right firstIndex r.nextIndex) hUpper

theorem within_trimmed (r : Reassembler) (firstIndex : Nat) (data : List Byte) (i : Nat) :
    Within (max firstIndex r.nextIndex) ((data.drop (r.nextIndex - firstIndex)).take
        (r.streamLimit - max firstIndex r.nextIndex)) i ↔
      Within firstIndex data i ∧ r.nextIndex ≤ i ∧ i < r.streamLimit := by
  simp only [Within, List.length_take, List.length_drop]
  omega

theorem trimmed_isPrefix (r : Reassembler) {firstIndex : Nat} {data S : List Byte}
    (h : data <+: S.drop firstIndex) (n : Nat) :
    (data.drop (r.nextIndex - firstIndex)).take n <+: S.drop (max firstIndex r.nextIndex) := by
  have hIndex : max firstIndex r.nextIndex = firstIndex + (r.nextIndex - firstIndex) := by omega
  rw [hIndex, ← List.drop_drop]
  exact (List.take_prefix _ _).trans (h.drop _)

theorem place_spec {r : Reassembler} (hWell : WellFormed r) (hNotEnd : r.atEnd = false)
    {firstIndex : Nat} {data : List Byte} (hEnd : firstIndex + data.length < 2 ^ 64) :
    Advance (r.Known firstIndex data) r (r.place firstIndex data) ∧
      (r.place firstIndex data).output.closed =
        (r.output.closed || (r.place firstIndex data).atEnd) ∧
      ∀ S, Slices S r.pending → data <+: S.drop firstIndex →
        Carries S r (r.place firstIndex data) := by
  obtain ⟨hBefore, hNil⟩ | ⟨hBefore, hNe⟩ := beforeFlush_eq r hEnd
  · have hPlace : r.place firstIndex data = r := by rw [place_eq, hBefore]; rfl
    have hKnown : ∀ i, r.Known firstIndex data i ↔ Covers r.pending i := by
      intro i
      rw [Known, ← within_trimmed, hNil]
      exact or_iff_left fun h => absurd (h.1.trans_lt h.2) (lt_irrefl _)
    rw [hPlace]
    refine ⟨advance_self hWell hKnown, ?_, ?_⟩
    · rw [hNotEnd, Bool.or_false]
    · intro S hSlices _
      exact ⟨hSlices, by simp, id⟩
  · obtain ⟨hStored, hCovers, hSlices⟩ := stored_spec hWell hNe
    generalize store r.pending _ _ = pending at hBefore hStored hCovers hSlices
    have hPlace : r.place firstIndex data = { r with pending := pending }.flush.closeIfAtEnd := by
      rw [place_eq, hBefore]
      rfl
    have hAdvance := flush_advance (r := { r with pending := pending }) hWell.next_eq hStored
    have hKnown : Covers pending = r.Known firstIndex data := by
      funext i
      rw [hCovers, within_trimmed, Known]
    simp only [hKnown] at hAdvance
    rw [hPlace]
    refine ⟨?_, ?_, ?_⟩
    · exact { hAdvance.close with }
    · rw [closed_closeIfAtEnd, (flush_sameOutput _).2]
    · intro S hOld hData
      have hCarries := (flush_carries (r := { r with pending := pending }) hWell.next_eq hStored
        (hSlices S hOld (trimmed_isPrefix r hData _))).close
      exact ⟨hCarries.slices, hCarries.pushed, hCarries.bound⟩

theorem WellFormed.markEnd {r : Reassembler} (h : WellFormed r) (firstIndex : Nat)
    (data : List Byte) (isLastSubstring : Bool) :
    WellFormed (r.markEnd firstIndex data isLastSubstring) := by
  unfold Reassembler.markEnd
  split
  · exact ⟨h.next_eq, h.separated⟩
  · exact h

theorem WellFormed.pop {r : Reassembler} (h : WellFormed r) (len : Nat) : WellFormed (r.pop len) := by
  refine ⟨h.next_eq, h.separated.mono le_rfl ?_⟩
  simp only [windowEnd, Reassembler.pop, ByteStream.pop_totalPopped, ByteStream.pop_capacity]
  omega

end Minnow.Reassembler
