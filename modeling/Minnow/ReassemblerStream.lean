import Minnow.ReassemblerInsert

/-! # Reassembling the slices of one stream

`Assembles S ended r` says that everything `r` holds or has pushed comes from
`S`, and that an end of stream it was told about is the end of `S`. The stream
may still grow while it has not ended.
-/

namespace Minnow.Reassembler

open Library Library.ChunkMap

structure Assembles (S : List Byte) (ended : Bool) (r : Reassembler) : Prop where
  wellFormed : WellFormed r
  slices : Slices S r.pending
  buffer_eq : r.output.buffer = (S.take r.nextIndex).drop r.output.totalPopped
  bound : r.nextIndex ≤ S.length
  last : r.lastSeen = true → ended = true ∧ r.lastIndex = S.length
  closed_iff : r.output.closed = true ↔ r.lastSeen = true ∧ r.nextIndex = S.length

theorem wellFormed_new (capacity : Nat) : WellFormed (new (ByteStream.new capacity)) :=
  ⟨rfl, separated_empty _ _⟩

theorem assembles_new (S : List Byte) (ended : Bool) (capacity : Nat) :
    Assembles S ended (new (ByteStream.new capacity)) where
  wellFormed := wellFormed_new capacity
  slices := slices_empty S
  buffer_eq := by simp [new]
  bound := Nat.zero_le _
  last h := by cases h
  closed_iff := by simp [new]

/-- A substring is a prefix of what comes from its first index on. -/
theorem extract_prefix_drop (S : List Byte) (i j : Nat) : S.extract i j <+: S.drop i := by
  rw [List.extract_eq_take_drop]
  exact List.take_prefix _ _

theorem extract_end {S : List Byte} {i j : Nat} (hij : i ≤ j) (hj : j ≤ S.length) :
    i + (S.extract i j).length = j := by
  rw [List.extract_eq_take_drop, List.length_take, List.length_drop]
  omega

section Insert

variable {S data : List Byte} {ended isLast : Bool} {r : Reassembler} {firstIndex : Nat}

theorem atEnd_iff {n : Nat} (hLast : r.lastSeen = true → r.lastIndex = n) :
    r.atEnd = true ↔ r.lastSeen = true ∧ r.nextIndex = n := by
  rw [atEnd, Bool.and_eq_true, beq_iff_eq]
  apply and_congr_right
  intro hSeen
  rw [hLast hSeen]

theorem Assembles.popped_le (h : Assembles S ended r) : r.output.totalPopped ≤ r.nextIndex := by
  rw [h.wellFormed.next_eq, r.output.pushed_eq]
  exact Nat.le_add_right _ _

theorem Assembles.buffer_append (h : Assembles S ended r) {n : Nat} (hLe : r.nextIndex ≤ n) :
    r.output.buffer ++ (S.drop r.nextIndex).take (n - r.nextIndex) =
      (S.take n).drop r.output.totalPopped := by
  have hTake : S.take n = S.take r.nextIndex ++ (S.drop r.nextIndex).take (n - r.nextIndex) := by
    rw [← List.take_add, Nat.add_sub_cancel' hLe]
  have hLength : r.output.totalPopped ≤ (S.take r.nextIndex).length := by
    rw [List.length_take, min_eq_left h.bound]
    exact h.popped_le
  rw [h.buffer_eq, hTake, List.drop_append_of_le_length hLength]

theorem Assembles.last_markEnd (h : Assembles S ended r) (hLen : S.length < 2 ^ 64)
    (hLast : isLast = true → ended = true ∧ firstIndex + data.length = S.length)
    (hSeen : (r.markEnd firstIndex data isLast).lastSeen = true) :
    ended = true ∧ (r.markEnd firstIndex data isLast).lastIndex = S.length := by
  cases isLast with
  | false => exact h.last hSeen
  | true =>
    obtain ⟨hEnded, hEnd⟩ := hLast rfl
    refine ⟨hEnded, ?_⟩
    change u64 (firstIndex + data.length) = S.length
    rw [hEnd, u64_eq hLen]

/-- The two ways `insert` goes on a genuine slice of the stream. -/
theorem Assembles.insert_cases (h : Assembles S ended r) (hLen : S.length < 2 ^ 64)
    (hEnd : firstIndex + data.length ≤ S.length)
    (hLast : isLast = true → ended = true ∧ firstIndex + data.length = S.length) :
    let marked := r.markEnd firstIndex data isLast
    (r.insert firstIndex data isLast = marked.closeOutput ∧ marked.lastSeen = true ∧
      r.nextIndex = S.length) ∨
    (r.insert firstIndex data isLast = marked.place firstIndex data ∧
      ¬ (marked.lastSeen = true ∧ r.nextIndex = S.length) ∧
      Advance (r.Known firstIndex data) marked (marked.place firstIndex data) ∧
      (marked.place firstIndex data).output.closed =
        (r.output.closed || (marked.place firstIndex data).atEnd) ∧
      (data <+: S.drop firstIndex → Carries S marked (marked.place firstIndex data))) := by
  intro marked
  obtain ⟨hOutput, hPending, hNext, -⟩ := markEnd_output r firstIndex data isLast
  have hAtEnd : marked.atEnd = true ↔ marked.lastSeen = true ∧ r.nextIndex = S.length := by
    rw [← hNext]
    exact atEnd_iff fun hSeen => (h.last_markEnd hLen hLast hSeen).2
  rw [insert]
  cases hEq : marked.atEnd with
  | true =>
    rw [if_pos rfl]
    exact .inl ⟨rfl, hAtEnd.mp hEq⟩
  | false =>
    have hKnown : marked.Known firstIndex data = r.Known firstIndex data := by
      unfold Known streamLimit
      rw [hOutput, hPending, hNext]
    obtain ⟨hAdvance, hClosed, hCarries⟩ :=
      place_spec (h.wellFormed.markEnd firstIndex data isLast) hEq (hEnd.trans_lt hLen)
    rw [if_neg Bool.false_ne_true]
    refine .inr ⟨rfl, ?_, hKnown ▸ hAdvance, ?_, ?_⟩
    · intro hBoth
      rw [hAtEnd.mpr hBoth] at hEq
      cases hEq
    · rw [hClosed, hOutput]
    · exact hCarries S (by rw [hPending]; exact h.slices)

theorem Assembles.insert (h : Assembles S ended r) (hLen : S.length < 2 ^ 64)
    (hData : data <+: S.drop firstIndex) (hEnd : firstIndex + data.length ≤ S.length)
    (hLast : isLast = true → ended = true ∧ firstIndex + data.length = S.length) :
    Assembles S ended (r.insert firstIndex data isLast) := by
  obtain ⟨hOutput, hPending, hNext, hSeen⟩ := markEnd_output r firstIndex data isLast
  have hMark := h.last_markEnd hLen hLast
  obtain ⟨hEq, hAtEnd⟩ | ⟨hEq, hNotEnd, hAdvance, hClosed, hCarries⟩ :=
    h.insert_cases hLen hEnd hLast
  · rw [hEq]
    have hWell := h.wellFormed.markEnd firstIndex data isLast
    refine { wellFormed := ⟨hWell.next_eq, hWell.separated⟩, slices := ?_, buffer_eq := ?_,
             bound := ?_, last := hMark, closed_iff := ?_ }
    · exact hPending.symm ▸ h.slices
    · change (r.markEnd firstIndex data isLast).output.buffer = _
      simp only [closeOutput, ByteStream.close_totalPopped, hOutput, hNext, h.buffer_eq]
    · exact hNext.symm ▸ h.bound
    · simp only [closeOutput, ByteStream.close_closed, hNext, true_iff]
      exact hAtEnd
  · have hCarries := hCarries hData
    have hPlaced := place_sameOutput (r.markEnd firstIndex data isLast) firstIndex data
    rw [hEq]
    generalize (r.markEnd firstIndex data isLast).place firstIndex data = r' at *
    have hLast' : r'.lastSeen = true → ended = true ∧ r'.lastIndex = S.length := by
      rw [hAdvance.lastSeen, hAdvance.lastIndex]
      exact hMark
    have hAtEnd' := atEnd_iff fun hSeen => (hLast' hSeen).2
    have hLe : r.nextIndex ≤ r'.nextIndex := hNext ▸ hAdvance.next_le
    have hBound : r'.nextIndex ≤ S.length := hCarries.bound (hNext.symm ▸ h.bound)
    refine { wellFormed := hAdvance.wellFormed, slices := hCarries.slices, buffer_eq := ?_,
             bound := hBound, last := hLast', closed_iff := ?_ }
    · rw [hCarries.pushed, hPlaced.popped, hOutput, hNext]
      exact h.buffer_append hLe
    · rw [hClosed, Bool.or_eq_true, hAtEnd', h.closed_iff]
      apply or_iff_right_of_imp
      rintro ⟨hSeenOld, hNextOld⟩
      refine absurd ⟨?_, hNextOld⟩ hNotEnd
      rw [hSeen, hSeenOld, Bool.true_or]

/-- Nothing at all changes nothing. -/
theorem Assembles.insert_nil (h : Assembles S ended r) (hIndex : firstIndex < 2 ^ 64) :
    r.insert firstIndex [] false = r := by
  cases hEnd : r.atEnd with
  | true =>
    have hClosed := h.closed_iff.mpr ((atEnd_iff fun hSeen => (h.last hSeen).2).mp hEnd)
    exact insert_of_closed hClosed hEnd nofun
  | false =>
    have hMark : r.markEnd firstIndex [] false = r := rfl
    have hRange : firstIndex + ([] : List Byte).length < 2 ^ 64 := hIndex
    obtain ⟨hNone, -⟩ | ⟨-, hSome⟩ := r.beforeFlush_eq hRange
    · rw [Reassembler.insert, hMark, hEnd, if_neg Bool.false_ne_true, place_eq, hNone]
      rfl
    · simp at hSome

theorem Assembles.pop (h : Assembles S ended r) (len : Nat) : Assembles S ended (r.pop len) where
  wellFormed := h.wellFormed.pop len
  slices := h.slices
  buffer_eq := by
    simp only [Reassembler.pop, ByteStream.pop_buffer, ByteStream.pop_totalPopped]
    rw [List.drop_eq_drop_min, ← List.drop_drop, ← h.buffer_eq]
  bound := h.bound
  last := h.last
  closed_iff := h.closed_iff

theorem Assembles.extend {S' : List Byte} {ended' : Bool} (h : Assembles S ended r)
    (hExtends : Extends S ended S' ended') : Assembles S' ended' r := by
  obtain ⟨T, rfl⟩ := hExtends.stream
  refine { wellFormed := h.wellFormed, slices := Slices.append h.slices T, buffer_eq := ?_,
           bound := ?_, last := ?_, closed_iff := ?_ }
  · rw [List.take_append_of_le_length h.bound, h.buffer_eq]
  · rw [List.length_append]
    exact h.bound.trans (Nat.le_add_right _ _)
  · intro hSeen
    obtain ⟨hEnded, hLast⟩ := h.last hSeen
    obtain ⟨hSame, hEnded'⟩ := hExtends.final hEnded
    rw [hSame]
    exact ⟨hEnded', hLast⟩
  · rw [h.closed_iff]
    apply and_congr_right
    intro hSeen
    rw [(hExtends.final (h.last hSeen).1).1]

theorem Assembles.insert_forward (h : Assembles S ended r) (hLen : S.length < 2 ^ 64)
    (hEnd : firstIndex + data.length ≤ S.length)
    (hLast : isLast = true → ended = true ∧ firstIndex + data.length = S.length) :
    r.nextIndex ≤ (r.insert firstIndex data isLast).nextIndex ∧
      (r.output.closed = true → (r.insert firstIndex data isLast).output.closed = true) ∧
      (r.insert firstIndex data isLast).lastSeen = (r.lastSeen || isLast) := by
  obtain ⟨hOutput, -, hNext, hSeen⟩ := markEnd_output r firstIndex data isLast
  obtain ⟨hEq, -, -⟩ | ⟨hEq, -, hAdvance, hClosed, -⟩ := h.insert_cases hLen hEnd hLast
  · rw [hEq]
    exact ⟨hNext.ge, fun _ => rfl, hSeen⟩
  · rw [hEq]
    refine ⟨hNext ▸ hAdvance.next_le, ?_, hAdvance.lastSeen.trans hSeen⟩
    intro hOld
    rw [hClosed, hOld, Bool.true_or]

theorem Assembles.insert_progress (h : Assembles S ended r) (hLen : S.length < 2 ^ 64)
    (hEnd : firstIndex + data.length ≤ S.length)
    (hLast : isLast = true → ended = true ∧ firstIndex + data.length = S.length)
    (hLow : firstIndex ≤ r.nextIndex) (hHigh : r.nextIndex < firstIndex + data.length)
    (hRoom : r.nextIndex < r.streamLimit) :
    r.nextIndex < (r.insert firstIndex data isLast).nextIndex := by
  obtain ⟨-, -, hNext, -⟩ := markEnd_output r firstIndex data isLast
  obtain ⟨-, -, hFull⟩ | ⟨hEq, -, hAdvance, -, -⟩ := h.insert_cases hLen hEnd hLast
  · omega
  · rw [hEq]
    have hLe := hAdvance.next_le
    rw [hNext] at hLe
    refine lt_of_le_of_ne hLe fun hSame => hAdvance.unknown ?_
    rw [← hSame]
    exact .inr ⟨⟨hLow, hHigh⟩, le_rfl, hRoom⟩

theorem Assembles.take_append_buffer (h : Assembles S ended r) :
    S.take r.output.totalPopped ++ r.output.peek = S.take r.nextIndex := by
  have hSplit := List.take_append_drop r.output.totalPopped (S.take r.nextIndex)
  rw [List.take_take, min_eq_left h.popped_le] at hSplit
  rw [ByteStream.peek, h.buffer_eq, hSplit]

theorem Assembles.take_append_pop (h : Assembles S ended r) (len : Nat) :
    S.take r.output.totalPopped ++ r.output.peek.take len =
      S.take (r.pop len).output.totalPopped := by
  have hBuffer : r.output.buffer =
      (S.drop r.output.totalPopped).take (r.nextIndex - r.output.totalPopped) := by
    rw [h.buffer_eq, List.drop_take]
  have hLength : r.output.buffer.length = r.nextIndex - r.output.totalPopped := by
    have hBound := h.bound
    rw [hBuffer, List.length_take, List.length_drop]
    omega
  rw [ByteStream.peek, Reassembler.pop, ByteStream.pop_totalPopped, hLength, List.take_add, hBuffer,
    List.take_take]

end Insert

end Minnow.Reassembler
