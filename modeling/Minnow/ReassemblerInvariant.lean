import Minnow.Library.Run
import Minnow.ReassemblerStream

/-! # Arbitrary substrings

Substrings that come from no stream: any index, contradictory data, several
ends. The window keeps a hostile index out as long as it and one substring
together stay below `2 ^ 64`.
-/

namespace Minnow.Reassembler

open Library Library.ChunkMap

inductive Request where
  | insert (firstIndex : UInt64) (data : List Byte) (isLastSubstring : Bool)
  | pop (len : Nat)
deriving DecidableEq

def serve (r : Reassembler) : Request → Reassembler
  | .insert firstIndex data isLast => r.insert firstIndex.toNat data isLast
  | .pop len => r.pop len

def Fits (r : Reassembler) : Request → Prop
  | .insert _ data _ => r.output.capacity + r.output.bytesPopped + data.length < 2 ^ 64
  | .pop _ => True

instance (r : Reassembler) (q : Request) : Decidable (Fits r q) :=
  match q with
  | .insert _ data _ =>
    inferInstanceAs (Decidable (r.output.capacity + r.output.bytesPopped + data.length < 2 ^ 64))
  | .pop _ => instDecidableTrue

/-- The calls of `push` made by the flushing loop: the stream and the argument of each. -/
def flushPushes (self : Reassembler) : List (ByteStream × List Byte) :=
  match _h : self.pending.find? self.nextIndex with
  | none => []
  | some chunk =>
    (self.output, chunk) :: flushPushes { self with
      output := self.output.push chunk
      nextIndex := self.nextIndex + chunk.length
      pending := self.pending.erase self.nextIndex }
termination_by self.pending.size
decreasing_by exact SortedMap.size_erase_lt (SortedMap.find?_eq_some.mp _h)

def insertPushes (self : Reassembler) (firstIndex : Nat) (data : List Byte)
    (isLastSubstring : Bool) : List (ByteStream × List Byte) :=
  let self := self.markEnd firstIndex data isLastSubstring
  if self.atEnd then []
  else
    match self.beforeFlush firstIndex data with
    | none => []
    | some self => self.flushPushes

/-- What an insert may do: the pushes reach the stream whole, a close is the only other change. -/
structure Inserted (output : ByteStream) (pushes : List (ByteStream × List Byte))
    (r : Reassembler) : Prop where
  wellFormed : WellFormed r
  fits : ∀ call ∈ pushes, call.2.length ≤ call.1.availableCapacity
  buffer : r.output.buffer = output.buffer ++ pushes.flatMap Prod.snd
  sameOutput : SameOutput output r.output
  closed : output.closed = true → r.output.closed = true

section Step

variable {output : ByteStream} {pushes : List (ByteStream × List Byte)} {r : Reassembler}
  {firstIndex : Nat} {data : List Byte}

theorem WellFormed.inserted (h : WellFormed r) : Inserted r.output [] r where
  wellFormed := h
  fits _ hMem := absurd hMem List.not_mem_nil
  buffer := (List.append_nil _).symm
  sameOutput := ⟨rfl, rfl, rfl⟩
  closed := id

theorem Inserted.totalPushed_le (h : Inserted output pushes r) :
    output.totalPushed ≤ r.output.totalPushed := by
  rw [output.pushed_eq, r.output.pushed_eq, h.buffer, h.sameOutput.popped, List.length_append]
  omega

theorem Inserted.close (h : Inserted output pushes r) : Inserted output pushes r.closeOutput where
  wellFormed := ⟨h.wellFormed.next_eq, h.wellFormed.separated⟩
  fits := h.fits
  buffer := h.buffer
  sameOutput := ⟨h.sameOutput.popped, h.sameOutput.capacity, h.sameOutput.error⟩
  closed _ := rfl

theorem Inserted.closeIfAtEnd (h : Inserted output pushes r) :
    Inserted output pushes r.closeIfAtEnd := by
  unfold Reassembler.closeIfAtEnd
  split
  · exact h.close
  · exact h

theorem flush_pushes (hNext : r.nextIndex = r.output.totalPushed)
    (hSep : Separated r.nextIndex r.windowEnd r.pending) :
    (∀ call ∈ r.flushPushes, call.2.length ≤ call.1.availableCapacity) ∧
      r.flush.output.buffer = r.output.buffer ++ r.flushPushes.flatMap Prod.snd := by
  fun_induction flushPushes r with
  | case1 r hFind =>
    rw [flush_none hFind]
    simp
  | case2 r chunk hFind ih =>
    have hMem := SortedMap.find?_eq_some.mp hFind
    have hFits := push_fits hNext (hSep.upper hMem)
    have hNext' : r.nextIndex + chunk.length = (r.output.push chunk).totalPushed := by
      rw [ByteStream.push_totalPushed_of_le hFits, hNext]
    have hAfter : ∀ {k v}, (k, v) ∈ r.pending.erase r.nextIndex → r.nextIndex + chunk.length ≤ k := by
      intro k v hMem'
      obtain ⟨hMem', hNe⟩ := SortedMap.mem_erase.mp hMem'
      exact (hSep.gap hMem hMem' (lt_of_le_of_ne (hSep.lower hMem') (Ne.symm hNe))).le
    obtain ⟨hRest, hBuffer⟩ := ih hNext' ((hSep.erase r.nextIndex).raise hAfter)
    rw [flush_some hFind, hBuffer]
    constructor
    · rintro call (_ | ⟨_, hCall⟩)
      · exact hFits
      · exact hRest call hCall
    · rw [ByteStream.push_buffer, List.take_of_length_le hFits, List.flatMap_cons, List.append_assoc]

theorem flush_inserted (hNext : r.nextIndex = r.output.totalPushed)
    (hSep : Separated r.nextIndex r.windowEnd r.pending) :
    Inserted r.output r.flushPushes r.flush where
  wellFormed := (flush_advance hNext hSep).wellFormed
  fits := (flush_pushes hNext hSep).1
  buffer := (flush_pushes hNext hSep).2
  sameOutput := (flush_sameOutput r).1
  closed hClosed := (flush_sameOutput r).2.trans hClosed

/-- A substring whose end wraps past `2 ^ 64` starts beyond the window. -/
theorem beforeFlush_of_wrap (hWell : WellFormed r)
    (hFits : r.output.capacity + r.output.totalPopped + data.length < 2 ^ 64)
    (hWrap : 2 ^ 64 ≤ firstIndex + data.length) :
    r.beforeFlush firstIndex data = none := by
  have hLimit : r.streamLimit = r.output.totalPopped + r.output.capacity :=
    streamLimit_eq hWell.next_eq (by omega)
  have hNext : r.nextIndex ≤ firstIndex := by
    have hPushed := r.output.pushed_eq
    have hBuffer := r.output.buffer_le
    rw [hWell.next_eq]
    omega
  rw [beforeFlush]
  split
  · rfl
  · rw [leftTrim, if_neg (Nat.not_lt.mpr hNext)]
    dsimp only
    rw [if_pos (by omega)]

theorem WellFormed.beforeFlush (hWell : WellFormed r)
    (hFits : r.output.capacity + r.output.totalPopped + data.length < 2 ^ 64) :
    ∀ s ∈ r.beforeFlush firstIndex data, ∃ pending,
      s = { r with pending := pending } ∧ Separated r.nextIndex r.windowEnd pending := by
  intro s hs
  by_cases hWrap : 2 ^ 64 ≤ firstIndex + data.length
  · rw [beforeFlush_of_wrap hWell hFits hWrap] at hs
    cases hs
  · obtain ⟨hNone, -⟩ | ⟨hSome, hNe⟩ := beforeFlush_eq r (Nat.not_le.mp hWrap)
    · rw [hNone] at hs
      cases hs
    · rw [hSome] at hs
      cases hs
      exact ⟨_, rfl, (stored_spec hWell hNe).1⟩

theorem WellFormed.insert (hWell : WellFormed r)
    (hFits : r.output.capacity + r.output.totalPopped + data.length < 2 ^ 64) (isLast : Bool) :
    Inserted r.output (r.insertPushes firstIndex data isLast)
      (r.insert firstIndex data isLast) := by
  have hOutput := (markEnd_output r firstIndex data isLast).1
  have hMark := hWell.markEnd firstIndex data isLast
  rw [Reassembler.insert, insertPushes]
  rw [← hOutput] at hFits ⊢
  generalize r.markEnd firstIndex data isLast = r at *
  split
  · exact hMark.inserted.close
  · rw [place_eq]
    cases hBefore : r.beforeFlush firstIndex data with
    | none => exact hMark.inserted
    | some s =>
      obtain ⟨pending, rfl, hSep⟩ := hMark.beforeFlush hFits s hBefore
      exact (flush_inserted (r := { r with pending := pending }) hMark.next_eq hSep).closeIfAtEnd

theorem WellFormed.serve (h : WellFormed r) (q : Request) (hFits : Fits r q) :
    WellFormed (r.serve q) := by
  cases q with
  | insert firstIndex data isLast => exact (h.insert hFits isLast).wellFormed
  | pop len => exact h.pop len

theorem serve_capacity (r : Reassembler) (q : Request) :
    (r.serve q).output.capacity = r.output.capacity := by
  cases q with
  | insert firstIndex data isLast => exact (insert_sameOutput r firstIndex.toNat data isLast).capacity
  | pop len => rfl

theorem WellFormed.countBytesPending_eq (h : WellFormed r) :
    r.countBytesPending = (indicesOf r.pending.entries).card :=
  h.separated.card_indices.symm

theorem Advance.held_le (hWell : WellFormed r) {r' : Reassembler}
    (h : Advance (r.Known firstIndex data) r r') :
    r'.nextIndex + r'.countBytesPending ≤ r.nextIndex + r.countBytesPending + data.length := by
  have hCovers : ∀ (s : Reassembler) i, i ∈ indicesOf s.pending.entries ↔ Covers s.pending i :=
    fun s i => mem_indicesOf
  have hDisjoint :
      Disjoint (Finset.Ico r.nextIndex r'.nextIndex) (indicesOf r'.pending.entries) := by
    rw [Finset.disjoint_left]
    intro i hi hi'
    have hGt := ((h.pending i).mp ((hCovers r' i).mp hi')).2
    exact absurd (Finset.mem_Ico.mp hi).2 (Nat.not_lt.mpr hGt.le)
  have hSubset : Finset.Ico r.nextIndex r'.nextIndex ∪ indicesOf r'.pending.entries ⊆
      indicesOf r.pending.entries ∪ Finset.Ico firstIndex (firstIndex + data.length) := by
    intro i hi
    have hKnown : r.Known firstIndex data i := by
      obtain hi | hi := Finset.mem_union.mp hi
      · obtain ⟨hLe, hLt⟩ := Finset.mem_Ico.mp hi
        exact h.assembled i hLe hLt
      · exact ((h.pending i).mp ((hCovers r' i).mp hi)).1
    rw [Finset.mem_union, hCovers, Finset.mem_Ico]
    exact hKnown.imp_right And.left
  have hCard := (Finset.card_le_card hSubset).trans (Finset.card_union_le _ _)
  rw [Finset.card_union_of_disjoint hDisjoint, Nat.card_Ico, Nat.card_Ico,
    ← h.wellFormed.countBytesPending_eq, ← hWell.countBytesPending_eq] at hCard
  have hNext := h.next_le
  omega

/-- The reassembler never holds more bytes than it was given. -/
theorem WellFormed.insert_held_le (hWell : WellFormed r)
    (hFits : r.output.capacity + r.output.totalPopped + data.length < 2 ^ 64) (isLast : Bool) :
    (r.insert firstIndex data isLast).nextIndex +
        (r.insert firstIndex data isLast).countBytesPending ≤
      r.nextIndex + r.countBytesPending + data.length := by
  obtain ⟨hOutput, hPending, hNext, -⟩ := markEnd_output r firstIndex data isLast
  have hMark := hWell.markEnd firstIndex data isLast
  rw [Reassembler.insert, countBytesPending, countBytesPending]
  rw [← hOutput] at hFits
  rw [← hNext, ← hPending]
  generalize r.markEnd firstIndex data isLast = r at *
  split
  · exact Nat.le_add_right _ _
  · rename_i hNotEnd
    by_cases hWrap : 2 ^ 64 ≤ firstIndex + data.length
    · rw [place_eq, beforeFlush_of_wrap hMark hFits hWrap]
      exact Nat.le_add_right _ _
    · have hPlace := place_spec hMark (Bool.eq_false_iff.mpr hNotEnd) (Nat.not_le.mp hWrap)
      exact hPlace.1.held_le hMark

theorem WellFormed.countBytesPending_le (h : WellFormed r) :
    r.output.bytesBuffered + r.countBytesPending ≤ r.output.capacity := by
  have hSubset : indicesOf r.pending.entries ⊆ Finset.Ico (r.nextIndex + 1) r.windowEnd := by
    intro i hi
    obtain ⟨k, v, hMem, hLe, hLt⟩ := mem_indicesOf.mp hi
    exact Finset.mem_Ico.mpr
      ⟨(h.separated.lower hMem).trans hLe, hLt.trans_le (h.separated.upper hMem)⟩
  have hCard : r.countBytesPending ≤ r.windowEnd - (r.nextIndex + 1) := by
    rw [h.countBytesPending_eq, ← Nat.card_Ico]
    exact Finset.card_le_card hSubset
  have hWindow : r.windowEnd ≤ r.output.totalPopped + r.output.capacity := min_le_left _ _
  have hPushed := r.output.pushed_eq
  have hBuffer := r.output.buffer_le
  have hNext := h.next_eq
  rw [ByteStream.bytesBuffered]
  omega

end Step

structure Intact (capacity : Nat) (r : Reassembler) : Prop where
  next_eq : r.nextIndex = r.output.bytesPushed
  nonempty : ∀ {k v}, (k, v) ∈ r.pending → v ≠ []
  above_next : ∀ {k v}, (k, v) ∈ r.pending → r.nextIndex < k
  below_limit : ∀ {k v}, (k, v) ∈ r.pending → k + v.length ≤ r.output.bytesPopped + capacity
  apart : ∀ {k v k' v'}, (k, v) ∈ r.pending → (k', v') ∈ r.pending → k < k' → k + v.length < k'
  held_le : r.output.bytesBuffered + r.countBytesPending ≤ capacity
  available : r.output.availableCapacity + r.output.bytesBuffered = capacity
  whole_pushes : ∀ (firstIndex : UInt64) data isLast, Fits r (.insert firstIndex data isLast) →
    let pushes := r.insertPushes firstIndex.toNat data isLast
    (∀ call ∈ pushes, call.2.length ≤ call.1.availableCapacity) ∧
      (r.serve (.insert firstIndex data isLast)).output.peek =
        r.output.peek ++ pushes.flatMap Prod.snd

theorem WellFormed.intact {r : Reassembler} (h : WellFormed r) : Intact r.output.capacity r where
  next_eq := h.next_eq
  nonempty := h.separated.nonempty
  above_next := h.separated.lower
  below_limit hMem := (h.separated.upper hMem).trans (min_le_left _ _)
  apart := h.separated.gap
  held_le := h.countBytesPending_le
  available := Nat.sub_add_cancel r.output.buffer_le
  whole_pushes _ _ isLast hFits :=
    have hInserted := h.insert hFits isLast
    ⟨hInserted.fits, hInserted.buffer⟩

/-- Any substrings, contradictory or not: after every call the pending chunks are canonical and
inside the window, and the next insert pushes nothing that the stream would cut. -/
theorem run_intact (capacity : Nat) (requests : List Request)
    (hFits : Run.Along serve Fits (new (ByteStream.new capacity)) requests) :
    Intact capacity (Run.run serve (new (ByteStream.new capacity)) requests) := by
  have h : WellFormed (Run.run serve (new (ByteStream.new capacity)) requests) :=
    Run.invariant (fun r q hFits h => h.serve q hFits) hFits (wellFormed_new capacity)
  have hCapacity :
      (Run.run serve (new (ByteStream.new capacity)) requests).output.capacity = capacity := by
    refine Run.invariant_of_step (P := fun r : Reassembler => r.output.capacity = capacity) ?_ rfl
      requests
    intro r q hEq
    rw [serve_capacity, hEq]
  have hIntact := h.intact
  rw [hCapacity] at hIntact
  exact hIntact

theorem run_intact_hostile :
    Intact 8 (Run.run serve (new (ByteStream.new 8))
      [.insert 3 [1, 2] false, .insert (2 ^ 64 - 3) [1, 2, 3, 4, 5] true, .insert 2 [9, 9, 9] true,
        .insert 0 [0, 0] false, .pop 4]) :=
  run_intact 8 _ (by decide +kernel)

end Minnow.Reassembler
