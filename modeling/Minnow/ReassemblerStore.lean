import Minnow.Reassembler

/-! # Storing a chunk among the pending ones

Both merges keep the state of one picture: a separated map, a chunk in hand
that no remaining earlier chunk touches, and together the same bytes at the
same indices.
-/

namespace Minnow.Reassembler

open Library Library.ChunkMap

/-- The chunk in hand covers the iterator and no chunk before it is touched. -/
structure InHand (lo hi it : Nat) (pending : ChunkMap Byte) (firstIndex : Nat)
    (data : List Byte) : Prop where
  separated : Separated lo hi pending
  nonempty : data ≠ []
  lower : lo ≤ firstIndex
  upper : firstIndex + data.length ≤ hi
  reach : firstIndex ≤ it
  apart : ∀ {k v}, (k, v) ∈ pending → k < it → k + v.length < firstIndex

/-- Two ways to split the same bytes into pending chunks and a chunk in hand. -/
structure SameBytes (pending : ChunkMap Byte) (firstIndex : Nat) (data : List Byte)
    (pending' : ChunkMap Byte) (firstIndex' : Nat) (data' : List Byte) : Prop where
  covers : ∀ i, Covers pending' i ∨ Within firstIndex' data' i ↔
    Covers pending i ∨ Within firstIndex data i
  slices : ∀ S, Slices S pending → data <+: S.drop firstIndex →
    Slices S pending' ∧ data' <+: S.drop firstIndex'

theorem SameBytes.refl (pending : ChunkMap Byte) (firstIndex : Nat) (data : List Byte) :
    SameBytes pending firstIndex data pending firstIndex data where
  covers _ := Iff.rfl
  slices _ hPending hData := ⟨hPending, hData⟩

theorem SameBytes.trans {p p' p'' : ChunkMap Byte} {f f' f'' : Nat} {d d' d'' : List Byte}
    (h : SameBytes p f d p' f' d') (h' : SameBytes p' f' d' p'' f'' d'') :
    SameBytes p f d p'' f'' d'' where
  covers i := (h'.covers i).trans (h.covers i)
  slices S hPending hData :=
    have hMid := h.slices S hPending hData
    h'.slices S hMid.1 hMid.2

section Merge

variable {lo hi firstIndex : Nat} {pending : ChunkMap Byte} {data : List Byte}

theorem mergePrevious_spec (hSep : Separated lo hi pending) (hHi : hi < 2 ^ 64) (hNe : data ≠ [])
    (hLo : lo ≤ firstIndex) (hUpper : firstIndex + data.length ≤ hi) :
    InHand lo hi firstIndex (mergePrevious pending firstIndex data).1
        (mergePrevious pending firstIndex data).2.1 (mergePrevious pending firstIndex data).2.2 ∧
      SameBytes pending firstIndex data (mergePrevious pending firstIndex data).1
        (mergePrevious pending firstIndex data).2.1 (mergePrevious pending firstIndex data).2.2 := by
  cases hPrev : pending.previous? firstIndex with
  | none =>
    have hApart : ∀ {k v}, (k, v) ∈ pending → k < firstIndex → k + v.length < firstIndex :=
      fun hMem hLt => absurd (SortedMap.previous?_eq_none hPrev hMem) (Nat.not_le.mpr hLt)
    simp only [mergePrevious, hPrev]
    exact ⟨⟨hSep, hNe, hLo, hUpper, le_rfl, hApart⟩, SameBytes.refl pending firstIndex data⟩
  | some e =>
    obtain ⟨k, v⟩ := e
    obtain ⟨hMem, hLt⟩ := SortedMap.mem_of_previous? hPrev
    have hEnd : u64 (k + v.length) = k + v.length := u64_eq ((hSep.upper hMem).trans_lt hHi)
    -- whatever else starts before `firstIndex` ends before the previous chunk
    have hBefore : ∀ {k' v'}, (k', v') ∈ pending → k' < firstIndex → k' ≠ k → k' + v'.length < k :=
      fun hMem' hLt' hNe' =>
        hSep.gap hMem' hMem (lt_of_le_of_ne (SortedMap.le_previous? hPrev hMem' hLt') hNe')
    by_cases hTouch : firstIndex ≤ k + v.length
    · simp only [mergePrevious, hPrev, hEnd, if_pos hTouch]
      have hNe' := glue_ne_nil (d := data) (hSep.nonempty hMem) (k + v.length - firstIndex)
      refine ⟨{ separated := hSep.erase k, nonempty := hNe', lower := hSep.lower hMem, upper := ?_,
                reach := hLt.le, apart := ?_ }, { covers := ?_, slices := ?_ }⟩
      · rw [glue_end hTouch]
        exact max_le (hSep.upper hMem) hUpper
      · intro k' v' hMem' hLt'
        obtain ⟨hMem', hNe'⟩ := SortedMap.mem_erase.mp hMem'
        exact hBefore hMem' hLt' hNe'
      · intro i
        rw [within_glue hLt.le hTouch, covers_iff_erase hMem, or_assoc]
      · intro S hPending hData
        exact ⟨hPending.erase k, glue_prefix hTouch (hPending hMem) hData⟩
    · simp only [mergePrevious, hPrev, hEnd, if_neg hTouch]
      refine ⟨{ separated := hSep, nonempty := hNe, lower := hLo, upper := hUpper, reach := le_rfl,
                apart := ?_ }, SameBytes.refl pending firstIndex data⟩
      intro k' v' hMem' hLt'
      by_cases hk : k' = k
      · subst hk
        rw [SortedMap.mem_unique hMem' hMem]
        exact Nat.not_le.mp hTouch
      · exact (hBefore hMem' hLt' hk).trans hLt

/-- A chunk that the piece in hand reaches is glued to its end. -/
theorem InHand.glueFollowing {it index : Nat} {chunk : List Byte}
    (hIn : InHand lo hi it pending firstIndex data) (hMem : (index, chunk) ∈ pending)
    (hLe : it ≤ index) (hTouch : index ≤ firstIndex + data.length) :
    InHand lo hi it (pending.erase index) firstIndex
        (glue data (firstIndex + data.length - index) chunk) ∧
      SameBytes pending firstIndex data (pending.erase index) firstIndex
        (glue data (firstIndex + data.length - index) chunk) := by
  have hFirst : firstIndex ≤ index := hIn.reach.trans hLe
  refine ⟨{ hIn with separated := hIn.separated.erase index,
                     nonempty := glue_ne_nil hIn.nonempty _, upper := ?_, apart := ?_ },
          { covers := ?_, slices := ?_ }⟩
  · rw [glue_end hTouch]
    exact max_le hIn.upper (hIn.separated.upper hMem)
  · intro k v hMem' hLt'
    exact hIn.apart (SortedMap.mem_erase.mp hMem').1 hLt'
  · intro i
    rw [within_glue hFirst hTouch, covers_iff_erase hMem, or_assoc,
      or_comm (a := Within firstIndex data i)]
  · intro S hPending hData
    exact ⟨hPending.erase index, glue_prefix hTouch hData (hPending hMem)⟩

theorem mergeFollowing_spec {it : Nat} (hHi : hi < 2 ^ 64)
    (hIn : InHand lo hi it pending firstIndex data) :
    InHand lo hi it (mergeFollowing it firstIndex pending data).1 firstIndex
        (mergeFollowing it firstIndex pending data).2 ∧
      SameBytes pending firstIndex data (mergeFollowing it firstIndex pending data).1 firstIndex
        (mergeFollowing it firstIndex pending data).2 ∧
      ∀ {k v}, (k, v) ∈ (mergeFollowing it firstIndex pending data).1 → it ≤ k →
        firstIndex + (mergeFollowing it firstIndex pending data).2.length < k := by
  fun_induction mergeFollowing it firstIndex pending data with
  | case1 pending data hNext =>
    refine ⟨hIn, SameBytes.refl pending firstIndex data, ?_⟩
    intro k v hMem hLe
    exact absurd (SortedMap.lowerBound?_eq_none hNext hMem) (Nat.not_lt.mpr hLe)
  | case2 pending data index chunk hNext hTouch overlap ih =>
    obtain ⟨hMem, hLe⟩ := SortedMap.mem_of_lowerBound? hNext
    have hEnd : u64 (firstIndex + data.length) = firstIndex + data.length :=
      u64_eq (hIn.upper.trans_lt hHi)
    have hOverlap : overlap = firstIndex + data.length - index := by rw [← hEnd]
    rw [hEnd] at hTouch
    obtain ⟨hIn', hStep⟩ := hIn.glueFollowing hMem hLe hTouch
    rw [← hOverlap] at hIn' hStep
    obtain ⟨hInHand, hSame, hRest⟩ := ih hIn'
    exact ⟨hInHand, hStep.trans hSame, hRest⟩
  | case3 pending data index chunk hNext hTouch =>
    have hEnd : u64 (firstIndex + data.length) = firstIndex + data.length :=
      u64_eq (hIn.upper.trans_lt hHi)
    rw [hEnd] at hTouch
    refine ⟨hIn, SameBytes.refl pending firstIndex data, ?_⟩
    intro k v hMem hLe
    exact (Nat.not_le.mp hTouch).trans_le (SortedMap.lowerBound?_le hNext hMem hLe)

theorem store_spec (hSep : Separated lo hi pending) (hHi : hi < 2 ^ 64) (hNe : data ≠ [])
    (hLo : lo ≤ firstIndex) (hUpper : firstIndex + data.length ≤ hi) :
    Separated lo hi (store pending firstIndex data) ∧
      (∀ i, Covers (store pending firstIndex data) i ↔
        Covers pending i ∨ Within firstIndex data i) ∧
      ∀ S, Slices S pending → data <+: S.drop firstIndex →
        Slices S (store pending firstIndex data) := by
  obtain ⟨hIn₁, hSame₁⟩ := mergePrevious_spec hSep hHi hNe hLo hUpper
  obtain ⟨hIn, hSame₂, hAfter⟩ := mergeFollowing_spec hHi hIn₁
  have hSame := hSame₁.trans hSame₂
  -- nothing left in the map touches the merged chunk, on either side
  have hApart : ∀ {k v}, (k, v) ∈ _ → _ := fun {k v} hMem =>
    (Nat.lt_or_ge k firstIndex).imp (hIn.apart hMem) (hAfter hMem)
  simp only [store]
  refine ⟨hIn.separated.assign hIn.nonempty hIn.lower hIn.upper hApart, ?_, ?_⟩
  · intro i
    rw [← hSame.covers i]
    apply covers_assign
    intro v hMem
    have hFar := hApart hMem
    omega
  · intro S hPending hData
    obtain ⟨hPending', hData'⟩ := hSame.slices S hPending hData
    exact Slices.assign hPending' hData'

end Merge

end Minnow.Reassembler
