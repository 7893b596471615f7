import Minnow.Library.SortedMap

/-! # Chunks of a sequence, kept by the index of their first element

A separated chunk map covers a set of indices, one chunk for each maximal
interval of it. Slices ties the contents to a sequence without fixing how much
of that sequence is already known.
-/

namespace Library

abbrev ChunkMap (α : Type*) := SortedMap Nat (List α)

namespace ChunkMap

variable {α : Type*} {m : ChunkMap α} {lo hi k i : Nat} {v d S : List α}

def Within (k : Nat) (v : List α) (i : Nat) : Prop := k ≤ i ∧ i < k + v.length

def Covers (m : ChunkMap α) (i : Nat) : Prop := ∃ k v, (k, v) ∈ m ∧ Within k v i

structure Separated (lo hi : Nat) (m : ChunkMap α) : Prop where
  nonempty : ∀ {k v}, (k, v) ∈ m → v ≠ []
  lower : ∀ {k v}, (k, v) ∈ m → lo ≤ k
  upper : ∀ {k v}, (k, v) ∈ m → k + v.length ≤ hi
  gap : ∀ {k v k' v'}, (k, v) ∈ m → (k', v') ∈ m → k < k' → k + v.length < k'

/-- Every chunk holds what the sequence has at its indices. -/
def Slices (S : List α) (m : ChunkMap α) : Prop := ∀ {k v}, (k, v) ∈ m → v <+: S.drop k

theorem separated_empty (lo hi : Nat) : Separated lo hi (SortedMap.empty : ChunkMap α) where
  nonempty h := absurd h SortedMap.not_mem_empty
  lower h := absurd h SortedMap.not_mem_empty
  upper h := absurd h SortedMap.not_mem_empty
  gap h := absurd h SortedMap.not_mem_empty

theorem slices_empty (S : List α) : Slices S (SortedMap.empty : ChunkMap α) :=
  fun h => absurd h SortedMap.not_mem_empty

theorem not_covers_empty : ¬ Covers (SortedMap.empty : ChunkMap α) i :=
  fun ⟨_, _, h, _⟩ => absurd h SortedMap.not_mem_empty

theorem Separated.mono (h : Separated lo hi m) {lo' hi' : Nat} (hLo : lo' ≤ lo) (hHi : hi ≤ hi') :
    Separated lo' hi' m where
  nonempty := h.nonempty
  lower hMem := hLo.trans (h.lower hMem)
  upper hMem := (h.upper hMem).trans hHi
  gap := h.gap

theorem Separated.raise (h : Separated lo hi m) {lo' : Nat}
    (hLower : ∀ {k v}, (k, v) ∈ m → lo' ≤ k) : Separated lo' hi m where
  nonempty := h.nonempty
  lower := hLower
  upper := h.upper
  gap := h.gap

theorem Separated.le_of_covers (h : Separated lo hi m) (hi' : Covers m i) : lo ≤ i := by
  obtain ⟨k, v, hMem, hk, _⟩ := hi'
  exact (h.lower hMem).trans hk

theorem Separated.not_covers_end (h : Separated lo hi m) (hMem : (k, v) ∈ m) :
    ¬ Covers m (k + v.length) := by
  rintro ⟨k', v', hMem', hLe, hLt⟩
  obtain hk | rfl | hk := lt_trichotomy k k'
  · exact absurd (h.gap hMem hMem' hk) (by omega)
  · rw [SortedMap.mem_unique hMem hMem'] at hLt
    exact absurd hLt (lt_irrefl _)
  · have hGap := h.gap hMem' hMem hk
    omega

theorem Separated.erase (h : Separated lo hi m) (k : Nat) : Separated lo hi (m.erase k) where
  nonempty hMem := h.nonempty (SortedMap.mem_erase.mp hMem).1
  lower hMem := h.lower (SortedMap.mem_erase.mp hMem).1
  upper hMem := h.upper (SortedMap.mem_erase.mp hMem).1
  gap hMem hMem' := h.gap (SortedMap.mem_erase.mp hMem).1 (SortedMap.mem_erase.mp hMem').1

theorem Slices.erase (h : Slices S m) (k : Nat) : Slices S (m.erase k) :=
  fun hMem => h (SortedMap.mem_erase.mp hMem).1

theorem covers_iff_erase (hMem : (k, v) ∈ m) :
    Covers m i ↔ Covers (m.erase k) i ∨ Within k v i := by
  constructor
  · rintro ⟨k', v', hMem', hIn⟩
    by_cases hk : k' = k
    · subst hk
      exact .inr (SortedMap.mem_unique hMem hMem' ▸ hIn)
    · exact .inl ⟨k', v', SortedMap.mem_erase.mpr ⟨hMem', hk⟩, hIn⟩
  · rintro (⟨k', v', hMem', hIn⟩ | hIn)
    · exact ⟨k', v', (SortedMap.mem_erase.mp hMem').1, hIn⟩
    · exact ⟨k, v, hMem, hIn⟩

theorem Separated.assign (h : Separated lo hi m) (hNe : v ≠ []) (hLo : lo ≤ k)
    (hHi : k + v.length ≤ hi)
    (hApart : ∀ {k' v'}, (k', v') ∈ m → k' + v'.length < k ∨ k + v.length < k') :
    Separated lo hi (m.assign k v) where
  nonempty hMem := by
    obtain hEq | ⟨hMem, _⟩ := SortedMap.mem_assign.mp hMem
    · cases hEq; exact hNe
    · exact h.nonempty hMem
  lower hMem := by
    obtain hEq | ⟨hMem, _⟩ := SortedMap.mem_assign.mp hMem
    · cases hEq; exact hLo
    · exact h.lower hMem
  upper hMem := by
    obtain hEq | ⟨hMem, _⟩ := SortedMap.mem_assign.mp hMem
    · cases hEq; exact hHi
    · exact h.upper hMem
  gap hMem hMem' hLt := by
    obtain hEq | ⟨hMem, _⟩ := SortedMap.mem_assign.mp hMem <;>
      obtain hEq' | ⟨hMem', _⟩ := SortedMap.mem_assign.mp hMem'
    · cases hEq; cases hEq'; exact absurd hLt (lt_irrefl _)
    · cases hEq
      have hApart' := hApart hMem'
      omega
    · cases hEq'
      have hApart' := hApart hMem
      omega
    · exact h.gap hMem hMem' hLt

theorem Slices.assign (h : Slices S m) (hv : v <+: S.drop k) : Slices S (m.assign k v) := by
  intro k' v' hMem
  obtain hEq | ⟨hMem, _⟩ := SortedMap.mem_assign.mp hMem
  · cases hEq; exact hv
  · exact h hMem

theorem covers_assign (hApart : ∀ {v'}, (k, v') ∉ m) :
    Covers (m.assign k v) i ↔ Covers m i ∨ Within k v i := by
  constructor
  · rintro ⟨k', v', hMem, hIn⟩
    obtain hEq | ⟨hMem, _⟩ := SortedMap.mem_assign.mp hMem
    · cases hEq; exact .inr hIn
    · exact .inl ⟨k', v', hMem, hIn⟩
  · rintro (⟨k', v', hMem, hIn⟩ | hIn)
    · refine ⟨k', v', SortedMap.mem_assign.mpr (.inr ⟨hMem, ?_⟩), hIn⟩
      rintro rfl
      exact hApart hMem
    · exact ⟨k, v, SortedMap.mem_assign.mpr (.inl rfl), hIn⟩

theorem Slices.append (h : Slices S m) (T : List α) : Slices (S ++ T) m := by
  intro k v hMem
  rw [List.drop_append]
  exact (h hMem).trans (List.prefix_append _ _)

/-- Append to `v` what `d` has after its first `overlap` elements. -/
def glue (v : List α) (overlap : Nat) (d : List α) : List α :=
  if overlap < d.length then v ++ d.drop overlap else v

theorem glue_ne_nil (hv : v ≠ []) (overlap : Nat) : glue v overlap d ≠ [] := by
  unfold glue
  split
  · exact List.append_ne_nil_of_left_ne_nil hv _
  · exact hv

theorem glue_end {f : Nat} (hTouch : f ≤ k + v.length) :
    k + (glue v (k + v.length - f) d).length = max (k + v.length) (f + d.length) := by
  unfold glue
  split
  · rw [List.length_append, List.length_drop]
    omega
  · omega

theorem within_glue {f : Nat} (hLe : k ≤ f) (hTouch : f ≤ k + v.length) :
    Within k (glue v (k + v.length - f) d) i ↔ Within k v i ∨ Within f d i := by
  have hEnd := glue_end (d := d) hTouch
  unfold Within
  omega

theorem glue_prefix {f : Nat} (hTouch : f ≤ k + v.length) (hv : v <+: S.drop k)
    (hd : d <+: S.drop f) :
    glue v (k + v.length - f) d <+: S.drop k := by
  unfold glue
  split
  · obtain ⟨rest, hRest⟩ := hv
    have hDrop : S.drop (k + v.length) = rest := by
      rw [← List.drop_drop, ← hRest, List.drop_left]
    have hSuffix : d.drop (k + v.length - f) <+: rest := by
      rw [← hDrop, show k + v.length = f + (k + v.length - f) by omega, ← List.drop_drop,
        show f + (k + v.length - f) - f = k + v.length - f by omega]
      exact hd.drop _
    rw [← hRest]
    exact (List.prefix_append_right_inj v).mpr hSuffix
  · exact hv

def indicesOf : List (Nat × List α) → Finset Nat
  | [] => ∅
  | (k, v) :: rest => Finset.Ico k (k + v.length) ∪ indicesOf rest

theorem mem_indicesOf {entries : List (Nat × List α)} :
    i ∈ indicesOf entries ↔ ∃ k v, (k, v) ∈ entries ∧ Within k v i := by
  induction entries with
  | nil => simp [indicesOf]
  | cons e entries ih =>
    obtain ⟨k, v⟩ := e
    simp only [indicesOf, Finset.mem_union, Finset.mem_Ico, ih, List.mem_cons]
    constructor
    · rintro (hIn | ⟨k', v', hMem, hIn⟩)
      · exact ⟨k, v, .inl rfl, hIn⟩
      · exact ⟨k', v', .inr hMem, hIn⟩
    · rintro ⟨k', v', hEq | hMem, hIn⟩
      · cases hEq; exact .inl hIn
      · exact .inr ⟨k', v', hMem, hIn⟩

theorem card_indicesOf {entries : List (Nat × List α)}
    (h : entries.Pairwise fun a b => a.1 + a.2.length < b.1) :
    (indicesOf entries).card = (entries.map fun e => e.2.length).sum := by
  induction entries with
  | nil => rfl
  | cons e entries ih =>
    obtain ⟨k, v⟩ := e
    obtain ⟨hHead, hTail⟩ := List.pairwise_cons.mp h
    have hDisjoint : Disjoint (Finset.Ico k (k + v.length)) (indicesOf entries) := by
      rw [Finset.disjoint_left]
      intro i hi hi'
      obtain ⟨k', v', hMem, hLe, _⟩ := mem_indicesOf.mp hi'
      have hGap : k + v.length < k' := hHead (k', v') hMem
      have hLt := (Finset.mem_Ico.mp hi).2
      omega
    rw [indicesOf, Finset.card_union_of_disjoint hDisjoint, ih hTail, Nat.card_Ico,
      Nat.add_sub_cancel_left]
    rfl

theorem Separated.card_indices (h : Separated lo hi m) :
    (indicesOf m.entries).card = (m.entries.map fun e => e.2.length).sum :=
  card_indicesOf (m.sorted.imp_of_mem fun ha hb hLt => h.gap ha hb hLt)

end ChunkMap

end Library
