import Mathlib

/-! # Finite maps as key-sorted lists

The order is part of the type, so the entry found from the left is the one with
the least key. Every operation is characterised by membership; no proof above
this module looks at the list.
-/

namespace Library

structure SortedMap (κ β : Type*) [LinearOrder κ] where
  entries : List (κ × β)
  sorted : entries.Pairwise (fun a b => a.1 < b.1)

namespace SortedMap

variable {κ β : Type*} [LinearOrder κ] {m : SortedMap κ β} {k : κ} {v : β} {e : κ × β}

instance : Membership (κ × β) (SortedMap κ β) := ⟨fun m e => e ∈ m.entries⟩

theorem mem_def : e ∈ m ↔ e ∈ m.entries := Iff.rfl

def empty : SortedMap κ β := ⟨[], List.Pairwise.nil⟩

@[simp] theorem not_mem_empty : e ∉ (empty : SortedMap κ β) := List.not_mem_nil

def size (m : SortedMap κ β) : Nat := m.entries.length

theorem mem_unique {w : β} (hv : (k, v) ∈ m) (hw : (k, w) ∈ m) : v = w := by
  have hKeys : (m.entries.map Prod.fst).Nodup := List.pairwise_map.mpr (m.sorted.imp fun h => h.ne)
  exact congrArg Prod.snd (List.inj_on_of_nodup_map hKeys hv hw rfl)

def erase (m : SortedMap κ β) (k : κ) : SortedMap κ β :=
  ⟨m.entries.filter (fun e => e.1 ≠ k), m.sorted.filter _⟩

@[simp] theorem mem_erase : e ∈ m.erase k ↔ e ∈ m ∧ e.1 ≠ k := by
  simp [mem_def, erase]

theorem size_erase_lt (h : (k, v) ∈ m) : (m.erase k).size < m.size :=
  List.length_filter_lt_length_iff_exists.mpr ⟨(k, v), h, by simp⟩

def assign (m : SortedMap κ β) (k : κ) (v : β) : SortedMap κ β where
  entries := m.entries.filter (fun e => e.1 < k) ++ (k, v) :: m.entries.filter (fun e => k < e.1)
  sorted := by
    simp only [List.pairwise_append, List.pairwise_cons, List.mem_cons, List.mem_filter,
      decide_eq_true_eq]
    refine ⟨m.sorted.filter _, ⟨fun e h => h.2, m.sorted.filter _⟩, ?_⟩
    rintro a ⟨_, ha⟩ b (rfl | ⟨_, hb⟩)
    · exact ha
    · exact ha.trans hb

@[simp] theorem mem_assign : e ∈ m.assign k v ↔ e = (k, v) ∨ e ∈ m ∧ e.1 ≠ k := by
  simp only [mem_def, assign, List.mem_append, List.mem_cons, List.mem_filter, decide_eq_true_eq]
  constructor
  · rintro (⟨h, hLt⟩ | rfl | ⟨h, hLt⟩)
    · exact .inr ⟨h, hLt.ne⟩
    · exact .inl rfl
    · exact .inr ⟨h, hLt.ne'⟩
  · rintro (rfl | ⟨h, hNe⟩)
    · exact .inr (.inl rfl)
    · obtain hLt | hLt := lt_or_gt_of_ne hNe
      · exact .inl ⟨h, hLt⟩
      · exact .inr (.inr ⟨h, hLt⟩)

def find? (m : SortedMap κ β) (k : κ) : Option β :=
  (m.entries.find? (fun e => e.1 = k)).map Prod.snd

theorem find?_eq_some : m.find? k = some v ↔ (k, v) ∈ m := by
  constructor
  · intro h
    obtain ⟨⟨k', v'⟩, hFind, rfl⟩ := Option.map_eq_some_iff.mp h
    have hKey : k' = k := by simpa using List.find?_some hFind
    exact hKey ▸ List.mem_of_find?_eq_some hFind
  · intro h
    cases hFind : m.entries.find? (fun e => e.1 = k) with
    | none =>
      have hNot := List.find?_eq_none.mp hFind (k, v) h
      simp at hNot
    | some e =>
      obtain ⟨k', v'⟩ := e
      have hKey : k' = k := by simpa using List.find?_some hFind
      subst hKey
      rw [find?, hFind, Option.map_some, mem_unique (List.mem_of_find?_eq_some hFind) h]

theorem find?_eq_none : m.find? k = none ↔ ∀ v, (k, v) ∉ m := by
  constructor
  · intro h v hv
    exact absurd (find?_eq_some.mpr hv) (by simp [h])
  · intro h
    exact Option.eq_none_iff_forall_ne_some.mpr fun v hv => h v (find?_eq_some.mp hv)

/-- The entry an iterator at `lower_bound` points to: the least key not below `k`. -/
def lowerBound? (m : SortedMap κ β) (k : κ) : Option (κ × β) :=
  m.entries.find? (fun e => k ≤ e.1)

theorem mem_of_lowerBound? (h : m.lowerBound? k = some e) : e ∈ m ∧ k ≤ e.1 :=
  ⟨List.mem_of_find?_eq_some h, by simpa using List.find?_some h⟩

theorem lowerBound?_le {e' : κ × β} (h : m.lowerBound? k = some e) (he' : e' ∈ m)
    (hk : k ≤ e'.1) : e.1 ≤ e'.1 := by
  obtain ⟨_, first, rest, hEntries, hFirst⟩ := List.find?_eq_some_iff_append.mp h
  have hSorted := m.sorted
  rw [mem_def, hEntries, List.mem_append, List.mem_cons] at he'
  rw [hEntries, List.pairwise_append, List.pairwise_cons] at hSorted
  obtain hMem | rfl | hMem := he'
  · exact absurd hk (by simpa using hFirst e' hMem)
  · exact le_rfl
  · exact (hSorted.2.1.1 e' hMem).le

theorem lowerBound?_eq_none (h : m.lowerBound? k = none) (he : e ∈ m) : e.1 < k := by
  simpa using List.find?_eq_none.mp h e he

/-- The entry just before `lower_bound`: the greatest key below `k`. -/
def previous? (m : SortedMap κ β) (k : κ) : Option (κ × β) :=
  (m.entries.filter (fun e => e.1 < k)).getLast?

theorem mem_of_previous? (h : m.previous? k = some e) : e ∈ m ∧ e.1 < k := by
  simpa [mem_def] using List.mem_of_getLast? h

theorem le_previous? {e' : κ × β} (h : m.previous? k = some e) (he' : e' ∈ m)
    (hk : e'.1 < k) : e'.1 ≤ e.1 := by
  obtain ⟨init, hInit⟩ := List.getLast?_eq_some_iff.mp h
  have hMem : e' ∈ m.entries.filter (fun e => e.1 < k) := by simpa [← mem_def] using ⟨he', hk⟩
  have hSorted := m.sorted.filter (fun e => e.1 < k)
  rw [hInit, List.mem_append, List.mem_singleton] at hMem
  rw [hInit, List.pairwise_append] at hSorted
  obtain hMem | rfl := hMem
  · exact (hSorted.2.2 e' hMem e (List.mem_singleton.mpr rfl)).le
  · exact le_rfl

theorem previous?_eq_none (h : m.previous? k = none) (he : e ∈ m) : k ≤ e.1 := by
  have hNil := List.getLast?_eq_none_iff.mp h
  simpa using List.filter_eq_nil_iff.mp hNil e he

end SortedMap

end Library
