import Mathlib

/-! # A loop over the entries of an association list

When each turn changes only what is seen through its own key, the loop changes
what is seen through a key exactly once, and only if the key has an entry.
-/

namespace Library.EntryLoop

variable {κ : Type*} {β : κ → Type*} {σ τ : Type*}

theorem view_foldl_of_notMem {turn : σ → Sigma β → σ} {k : κ} {view : σ → τ}
    (hOther : ∀ s e, e.1 ≠ k → view (turn s e) = view s) {entries : List (Sigma β)}
    (h : k ∉ entries.keys) (s : σ) : view (entries.foldl turn s) = view s := by
  induction entries generalizing s with
  | nil => rfl
  | cons e entries ih =>
    rw [List.keys_cons, List.mem_cons, not_or] at h
    rw [List.foldl_cons, ih h.2, hOther s e (Ne.symm h.1)]

theorem view_foldl [DecidableEq κ] {turn : σ → Sigma β → σ} {k : κ} (view : σ → τ)
    (own : β k → τ → τ)
    (hOther : ∀ s e, e.1 ≠ k → view (turn s e) = view s)
    (hOwn : ∀ s v, view (turn s ⟨k, v⟩) = own v (view s)) (m : AList β) (s : σ) :
    view (m.entries.foldl turn s) = (m.lookup k).elim (view s) fun v => own v (view s) := by
  obtain ⟨entries, hNodup⟩ := m
  change view (entries.foldl turn s) = (entries.dlookup k).elim _ _
  induction entries generalizing s with
  | nil => rfl
  | cons e entries ih =>
    obtain ⟨hNotMem, hRest⟩ := List.nodupKeys_cons.mp hNodup
    rw [List.foldl_cons]
    by_cases hKey : e.1 = k
    · obtain ⟨k', v⟩ := e
      dsimp only at hKey
      subst hKey
      rw [view_foldl_of_notMem hOther hNotMem, hOwn, List.dlookup_cons_eq]
      rfl
    · rw [ih (turn s e) hRest, hOther s e hKey, List.dlookup_cons_ne entries e (Ne.symm hKey)]

end Library.EntryLoop
