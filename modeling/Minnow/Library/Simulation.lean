import Mathlib

/-! # Simulation of stateful programs

A program that may fail simulates a total one when it does not fail from a
related state, returns what the other returns, and leaves the states related.
The rules follow the way programs are composed.
-/

namespace Library

variable {σ τ α β : Type} {R : σ → τ → Prop}

def Simulates (R : σ → τ → Prop) (m : StateT σ Option α) (f : StateM τ α) : Prop :=
  ∀ s t, R s t → ∃ s', m s = some ((f t).1, s') ∧ R s' (f t).2

namespace Simulates

theorem pure (a : α) : Simulates R (pure a) (pure a) := fun s _ hR => ⟨s, rfl, hR⟩

/-- What the total program is known to return may be used in the rest. -/
theorem bind_of_result {P : α → Prop} {m : StateT σ Option α} {f : StateM τ α}
    {k : α → StateT σ Option β} {g : α → StateM τ β} (hm : Simulates R m f)
    (hP : ∀ t, P (f t).1) (hk : ∀ a, P a → Simulates R (k a) (g a)) :
    Simulates R (m >>= k) (f >>= g) := by
  intro s t hR
  obtain ⟨s', hRun, hR'⟩ := hm s t hR
  obtain ⟨s'', hRun', hR''⟩ := hk (f t).1 (hP t) s' (f t).2 hR'
  refine ⟨s'', ?_, hR''⟩
  change (m s).bind _ = _
  rw [hRun]
  exact hRun'

theorem bind {m : StateT σ Option α} {f : StateM τ α} {k : α → StateT σ Option β}
    {g : α → StateM τ β} (hm : Simulates R m f) (hk : ∀ a, Simulates R (k a) (g a)) :
    Simulates R (m >>= k) (f >>= g) :=
  hm.bind_of_result (P := fun _ => True) (fun _ => trivial) fun a _ => hk a

theorem mapM {m : α → StateT σ Option β} {f : α → StateM τ β} (h : ∀ a, Simulates R (m a) (f a))
    (xs : List α) : Simulates R (xs.mapM m) (xs.mapM f) := by
  induction xs with
  | nil => exact pure []
  | cons x xs ih =>
    rw [List.mapM_cons, List.mapM_cons]
    exact (h x).bind fun y => ih.bind fun ys => pure (y :: ys)

end Simulates

end Library
