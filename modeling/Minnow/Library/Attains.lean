import Minnow.Library.Run

/-! # What a machine can be brought to

Some actions that meet a condition lead to a state as wanted. Such actions are
chained, and repeated as long as they lower a measure.
-/

namespace Library.Run

variable {σ α : Type*} {step : σ → α → σ} {C : σ → α → Prop} {s : σ} {P Q I : σ → Prop}

def Attains (step : σ → α → σ) (C : σ → α → Prop) (s : σ) (P : σ → Prop) : Prop :=
  ∃ actions, Along step C s actions ∧ P (run step s actions)

theorem Attains.now (h : P s) : Attains step C s P := ⟨[], trivial, h⟩

theorem Attains.next {a : α} (hOk : C s a) (h : Attains step C (step s a) P) :
    Attains step C s P := by
  obtain ⟨actions, hAlong, hP⟩ := h
  exact ⟨a :: actions, ⟨hOk, hAlong⟩, hP⟩

theorem Attains.mono (h : Attains step C s P) (hPQ : ∀ t, P t → Q t) : Attains step C s Q := by
  obtain ⟨actions, hAlong, hP⟩ := h
  exact ⟨actions, hAlong, hPQ _ hP⟩

theorem Attains.bind (h : Attains step C s P) (hNext : ∀ t, P t → Attains step C t Q) :
    Attains step C s Q := by
  obtain ⟨first, hFirst, hP⟩ := h
  obtain ⟨rest, hRest, hQ⟩ := hNext _ hP
  refine ⟨first ++ rest, along_append.mpr ⟨hFirst, hRest⟩, ?_⟩
  rw [run_append]
  exact hQ

/-- What every step keeps holds there as well. -/
theorem Attains.keep (h : Attains step C s P) (hStep : ∀ s a, C s a → I s → I (step s a))
    (hI : I s) : Attains step C s fun t => P t ∧ I t := by
  obtain ⟨actions, hAlong, hP⟩ := h
  exact ⟨actions, hAlong, hP, invariant hStep hAlong hI⟩

/-- Rounds that are either the last one or lower a measure come to an end. -/
theorem Attains.rounds {μ : σ → Nat}
    (hRound : ∀ s, I s → Attains step C s fun t => Q t ∨ I t ∧ μ t < μ s) (hI : I s) :
    Attains step C s Q := by
  induction hMeasure : μ s using Nat.strong_induction_on generalizing s with
  | h n ih =>
    refine (hRound s hI).bind fun t hEnd => ?_
    obtain hQ | ⟨hAgain, hLess⟩ := hEnd
    · exact .now hQ
    · exact ih (μ t) (hMeasure ▸ hLess) hAgain rfl

end Library.Run
