import Mathlib

/-! # Runs of a deterministic machine

A machine is a step function; a run folds it over a list of actions. The rules
below are the only inductions over runs: an invariant, a relation between the
ends of a run, a simulation, and history variables that the machine itself
never reads.
-/

namespace Library.Run

variable {σ τ α γ : Type*}

def run (step : σ → α → σ) (s : σ) (actions : List α) : σ := actions.foldl step s

@[simp] theorem run_nil (step : σ → α → σ) (s : σ) : run step s [] = s := rfl

@[simp] theorem run_cons (step : σ → α → σ) (s : σ) (a : α) (actions : List α) :
    run step s (a :: actions) = run step (step s a) actions := rfl

@[simp] theorem run_append (step : σ → α → σ) (s : σ) (first rest : List α) :
    run step s (first ++ rest) = run step (run step s first) rest :=
  List.foldl_append

/-- Two states behave alike for ever only if they are the same. -/
theorem run_eq_iff {step : σ → α → σ} {s t : σ} :
    (∀ actions, run step s actions = run step t actions) ↔ s = t := by
  constructor
  · intro h
    exact h []
  · rintro rfl actions
    rfl

/-- What each action of a run hands out. -/
def outputs {β : Type*} (answer : σ → α → σ × List β) : σ → List α → List (List β)
  | _, [] => []
  | s, a :: actions => (answer s a).2 :: outputs answer (answer s a).1 actions

/-- Every step of the run meets the condition in the state it starts from. -/
def Along (step : σ → α → σ) (C : σ → α → Prop) : σ → List α → Prop
  | _, [] => True
  | s, a :: actions => C s a ∧ Along step C (step s a) actions

instance Along.decidable (step : σ → α → σ) (C : σ → α → Prop)
    [∀ s a, Decidable (C s a)] : ∀ s actions, Decidable (Along step C s actions)
  | _, [] => instDecidableTrue
  | s, a :: actions =>
    have := Along.decidable step C (step s a) actions
    inferInstanceAs (Decidable (C s a ∧ Along step C (step s a) actions))

theorem along_append {step : σ → α → σ} {C : σ → α → Prop} {s : σ} {first rest : List α} :
    Along step C s (first ++ rest) ↔
      Along step C s first ∧ Along step C (run step s first) rest := by
  induction first generalizing s with
  | nil => exact (and_iff_right trivial).symm
  | cons a first ih => simp only [List.cons_append, Along, run_cons, ih, and_assoc]

theorem along_of_forall {step : σ → α → σ} {C : σ → α → Prop} {s : σ} {actions : List α}
    (h : ∀ a ∈ actions, ∀ s, C s a) : Along step C s actions := by
  induction actions generalizing s with
  | nil => trivial
  | cons a actions ih =>
    exact ⟨h a List.mem_cons_self s, ih fun b hMem => h b (List.mem_cons_of_mem a hMem)⟩

theorem Along.imp {step : σ → α → σ} {C D : σ → α → Prop} {s : σ} {actions : List α}
    (h : Along step C s actions) (hCD : ∀ s a, C s a → D s a) : Along step D s actions := by
  induction actions generalizing s with
  | nil => trivial
  | cons a actions ih => exact ⟨hCD s a h.1, ih h.2⟩

theorem along_and {step : σ → α → σ} {C D : σ → α → Prop} {s : σ} {actions : List α} :
    Along step (fun s a => C s a ∧ D s a) s actions ↔
      Along step C s actions ∧ Along step D s actions := by
  induction actions generalizing s with
  | nil => exact (and_iff_left trivial).symm
  | cons a actions ih =>
    simp only [Along, ih]
    exact and_and_and_comm

theorem along_true (step : σ → α → σ) (s : σ) (actions : List α) :
    Along step (fun _ _ => True) s actions :=
  along_of_forall fun _ _ _ => trivial

section Rules

variable {step : σ → α → σ} {C : σ → α → Prop} {s : σ} {actions : List α}

theorem invariant {P : σ → Prop} (hStep : ∀ s a, C s a → P s → P (step s a))
    (h : Along step C s actions) (hP : P s) : P (run step s actions) := by
  induction actions generalizing s with
  | nil => exact hP
  | cons a actions ih => exact ih h.2 (hStep s a h.1 hP)

theorem invariant_of_step {P : σ → Prop} (hStep : ∀ s a, P s → P (step s a))
    (hP : P s) (actions : List α) : P (run step s actions) :=
  invariant (C := fun _ _ => True) (fun s a _ => hStep s a) (along_true step s actions) hP

/-- A preorder kept by every step from an invariant state relates the two ends of a run. -/
theorem related {P : σ → Prop} {r : σ → σ → Prop} [Std.Refl r] [IsTrans σ r]
    (hStep : ∀ s a, C s a → P s → P (step s a) ∧ r s (step s a))
    (h : Along step C s actions) (hP : P s) : r s (run step s actions) := by
  induction actions generalizing s with
  | nil => exact Std.Refl.refl s
  | cons a actions ih =>
    obtain ⟨hP', hRel⟩ := hStep s a h.1 hP
    exact IsTrans.trans _ _ _ hRel (ih h.2 hP')

theorem simulation {step' : τ → α → τ} {R : σ → τ → Prop} {t : τ}
    (hStep : ∀ s t a, C s a → R s t → R (step s a) (step' t a))
    (h : Along step C s actions) (hR : R s t) : R (run step s actions) (run step' t actions) := by
  induction actions generalizing s t with
  | nil => exact hR
  | cons a actions ih => exact ih h.2 (hStep s t a h.1 hR)

/-- A measure that no step raises bounds how often a run takes the steps that lower it. -/
theorem countP_le {P : σ → Prop} {μ : σ → Nat} {p : α → Bool}
    (hStep : ∀ s a, C s a → P s → P (step s a) ∧ μ (step s a) + (p a).toNat ≤ μ s)
    (h : Along step C s actions) (hP : P s) : actions.countP p ≤ μ s := by
  induction actions generalizing s with
  | nil => exact Nat.zero_le _
  | cons a actions ih =>
    obtain ⟨hP', hLess⟩ := hStep s a h.1 hP
    have hRest := ih h.2 hP'
    rw [List.countP_cons]
    cases hCount : p a with
    | false =>
      rw [hCount, Bool.toNat_false] at hLess
      simp only [Bool.false_eq_true, if_false]
      omega
    | true =>
      rw [hCount, Bool.toNat_true] at hLess
      simp only [if_true]
      omega

end Rules

/-- The machine with a history variable, updated from the state each step starts in. -/
def withHistory (step : σ → α → σ) (record : γ → σ → α → γ) : σ × γ → α → σ × γ :=
  fun x a => (step x.1 a, record x.2 x.1 a)

@[simp] theorem run_withHistory_fst (step : σ → α → σ) (record : γ → σ → α → γ) (x : σ × γ)
    (actions : List α) : (run (withHistory step record) x actions).1 = run step x.1 actions := by
  induction actions generalizing x with
  | nil => rfl
  | cons a actions ih => exact ih (withHistory step record x a)

theorem invariant_withHistory {P : σ × γ → Prop} {step : σ → α → σ} (record : γ → σ → α → γ)
    (hStep : ∀ x a, P x → P (step x.1 a, record x.2 x.1 a)) (x : σ × γ) (hP : P x)
    (actions : List α) : P (run (withHistory step record) x actions) :=
  invariant_of_step hStep hP actions

theorem along_withHistory {step : σ → α → σ} {record : γ → σ → α → γ} {C : σ → α → Prop}
    {x : σ × γ} {actions : List α} :
    Along (withHistory step record) (fun y a => C y.1 a) x actions ↔
      Along step C x.1 actions := by
  induction actions generalizing x with
  | nil => exact Iff.rfl
  | cons a actions ih => exact and_congr_right fun _ => ih

end Library.Run
