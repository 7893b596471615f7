import Minnow.Library.Run

/-! # Machines around a medium

Machines of one kind act, or hear a message at one of their ports. The medium
keeps every message that was ever sent: a delivery picks any of them, so they
are lost, delayed, duplicated and reordered at will. The log of the actions is
a history that no machine reads.
-/

namespace Library

variable {ι σ α β μ : Type*}

/-- Hearing a message is an action as well; `perform` hands out what an action sends. -/
structure Machine (σ α β μ : Type*) where
  perform : σ → α → σ × List μ
  hear : β → μ → α

structure Network (ι σ α μ : Type*) where
  machine : ι → σ
  sent : List (ι × μ)
  log : List (ι × α)

namespace Network

def start (machine : ι → σ) : Network ι σ α μ := ⟨machine, [], []⟩

inductive Step (ι α β : Type*) where
  | act (i : ι) (a : α)
  | deliver (i : ι) (port : β) (k : Nat)
deriving DecidableEq

section Steps

variable [DecidableEq ι] (M : Machine σ α β μ) (self : Network ι σ α μ)

def turn (i : ι) (a : α) : Network ι σ α μ :=
  { self with
    machine := Function.update self.machine i (M.perform (self.machine i) a).1
    sent := self.sent ++ (M.perform (self.machine i) a).2.map fun m => (i, m) }

/-- No machine hears what it has sent itself. -/
def step : Step ι α β → Network ι σ α μ
  | .act i a => { self.turn M i a with log := self.log ++ [(i, a)] }
  | .deliver i port k =>
    match self.sent[k]? with
    | some (j, m) => if j = i then self else self.turn M i (M.hear port m)
    | none => self

/-- The condition on the actions of the machines' own accord. -/
def Permits (C : ι → σ → α → Prop) : Step ι α β → Prop
  | .act i a => C i (self.machine i) a
  | .deliver _ _ _ => True

instance (C : ι → σ → α → Prop) [∀ i s a, Decidable (C i s a)] (a : Step ι α β) :
    Decidable (self.Permits C a) :=
  match a with
  | .act _ _ => inferInstanceAs (Decidable (C _ _ _))
  | .deliver _ _ _ => instDecidableTrue

theorem step_deliver {i j : ι} {port : β} {k : Nat} {m : μ} (h : self.sent[k]? = some (j, m))
    (hOther : j ≠ i) : self.step M (.deliver i port k) = self.turn M i (M.hear port m) := by
  rw [step, h]
  exact if_neg hOther

/-- A step is an action, a delivery, or nothing. -/
theorem step_cases (a : Step ι α β) :
    (∃ i b, a = .act i b ∧ self.step M a =
      { self.turn M i b with log := self.log ++ [(i, b)] }) ∨
    (∃ i j port m, (j, m) ∈ self.sent ∧ j ≠ i ∧
      self.step M a = self.turn M i (M.hear port m)) ∨
    self.step M a = self := by
  cases a with
  | act i b => exact .inl ⟨i, b, rfl, rfl⟩
  | deliver i port k =>
    cases hGet : self.sent[k]? with
    | none =>
      right; right
      rw [step, hGet]
    | some e =>
      obtain ⟨j, m⟩ := e
      by_cases hSelf : j = i
      · right; right
        rw [step, hGet]
        exact if_pos hSelf
      · right; left
        exact ⟨i, j, port, m, List.mem_of_getElem? hGet, hSelf, self.step_deliver M hGet hSelf⟩

end Steps

/-- What every machine keeps and what it guarantees of its messages, given that the messages it
hears are as the others guarantee. Both may depend on the log, which only grows. -/
structure Guarantees (M : Machine σ α β μ) (C : ι → σ → α → Prop)
    (I : List (ι × α) → ι → σ → Prop) (G : List (ι × α) → ι → μ → Prop) : Prop where
  grow : ∀ log e i s, I log i s → I (log ++ [e]) i s
  grow_sent : ∀ log e i m, G log i m → G (log ++ [e]) i m
  act : ∀ log i s a, C i s a → I log i s →
    I (log ++ [(i, a)]) i (M.perform s a).1 ∧ ∀ m ∈ (M.perform s a).2, G (log ++ [(i, a)]) i m
  hear : ∀ log i j s port m, j ≠ i → I log i s → G log j m →
    I log i (M.perform s (M.hear port m)).1 ∧ ∀ m' ∈ (M.perform s (M.hear port m)).2, G log i m'

section Rule

variable [DecidableEq ι] {M : Machine σ α β μ} {C : ι → σ → α → Prop}
  {I : List (ι × α) → ι → σ → Prop} {G : List (ι × α) → ι → μ → Prop} {x : Network ι σ α μ}

/-- All machines and all messages are as promised. -/
structure Sound (I : List (ι × α) → ι → σ → Prop) (G : List (ι × α) → ι → μ → Prop)
    (x : Network ι σ α μ) : Prop where
  machine : ∀ i, I x.log i (x.machine i)
  sent : ∀ e ∈ x.sent, G x.log e.1 e.2

theorem Sound.turn {log : List (ι × α)} (hMachine : ∀ i, I log i (x.machine i))
    (hSent : ∀ e ∈ x.sent, G log e.1 e.2) {i : ι} {a : α}
    (h : I log i (M.perform (x.machine i) a).1 ∧
      ∀ m ∈ (M.perform (x.machine i) a).2, G log i m) :
    Sound I G { x.turn M i a with log := log } := by
  constructor
  · intro j
    change I log j (Function.update x.machine i _ j)
    by_cases hj : j = i
    · subst hj
      rw [Function.update_self]
      exact h.1
    · rw [Function.update_of_ne hj]
      exact hMachine j
  · intro e hMem
    obtain hMem | hMem := List.mem_append.mp hMem
    · exact hSent e hMem
    · obtain ⟨m, hOut, rfl⟩ := List.mem_map.mp hMem
      exact h.2 m hOut

theorem Guarantees.step (hM : Guarantees M C I G) {a : Step ι α β} (hOk : x.Permits C a)
    (h : Sound I G x) : Sound I G (x.step M a) := by
  obtain ⟨i, b, rfl, hStep⟩ | ⟨i, j, port, m, hMem, hOther, hStep⟩ | hStep := x.step_cases M a
  · rw [hStep]
    exact Sound.turn (fun j => hM.grow _ _ _ _ (h.machine j))
      (fun e hMem => hM.grow_sent _ _ _ _ (h.sent e hMem))
      (hM.act x.log i _ b hOk (h.machine i))
  · rw [hStep]
    exact Sound.turn h.machine h.sent (hM.hear x.log i j _ port m hOther (h.machine i)
      (h.sent (j, m) hMem))
  · rw [hStep]
    exact h

/-- The rule: what holds of every machine at the start holds in every state reached. -/
theorem Guarantees.run (hM : Guarantees M C I G) {steps : List (Step ι α β)}
    (hOk : Run.Along (Network.step M) (fun y => y.Permits C) x steps) (h : Sound I G x) :
    Sound I G (Run.run (Network.step M) x steps) :=
  Run.invariant (fun _ _ hOk h => hM.step hOk h) hOk h

end Rule

section Fields

variable [DecidableEq ι] (M : Machine σ α β μ) (x : Network ι σ α μ) (i : ι) (a : α)

@[simp] theorem turn_machine : (x.turn M i a).machine i = (M.perform (x.machine i) a).1 :=
  Function.update_self i _ _

theorem turn_machine_of_ne {j : ι} (h : j ≠ i) : (x.turn M i a).machine j = x.machine j :=
  Function.update_of_ne h _ _

@[simp] theorem turn_sent : (x.turn M i a).sent =
    x.sent ++ (M.perform (x.machine i) a).2.map fun m => (i, m) := rfl

@[simp] theorem turn_log : (x.turn M i a).log = x.log := rfl

/-- What one machine has sent so far. -/
def sentBy (self : Network ι σ α μ) (i : ι) : List μ :=
  (self.sent.filter fun e => e.1 = i).map Prod.snd

theorem mem_sentBy {m : μ} : m ∈ x.sentBy i ↔ (i, m) ∈ x.sent := by
  simp only [sentBy, List.mem_map, List.mem_filter, decide_eq_true_eq, Prod.exists]
  constructor
  · rintro ⟨j, _, ⟨hMem, rfl⟩, rfl⟩
    exact hMem
  · intro hMem
    exact ⟨i, m, ⟨hMem, rfl⟩, rfl⟩

theorem turn_sentBy : (x.turn M i a).sentBy i = x.sentBy i ++ (M.perform (x.machine i) a).2 := by
  have hNew : ((M.perform (x.machine i) a).2.map fun m => (i, m)).filter (fun e => e.1 = i) =
      (M.perform (x.machine i) a).2.map fun m => (i, m) := by
    rw [List.filter_eq_self]
    intro e hMem
    obtain ⟨m, -, rfl⟩ := List.mem_map.mp hMem
    exact decide_eq_true rfl
  rw [sentBy, turn_sent, List.filter_append, List.map_append, hNew, List.map_map]
  exact congrArg _ (List.map_id _)

theorem turn_sentBy_of_ne {j : ι} (h : j ≠ i) : (x.turn M i a).sentBy j = x.sentBy j := by
  have hNone : ((M.perform (x.machine i) a).2.map fun m => (i, m)).filter (fun e => e.1 = j) =
      [] := by
    rw [List.filter_eq_nil_iff]
    intro e hMem
    obtain ⟨m, -, rfl⟩ := List.mem_map.mp hMem
    simpa using h.symm
  rw [sentBy, turn_sent, List.filter_append, hNone, List.append_nil]
  rfl

end Fields

end Network

end Library
