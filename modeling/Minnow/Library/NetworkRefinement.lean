import Minnow.Library.Network

/-! # Machines that are built on machines

A concrete machine refines an abstract one if whatever it does in one action,
the abstract one can do in several, hearing no messages but the one that the
concrete one has heard. Messages may differ between the two levels: an abstract
one may be carried by several concrete ones. Then behind every state of the
concrete network stands one of the abstract network with its invariants.
-/

namespace Library.Network

variable {ι σ τ α β γ δ μ ν : Type*}

/-- One action that `C` admits, or the hearing of a message from `H`, with what has been sent. -/
inductive Does (N : Machine τ γ δ ν) (C : τ → γ → Prop) (H : ν → Prop) :
    τ × List ν → τ × List ν → Prop
  | act (s : τ) (out : List ν) (a : γ) (hC : C s a) :
      Does N C H (s, out) ((N.perform s a).1, out ++ (N.perform s a).2)
  | hear (s : τ) (out : List ν) (port : δ) (m : ν) (hH : H m) :
      Does N C H (s, out)
        ((N.perform s (N.hear port m)).1, out ++ (N.perform s (N.hear port m)).2)

/-- The condition on every action that a machine performs, of its own accord or on hearing a
message. -/
def Meets (M : Machine σ α β μ) (K : ι → σ → α → Prop) (self : Network ι σ α μ) :
    Step ι α β → Prop
  | .act i a => K i (self.machine i) a
  | .deliver i port k => ∀ e ∈ self.sent[k]?, K i (self.machine i) (M.hear port e.2)

instance (M : Machine σ α β μ) (K : ι → σ → α → Prop) [∀ i s a, Decidable (K i s a)]
    (self : Network ι σ α μ) (a : Step ι α β) : Decidable (self.Meets M K a) :=
  match a with
  | .act _ _ => inferInstanceAs (Decidable (K _ _ _))
  | .deliver _ _ k =>
    match h : self.sent[k]? with
    | none => isTrue fun _ hMem => nomatch h.symm.trans hMem
    | some e =>
      decidable_of_iff (K _ _ (M.hear _ e.2))
        ⟨fun hK _ hMem => Option.some.inj (h.symm.trans hMem) ▸ hK, fun hAll => hAll e h⟩

/-- What every action keeps of its own machine holds of all machines after a step. -/
theorem kept_step [DecidableEq ι] {M : Machine σ α β μ} {J : ι → σ → Prop} {K : ι → σ → α → Prop}
    (hKeep : ∀ i s a, K i s a → J i s → J i (M.perform s a).1) {x : Network ι σ α μ}
    {a : Step ι α β} (hMeets : x.Meets M K a) (h : ∀ i, J i (x.machine i)) :
    ∀ i, J i ((x.step M a).machine i) := by
  have hTurn : ∀ i a, K i (x.machine i) a → ∀ j, J j ((x.turn M i a).machine j) := by
    intro i a hK j
    by_cases hj : j = i
    · subst hj
      rw [turn_machine]
      exact hKeep j _ a hK (h j)
    · rw [turn_machine_of_ne _ _ _ _ hj]
      exact h j
  cases a with
  | act i a => exact hTurn i a hMeets
  | deliver i port k =>
    cases hGet : x.sent[k]? with
    | none =>
      rw [Network.step, hGet]
      exact h
    | some e =>
      by_cases hSelf : e.1 = i
      · rw [Network.step, hGet]
        dsimp only
        rw [if_pos hSelf]
        exact h
      · rw [x.step_deliver M hGet hSelf]
        exact hTurn i _ (hMeets e hGet)

theorem kept_run [DecidableEq ι] {M : Machine σ α β μ} {J : ι → σ → Prop} {K : ι → σ → α → Prop}
    (hKeep : ∀ i s a, K i s a → J i s → J i (M.perform s a).1) {x : Network ι σ α μ}
    {steps : List (Step ι α β)}
    (hMeets : Run.Along (Network.step M) (fun x => x.Meets M K) x steps)
    (h : ∀ i, J i (x.machine i)) : ∀ i, J i ((Run.run (Network.step M) x steps).machine i) :=
  Run.invariant (P := fun x : Network ι σ α μ => ∀ i, J i (x.machine i))
    (fun _ _ hOk h => kept_step hKeep hOk h) hMeets h

/-- The abstract machine gets from `t` to `t'` and has sent what the messages carry. -/
def Matches (N : Machine τ γ δ ν) (C : τ → γ → Prop) (H : ν → Prop) (W : ν → μ → Prop) (t t' : τ)
    (sent : List μ) : Prop :=
  ∃ out, Relation.ReflTransGen (Does N C H) (t, []) (t', out) ∧ ∀ m ∈ sent, ∃ n ∈ out, W n m

namespace Matches

variable {N : Machine τ γ δ ν} {C : τ → γ → Prop} {H : ν → Prop} {W : ν → μ → Prop} {t t' : τ}
  {sent sent' : List μ}

theorem refl : Matches N C H W t t ([] : List μ) :=
  ⟨[], .refl, fun _ hMem => absurd hMem List.not_mem_nil⟩

theorem does (h : Matches N C H W t t' sent) {a : γ}
    (hDoes : ∀ out, Does N C H (t', out) ((N.perform t' a).1, out ++ (N.perform t' a).2))
    (hSent : ∀ m ∈ sent', m ∈ sent ∨ ∃ n ∈ (N.perform t' a).2, W n m) :
    Matches N C H W t (N.perform t' a).1 sent' := by
  obtain ⟨out, hBefore, hCarried⟩ := h
  refine ⟨out ++ (N.perform t' a).2, hBefore.tail (hDoes out), fun m hMem => ?_⟩
  obtain hOld | ⟨n, hNew, hW⟩ := hSent m hMem
  · obtain ⟨n, hIn, hW⟩ := hCarried m hOld
    exact ⟨n, List.mem_append_left _ hIn, hW⟩
  · exact ⟨n, List.mem_append_right _ hNew, hW⟩

/-- One more action. -/
theorem act (h : Matches N C H W t t' sent) {a : γ} (hC : C t' a)
    (hSent : ∀ m ∈ sent', m ∈ sent ∨ ∃ n ∈ (N.perform t' a).2, W n m) :
    Matches N C H W t (N.perform t' a).1 sent' :=
  h.does (fun out => .act t' out a hC) hSent

/-- One more message that may be heard. -/
theorem hear (h : Matches N C H W t t' sent) (port : δ) {n : ν} (hH : H n)
    (hSent : ∀ m ∈ sent', m ∈ sent ∨ ∃ n' ∈ (N.perform t' (N.hear port n)).2, W n' m) :
    Matches N C H W t (N.perform t' (N.hear port n)).1 sent' :=
  h.does (fun out => .hear t' out port n hH) hSent

end Matches

/-- The concrete machines keep `J`, and each action of theirs that meets `K` is made of actions
that `C` admits. A message `n` is carried as `W` says, and may be relied upon to be as `G` says. -/
structure Refines (M : Machine σ α β μ) (N : Machine τ γ δ ν) (abs : σ → τ) (W : ν → μ → Prop)
    (G : ν → Prop) (own : σ → α → Prop) (J : ι → σ → Prop) (K : ι → σ → α → Prop)
    (C : ι → τ → γ → Prop) : Prop where
  act : ∀ i s a, own s a → K i s a → J i s → J i (M.perform s a).1 ∧
    Matches N (C i) (fun _ => False) W (abs s) (abs (M.perform s a).1) (M.perform s a).2
  hear : ∀ i s port m n, W n m → G n → K i s (M.hear port m) → J i s →
    J i (M.perform s (M.hear port m)).1 ∧ Matches N (C i) (fun n' => n' = n) W (abs s)
      (abs (M.perform s (M.hear port m)).1) (M.perform s (M.hear port m)).2

/-- What the abstract network knows of the concrete one. -/
structure Shows (abs : σ → τ) (W : ν → μ → Prop) (x : Network ι σ α μ) (y : Network ι τ γ ν) :
    Prop where
  machine : ∀ i, y.machine i = abs (x.machine i)
  sent : ∀ e ∈ x.sent, ∃ n, W n e.2 ∧ (e.1, n) ∈ y.sent

theorem shows_start (abs : σ → τ) (W : ν → μ → Prop) (machine : ι → σ) :
    Shows abs W (start machine : Network ι σ α μ)
      (start fun i => abs (machine i) : Network ι τ γ ν) :=
  ⟨fun _ => rfl, fun _ hMem => absurd hMem List.not_mem_nil⟩

section Rule

variable [DecidableEq ι] {M : Machine σ α β μ} {N : Machine τ γ δ ν} {abs : σ → τ}
  {W : ν → μ → Prop} {G : ν → Prop} {own : σ → α → Prop} {J : ι → σ → Prop}
  {K : ι → σ → α → Prop} {C : ι → τ → γ → Prop} {Inv : Network ι τ γ ν → Prop}

/-- An invariant of the abstract network that does not look at the log. -/
structure Invariant (N : Machine τ γ δ ν) (C : ι → τ → γ → Prop) (Inv : Network ι τ γ ν → Prop) :
    Prop where
  step : ∀ x (a : Step ι γ δ), x.Permits C a → Inv x → Inv (x.step N a)
  log : ∀ x log, Inv x → Inv { x with log := log }

/-- The network in which one machine is in the middle of an action. -/
def within (y : Network ι τ γ ν) (i : ι) (x : τ × List ν) : Network ι τ γ ν where
  machine := Function.update y.machine i x.1
  sent := y.sent ++ x.2.map fun m => (i, m)
  log := []

theorem within_start (y : Network ι τ γ ν) (i : ι) :
    y.within i (y.machine i, []) = { y with log := [] } := by
  simp only [within, Function.update_eq_self, List.map_nil, List.append_nil]

theorem within_turn (y : Network ι τ γ ν) (i : ι) (s : τ) (out : List ν) (a : γ) :
    { (y.within i (s, out)).turn N i a with log := [] } =
      y.within i ((N.perform s a).1, out ++ (N.perform s a).2) := by
  simp only [within, turn, Function.update_self, Function.update_idem, List.map_append,
    List.append_assoc]

theorem Invariant.does (hInv : Invariant N C Inv) {y : Network ι τ γ ν} {i : ι} {H : ν → Prop}
    (hHeard : ∀ m, H m → ∃ j, j ≠ i ∧ (j, m) ∈ y.sent) {x x' : τ × List ν}
    (hDoes : Relation.ReflTransGen (Does N (C i) H) x x') (h : Inv (y.within i x)) :
    Inv (y.within i x') := by
  induction hDoes with
  | refl => exact h
  | tail hBefore hStep ih =>
    cases hStep with
    | act s out a hC =>
      have hPermits : (y.within i (s, out)).Permits (β := δ) C (.act i a) := by
        change C i (Function.update y.machine i s i) a
        rw [Function.update_self]
        exact hC
      rw [← within_turn]
      exact hInv.log ((y.within i (s, out)).step N (.act i a)) [] (hInv.step _ _ hPermits ih)
    | hear s out port m hH =>
      obtain ⟨j, hOther, hMem⟩ := hHeard m hH
      obtain ⟨k, hGet⟩ := List.mem_iff_getElem?.mp
        (List.mem_append_left (out.map fun m => (i, m)) hMem)
      have hTurn : (y.within i (s, out)).step N (.deliver i port k) = _ :=
        (y.within i (s, out)).step_deliver N hGet hOther
      rw [← within_turn, ← hTurn]
      exact hInv.log _ [] (hInv.step _ (.deliver i port k) trivial ih)

theorem Shows.turn {x : Network ι σ α μ} {y : Network ι τ γ ν} (h : Shows abs W x y) {i : ι} {a : α}
    {out : List ν} (hOut : ∀ m ∈ (M.perform (x.machine i) a).2, ∃ n ∈ out, W n m) :
    Shows abs W (x.turn M i a) (y.within i (abs (M.perform (x.machine i) a).1, out)) := by
  constructor
  · intro j
    change Function.update y.machine i _ j = _
    by_cases hj : j = i
    · subst hj
      rw [Function.update_self, turn_machine]
    · rw [Function.update_of_ne hj, turn_machine_of_ne _ _ _ _ hj]
      exact h.machine j
  · intro e hMem
    obtain hMem | hMem := List.mem_append.mp hMem
    · obtain ⟨n, hCarries, hIn⟩ := h.sent e hMem
      exact ⟨n, hCarries, List.mem_append_left _ hIn⟩
    · obtain ⟨m, hIn, rfl⟩ := List.mem_map.mp hMem
      obtain ⟨n, hOut, hCarries⟩ := hOut m hIn
      exact ⟨n, hCarries, List.mem_append_right _ (List.mem_map_of_mem hOut)⟩

/-- What the rule keeps of the two networks. -/
structure Refined (abs : σ → τ) (W : ν → μ → Prop) (J : ι → σ → Prop)
    (Inv : Network ι τ γ ν → Prop) (x : Network ι σ α μ) : Prop where
  kept : ∀ i, J i (x.machine i)
  behind : ∃ y : Network ι τ γ ν, Shows abs W x y ∧ Inv y

theorem Refines.turn (hInv : Invariant N C Inv) {x : Network ι σ α μ} {y : Network ι τ γ ν} {i : ι}
    {a : α} {H : ν → Prop} (hHeard : ∀ m, H m → ∃ j, j ≠ i ∧ (j, m) ∈ y.sent)
    (hJ : ∀ i, J i (x.machine i)) (hShows : Shows abs W x y) (h : Inv y)
    (hTurn : J i (M.perform (x.machine i) a).1 ∧ Matches N (C i) H W (abs (x.machine i))
      (abs (M.perform (x.machine i) a).1) (M.perform (x.machine i) a).2) :
    Refined abs W J Inv (x.turn M i a) := by
  obtain ⟨hKept, out, hDoes, hOut⟩ := hTurn
  constructor
  · intro j
    by_cases hj : j = i
    · subst hj
      rw [turn_machine]
      exact hKept
    · rw [turn_machine_of_ne _ _ _ _ hj]
      exact hJ j
  · refine ⟨_, hShows.turn hOut, hInv.does hHeard hDoes ?_⟩
    rw [← hShows.machine i, within_start]
    exact hInv.log y [] h

theorem Refines.step (hRefines : Refines M N abs W G own J K C) (hInv : Invariant N C Inv)
    (hG : ∀ y, Inv y → ∀ e ∈ y.sent, G e.2) {x : Network ι σ α μ} {a : Step ι α β}
    (hOwn : x.Permits (fun _ => own) a) (hMeets : x.Meets M K a) (h : Refined abs W J Inv x) :
    Refined abs W J Inv (x.step M a) := by
  obtain ⟨hJ, y, hShows, hBehind⟩ := h
  cases a with
  | act i a =>
    obtain ⟨hKept, hAfter⟩ := Refines.turn hInv (fun _ hm => hm.elim) hJ hShows hBehind
      (hRefines.act i _ a hOwn hMeets (hJ i))
    exact ⟨hKept, hAfter.imp fun _ hy => ⟨⟨hy.1.machine, hy.1.sent⟩, hy.2⟩⟩
  | deliver i port k =>
    cases hGet : x.sent[k]? with
    | none =>
      rw [Network.step, hGet]
      exact ⟨hJ, y, hShows, hBehind⟩
    | some e =>
      obtain ⟨j, m⟩ := e
      by_cases hSelf : j = i
      · rw [Network.step, hGet]
        dsimp only
        rw [if_pos hSelf]
        exact ⟨hJ, y, hShows, hBehind⟩
      · rw [x.step_deliver M hGet hSelf]
        obtain ⟨n, hCarries, hIn⟩ := hShows.sent (j, m) (List.mem_of_getElem? hGet)
        refine Refines.turn hInv (H := fun n' => n' = n) ?_ hJ hShows hBehind
          (hRefines.hear i _ port m n hCarries (hG y hBehind (j, n) hIn) (hMeets (j, m) hGet)
            (hJ i))
        rintro _ rfl
        exact ⟨j, hSelf, hIn⟩

/-- The rule: behind every state that the concrete network reaches stands one of the abstract
network that has its invariant. -/
theorem Refines.run (hRefines : Refines M N abs W G own J K C) (hInv : Invariant N C Inv)
    (hG : ∀ y, Inv y → ∀ e ∈ y.sent, G e.2) {x : Network ι σ α μ} {steps : List (Step ι α β)}
    (hOwn : Run.Along (Network.step M) (fun x => x.Permits fun _ => own) x steps)
    (hMeets : Run.Along (Network.step M) (fun x => x.Meets M K) x steps)
    (h : Refined abs W J Inv x) :
    Refined abs W J Inv (Run.run (Network.step M) x steps) :=
  Run.invariant (P := Refined abs W J Inv)
    (fun _ _ hOk h => hRefines.step hInv hG hOk.1 hOk.2 h) (Run.along_and.mpr ⟨hOwn, hMeets⟩) h

end Rule

end Library.Network
