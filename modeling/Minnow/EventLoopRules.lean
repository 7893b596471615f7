import Minnow.EventLoop

/-! # Reasoning about an event loop

A callback runs some time after its rule was found interested: in between other
rules may be cancelled. What is left of the interest by then is the predicate
`armed` below, and an invariant speaks of the rules that are left as well as of
the state.
-/

namespace Minnow.EventLoop

variable {σ β : Type}

theorem eq_of_onState {α : Type} {f : α → σ} {x : Except α α} {s' : σ}
    (h : onState f x = .ok s' ∨ onState f x = .error s') :
    ∃ a, (x = .ok a ∨ x = .error a) ∧ s' = f a := by
  cases x with
  | ok a =>
    obtain h | h := h <;> cases h
    exact ⟨a, .inl rfl, rfl⟩
  | error a =>
    obtain h | h := h <;> cases h
    exact ⟨a, .inr rfl, rfl⟩

/-- Every rule's part of the answer of `poll` is as `E` says. -/
def Polled (E : FDRule σ β → Revents → Prop) : List (FDRule σ β) → List Revents → Prop
  | [], _ => True
  | r :: rules, revents => E r (revents.headD {}) ∧ Polled E rules revents.tail

instance Polled.decidable (E : FDRule σ β → Revents → Prop) [∀ r ev, Decidable (E r ev)] :
    ∀ rules revents, Decidable (Polled E rules revents)
  | [], _ => instDecidableTrue
  | _ :: rules, revents =>
    have := Polled.decidable E rules revents.tail
    inferInstanceAs (Decidable (_ ∧ Polled E rules _))

theorem polled_true (rules : List (FDRule σ β)) (revents : List Revents) :
    Polled (fun _ _ => True) rules revents := by
  induction rules generalizing revents with
  | nil => trivial
  | cons r rules ih => exact ⟨trivial, ih _⟩

/-- `poll` is answered as `E` says for the rules of the loop in this state. -/
def Reports (E : FDRule σ β → Revents → Prop) (self : EventLoop σ β) (s : σ) : Poll → Prop
  | .ready revents => Polled E ((prepare self.fdRules s).1.map Prod.fst) revents
  | .failed | .timeout => True

instance (E : FDRule σ β → Revents → Prop) [∀ r ev, Decidable (E r ev)] (self : EventLoop σ β)
    (s : σ) (poll : Poll) : Decidable (self.Reports E s poll) :=
  match poll with
  | .ready _ => inferInstanceAs (Decidable (Polled E _ _))
  | .failed | .timeout => instDecidableTrue

/-- Neither a cancellation nor an error of a rule undoes it. -/
def Stable (all : List (FDRule σ β)) (A : σ → Prop) : Prop :=
  ∀ r ∈ all, ∀ s, A s → A (r.cancel s) ∧ A (r.error s)

/-- A loop with the rules `all` and no basic ones, with answers of `poll` as `E` says and answers
to its callbacks as `B` says of the state, keeps `P` of the state, and once a rule has been
cancelled, what `gone` says of it. -/
structure Keeps (E : FDRule σ β → Revents → Prop) (B : σ → β → Prop)
    (armed : FDRule σ β → σ → Prop) (P : σ → Prop) (gone : FDRule σ β → σ → Prop)
    (all : List (FDRule σ β)) : Prop where
  distinct : (all.map FDRule.categoryId).Nodup
  requested : ∀ r ∈ all, r.cancelRequested = false
  defunct : ∀ r ∈ all, ∀ s, P s → r.Defunct s → P (r.cancel s) ∧ gone r (r.cancel s)
  error : ∀ r ∈ all, ∀ s ev, P s → E r ev → ev.error = true →
    P (r.cancel (r.error s)) ∧ gone r (r.cancel (r.error s))
  hangup : ∀ r ∈ all, ∀ s ev, P s → E r ev → ev.pollhup = true →
    P (r.cancel s) ∧ gone r (r.cancel s)
  arm : ∀ r ∈ all, ∀ s, P s → r.interest s = true → armed r s
  armed_cancel : ∀ r ∈ all, ∀ other ∈ all, other.categoryId ≠ r.categoryId → ∀ s, armed r s →
    armed r (other.cancel s)
  armed_error : ∀ r ∈ all, ∀ other ∈ all, ∀ s, armed r s → armed r (other.error s)
  gone_cancel : ∀ r ∈ all, ∀ other ∈ all, ∀ s, gone r s → gone r (other.cancel s)
  gone_error : ∀ r ∈ all, ∀ other ∈ all, ∀ s, gone r s → gone r (other.error s)
  answered : ∀ answer, Stable all fun s => B s answer
  callback : ∀ r ∈ all, ∀ answer s s', B s answer → P s → armed r s →
    r.callback answer s = .ok s' ∨ r.callback answer s = .error s' →
      P s' ∧ ∀ other ∈ all, gone other s → gone other s'

/-- What a loop keeps of the rules that are left and of the state. -/
structure Live (P : σ → Prop) (gone : FDRule σ β → σ → Prop) (all rules : List (FDRule σ β))
    (s : σ) : Prop where
  sublist : rules.Sublist all
  holds : P s
  gone : ∀ r ∈ all, r ∈ rules ∨ gone r s

theorem id_ne_of_nodup {before after : List (FDRule σ β)} {r : FDRule σ β}
    (h : ((before ++ r :: after).map FDRule.categoryId).Nodup) :
    (∀ r' ∈ before, r.categoryId ≠ r'.categoryId) ∧ ∀ r' ∈ after, r.categoryId ≠ r'.categoryId := by
  rw [List.map_append, List.map_cons, List.nodup_append] at h
  obtain ⟨-, hAfter, hBefore⟩ := h
  constructor
  · intro r' hMem hEq
    exact hBefore _ (List.mem_map_of_mem hMem) _ List.mem_cons_self hEq.symm
  · intro r' hMem hEq
    exact (List.nodup_cons.mp hAfter).1 (hEq ▸ List.mem_map_of_mem hMem)

/-- What no cancellation undoes still holds when all rules have been looked at. -/
theorem prepare_stable {P : σ → Prop} {rules : List (FDRule σ β)} {s : σ}
    (hCancel : ∀ r ∈ rules, ∀ s, P s → P (r.cancel s)) (h : P s) : P (prepare rules s).2 := by
  induction rules generalizing s with
  | nil => exact h
  | cons r rules ih =>
    have hRest : ∀ r' ∈ rules, ∀ s, P s → P (r'.cancel s) :=
      fun r' hMem => hCancel r' (List.mem_cons_of_mem r hMem)
    rw [prepare]
    split
    · exact ih hRest h
    · split
      · exact ih hRest (hCancel r List.mem_cons_self s h)
      · exact ih hRest h

/-- A rule that was not asked for is as idle at the end as its lack of interest makes it, if the
later rules leave it so. -/
theorem prepare_idle {idle : FDRule σ β → σ → Prop} {rules : List (FDRule σ β)} {s : σ}
    (hIdle : ∀ r ∈ rules, ∀ s, r.interest s = false → idle r s)
    (hLater : rules.Pairwise fun r r' => ∀ s, idle r s → idle r (r'.cancel s)) :
    ∀ p ∈ (prepare rules s).1, p.2 = false → idle p.1 (prepare rules s).2 := by
  induction rules generalizing s with
  | nil => exact fun p hMem => absurd hMem List.not_mem_nil
  | cons r rules ih =>
    obtain ⟨hHead, hTail⟩ := List.pairwise_cons.mp hLater
    have hRest : ∀ s, ∀ p ∈ (prepare rules s).1, p.2 = false → idle p.1 (prepare rules s).2 :=
      fun s => ih (fun r' hMem => hIdle r' (List.mem_cons_of_mem r hMem)) hTail
    rw [prepare]
    split
    · exact hRest s
    · split
      · exact hRest _
      · intro p hMem hFalse
        obtain rfl | hMem := List.mem_cons.mp hMem
        · exact prepare_stable (P := idle r) hHead (hIdle r List.mem_cons_self s hFalse)
        · exact hRest s p hMem hFalse

section Rules

variable {E : FDRule σ β → Revents → Prop} {B : σ → β → Prop} {armed : FDRule σ β → σ → Prop}
  {P : σ → Prop} {gone : FDRule σ β → σ → Prop} {all : List (FDRule σ β)}

section Live

variable {before after rules : List (FDRule σ β)} {r : FDRule σ β} {s s' : σ}

theorem Live.mem (h : Live P gone all rules s) (hMem : r ∈ rules) : r ∈ all :=
  h.sublist.subset hMem

/-- A rule is cancelled. -/
theorem Live.drop (h : Live P gone all (before ++ r :: after) s) (hHolds : P s' ∧ gone r s')
    (hGone : ∀ q ∈ all, gone q s → gone q s') : Live P gone all (before ++ after) s' := by
  refine ⟨?_, hHolds.1, fun q hAll => ?_⟩
  · exact ((List.sublist_cons_self r after).append_left before).trans h.sublist
  · obtain hMem | hOld := h.gone q hAll
    · obtain hMem | hMem := List.mem_append.mp hMem
      · exact .inl (List.mem_append_left _ hMem)
      · obtain rfl | hMem := List.mem_cons.mp hMem
        · exact .inr hHolds.2
        · exact .inl (List.mem_append_right _ hMem)
    · exact .inr (hGone q hAll hOld)

theorem Keeps.id_ne (hK : Keeps E B armed P gone all)
    (h : Live P gone all (before ++ r :: after) s) :
    (∀ q ∈ before, r.categoryId ≠ q.categoryId) ∧ ∀ q ∈ after, r.categoryId ≠ q.categoryId :=
  id_ne_of_nodup (hK.distinct.sublist (h.sublist.map FDRule.categoryId))

end Live

theorem Keeps.mono (hK : Keeps E B armed P gone all) {E' : FDRule σ β → Revents → Prop}
    (hE : ∀ r ev, E' r ev → E r ev) : Keeps E' B armed P gone all :=
  { hK with
    error := fun r hMem s ev h hReported => hK.error r hMem s ev h (hE r ev hReported)
    hangup := fun r hMem s ev h hReported => hK.hangup r hMem s ev h (hE r ev hReported) }

/-- A rule that was asked for is still armed when all rules have been looked at. -/
theorem Keeps.prepare (hK : Keeps E B armed P gone all) {before rules : List (FDRule σ β)} {s : σ}
    (h : Live P gone all (before ++ rules) s) :
    Live P gone all (before ++ (prepare rules s).1.map Prod.fst) (prepare rules s).2 ∧
      (∀ r ∈ before, armed r s → armed r (prepare rules s).2) ∧
      ∀ p ∈ (prepare rules s).1, p.2 = true → armed p.1 (prepare rules s).2 := by
  induction rules generalizing before s with
  | nil => exact ⟨h, fun _ _ h => h, fun p hMem => absurd hMem List.not_mem_nil⟩
  | cons r rules ih =>
    have hAll : r ∈ all := h.mem (List.mem_append_right _ List.mem_cons_self)
    rw [EventLoop.prepare, hK.requested r hAll, if_neg Bool.false_ne_true]
    by_cases hDefunct : r.Defunct s
    · rw [if_pos hDefunct]
      have hDropped := h.drop (hK.defunct r hAll s h.holds hDefunct)
        fun q hq => hK.gone_cancel q hq r hAll s
      obtain ⟨hAfter, hBefore, hAsked⟩ := ih hDropped
      refine ⟨hAfter, fun q hMem hArmed => hBefore q hMem ?_, hAsked⟩
      exact hK.armed_cancel q (h.mem (List.mem_append_left _ hMem)) r hAll
        ((hK.id_ne h).1 q hMem) s hArmed
    · rw [if_neg hDefunct]
      have hShift : before ++ r :: rules = (before ++ [r]) ++ rules := by
        rw [List.append_assoc, List.singleton_append]
      obtain ⟨hAfter, hBefore, hAsked⟩ := ih (hShift ▸ h)
      refine ⟨?_, fun q hMem => hBefore q (List.mem_append_left _ hMem), ?_⟩
      · rw [List.append_assoc, List.singleton_append] at hAfter
        exact hAfter
      · intro p hIn hTrue
        obtain rfl | hIn := List.mem_cons.mp hIn
        · exact hBefore r (List.mem_append_right _ (List.mem_singleton_self _))
            (hK.arm r hAll s h.holds hTrue)
        · exact hAsked p hIn hTrue

/-- How a pass ends that has come to the state `s₀` when it serves a rule, if it serves one. -/
inductive Served (E : FDRule σ β → Revents → Prop) (armed : FDRule σ β → σ → Prop)
    (all : List (FDRule σ β)) (answer : β) (s₀ : σ) : Result → σ → Prop
  | none : Served E armed all answer s₀ .success s₀
  | socket (r : FDRule σ β) (ev : Revents) (hAll : r ∈ all) (hReported : E r ev)
      (hError : ev.error = true) (hFails : ev.sockoptFails = true) :
      Served E armed all answer s₀ .threw s₀
  | threw (r : FDRule σ β) (hAll : r ∈ all) (hArmed : armed r s₀) (s' : σ)
      (hCallback : r.callback answer s₀ = .error s') : Served E armed all answer s₀ .threw s'
  | busy (r : FDRule σ β) (hAll : r ∈ all) (hArmed : armed r s₀) (s' : σ)
      (hCallback : r.callback answer s₀ = .ok s')
      (hBusy : r.serviceCount s₀ = r.serviceCount s' ∧ (r.fd s').closed = false ∧
        r.interest s' = true) : Served E armed all answer s₀ .threw s'
  | done (r : FDRule σ β) (hAll : r ∈ all) (hArmed : armed r s₀) (s' : σ)
      (hCallback : r.callback answer s₀ = .ok s') : Served E armed all answer s₀ .success s'

/-- All that a pass over the answers of `poll` can do. -/
theorem Keeps.serve (hK : Keeps E B armed P gone all) (answer : β) {before : List (FDRule σ β)}
    {prepared : List (FDRule σ β × Bool)} {revents : List Revents} {s : σ}
    (h : Live P gone all (before ++ prepared.map Prod.fst) s)
    (hArmed : ∀ p ∈ prepared, p.2 = true → armed p.1 s)
    (hPolled : Polled E (prepared.map Prod.fst) revents) :
    ∃ s₀, Live P gone all (before ++ (serve answer prepared revents s).2.1) s₀ ∧
      (∀ A, Stable all A → A s → A s₀) ∧
      Served E armed all answer s₀ (serve answer prepared revents s).1
        (serve answer prepared revents s).2.2 := by
  induction prepared generalizing before revents s with
  | nil => exact ⟨s, h, fun _ _ h => h, .none⟩
  | cons p prepared ih =>
    obtain ⟨r, asked⟩ := p
    obtain ⟨hReported, hRest⟩ := hPolled
    rw [List.map_cons] at h
    have hAll : r ∈ all := h.mem (List.mem_append_right _ List.mem_cons_self)
    have hOther : ∀ p ∈ prepared, p.1 ∈ all ∧ r.categoryId ≠ p.1.categoryId := by
      intro p hIn
      have hMem : p.1 ∈ prepared.map Prod.fst := List.mem_map_of_mem hIn
      refine ⟨h.mem ?_, (hK.id_ne h).2 p.1 hMem⟩
      exact List.mem_append_right _ (List.mem_cons_of_mem _ hMem)
    have hCancel : ∀ s, (∀ p ∈ prepared, p.2 = true → armed p.1 s) →
        ∀ p ∈ prepared, p.2 = true → armed p.1 (r.cancel s) := fun s hStill p hIn hTrue =>
      hK.armed_cancel p.1 (hOther p hIn).1 r hAll (hOther p hIn).2 s (hStill p hIn hTrue)
    have hStill : ∀ p ∈ prepared, p.2 = true → armed p.1 s :=
      fun p hIn => hArmed p (List.mem_cons_of_mem _ hIn)
    unfold EventLoop.serve
    dsimp only
    split
    · next hError =>
      split
      · next hFails => exact ⟨s, h, fun _ _ h => h, .socket r _ hAll hReported hError hFails⟩
      · have hDropped := h.drop (hK.error r hAll s _ h.holds hReported hError) fun q hq hOld =>
          hK.gone_cancel q hq r hAll _ (hK.gone_error q hq r hAll s hOld)
        obtain ⟨s₀, hLive, hStable, hServed⟩ := ih hDropped
          (hCancel _ fun p hIn hTrue =>
            hK.armed_error p.1 (hOther p hIn).1 r hAll s (hStill p hIn hTrue)) hRest
        refine ⟨s₀, hLive, fun A hA hs => hStable A hA ?_, hServed⟩
        exact (hA r hAll _ (hA r hAll s hs).2).1
    · split
      · next hHup =>
        have hUp : (revents.headD {}).pollhup = true := ((Bool.and_eq_true _ _).mp hHup).1
        have hDropped := h.drop (hK.hangup r hAll s _ h.holds hReported hUp) fun q hq =>
          hK.gone_cancel q hq r hAll s
        obtain ⟨s₀, hLive, hStable, hServed⟩ := ih hDropped (hCancel s hStill) hRest
        exact ⟨s₀, hLive, fun A hA hs => hStable A hA (hA r hAll s hs).1, hServed⟩
      · split
        · next hReady =>
          have hAsked : armed r s :=
            hArmed (r, asked) List.mem_cons_self ((Bool.and_eq_true _ _).mp hReady).1
          split
          · next s' hThrown => exact ⟨s, h, fun _ _ h => h, .threw r hAll hAsked s' hThrown⟩
          · next s' hDone =>
            split
            · next hBusy => exact ⟨s, h, fun _ _ h => h, .busy r hAll hAsked s' hDone hBusy⟩
            · exact ⟨s, h, fun _ _ h => h, .done r hAll hAsked s' hDone⟩
        · have hShift : before ++ r :: prepared.map Prod.fst =
              (before ++ [r]) ++ prepared.map Prod.fst := by
            rw [List.append_assoc, List.singleton_append]
          obtain ⟨s₀, hLive, hStable, hServed⟩ := ih (hShift ▸ h) hStill hRest
          rw [List.append_assoc, List.singleton_append] at hLive
          exact ⟨s₀, hLive, hStable, hServed⟩

theorem Keeps.served (hK : Keeps E B armed P gone all) {rules : List (FDRule σ β)} {answer : β}
    {s₀ s' : σ} {result : Result} (hB : B s₀ answer) (h : Live P gone all rules s₀)
    (hServed : Served E armed all answer s₀ result s') : Live P gone all rules s' := by
  have hCall : ∀ r ∈ all, armed r s₀ → ∀ s', r.callback answer s₀ = .ok s' ∨
      r.callback answer s₀ = .error s' → Live P gone all rules s' := by
    intro r hAll hArmed s' hCallback
    obtain ⟨hHolds, hGone⟩ := hK.callback r hAll answer s₀ s' hB h.holds hArmed hCallback
    exact ⟨h.sublist, hHolds, fun q hq => (h.gone q hq).imp_right (hGone q hq)⟩
  cases hServed with
  | none | socket => exact h
  | threw r hAll hArmed s' hCallback => exact hCall r hAll hArmed s' (.inr hCallback)
  | busy r hAll hArmed s' hCallback | done r hAll hArmed s' hCallback =>
    exact hCall r hAll hArmed s' (.inl hCallback)

/-- Without basic rules: the rules are looked at, and served unless none of them is interested. -/
theorem waitNextEvent_eq {self : EventLoop σ β} (hBasic : self.nonFdRules = []) (s : σ)
    (poll : Poll) (answer : β) :
    self.waitNextEvent s poll answer =
      let prepared := EventLoop.prepare self.fdRules s
      let left : EventLoop σ β := { self with fdRules := prepared.1.map Prod.fst }
      if prepared.1.all fun p => !p.2 then (.exit, left, prepared.2)
      else
        match poll with
        | .failed => (.threw, left, prepared.2)
        | .timeout => (.timeout, left, prepared.2)
        | .ready revents =>
          let served := EventLoop.serve answer prepared.1 revents prepared.2
          (served.1, { left with fdRules := served.2.1 }, served.2.2) := by
  obtain ⟨categories, fdRules, nonFdRules⟩ := self
  cases hBasic
  rfl

theorem Keeps.waitNextEvent (hK : Keeps E B armed P gone all) {self : EventLoop σ β} {s : σ}
    {poll : Poll} {answer : β} (hB : B s answer) (hBasic : self.nonFdRules = [])
    (h : Live P gone all self.fdRules s) (hReports : self.Reports E s poll) :
    (self.waitNextEvent s poll answer).2.1.nonFdRules = [] ∧
      Live P gone all (self.waitNextEvent s poll answer).2.1.fdRules
        (self.waitNextEvent s poll answer).2.2 := by
  have hLive : Live P gone all ([] ++ self.fdRules) s := h
  obtain ⟨hPrepared, -, hArmed⟩ := hK.prepare hLive
  rw [waitNextEvent_eq hBasic]
  dsimp only
  split
  · exact ⟨hBasic, hPrepared⟩
  · cases poll with
    | failed | timeout => exact ⟨hBasic, hPrepared⟩
    | ready revents =>
      obtain ⟨s₀, hServing, hStable, hServed⟩ := hK.serve answer hPrepared hArmed hReports
      have hReady : B (EventLoop.prepare self.fdRules s).2 answer :=
        prepare_stable (P := fun s => B s answer)
          (fun r hMem s hs => (hK.answered answer r (h.mem hMem) s hs).1) hB
      have hB₀ := hStable (fun s => B s answer) (hK.answered answer) hReady
      exact ⟨hBasic, hK.served hB₀ hServing hServed⟩

theorem serve_result (answer : β) (prepared : List (FDRule σ β × Bool)) (revents : List Revents)
    (s : σ) : (serve answer prepared revents s).1 = .success ∨
      (serve answer prepared revents s).1 = .threw := by
  induction prepared generalizing revents s with
  | nil => exact .inl rfl
  | cons p prepared ih =>
    unfold EventLoop.serve
    dsimp only
    split
    · split
      · exact .inr rfl
      · exact ih _ _
    · split
      · exact ih _ _
      · split
        · split
          · exact .inr rfl
          · split
            · exact .inr rfl
            · exact .inl rfl
        · exact ih _ _

/-- The loop ends when none of the rules that are left was interested. -/
theorem waitNextEvent_exit {self : EventLoop σ β} (hBasic : self.nonFdRules = []) {s : σ}
    {poll : Poll} {answer : β} (h : (self.waitNextEvent s poll answer).1 = .exit) :
    (∀ p ∈ (EventLoop.prepare self.fdRules s).1, p.2 = false) ∧
      (self.waitNextEvent s poll answer).2.1.fdRules =
        (EventLoop.prepare self.fdRules s).1.map Prod.fst ∧
      (self.waitNextEvent s poll answer).2.2 = (EventLoop.prepare self.fdRules s).2 := by
  rw [waitNextEvent_eq hBasic] at h ⊢
  dsimp only at h ⊢
  split
  · next hNone =>
    refine ⟨fun p hMem => ?_, rfl, rfl⟩
    exact Bool.not_eq_true' _ |>.mp (List.all_eq_true.mp hNone p hMem)
  · next hSome =>
    rw [if_neg hSome] at h
    cases poll with
    | failed | timeout => cases h
    | ready revents =>
      obtain hResult | hResult := serve_result answer (EventLoop.prepare self.fdRules s).1 revents
        (EventLoop.prepare self.fdRules s).2
      · exact absurd (hResult.symm.trans h) (by simp)
      · exact absurd (hResult.symm.trans h) (by simp)

theorem Keeps.idle_of_exit (hK : Keeps E B armed P gone all) {idle : FDRule σ β → σ → Prop}
    (hIdle : ∀ r ∈ all, ∀ s, r.interest s = false → idle r s)
    (hLater : all.Pairwise fun r r' => ∀ s, idle r s → idle r (r'.cancel s))
    {self : EventLoop σ β} (hBasic : self.nonFdRules = []) {s : σ} {poll : Poll} {answer : β}
    (h : Live P gone all self.fdRules s) (hExit : (self.waitNextEvent s poll answer).1 = .exit) :
    P (self.waitNextEvent s poll answer).2.2 ∧
      ∀ r ∈ all, idle r (self.waitNextEvent s poll answer).2.2 ∨
        gone r (self.waitNextEvent s poll answer).2.2 := by
  obtain ⟨hNone, hRules, hState⟩ := waitNextEvent_exit hBasic hExit
  have hBefore : Live P gone all ([] ++ self.fdRules) s := h
  obtain ⟨hLive, -⟩ := hK.prepare hBefore
  have hAll : ∀ p ∈ (EventLoop.prepare self.fdRules s).1, p.2 = false →
      idle p.1 (EventLoop.prepare self.fdRules s).2 :=
    prepare_idle (fun r hMem => hIdle r (h.mem hMem)) (hLater.sublist h.sublist)
  rw [hState]
  refine ⟨hLive.holds, fun r hMem => (hLive.gone r hMem).imp_left fun hLeft => ?_⟩
  obtain ⟨p, hIn, rfl⟩ := List.mem_map.mp hLeft
  exact hAll p hIn (hNone p hIn)

/-- The answers that the callbacks get are acceptable in the states with `A`. -/
structure Accepts (armed : FDRule σ β → σ → Prop) (P A : σ → Prop) (all : List (FDRule σ β))
    (answer : β) : Prop where
  stable : Stable all A
  served : ∀ r ∈ all, ∀ s, P s → armed r s → A s → ∃ s', r.callback answer s = .ok s' ∧
    (r.serviceCount s = r.serviceCount s' → (r.fd s').closed = false → r.interest s' = false)

/-- With acceptable answers nothing is thrown: in particular no rule is found waiting busily. -/
theorem Keeps.not_threw (hK : Keeps E B armed P gone all) {A : σ → Prop} {answer : β}
    (hAccepts : Accepts armed P A all answer)
    (hSocket : ∀ r ∈ all, ∀ ev, E r ev → ev.error = true → ev.sockoptFails = false)
    {self : EventLoop σ β} {s : σ} {poll : Poll} (hBasic : self.nonFdRules = [])
    (h : Live P gone all self.fdRules s) (hReports : self.Reports E s poll)
    (hPoll : poll ≠ .failed) (hA : A s) : (self.waitNextEvent s poll answer).1 ≠ .threw := by
  have hLive : Live P gone all ([] ++ self.fdRules) s := h
  obtain ⟨hPrepared, -, hArmed⟩ := hK.prepare hLive
  have hReady : A (EventLoop.prepare self.fdRules s).2 :=
    prepare_stable (fun r hMem s hs => (hAccepts.stable r (h.mem hMem) s hs).1) hA
  rw [waitNextEvent_eq hBasic]
  dsimp only
  split
  · simp
  · cases poll with
    | failed => exact absurd rfl hPoll
    | timeout => simp
    | ready revents =>
      obtain ⟨s₀, hLive, hStable, hServed⟩ := hK.serve answer hPrepared hArmed hReports
      have hA₀ := hStable A hAccepts.stable hReady
      intro hThrew
      dsimp only at hThrew
      rw [hThrew] at hServed
      cases hServed with
      | socket r ev hAll hReported hError hFails =>
        exact Bool.false_ne_true ((hSocket r hAll ev hReported hError).symm.trans hFails)
      | threw r hAll hAsked s' hCallback =>
        obtain ⟨s'', hOk, -⟩ := hAccepts.served r hAll s₀ hLive.holds hAsked hA₀
        rw [hCallback] at hOk
        cases hOk
      | busy r hAll hAsked s' hCallback hBusy =>
        obtain ⟨s'', hOk, hCalm⟩ := hAccepts.served r hAll s₀ hLive.holds hAsked hA₀
        rw [hCallback] at hOk
        cases hOk
        exact Bool.false_ne_true ((hCalm hBusy.1 hBusy.2.1).symm.trans hBusy.2.2)

end Rules

end Minnow.EventLoop
