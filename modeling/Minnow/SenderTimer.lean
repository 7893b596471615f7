import Minnow.SenderInvariant

/-! # The retransmission timer

A clock beside the sender counts what an observer of its calls can see: the
time since the last event that may start the timer, and the retransmissions
since the last acknowledgment that advanced.
-/

namespace Minnow.TCPSender

open Library

def Call.elapsed : Call → Nat
  | .tick ms => ms
  | _ => 0

def Call.advertised : Call → Option Nat
  | .receive msg => if msg.rst then none else some msg.windowSize.toNat
  | _ => none

def Retransmits (s : TCPSender) : Call → Prop
  | .tick ms => (s.tick ms).2 ≠ []
  | _ => False

instance (s : TCPSender) (c : Call) : Decidable (Retransmits s c) :=
  match c with
  | .tick _ => inferInstanceAs (Decidable (_ ≠ _))
  | .push | .write _ | .close | .setError | .receive _ => instDecidableFalse

def Acknowledges (s : TCPSender) (c : Call) : Prop :=
  s.receiverAckno < (s.call c).receiverAckno

instance (s : TCPSender) (c : Call) : Decidable (Acknowledges s c) :=
  inferInstanceAs (Decidable (_ < _))

/-- A first segment while nothing is outstanding, an acknowledgment that advances and leaves
something outstanding, or a retransmission. -/
def Restarts (s : TCPSender) (c : Call) : Prop :=
  (s.outstanding = [] ∧ c = .push ∧ s.push.2 ≠ []) ∨
    (Acknowledges s c ∧ (s.call c).outstanding ≠ []) ∨ Retransmits s c

instance (s : TCPSender) (c : Call) : Decidable (Restarts s c) :=
  inferInstanceAs (Decidable (_ ∨ _ ∨ _))

structure Clock where
  retransmissions : Nat
  window : Nat
  since : Nat
  total : Nat

namespace Clock

def initial : Clock := ⟨0, 1, 0, 0⟩

def record (x : Clock) (s : TCPSender) (c : Call) : Clock where
  retransmissions :=
    if Acknowledges s c then 0
    else if Retransmits s c ∧ 0 < x.window then x.retransmissions + 1
    else x.retransmissions
  window := c.advertised.getD x.window
  since := if Restarts s c then 0 else x.since + c.elapsed
  total := x.total + c.elapsed

end Clock

structure SamePending (s t : TCPSender) : Prop where
  head : t.outstanding.head? = s.outstanding.head?
  running : t.timerRunning = s.timerRunning
  elapsed : t.timerElapsedMs = s.timerElapsedMs
  rto : t.rto = s.rto

section Calls

variable {s : TCPSender}

theorem push_samePending (h : Consistent s) (hOut : s.outstanding ≠ []) :
    SamePending s s.push.1 := by
  have hTimer := h.timer.mpr hOut
  refine push_rule (P := fun t _ => SamePending s t) (fun t out _ _ ht => ?_) ⟨rfl, rfl, rfl, rfl⟩
  have hRunning : t.timerRunning = true := ht.running.trans hTimer
  refine { ht with head := ?_, running := hTimer.symm, elapsed := ?_ }
  · have hHead := ht.head
    cases hOld : t.outstanding with
    | nil =>
      rw [hOld, List.head?_nil, eq_comm, List.head?_eq_none_iff] at hHead
      exact absurd hHead hOut
    | cons o rest =>
      rw [hOld] at hHead
      rw [← hHead, emit, hOld]
      rfl
  · change (if t.timerRunning then t.timerElapsedMs else 0) = _
    rw [if_pos hRunning, ht.elapsed]

theorem push_starts (h : Consistent s) (hOut : s.outstanding = []) :
    (s.push.2 = [] ∧ s.push.1 = s) ∨
      (s.push.2 ≠ [] ∧ s.push.1.timerRunning = true ∧ s.push.1.timerElapsedMs = 0) := by
  have hTimer : s.timerRunning = false := by simpa [hOut] using h.timer
  refine push_rule (P := fun t out => (out = [] ∧ t = s) ∨
    (out ≠ [] ∧ t.timerRunning = true ∧ t.timerElapsedMs = 0)) (fun t out _ _ ht => ?_)
    (.inl ⟨rfl, rfl⟩)
  refine .inr ⟨by simp, rfl, ?_⟩
  change (if t.timerRunning then t.timerElapsedMs else 0) = 0
  obtain ⟨-, rfl⟩ | ⟨-, hRunning, hElapsed⟩ := ht
  · rw [hTimer, if_neg Bool.false_ne_true]
  · rw [if_pos hRunning, hElapsed]

theorem Consistent.tick_transmits (h : Consistent s) (ms : Nat) :
    (s.tick ms).2.length ≤ 1 ∧
      ((s.tick ms).2 ≠ [] ↔ s.outstanding ≠ [] ∧ s.rto ≤ u64 (s.timerElapsedMs + ms)) := by
  cases hOut : s.outstanding with
  | nil =>
    rw [h.tick_nil hOut]
    simp
  | cons o rest =>
    rw [h.tick_cons hOut]
    split
    · rename_i hDue
      simp [hDue]
    · rename_i hEarly
      simp [hEarly]

theorem not_acknowledges_push (s : TCPSender) : ¬ Acknowledges s .push := by
  have hSame := s.push_untouched.receiverAckno
  change ¬ s.receiverAckno < s.push.1.receiverAckno
  rw [hSame]
  exact lt_irrefl _

theorem Consistent.not_acknowledges_tick (h : Consistent s) (ms : Nat) :
    ¬ Acknowledges s (.tick ms) :=
  (h.tick_view ms).1.not_gt

theorem acknowledges_receive {msg : TCPReceiverMessage} :
    Acknowledges s (.receive msg) ↔ msg.rst = false ∧ Advances s (s.absAckno msg) := by
  change s.receiverAckno < (s.receive msg).receiverAckno ↔ _
  obtain ⟨hRst, hEq⟩ | ⟨hRst, hAdv, hEq⟩ | ⟨hRst, hAdv, hEq⟩ := s.receive_cases msg
  · rw [hEq, hRst]
    simp
  · rw [hEq, hRst]
    simp [hAdv]
  · rw [hEq]
    exact iff_of_true hAdv.2 ⟨hRst, hAdv⟩

theorem receive_of_advances {msg : TCPReceiverMessage} (hRst : msg.rst = false)
    (hAdv : Advances s (s.absAckno msg)) :
    s.receive msg =
      { s.advanced (s.absAckno msg) with receiverWindow := msg.windowSize.toNat } := by
  obtain ⟨hRst', -⟩ | ⟨-, hNot, -⟩ | ⟨-, -, hEq⟩ := s.receive_cases msg
  · exact absurd (hRst.symm.trans hRst') Bool.false_ne_true
  · exact absurd hAdv hNot
  · exact hEq

theorem receive_samePending {msg : TCPReceiverMessage} (h : ¬ Acknowledges s (.receive msg)) :
    SamePending s (s.receive msg) := by
  obtain ⟨-, hEq⟩ | ⟨-, -, hEq⟩ | ⟨hRst, hAdv, -⟩ := s.receive_cases msg
  · rw [hEq]
    exact ⟨rfl, rfl, rfl, rfl⟩
  · rw [hEq]
    exact ⟨rfl, rfl, rfl, rfl⟩
  · exact absurd (acknowledges_receive.mpr ⟨hRst, hAdv⟩) h

theorem Consistent.samePending (h : Consistent s) (hOut : s.outstanding ≠ []) {c : Call}
    (hTick : ∀ ms, c ≠ .tick ms) (hAck : ¬ Acknowledges s c) : SamePending s (s.call c) := by
  cases c with
  | push => exact push_samePending h hOut
  | tick ms => exact absurd rfl (hTick ms)
  | receive msg => exact receive_samePending hAck
  | write data | close | setError => exact ⟨rfl, rfl, rfl, rfl⟩

/-- What the timer reads after a call that leaves it running. -/
def TimerReads (s : TCPSender) (c : Call) : Prop :=
  (Restarts s c ∧ (s.call c).timerElapsedMs = 0) ∨
    (¬ Restarts s c ∧ s.timerRunning = true ∧
      (s.call c).timerElapsedMs = s.timerElapsedMs + c.elapsed)

theorem not_restarts {c : Call} (hFirst : s.outstanding = [] → c ≠ .push)
    (hAck : ¬ Acknowledges s c) (hRetx : ¬ Retransmits s c) : ¬ Restarts s c := by
  rintro (⟨hOut, hPush, -⟩ | ⟨hAck', -⟩ | hRetx')
  · exact hFirst hOut hPush
  · exact hAck hAck'
  · exact hRetx hRetx'

theorem Consistent.timer_push (h : Consistent s) (hRunning : s.push.1.timerRunning = true) :
    TimerReads s .push := by
  cases hOut : s.outstanding with
  | nil =>
    obtain ⟨-, hSame⟩ | ⟨hSent, -, hElapsed⟩ := push_starts h hOut
    · rw [hSame] at hRunning
      exact absurd hOut (h.timer.mp hRunning)
    · exact .inl ⟨.inl ⟨hOut, rfl, hSent⟩, hElapsed⟩
  | cons o rest =>
    have hSome : s.outstanding ≠ [] := by simp [hOut]
    have hNot := not_restarts (fun hNil => absurd hNil hSome) (not_acknowledges_push s) id
    exact .inr ⟨hNot, h.running hOut, (push_samePending h hSome).elapsed⟩

theorem Consistent.timer_tick (h : Consistent s) {ms : Nat}
    (hFits : s.timerRunning = true → s.timerElapsedMs + ms < 2 ^ 64)
    (hRunning : (s.tick ms).1.timerRunning = true) : TimerReads s (.tick ms) := by
  cases hOut : s.outstanding with
  | nil =>
    rw [h.tick_nil hOut] at hRunning
    exact absurd hOut (h.timer.mp hRunning)
  | cons o rest =>
    have hTimer := h.running hOut
    have hTick := h.tick_cons hOut ms
    split at hTick
    · have hRetx : (s.tick ms).2 ≠ [] := by simp [hTick]
      have hElapsed : (s.tick ms).1.timerElapsedMs = 0 := by
        rw [hTick]
        rfl
      exact .inl ⟨.inr (.inr hRetx), hElapsed⟩
    · have hQuiet : ¬ (s.tick ms).2 ≠ [] := by simp [hTick]
      have hElapsed : (s.tick ms).1.timerElapsedMs = s.timerElapsedMs + ms := by
        rw [hTick]
        exact u64_eq (hFits hTimer)
      have hNot := not_restarts (fun _ => Call.noConfusion) (h.not_acknowledges_tick ms) hQuiet
      exact .inr ⟨hNot, hTimer, hElapsed⟩

theorem Consistent.timer_receive (h : Consistent s) {msg : TCPReceiverMessage}
    (hRunning : (s.receive msg).timerRunning = true) : TimerReads s (.receive msg) := by
  by_cases hAck : Acknowledges s (.receive msg)
  · have hOut := (h.call (.receive msg)).1.timer.mp hRunning
    refine .inl ⟨.inr (.inl ⟨hAck, hOut⟩), ?_⟩
    obtain ⟨hRst, hAdv⟩ := acknowledges_receive.mp hAck
    change (s.receive msg).timerElapsedMs = 0
    rw [receive_of_advances hRst hAdv]
    rfl
  · have hSame := receive_samePending hAck
    have hNot := not_restarts (fun _ => Call.noConfusion) hAck id
    exact .inr ⟨hNot, hSame.running.symm.trans hRunning, hSame.elapsed⟩

theorem Consistent.timer_call (h : Consistent s) {c : Call}
    (hFits : s.timerRunning = true → s.timerElapsedMs + c.elapsed < 2 ^ 64)
    (hRunning : (s.call c).timerRunning = true) : TimerReads s c := by
  cases c with
  | push => exact h.timer_push hRunning
  | tick ms => exact h.timer_tick hFits hRunning
  | receive msg => exact h.timer_receive hRunning
  | write data | close | setError =>
    refine .inr ⟨not_restarts (fun _ => Call.noConfusion) ?_ id, hRunning, rfl⟩
    exact lt_irrefl s.receiverAckno

/-- A call that neither acknowledges nor resends is in the last case of the back-off. -/
theorem backoff_of_quiet {c : Call} {reset backed same : Nat} (hAck : ¬ Acknowledges s c)
    (hRetx : ¬ Retransmits s c) :
    (if Acknowledges s c then reset
      else if Retransmits s c ∧ 0 < s.receiverWindow then backed
      else same) = same := by
  rw [if_neg hAck]
  exact if_neg fun hBoth => hRetx hBoth.1

theorem Consistent.backoff_call (h : Consistent s) (c : Call) :
    (s.call c).initialRTOms = s.initialRTOms ∧
      (s.call c).receiverWindow = c.advertised.getD s.receiverWindow ∧
      (s.call c).consecutiveRetx = (if Acknowledges s c then 0
        else if Retransmits s c ∧ 0 < s.receiverWindow then s.consecutiveRetx + 1
        else s.consecutiveRetx) ∧
      (s.call c).rto = (if Acknowledges s c then s.initialRTOms
        else if Retransmits s c ∧ 0 < s.receiverWindow then u64 (s.rto * 2)
        else s.rto) := by
  cases c with
  | push =>
    have hSame := s.push_untouched
    have hAck := not_acknowledges_push s
    rw [backoff_of_quiet hAck id, backoff_of_quiet hAck id]
    exact ⟨hSame.initialRTOms, hSame.receiverWindow, hSame.consecutiveRetx, hSame.rto⟩
  | tick ms =>
    have hCall : s.call (.tick ms) = (s.tick ms).1 := rfl
    have hSent : Retransmits s (.tick ms) ↔ (s.tick ms).2 ≠ [] := Iff.rfl
    have hAck := h.not_acknowledges_tick ms
    cases hOut : s.outstanding with
    | nil =>
      have hTick := h.tick_nil hOut ms
      have hNot : ¬ Retransmits s (.tick ms) := by simp [hSent, hTick]
      rw [backoff_of_quiet hAck hNot, backoff_of_quiet hAck hNot, hCall, hTick]
      exact ⟨rfl, rfl, rfl, rfl⟩
    | cons o rest =>
      have hTick := h.tick_cons hOut ms
      split at hTick
      · have hYes : Retransmits s (.tick ms) := by simp [hSent, hTick]
        rw [if_neg hAck, if_neg hAck, hCall]
        simp only [hYes, true_and, hTick]
        exact ⟨rfl, rfl, rfl, rfl⟩
      · have hNot : ¬ Retransmits s (.tick ms) := by simp [hSent, hTick]
        rw [backoff_of_quiet hAck hNot, backoff_of_quiet hAck hNot, hCall, hTick]
        exact ⟨rfl, rfl, rfl, rfl⟩
  | receive msg =>
    have hCall : s.call (.receive msg) = s.receive msg := rfl
    obtain ⟨hRst, hEq⟩ | ⟨hRst, hAdv, hEq⟩ | ⟨hRst, hAdv, hEq⟩ := s.receive_cases msg
    · have hAck : ¬ Acknowledges s (.receive msg) := by simp [acknowledges_receive, hRst]
      rw [backoff_of_quiet hAck id, backoff_of_quiet hAck id, hCall, hEq, Call.advertised, hRst]
      exact ⟨rfl, rfl, rfl, rfl⟩
    · have hAck : ¬ Acknowledges s (.receive msg) := by simp [acknowledges_receive, hAdv]
      rw [backoff_of_quiet hAck id, backoff_of_quiet hAck id, hCall, hEq, Call.advertised, hRst]
      exact ⟨rfl, rfl, rfl, rfl⟩
    · have hAck : Acknowledges s (.receive msg) := acknowledges_receive.mpr ⟨hRst, hAdv⟩
      rw [if_pos hAck, if_pos hAck, hCall, hEq, Call.advertised, hRst]
      exact ⟨rfl, rfl, rfl, rfl⟩
  | write data | close | setError =>
    have hAck : ∀ c, s.receiverAckno = (s.call c).receiverAckno → ¬ Acknowledges s c :=
      fun c hSame => hSame.not_lt
    rw [backoff_of_quiet (hAck _ rfl) id, backoff_of_quiet (hAck _ rfl) id]
    exact ⟨rfl, rfl, rfl, rfl⟩

end Calls

structure Timed (initialRTOms : Nat) (s : TCPSender) (x : Clock) : Prop where
  consistent : Consistent s
  initial : s.initialRTOms = initialRTOms
  window : s.receiverWindow = x.window
  count : s.consecutiveRetx = x.retransmissions
  rto : s.rto = u64 (initialRTOms * 2 ^ x.retransmissions)
  since_le : x.since ≤ x.total
  elapsed : x.total < 2 ^ 64 → s.timerRunning = true → s.timerElapsedMs = x.since

theorem timed_new (input : ByteStream) (isn : Wrap32) {initialRTOms : Nat}
    (hInitial : initialRTOms < 2 ^ 64) :
    Timed initialRTOms (new input isn initialRTOms) Clock.initial where
  consistent := consistent_new input isn initialRTOms
  initial := rfl
  window := rfl
  count := rfl
  rto := by
    rw [Clock.initial, pow_zero, Nat.mul_one, u64_eq hInitial]
    rfl
  since_le := le_rfl
  elapsed _ hRunning := by cases hRunning

theorem Timed.call {initialRTOms : Nat} {s : TCPSender} {x : Clock}
    (hInitial : initialRTOms < 2 ^ 64) (h : Timed initialRTOms s x) (c : Call) :
    Timed initialRTOms (s.call c) (x.record s c) := by
  obtain ⟨hSame, hWindow, hCount, hRto⟩ := h.consistent.backoff_call c
  refine { consistent := (h.consistent.call c).1, initial := hSame.trans h.initial, window := ?_,
           count := ?_, rto := ?_, since_le := ?_, elapsed := ?_ }
  · rw [hWindow, h.window]
    rfl
  · rw [hCount, h.count, h.window]
    rfl
  · rw [hRto, h.window, h.rto, h.initial]
    simp only [Clock.record]
    split
    · rw [pow_zero, Nat.mul_one, u64_eq hInitial]
    · split
      · rw [pow_succ 2 x.retransmissions, ← Nat.mul_assoc]
        exact Nat.mod_mul_mod _ _ _
      · rfl
  · have hLe := h.since_le
    simp only [Clock.record]
    split <;> omega
  · intro hTotal hRunning
    change x.total + c.elapsed < 2 ^ 64 at hTotal
    change _ = if Restarts s c then 0 else x.since + c.elapsed
    have hElapsed := h.elapsed (by omega)
    have hLe := h.since_le
    have hFits : s.timerRunning = true → s.timerElapsedMs + c.elapsed < 2 ^ 64 := by
      intro hBefore
      rw [hElapsed hBefore]
      omega
    obtain ⟨hRestarts, hZero⟩ | ⟨hNot, hBefore, hAdd⟩ := h.consistent.timer_call hFits hRunning
    · rw [if_pos hRestarts, hZero]
    · rw [if_neg hNot, hAdd, hElapsed hBefore]

/-- The timer law: in every state reached, the retransmissions counted by the clock give the
back-off, `tick` transmits exactly when the clock has reached the timeout, only the three
events of `Restarts` start the timer, and no other call but `tick` touches what is pending. -/
theorem run_timer (input : ByteStream) (isn : Wrap32) (initialRTOms : Nat) (calls : List Call)
    (ms : Nat) :
    let reached := Run.run (Run.withHistory call Clock.record)
      (new input isn initialRTOms, Clock.initial) calls
    let s := reached.1
    let x := reached.2
    initialRTOms * 2 ^ x.retransmissions < 2 ^ 64 → x.total + ms < 2 ^ 64 →
      s.consecutiveRetransmissions = x.retransmissions ∧
      s.rto = initialRTOms * 2 ^ x.retransmissions ∧
      (s.tick ms).2.length ≤ 1 ∧
      ((s.tick ms).2 ≠ [] ↔ s.outstanding ≠ [] ∧ s.rto ≤ x.since + ms) ∧
      (∀ c : Call, c.elapsed ≤ ms → (s.call c).timerRunning = true →
        (Restarts s c ∧ (s.call c).timerElapsedMs = 0) ∨
          (¬ Restarts s c ∧ s.timerRunning = true ∧
            (s.call c).timerElapsedMs = s.timerElapsedMs + c.elapsed)) ∧
      (s.outstanding ≠ [] → ∀ c : Call, (∀ t, c ≠ .tick t) → ¬ Acknowledges s c →
        SamePending s (s.call c)) := by
  intro reached s x hRto hTotal
  have hInitial : initialRTOms < 2 ^ 64 :=
    (Nat.le_mul_of_pos_right _ (by positivity)).trans_lt hRto
  have h : Timed initialRTOms s x :=
    Run.invariant_of_step (P := fun y : TCPSender × Clock => Timed initialRTOms y.1 y.2)
      (fun _ c hy => hy.call hInitial c) (timed_new input isn hInitial) calls
  have hLe := h.since_le
  have hElapsed := h.elapsed (by omega)
  obtain ⟨hOne, hDue⟩ := h.consistent.tick_transmits ms
  refine ⟨h.count, h.rto.trans (u64_eq hRto), hOne, ?_, ?_,
    fun hOut c hTick hAck => h.consistent.samePending hOut hTick hAck⟩
  · rw [hDue]
    apply and_congr_right
    intro hOut
    rw [hElapsed (h.consistent.timer.mpr hOut), u64_eq (by omega)]
  · intro c hc hRunning
    have hFits : s.timerRunning = true → s.timerElapsedMs + c.elapsed < 2 ^ 64 := by
      intro hBefore
      rw [hElapsed hBefore]
      omega
    exact h.consistent.timer_call hFits hRunning

theorem run_timer_twice :
    let reached := Run.run (Run.withHistory call Clock.record)
      (new (ByteStream.new 10) ⟨7⟩ 100, Clock.initial)
      [.push, .tick 60, .tick 40, .write [1, 2], .push, .tick 150, .tick 50, .tick 399]
    reached.1.rto = 400 ∧ reached.2.since = 399 ∧ (reached.1.tick 1).2.length = 1 := by
  have h := run_timer (ByteStream.new 10) ⟨7⟩ 100
    [.push, .tick 60, .tick 40, .write [1, 2], .push, .tick 150, .tick 50, .tick 399] 1
    (by decide +kernel) (by decide +kernel)
  refine ⟨h.2.1.trans (by decide +kernel), by decide +kernel, le_antisymm h.2.2.1 ?_⟩
  exact List.length_pos_iff.mpr (h.2.2.2.1.mpr (by decide +kernel))

end Minnow.TCPSender
