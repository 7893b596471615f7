import Minnow.PeerShutdown
import Minnow.SenderTimer

/-! # A timer that can always expire

The timer never passes the timeout, and the timeout fits its type however often
it has been doubled. So a tick by what is left of it always retransmits.
-/

namespace Minnow

open Library

namespace TCPSender

structure Paced (s : TCPSender) : Prop where
  consistent : Consistent s
  elapsed : s.timerElapsedMs ≤ s.rto
  rto : s.rto < 2 ^ 64
  initial : s.initialRTOms < 2 ^ 64

theorem paced_new (input : ByteStream) (isn : Wrap32) {initialRTOms : Nat}
    (hInitial : initialRTOms < 2 ^ 64) : Paced (new input isn initialRTOms) where
  consistent := consistent_new input isn initialRTOms
  elapsed := Nat.zero_le _
  rto := hInitial
  initial := hInitial

variable {s : TCPSender}

theorem Paced.push (h : Paced s) : Paced s.push.1 := by
  have hSame := s.push_untouched
  refine ⟨h.consistent.push, ?_, hSame.rto ▸ h.rto, hSame.initialRTOms ▸ h.initial⟩
  rw [hSame.rto]
  by_cases hNil : s.outstanding = []
  · obtain ⟨-, hEq⟩ | ⟨-, -, hZero⟩ := push_starts h.consistent hNil
    · rw [hEq]
      exact h.elapsed
    · rw [hZero]
      exact Nat.zero_le _
  · rw [(push_samePending h.consistent hNil).elapsed]
    exact h.elapsed

theorem Paced.expired (h : Paced s) (o : Outstanding) (rest : List Outstanding)
    (hConsistent : Consistent (s.expired o rest)) : Paced (s.expired o rest) := by
  refine ⟨hConsistent, Nat.zero_le _, ?_, h.initial⟩
  rw [TCPSender.expired]
  dsimp only
  split
  · exact u64_lt _
  · exact h.rto

theorem Paced.tick (h : Paced s) (ms : Nat) : Paced (s.tick ms).1 := by
  have hConsistent := h.consistent.tick ms
  cases hOut : s.outstanding with
  | nil =>
    rw [h.consistent.tick_nil hOut]
    exact h
  | cons o rest =>
    rw [h.consistent.tick_cons hOut] at hConsistent ⊢
    split
    · next hDue =>
      rw [if_pos hDue] at hConsistent
      exact h.expired o rest hConsistent
    · next hEarly =>
      rw [if_neg hEarly] at hConsistent
      exact ⟨hConsistent, (Nat.lt_of_not_le hEarly).le, h.rto, h.initial⟩

theorem Paced.receive (h : Paced s) (msg : TCPReceiverMessage) : Paced (s.receive msg) := by
  have hConsistent := h.consistent.receive msg
  obtain ⟨-, hEq⟩ | ⟨-, -, hEq⟩ | ⟨-, -, hEq⟩ := s.receive_cases msg
  · rw [hEq] at hConsistent ⊢
    exact ⟨hConsistent, h.elapsed, h.rto, h.initial⟩
  · rw [hEq] at hConsistent ⊢
    exact ⟨hConsistent, h.elapsed, h.rto, h.initial⟩
  · rw [hEq] at hConsistent ⊢
    exact ⟨hConsistent, Nat.zero_le _, h.initial, h.initial⟩

theorem Paced.withInput (h : Paced s) (input : ByteStream) : Paced { s with input := input } :=
  ⟨{ h.consistent with }, h.elapsed, h.rto, h.initial⟩

/-- A tick by what is left of the timeout resends the oldest segment. -/
theorem Paced.tick_left (h : Paced s) {o : Outstanding} {rest : List Outstanding}
    (hOut : s.outstanding = o :: rest) :
    s.tick (s.rto - s.timerElapsedMs) = (s.expired o rest, [(s.marked o).msg]) := by
  have hElapsed := h.elapsed
  have hDue : s.rto ≤ u64 (s.timerElapsedMs + (s.rto - s.timerElapsedMs)) := by
    rw [Nat.add_sub_cancel' hElapsed, u64_eq h.rto]
  rw [h.consistent.tick_cons hOut, if_pos hDue]

end TCPSender

namespace TCPPeer

open TCPSender

variable {p : TCPPeer}

theorem paced_step (h : p.sender.Paced) (a : Action) : (p.step a).sender.Paced := by
  cases a with
  | write data | close | setOutboundError => exact h.withInput _
  | push => exact h.push
  | tick ms => exact h.tick ms
  | receive msg =>
    rw [TCPPeer.step, perform]
    cases hActive : p.active with
    | false =>
      rw [receive_of_inactive hActive]
      exact h
    | true =>
      rw [(receive_view hActive msg).1]
      exact (h.receive msg.receiver).push
  | pop len | setInboundError => exact h

end TCPPeer

end Minnow
