import Minnow.SenderInvariant
import Minnow.TCPPeer

/-! # When a peer has stopped

`active` never asks for the FIN. It can only be misled by a writer that is
closed while nothing is in flight or buffered and the inbound stream has
already finished; after any other action `push` has seen to the FIN.
-/

namespace Minnow

open Library

namespace TCPSender

/-- After `push`, a closed writer with nothing in flight has had its FIN sent. -/
theorem push_flushes (s : TCPSender) (hClosed : s.push.1.input.closed = true)
    (hFlight : s.push.1.bytesInFlight = 0) : s.push.1.finSent = true := by
  cases hFin : s.finSent with
  | true =>
    rw [push_of_fin hFin]
    exact hFin
  | false =>
    have hRoom : s.push.1.bytesInFlight < s.effectiveWindow := by
      rw [hFlight, effectiveWindow]
      omega
    have hEmpty : (s.push.1.nextMsg s.effectiveWindow).sequenceLength = 0 := by
      by_contra hPos
      exact push_stops hFin ⟨hRoom, Nat.pos_of_ne_zero hPos⟩
    exact (exhausted_of_empty hRoom hEmpty).2.2 hClosed

end TCPSender

namespace TCPPeer

def NoWriteAfterClose (p : TCPPeer) : Action → Prop
  | .write _ => p.outbound.isClosed = false
  | _ => True

/-- The writer is not closed with the inbound stream finished and nothing in flight or buffered,
and the clock of a peer that has finished and stopped lingering does not go through zero again. -/
def Orderly (p : TCPPeer) : Action → Prop
  | .close => p.anyErrors = false → p.inbound.isClosed = true → p.outbound.isClosed = false →
      0 < p.sender.sequenceNumbersInFlight ∨ p.outbound.bytesBuffered ≠ 0
  | .tick ms => p.anyErrors = false → p.senderActive = false → p.receiverActive = false →
      p.lingering = false → p.lingerAfterStreamsFinish = true → p.cumulativeTime + ms < 2 ^ 64
  | _ => True

instance (p : TCPPeer) (a : Action) : Decidable (NoWriteAfterClose p a) :=
  match a with
  | .write _ => inferInstanceAs (Decidable (_ = _))
  | .close | .setOutboundError | .push | .tick _ | .receive _ | .pop _ | .setInboundError =>
    instDecidableTrue

instance (p : TCPPeer) (a : Action) : Decidable (Orderly p a) :=
  match a with
  | .close => inferInstanceAs (Decidable (_ = _ → _ = _ → _ = _ → _ ∨ _))
  | .tick _ => inferInstanceAs (Decidable (_ = _ → _ = _ → _ = _ → _ = _ → _ = _ → _ < _))
  | .write _ | .setOutboundError | .push | .receive _ | .pop _ | .setInboundError =>
    instDecidableTrue

/-- Both streams are over: the peer's FIN has come in, and ours has been acknowledged. -/
structure Finished (p : TCPPeer) : Prop where
  inbound : p.inbound.isClosed = true
  finSent : p.sender.finSent = true
  acked : p.sender.receiverAckno = p.sender.nextSeqno
  inFlight : p.sender.sequenceNumbersInFlight = 0
  outbound : p.outbound.isFinished = true

structure Honest (p : TCPPeer) : Prop where
  consistent : p.sender.Consistent
  flushed : p.anyErrors = false → p.inbound.closed = true → p.outbound.closed = true →
    p.outbound.buffer = [] → p.sender.bytesInFlight = 0 → p.sender.finSent = true

theorem honest_new (cfg : TCPConfig) : Honest (new cfg) where
  consistent := TCPSender.consistent_new _ _ _
  flushed _ hInbound := by cases hInbound

section Steps

variable {p : TCPPeer}

theorem receive_of_inactive (h : p.active = false) (msg : TCPMessage) :
    p.receive msg = (p, []) := by
  rw [receive, h]
  rfl

/-- The sender and the streams after an active peer has received a message. -/
theorem receive_view (h : p.active = true) (msg : TCPMessage) :
    (p.receive msg).1.sender = (p.accept msg).sender.push.1 ∧
      (p.receive msg).1.receiver = p.receiver.receive msg.sender := by
  have hReply : ∀ q : TCPPeer, q.replyIfNeeded.1.sender = q.sender ∧
      q.replyIfNeeded.1.receiver = q.receiver := by
    intro q
    rw [replyIfNeeded]
    split <;> exact ⟨rfl, rfl⟩
  have hLinger : ∀ q : TCPPeer, q.endLinger.sender = q.sender ∧
      q.endLinger.receiver = q.receiver := by
    intro q
    rw [endLinger]
    split <;> exact ⟨rfl, rfl⟩
  rw [receive, if_pos h]
  dsimp only
  rw [(hLinger _).1, (hLinger _).2, (hReply _).1, (hReply _).2]
  exact ⟨rfl, rfl⟩

theorem anyErrors_iff : p.anyErrors = true ↔ p.inbound.error = true ∨ p.outbound.error = true := by
  rw [anyErrors, Bool.or_eq_true]
  rfl

theorem Honest.step (h : Honest p) {a : Action} (hWrite : NoWriteAfterClose p a)
    (hOrderly : Orderly p a) : Honest (p.step a) := by
  cases a with
  | write data =>
    refine ⟨{ h.consistent with }, fun _ _ hClosed => ?_⟩
    have hOpen : p.outbound.closed = false := hWrite
    exact absurd (hOpen.symm.trans hClosed) Bool.false_ne_true
  | close =>
    refine ⟨{ h.consistent with }, fun hErrors hInbound _ hBuffer hFlight => ?_⟩
    cases hClosed : p.outbound.closed with
    | true => exact h.flushed hErrors hInbound hClosed hBuffer hFlight
    | false =>
      obtain hSome | hSome := hOrderly hErrors hInbound hClosed
      · exact absurd hFlight (Nat.ne_of_gt hSome)
      · exact absurd (List.length_eq_zero_iff.mpr hBuffer) hSome
  | setOutboundError =>
    refine ⟨{ h.consistent with }, fun hErrors => ?_⟩
    exact absurd (anyErrors_iff.mpr (.inr rfl)) (Bool.eq_false_iff.mp hErrors)
  | push =>
    refine ⟨h.consistent.push, fun _ _ hClosed _ hFlight => ?_⟩
    exact p.sender.push_flushes hClosed hFlight
  | tick ms =>
    obtain ⟨hInput, hFin, hFlight⟩ := p.sender.tick_kept ms
    refine ⟨h.consistent.tick ms, ?_⟩
    change (p.inbound.error || (p.sender.tick ms).1.input.error) = false →
      p.inbound.closed = true → (p.sender.tick ms).1.input.closed = true →
      (p.sender.tick ms).1.input.buffer = [] → (p.sender.tick ms).1.bytesInFlight = 0 →
      (p.sender.tick ms).1.finSent = true
    rw [hInput, hFin, hFlight]
    exact h.flushed
  | receive msg =>
    cases hActive : p.active with
    | false =>
      rw [TCPPeer.step, perform, receive_of_inactive hActive]
      exact h
    | true =>
      obtain ⟨hSender, -⟩ := receive_view hActive msg
      have hConsistent : (p.accept msg).sender.Consistent := h.consistent.receive msg.receiver
      constructor
      · rw [TCPPeer.step, perform, hSender]
        exact hConsistent.push
      · rw [TCPPeer.step, perform, outbound, hSender]
        exact fun _ _ hClosed _ hFlight => (p.accept msg).sender.push_flushes hClosed hFlight
  | pop len => exact ⟨h.consistent, h.flushed⟩
  | setInboundError =>
    refine ⟨h.consistent, fun hErrors => ?_⟩
    exact absurd (anyErrors_iff.mpr (.inl rfl)) (Bool.eq_false_iff.mp hErrors)

theorem inactive_iff (hErrors : p.anyErrors = false) : p.active = false ↔
    p.senderActive = false ∧ p.receiverActive = false ∧ p.lingering = false := by
  rw [active, hErrors, Bool.not_false, Bool.true_and, Bool.or_eq_false_iff, Bool.or_eq_false_iff,
    and_assoc]

theorem active_eq_false (hErrors : p.anyErrors = false) : p.active = false ↔
    p.sender.bytesInFlight = 0 ∧ p.outbound.isFinished = true ∧ p.inbound.closed = true ∧
      p.lingering = false := by
  rw [inactive_iff hErrors]
  simp [senderActive, receiverActive, TCPSender.sequenceNumbersInFlight, ByteStream.isClosed,
    and_assoc]

/-- A peer that has stopped without an error has really finished. -/
theorem Honest.finished (h : Honest p) (hActive : p.active = false)
    (hErrors : p.anyErrors = false) : Finished p := by
  obtain ⟨hFlight, hFinished, hInbound, -⟩ := (active_eq_false hErrors).mp hActive
  obtain ⟨hClosed, hBuffer⟩ := ByteStream.isFinished_iff.mp hFinished
  refine ⟨hInbound, h.flushed hErrors hInbound hClosed hBuffer hFlight, ?_, hFlight, hFinished⟩
  exact h.consistent.empty (h.consistent.bytesInFlight_eq_zero.mp hFlight)

theorem active_of_errors (h : p.anyErrors = true) : p.active = false := by
  rw [active, h]
  rfl

/-- Neither stream ever recovers. -/
theorem error_step (p : TCPPeer) (a : Action) :
    (p.outbound.error = true → (p.step a).outbound.error = true) ∧
      (p.inbound.error = true → (p.step a).inbound.error = true) := by
  cases a with
  | write data | close | pop len => exact ⟨id, id⟩
  | setOutboundError => exact ⟨fun _ => rfl, id⟩
  | setInboundError => exact ⟨id, fun _ => rfl⟩
  | push => exact ⟨p.sender.push_untouched.error.trans, id⟩
  | tick ms => exact ⟨(congrArg ByteStream.error (p.sender.tick_kept ms).1).trans, id⟩
  | receive msg =>
    rw [TCPPeer.step, perform]
    constructor
    · intro hError
      rw [receive_of_inactive (active_of_errors (anyErrors_iff.mpr (.inr hError)))]
      exact hError
    · intro hError
      rw [receive_of_inactive (active_of_errors (anyErrors_iff.mpr (.inl hError)))]
      exact hError

theorem errors_step (hErrors : p.anyErrors = true) (a : Action) :
    (p.step a).anyErrors = true := by
  obtain hIn | hOut := anyErrors_iff.mp hErrors
  · exact anyErrors_iff.mpr (.inl ((p.error_step a).2 hIn))
  · exact anyErrors_iff.mpr (.inr ((p.error_step a).1 hOut))

/-- Time that passes without a wrap does not bring the lingering period back. -/
theorem lingering_tick {ms : Nat} (h : p.lingering = false)
    (hTime : p.lingerAfterStreamsFinish = true → p.cumulativeTime + ms < 2 ^ 64) :
    ({ p with cumulativeTime := u64 (p.cumulativeTime + ms) } : TCPPeer).lingering = false := by
  cases hFlag : p.lingerAfterStreamsFinish with
  | false => simp [lingering]
  | true =>
    rw [lingering, hFlag, Bool.true_and, decide_eq_false_iff_not] at h
    rw [u64_eq (hTime hFlag)]
    simp only [lingering, Bool.and_eq_false_iff, decide_eq_false_iff_not]
    omega

theorem Honest.inactive_step (h : Honest p) {a : Action} (hWrite : NoWriteAfterClose p a)
    (hOrderly : Orderly p a) (hActive : p.active = false) : (p.step a).active = false := by
  cases hErrors : p.anyErrors with
  | true => exact active_of_errors (errors_step hErrors a)
  | false =>
    obtain ⟨hFlight, hFinished, hInbound, hLinger⟩ := (active_eq_false hErrors).mp hActive
    have hFin := (h.finished hActive hErrors).finSent
    cases a with
    | write data =>
      have hOpen : p.outbound.closed = false := hWrite
      rw [(ByteStream.isFinished_iff.mp hFinished).1] at hOpen
      cases hOpen
    | close =>
      refine (active_eq_false (p := p.step .close) hErrors).mpr ⟨hFlight, ?_, hInbound, hLinger⟩
      exact ByteStream.isFinished_iff.mpr ⟨rfl, (ByteStream.isFinished_iff.mp hFinished).2⟩
    | setOutboundError => exact active_of_errors (anyErrors_iff.mpr (.inr rfl))
    | setInboundError => exact active_of_errors (anyErrors_iff.mpr (.inl rfl))
    | push =>
      rw [TCPPeer.step, perform, push, TCPSender.push_of_fin hFin]
      exact (active_eq_false hErrors).mpr ⟨hFlight, hFinished, hInbound, hLinger⟩
    | tick ms =>
      have hTick : p.sender.tick ms = (p.sender, []) :=
        h.consistent.tick_nil (h.consistent.bytesInFlight_eq_zero.mp hFlight) ms
      rw [TCPPeer.step, perform, tick, hTick]
      refine (active_eq_false (p := { p with
        cumulativeTime := u64 (p.cumulativeTime + ms)
        needSend := p.needSend && true }) hErrors).mpr ⟨hFlight, hFinished, hInbound, ?_⟩
      obtain ⟨hSender, hReceiver, -⟩ := (inactive_iff hErrors).mp hActive
      exact lingering_tick hLinger (hOrderly hErrors hSender hReceiver hLinger)
    | receive msg =>
      rw [TCPPeer.step, perform, receive_of_inactive hActive]
      exact hActive
    | pop len =>
      exact (active_eq_false hErrors).mpr ⟨hFlight, hFinished, hInbound, hLinger⟩

end Steps

/-- In an orderly run a peer that has stopped without an error has finished both streams, and
a peer that has stopped stays so. -/
theorem run_stopped (cfg : TCPConfig) (actions later : List Action)
    (hWrite : Run.Along step NoWriteAfterClose (new cfg) (actions ++ later))
    (hOrderly : Run.Along step Orderly (new cfg) (actions ++ later)) :
    let p := Run.run step (new cfg) actions
    p.active = false →
      (p.anyErrors = false → Finished p) ∧ (Run.run step p later).active = false := by
  intro p hActive
  obtain ⟨hWrite, hWrite'⟩ := Run.along_append.mp hWrite
  obtain ⟨hOrderly, hOrderly'⟩ := Run.along_append.mp hOrderly
  have hHonest : Honest p :=
    Run.invariant (fun _ _ hOk h => h.step hOk.1 hOk.2) (Run.along_and.mpr ⟨hWrite, hOrderly⟩)
      (honest_new cfg)
  refine ⟨hHonest.finished hActive, ?_⟩
  have hBoth : Honest (Run.run step p later) ∧ (Run.run step p later).active = false :=
    Run.invariant (P := fun q => Honest q ∧ q.active = false)
      (fun _ _ hOk h => ⟨h.1.step hOk.1 hOk.2, h.1.inactive_step hOk.1 hOk.2 h.2⟩)
      (Run.along_and.mpr ⟨hWrite', hOrderly'⟩) ⟨hHonest, hActive⟩
  exact hBoth.2

/-- The peer's FIN has come in and our SYN is acknowledged. -/
def halfClosed : List Action :=
  [.push, .receive ⟨⟨⟨7⟩, true, [], true, false⟩, ⟨some ⟨138⟩, 1000, false⟩⟩]

/-- The writer is closed without a push: the peer has stopped with its FIN unsent, and the push
that comes later starts it again. -/
theorem not_stopped_of_close :
    let p := Run.run step (new {}) (halfClosed ++ [.close])
    p.active = false ∧ p.anyErrors = false ∧ p.sender.finSent = false ∧
      (p.step .push).active = true := by
  decide +kernel

/-- The same peer with the push before anything else happens, up to the last acknowledgment. -/
theorem run_stopped_example :
    let p := Run.run step (new {}) ([.push, .receive ⟨⟨⟨7⟩, true, [], false, false⟩,
      ⟨some ⟨138⟩, 1000, false⟩⟩, .close, .push,
      .receive ⟨⟨⟨8⟩, false, [], true, false⟩, ⟨some ⟨139⟩, 1000, false⟩⟩, .tick 10000])
    Finished p := by
  intro p
  have hActive : p.active = false := by decide +kernel
  have h := run_stopped {} _ [] (by decide +kernel) (by decide +kernel) hActive
  exact h.1 (by decide +kernel)

end TCPPeer

end Minnow
