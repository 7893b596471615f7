import Minnow.ConnectionSafety
import Minnow.Conversation

/-! # What the two applications of a conversation can rely on

Whatever the network does, each application reads what the other one wrote, and
a peer that has stopped knows that both directions are complete.
-/

namespace Minnow

open Library

namespace TCPSender

@[simp] theorem still_finSent (s : TCPSender) : s.still.finSent = s.finSent := by
  rw [still]
  split <;> rfl

@[simp] theorem still_closed (s : TCPSender) : s.still.input.closed = s.input.closed := by
  rw [still]
  split <;> rfl

@[simp] theorem still_bytesInFlight (s : TCPSender) : s.still.bytesInFlight = s.bytesInFlight := by
  rw [still]
  split <;> rfl

@[simp] theorem still_receiverAckno (s : TCPSender) : s.still.receiverAckno = s.receiverAckno := by
  rw [still]
  split <;> rfl

end TCPSender

section Direction

variable {c : Connection} {speaker listener : Talker} {there back : List TCPMessage}

theorem Backs.received (h : Backs c speaker listener there back) :
    c.received = listener.received := by
  rw [Connection.received, h.delivered, h.receiver]
  rfl

theorem Backs.isPrefix (h : Backs c speaker listener there back) :
    listener.received <+: speaker.accepted := by
  rw [← h.received, ← h.accepted]
  exact h.sound.received_isPrefix

theorem Backs.of_closed (h : Backs c speaker listener there back)
    (hClosed : listener.peer.inbound.isClosed = true) :
    speaker.peer.outbound.isClosed = true ∧ listener.received = speaker.accepted := by
  have hEnded : c.receiver.reassembler.output.closed = true := by
    rw [h.receiver]
    exact hClosed
  obtain ⟨hWriter, hAll⟩ := h.sound.received_of_closed hEnded
  rw [h.sender, TCPSender.still_closed] at hWriter
  rw [h.received, h.accepted] at hAll
  exact ⟨hWriter, hAll⟩

theorem Backs.ackno_le (h : Backs c speaker listener there back) :
    speaker.peer.sender.receiverAckno ≤ listener.peer.receiver.absAckno := by
  have hLe := h.sound.ackno_le
  rw [h.sender, h.receiver, TCPSender.still_receiverAckno] at hLe
  exact hLe

theorem Backs.complete (h : Backs c speaker listener there back)
    (hFin : speaker.peer.sender.finSent = true)
    (hFlight : speaker.peer.sender.sequenceNumbersInFlight = 0) :
    listener.peer.inbound.isClosed = true ∧ listener.received = speaker.accepted := by
  have hSent : c.sender.finSent = true := by
    rw [h.sender, TCPSender.still_finSent]
    exact hFin
  have hAcked : c.sender.bytesInFlight = 0 := by
    rw [h.sender, TCPSender.still_bytesInFlight]
    exact hFlight
  obtain ⟨hClosed, hAll⟩ := h.sound.complete hSent hAcked
  rw [h.receiver] at hClosed
  rw [h.received, h.accepted] at hAll
  exact ⟨hClosed, hAll⟩

end Direction

namespace Conversation

open TCPPeer

variable {x : Conversation}

theorem Talking.noErrors (h : Talking x) (side : Side) :
    (x.machine side).peer.anyErrors = false := by
  obtain ⟨c, hOut⟩ := h.backed side
  obtain ⟨c', hIn⟩ := h.backed_other side
  rw [← Bool.not_eq_true, anyErrors_iff, not_or]
  constructor
  · have hError := hIn.sound.reads.error
    rw [hIn.receiver] at hError
    exact Bool.eq_false_iff.mp hError
  · have hError := hOut.sound.clean.error
    rw [hOut.sender, TCPSender.still_error] at hError
    exact Bool.eq_false_iff.mp hError

/-- Neither application ever sees anything but what the other has written, in order; the end of
the stream comes after all of it, and an acknowledgment only for what has been assembled. -/
theorem run_converses (cfg : Side → TCPConfig) (steps : List Step)
    (hOk : Run.Along step Allowed (new cfg) steps) :
    let x := Run.run step (new cfg) steps
    ∀ side, (x.machine side).peer.anyErrors = false ∧
      (x.machine side.other).received <+: (x.machine side).accepted ∧
      ((x.machine side.other).peer.inbound.isClosed = true →
        (x.machine side).peer.outbound.isClosed = true ∧
          (x.machine side.other).received = (x.machine side).accepted) ∧
      (x.machine side).peer.sender.receiverAckno ≤
        (x.machine side.other).peer.receiver.absAckno := by
  intro x side
  have h : Talking x := talking_run cfg hOk
  obtain ⟨c, hBacks⟩ := h.backed side
  exact ⟨h.noErrors side, hBacks.isPrefix, hBacks.of_closed, hBacks.ackno_le⟩

/-- The SYNs cross, one of them arrives twice, and the left side writes three bytes. -/
def crossing : List Step :=
  [.act .left .push, .act .right .push, .deliver .left () 1, .deliver .right () 0,
    .deliver .right () 0, .deliver .left () 3, .act .left (.write [1, 2]), .act .left .push,
    .act .left (.write [3]), .act .left .close, .act .left .push]

/-- The last segment overtakes the one before it and arrives again later. -/
theorem run_converses_crossing :
    let x := Run.run step (new fun _ => {}) (crossing ++ [.deliver .right () 6,
      .deliver .right () 5, .act .right (.pop 2), .deliver .right () 6])
    (x.machine .right).delivered = [1, 2] ∧
      (x.machine .right).received = (x.machine .left).accepted := by
  have h := run_converses (fun _ => {}) (crossing ++ [.deliver .right () 6,
    .deliver .right () 5, .act .right (.pop 2), .deliver .right () 6]) (by decide +kernel) .left
  dsimp only at h ⊢
  generalize hx : Run.run step (new fun _ => {}) _ = x at h ⊢
  have hRead : (x.machine .right).delivered = [1, 2] := by
    rw [← hx]
    decide +kernel
  have hClosed : (x.machine .right).peer.inbound.isClosed = true := by
    rw [← hx]
    decide +kernel
  exact ⟨hRead, (h.2.2.1 hClosed).2⟩

/-- No writer is closed that has nothing left to send and has heard the end of the other
direction, and no clock wraps after the end. -/
def Courteous (self : Conversation) : Step → Prop := self.Permits fun _ e => Orderly e.peer

instance (self : Conversation) (a : Step) : Decidable (Courteous self a) :=
  inferInstanceAs (Decidable (self.Permits (fun _ e => Orderly e.peer) a))

theorem honest_guarantees : Network.Guarantees Talker.machine
    (fun _ e a => e.Fair a ∧ Orderly e.peer a) (fun (_ : List (Side × Action)) _ e => Honest e.peer)
    (fun _ _ _ => True) where
  grow _ _ _ _ h := h
  grow_sent _ _ _ _ h := h
  act log side e a hOk h := by
    refine ⟨h.step ?_ hOk.2, fun _ _ => trivial⟩
    cases a with
    | write data => exact hOk.1.1
    | close | setOutboundError | push | tick ms | receive msg | pop len | setInboundError => trivial
  hear log side other e port msg hOther h _ := ⟨h.step trivial trivial, fun _ _ => trivial⟩

theorem honest_run (cfg : Side → TCPConfig) {steps : List Step}
    (hOk : Run.Along step Allowed (new cfg) steps)
    (hCourteous : Run.Along step Courteous (new cfg) steps) (side : Side) :
    Honest ((Run.run step (new cfg) steps).machine side).peer := by
  have hSound := Run.invariant (P := Network.Sound (fun _ _ e => Honest e.peer) fun _ _ _ => True)
    (fun x a hBoth h => ?_) (Run.along_and.mpr ⟨hOk, hCourteous⟩)
    ⟨fun side => honest_new (cfg side), fun _ _ => trivial⟩
  · exact hSound.machine side
  · refine honest_guarantees.step ?_ h
    cases a with
    | act side b => exact hBoth
    | deliver side port k => trivial

/-- A peer that has stopped knows that the conversation is over: both applications can read all
that was written, and both streams have ended. -/
theorem run_concludes (cfg : Side → TCPConfig) (steps : List Step)
    (hOk : Run.Along step Allowed (new cfg) steps)
    (hCourteous : Run.Along step Courteous (new cfg) steps) (side : Side) :
    let x := Run.run step (new cfg) steps
    (x.machine side).peer.active = false →
      ∀ d, (x.machine d.other).received = (x.machine d).accepted ∧
        (x.machine d).peer.outbound.isClosed = true ∧
        (x.machine d).peer.inbound.isClosed = true := by
  intro x hActive
  have h : Talking x := talking_run cfg hOk
  have hFinished := (honest_run cfg hOk hCourteous side).finished hActive (h.noErrors side)
  obtain ⟨c, hOut⟩ := h.backed side
  obtain ⟨c', hIn⟩ := h.backed_other side
  obtain ⟨hEnd, hSent⟩ := hOut.complete hFinished.finSent hFinished.inFlight
  obtain ⟨hWriter, hReceived⟩ := hIn.of_closed hFinished.inbound
  refine Exchange.forall_side side ?_ ?_
  · exact ⟨hSent, (hOut.of_closed hEnd).1, hFinished.inbound⟩
  · rw [Side.other_other]
    exact ⟨hReceived, hWriter, hEnd⟩

/-- The right side writes one byte and closes as well; it does not linger. -/
theorem run_concludes_crossing :
    let x := Run.run step (new fun _ => {}) (crossing ++ [.deliver .right () 5,
      .deliver .right () 6, .deliver .left () 8, .act .right (.write [4]), .act .right .close,
      .act .right .push, .deliver .left () 9, .deliver .right () 10])
    (x.machine .left).accepted = [1, 2, 3] ∧
      (x.machine .right).received = (x.machine .left).accepted ∧
      (x.machine .left).received = (x.machine .right).accepted := by
  have h := run_concludes (fun _ => {}) (crossing ++ [.deliver .right () 5, .deliver .right () 6,
    .deliver .left () 8, .act .right (.write [4]), .act .right .close, .act .right .push,
    .deliver .left () 9, .deliver .right () 10]) (by decide +kernel) (by decide +kernel) .right
  dsimp only at h ⊢
  generalize hx : Run.run step (new fun _ => {}) _ = x at h ⊢
  have hActive : (x.machine .right).peer.active = false := by
    rw [← hx]
    decide +kernel
  have hWritten : (x.machine .left).accepted = [1, 2, 3] := by
    rw [← hx]
    decide +kernel
  exact ⟨hWritten, (h hActive .left).1, (h hActive .right).1⟩

end Conversation

end Minnow
