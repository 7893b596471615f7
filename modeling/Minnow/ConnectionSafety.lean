import Minnow.ConnectionInvariant

/-! # What is delivered and what is acknowledged

Both results are read off the invariant: the receiver has assembled a prefix of
the accepted bytes, and the sender has only forgotten what was assembled.
-/

namespace Minnow.Connection

open Library

section State

variable {isn : Wrap32} {c : Connection}

theorem Sound.received_eq (h : Sound isn c) :
    c.received = c.sent.take c.receiver.reassembler.nextIndex := by
  rw [received, h.delivered, h.reads.assembles.take_append_buffer]

theorem Sound.received_length (h : Sound isn c) :
    c.received.length = c.receiver.reassembler.output.bytesPushed := by
  rw [h.received_eq, List.length_take, min_eq_left h.reads.assembles.bound]
  exact h.reads.assembles.wellFormed.next_eq

theorem Sound.received_isPrefix (h : Sound isn c) : c.received <+: c.accepted := by
  rw [h.received_eq]
  exact (List.take_prefix _ _).trans (List.take_prefix _ _)

theorem Sound.received_of_closed (h : Sound isn c)
    (hClosed : c.receiver.reassembler.output.closed = true) :
    c.sender.input.closed = true ∧ c.received = c.accepted := by
  obtain ⟨hSeen, hNext⟩ := h.reads.assembles.closed_iff.mp hClosed
  have hFin := (h.reads.assembles.last hSeen).1
  refine ⟨(h.streams.fin hFin).1, ?_⟩
  rw [h.received_eq, hNext, List.take_length]
  exact h.streams.sentBytes_of_fin hFin

theorem Sound.assembled (h : Sound isn c) {i : Nat} (hUsed : i < c.sender.nextSeqno)
    (hGone : ∀ o ∈ c.sender.outstanding, ¬ (o.seqStart ≤ i ∧ i < o.seqStart + o.len)) :
    i < c.receiver.absAckno := by
  obtain ⟨lo, hLo, hTiles⟩ := h.consistent.tiles
  have hBelow : i < lo := by
    by_contra hNot
    obtain ⟨o, hMem, hIn⟩ := hTiles.covers (Nat.not_lt.mp hNot) hUsed
    exact hGone o hMem hIn
  exact hBelow.trans_le (hLo.trans h.ackno_le)

theorem Sound.complete (h : Sound isn c) (hFin : c.sender.finSent = true)
    (hFlight : c.sender.bytesInFlight = 0) :
    c.receiver.reassembler.output.closed = true ∧ c.received = c.accepted := by
  have hNext := h.consistent.empty (h.consistent.bytesInFlight_eq_zero.mp hFlight)
  have hAckno := h.ackno_le
  have hSyn : c.sender.synSent = true := by
    cases hSyn : c.sender.synSent with
    | true => rfl
    | false => exact absurd (hFin.symm.trans (h.streams.syn hSyn).2) Bool.noConfusion
  have hBound := h.reads.assembles.bound
  have hUsed := h.streams.next
  rw [hSyn, hFin, Bool.toNat_true, ← h.streams.sentBytes_length] at hUsed
  have hClosed : c.receiver.reassembler.output.closed = true := by
    by_contra hOpen
    have hAck : c.receiver.absAckno ≤ 1 + c.sent.length := by
      rw [TCPReceiver.absAckno]
      split
      · rw [TCPReceiver.ackAbs_eq, Bool.eq_false_of_not_eq_true hOpen, Bool.toNat_false,
          ← h.reads.assembles.wellFormed.next_eq]
        omega
      · exact Nat.zero_le _
    rw [sent] at hAck
    omega
  exact ⟨hClosed, (h.received_of_closed hClosed).2⟩

end State

/-- End-to-end safety: the bytes pushed at the receiver are a prefix of the bytes accepted at
the sender, and the receiver's stream is closed only once all of them are there. -/
theorem run_delivers (sendCapacity receiveCapacity : Nat) (isn : Wrap32) (initialRTOms : Nat)
    (steps : List Step)
    (hOk : Run.Along step Allowed (new sendCapacity receiveCapacity isn initialRTOms) steps) :
    let c := Run.run step (new sendCapacity receiveCapacity isn initialRTOms) steps
    c.received <+: c.accepted ∧
      c.received.length = c.receiver.reassembler.output.bytesPushed ∧
      (c.receiver.reassembler.output.isClosed = true →
        c.sender.input.isClosed = true ∧ c.received = c.accepted) := by
  intro c
  have h : Sound isn c := sound_run sendCapacity receiveCapacity isn initialRTOms hOk
  exact ⟨h.received_isPrefix, h.received_length, h.received_of_closed⟩

theorem run_delivers_reordered :
    let c := Run.run step (new 10 10 ⟨4294967295⟩ 100)
      [.push, .deliverSegment 0, .acknowledge, .deliverAck 0, .write [1, 2], .push, .write [3],
        .close, .push, .deliverSegment 2, .deliverSegment 2, .pop 1, .deliverSegment 1, .pop 2]
    c.received <+: [1, 2, 3] ∧ c.delivered = [1, 2] ∧ c.sender.input.isClosed = true := by
  have h := run_delivers 10 10 ⟨4294967295⟩ 100
    [.push, .deliverSegment 0, .acknowledge, .deliverAck 0, .write [1, 2], .push, .write [3],
      .close, .push, .deliverSegment 2, .deliverSegment 2, .pop 1, .deliverSegment 1, .pop 2]
    (by decide +kernel)
  exact ⟨h.1.trans (by decide +kernel), by decide +kernel, (h.2.2 (by decide +kernel)).1⟩

/-- Acknowledgments are sound: the sender's acknowledgment number never passes the receiver's,
so every number used and no longer outstanding has been assembled. -/
theorem run_acknowledges (sendCapacity receiveCapacity : Nat) (isn : Wrap32) (initialRTOms : Nat)
    (steps : List Step)
    (hOk : Run.Along step Allowed (new sendCapacity receiveCapacity isn initialRTOms) steps) :
    let c := Run.run step (new sendCapacity receiveCapacity isn initialRTOms) steps
    c.sender.receiverAckno ≤ c.receiver.absAckno ∧
      (∀ i < c.sender.nextSeqno,
        (∀ o ∈ c.sender.outstanding, ¬ (o.seqStart ≤ i ∧ i < o.seqStart + o.len)) →
          i < c.receiver.absAckno) ∧
      (c.sender.finSent = true → c.sender.sequenceNumbersInFlight = 0 →
        c.receiver.reassembler.output.isClosed = true ∧ c.received = c.accepted) := by
  intro c
  have h : Sound isn c := sound_run sendCapacity receiveCapacity isn initialRTOms hOk
  exact ⟨h.ackno_le, fun _ => h.assembled, h.complete⟩

theorem run_acknowledges_stale :
    let c := Run.run step (new 10 10 ⟨7⟩ 100)
      [.push, .deliverSegment 0, .acknowledge, .deliverAck 0, .write [1, 2], .close, .push,
        .tick 100, .deliverSegment 2, .acknowledge, .deliverAck 1, .deliverAck 0]
    c.sender.receiverAckno ≤ c.receiver.absAckno ∧ c.received = [1, 2] := by
  have h := run_acknowledges 10 10 ⟨7⟩ 100
    [.push, .deliverSegment 0, .acknowledge, .deliverAck 0, .write [1, 2], .close, .push,
      .tick 100, .deliverSegment 2, .acknowledge, .deliverAck 1, .deliverAck 0] (by decide +kernel)
  exact ⟨h.1, (h.2.2 (by decide +kernel) (by decide +kernel)).2.trans (by decide +kernel)⟩

end Minnow.Connection
