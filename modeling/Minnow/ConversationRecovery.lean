import Minnow.ConversationProgress
import Minnow.Library.Attains

/-! # A conversation is never stuck

Whatever has been lost, the two peers can still bring everything that has been
written to the other side: as long as something is left, the oldest segment is
resent, and its answer advances the sender.
-/

namespace Minnow

open Library

namespace Conversation

open TCPPeer Talker

variable {x : Conversation} {side : Side} {a : Step}

theorem active_of_outstanding (h : Alive x) (side : Side)
    (hOut : (x.machine side).peer.sender.outstanding ≠ []) :
    (x.machine side).peer.active = true := by
  by_contra hActive
  obtain ⟨hFlight, -⟩ := (active_eq_false (h.toTalking.noErrors side)).mp
    (Bool.eq_false_of_not_eq_true hActive)
  exact hOut ((h.able side).paced.consistent.bytesInFlight_eq_zero.mp hFlight)

theorem active_of_open (h : Alive x) (side : Side)
    (hOpen : (x.machine side).peer.inbound.isClosed = false) :
    (x.machine side).peer.active = true := by
  by_contra hActive
  obtain ⟨-, -, hClosed, -⟩ := (active_eq_false (h.toTalking.noErrors side)).mp
    (Bool.eq_false_of_not_eq_true hActive)
  exact Bool.false_ne_true (hOpen.symm.trans hClosed)

/-- The oldest segment arrives, and then its answer. -/
theorem Alive.answered (h : Alive x) {k : Nat} {m : TCPMessage} {o : Outstanding}
    (hGet : x.sent[k]? = some (side, m)) (hSegment : m.sender = o.msg)
    (hHead : o ∈ (x.machine side).peer.sender.outstanding.head?)
    (hEmpty : (x.machine side.other).peer.inbound.buffer = [])
    (hOpen : (x.machine side.other).peer.inbound.isClosed = false) :
    Run.Attains Conversation.step Unaided x fun y =>
      (x.machine side).peer.sender.receiverAckno < (y.machine side).peer.sender.receiverAckno := by
  obtain ⟨c, hBacks⟩ := h.backed side
  have hAbles := h.able side.other
  have hAhead := hBacks.overtakes hHead hEmpty hAbles.capacity hAbles.range
  have hLength : 0 < m.sender.sequenceLength := by
    rw [hSegment]
    exact hBacks.sequenceLength_pos (List.mem_of_mem_head? hHead)
  have hGet' : x.sent[k]? = some (side.other.other, m) := by
    rw [Side.other_other]
    exact hGet
  obtain ⟨hHeard, hSame, m', hReply, hAck⟩ :=
    h.toTalking.reply hGet' (active_of_open h side.other hOpen) hLength
  have hAlive : Alive (x.step (.deliver side.other () k)) := h.step trivial
  refine .next (a := .deliver side.other () k) trivial ?_
  generalize x.step (.deliver side.other () k) = y at hHeard hSame hReply hAlive ⊢
  rw [Side.other_other] at hSame
  rw [hSegment] at hHeard hAck
  refine .next (a := .deliver side () x.sent.length) trivial (.now ?_)
  rw [hear_receiverAckno hReply, hAck, ← hHeard]
  · obtain ⟨c', hBacks'⟩ := hAlive.backed side
    rw [← hHeard, ← hSame] at hAhead
    rw [hBacks'.acknowledged hAhead, ← hSame]
    exact hAhead
  · apply active_of_outstanding hAlive
    rw [hSame]
    exact List.ne_nil_of_mem (List.mem_of_mem_head? hHead)

/-- The oldest segment is resent. -/
theorem Alive.resend (h : Alive x) {o : Outstanding} {rest : List Outstanding}
    (hOut : (x.machine side).peer.sender.outstanding = o :: rest)
    (hEmpty : (x.machine side.other).peer.inbound.buffer = [])
    (hOpen : (x.machine side.other).peer.inbound.isClosed = false) :
    Run.Attains Conversation.step Unaided x fun y =>
      (x.machine side).peer.sender.receiverAckno < (y.machine side).peer.sender.receiverAckno := by
  have hMarked : (x.machine side).peer.sender.marked o = o := by
    have hError : (x.machine side).peer.outbound.hasError = false := by
      have hClean := h.toTalking.noErrors side
      rw [anyErrors, Bool.or_eq_false_iff] at hClean
      exact hClean.2
    exact if_neg (Bool.eq_false_iff.mp hError)
  have hTick := (h.able side).paced.tick_left hOut
  let left := (x.machine side).peer.sender.rto - (x.machine side).peer.sender.timerElapsedMs
  let m : TCPMessage := ⟨o.msg, (x.machine side).peer.receiver.send⟩
  obtain ⟨hHere, hThere, hSent⟩ := x.step_act side (.tick left)
  have hSender : ((x.step (.act side (.tick left))).machine side).peer.sender =
      (x.machine side).peer.sender.expired o rest := by
    rw [hHere]
    exact congrArg Prod.fst hTick
  have hResent : (x.machine side).peer.transmitted (.tick left) = [m] := by
    change ((x.machine side).peer.sender.tick left).2.map _ = _
    rw [hTick, hMarked]
    rfl
  have hAlive : Alive (x.step (.act side (.tick left))) := h.step trivial
  refine .next (a := .act side (.tick left)) trivial ?_
  rw [hResent] at hSent
  generalize x.step (.act side (.tick left)) = y at hSender hThere hSent hAlive ⊢
  have hAckno : (y.machine side).peer.sender.receiverAckno =
      (x.machine side).peer.sender.receiverAckno := by
    rw [hSender]
    rfl
  have hHead : (y.machine side).peer.sender.outstanding.head? = some o := by
    rw [hSender, TCPSender.expired, hMarked]
    rfl
  have hGet : y.sent[x.sent.length]? = some (side, m) := by
    rw [hSent]
    exact List.getElem?_concat_length
  rw [← hThere] at hEmpty hOpen
  rw [← hAckno]
  exact hAlive.answered hGet rfl hHead hEmpty hOpen

/-- The other side has read all that has been written, up to the end if there is one. -/
structure Whole (x : Conversation) (side : Side) : Prop where
  read : (x.machine side.other).delivered = (x.machine side).accepted
  ended : (x.machine side).peer.outbound.isClosed = true →
    (x.machine side.other).peer.inbound.isClosed = true

theorem Whole.of_received (hEmpty : (x.machine side.other).peer.inbound.buffer = [])
    (hAll : (x.machine side.other).received = (x.machine side).accepted)
    (hEnd : (x.machine side).peer.outbound.isClosed = true →
      (x.machine side.other).peer.inbound.isClosed = true) : Whole x side := by
  rw [Talker.received, ByteStream.peek, hEmpty, List.append_nil] at hAll
  exact ⟨hAll, hEnd⟩

/-- Nothing is left once everything has been read, or the writer pushes and resends. -/
theorem Alive.pushes (h : Alive x) (hEmpty : (x.machine side.other).peer.inbound.buffer = []) :
    Run.Attains Conversation.step Unaided x fun y => Whole y side ∨
      (x.machine side).peer.sender.receiverAckno < (y.machine side).peer.sender.receiverAckno := by
  obtain ⟨c, hBacks⟩ := h.backed side
  cases hClosed : (x.machine side.other).peer.inbound.isClosed with
  | true =>
    exact .now (.inl (.of_received hEmpty (hBacks.of_closed hClosed).2 fun _ => hClosed))
  | false =>
    cases hOut : (x.machine side).peer.sender.push.1.outstanding with
    | nil =>
      obtain ⟨hAll, hEnd⟩ := hBacks.finished hOut
      exact .now (.inl (.of_received hEmpty hAll hEnd))
    | cons o rest =>
      obtain ⟨hHere, hThere, -⟩ := x.step_act side .push
      have hAlive : Alive (x.step (.act side .push)) := h.step trivial
      have hSender : ((x.step (.act side .push)).machine side).peer.sender =
          (x.machine side).peer.sender.push.1 := by
        rw [hHere]
        rfl
      rw [← hSender] at hOut
      rw [← hThere] at hEmpty hClosed
      refine .next (a := .act side .push) trivial ((hAlive.resend hOut hEmpty hClosed).mono ?_)
      intro y hAdvances
      rw [hSender, (TCPSender.push_untouched _).receiverAckno] at hAdvances
      exact .inr hAdvances

/-- One round: the reader reads everything, and the writer pushes and resends. -/
theorem Alive.round (h : Alive x) (side : Side) :
    Run.Attains Conversation.step Unaided x fun y => Whole y side ∨
      (x.machine side).peer.sender.receiverAckno < (y.machine side).peer.sender.receiverAckno := by
  let len := (x.machine side.other).peer.inbound.bytesBuffered
  obtain ⟨hReader, hWriter, -⟩ := x.step_act side.other (.pop len)
  have hAlive : Alive (x.step (.act side.other (.pop len))) := h.step trivial
  have hEmpty : ((x.step (.act side.other (.pop len))).machine side.other).peer.inbound.buffer =
      [] := by
    rw [hReader]
    change ((x.machine side.other).peer.inbound.pop len).buffer = []
    rw [ByteStream.pop_buffer]
    exact List.drop_length
  rw [Side.other_other] at hWriter
  refine .next (a := .act side.other (.pop len)) trivial ?_
  rw [← hWriter]
  exact hAlive.pushes hEmpty

theorem Alive.ackno_lt (h : Alive x) (side : Side) :
    (x.machine side).peer.sender.receiverAckno < 2 ^ 31 := by
  obtain ⟨c, hBacks⟩ := h.backed side
  have hLess := hBacks.sound.consistent.ackno_le.trans_lt hBacks.sound.next_lt
  rw [hBacks.sender, TCPSender.still_receiverAckno] at hLess
  exact hLess

/-- Every round but the last one advances the sender, whose numbers are bounded. -/
theorem Alive.recovers (h : Alive x) (side : Side) :
    Run.Attains Conversation.step Unaided x fun y => Whole y side := by
  refine Run.Attains.rounds (I := Alive)
    (μ := fun y => 2 ^ 31 - (y.machine side).peer.sender.receiverAckno) (fun y hAlive => ?_) h
  refine ((hAlive.round side).keep (fun _ _ hOk h => h.step hOk.allowed) hAlive).mono ?_
  rintro z ⟨hWhole | hAdvances, hAfter⟩
  · exact .inl hWhole
  · have hLess := hAfter.ackno_lt side
    exact .inr ⟨hAfter, by omega⟩

theorem Whole.step (h : Whole x side) (hTalking : Talking x) (hOk : Unaided x a) :
    Whole (x.step a) side := by
  have hAlong : Run.Along Conversation.step Unaided x [a] := ⟨hOk, trivial⟩
  have hOnward := onward_run hAlong
  have hHere : Onward (x.machine side) ((x.step a).machine side) := hOnward side
  have hThere : Onward (x.machine side.other) ((x.step a).machine side.other) := hOnward side.other
  constructor
  · obtain ⟨c, hBacks⟩ := (hTalking.step hOk.allowed).backed side
    have hPrefix : ((x.step a).machine side.other).delivered <+:
        ((x.step a).machine side).accepted := (List.prefix_append _ _).trans hBacks.isPrefix
    refine hPrefix.eq_of_length_le ?_
    rw [hHere.accepted, ← h.read]
    exact hThere.delivered.length_le
  · intro hClosed
    rw [hHere.outbound] at hClosed
    exact hThere.inbound (h.ended hClosed)

theorem alive_new {cfg : Side → TCPConfig} (hCapacity : ∀ side, 0 < (cfg side).recvCapacity)
    (hRange : ∀ side, (cfg side).recvCapacity + 2 ^ 31 ≤ 2 ^ 64) : Alive (new cfg) :=
  ⟨talking_new cfg, fun side => able_new (cfg side) (hCapacity side) (hRange side)⟩

theorem Alive.lost (h : Alive x) : Alive x.lost := ⟨h.toTalking.lost, h.able⟩

/-- Even if everything in flight is lost, the peers can still bring everything that has been
written to the other side, and the end of each stream whose writer is closed. -/
theorem run_recovers (cfg : Side → TCPConfig) (steps : List Step)
    (hCapacity : ∀ side, 0 < (cfg side).recvCapacity)
    (hRange : ∀ side, (cfg side).recvCapacity + 2 ^ 31 ≤ 2 ^ 64)
    (hOk : Run.Along step Allowed (new cfg) steps) :
    let x := (Run.run step (new cfg) steps).lost
    Run.Attains step Unaided x fun y => ∀ side,
      (y.machine side.other).delivered = (x.machine side).accepted ∧
        ((x.machine side).peer.outbound.isClosed = true →
          (y.machine side.other).peer.inbound.isClosed = true) := by
  intro x
  have hReached : Alive (Run.run step (new cfg) steps) :=
    Run.invariant (fun _ _ hOk h => h.step hOk) hOk (alive_new hCapacity hRange)
  have hAlive : Alive x := hReached.lost
  -- one direction after the other: what has been brought over stays
  have hBoth : Run.Attains step Unaided x fun y => Whole y .right ∧ Alive y ∧ Whole y .left := by
    refine ((hAlive.recovers .left).keep (fun _ _ hOk h => h.step hOk.allowed) hAlive).bind ?_
    rintro y ⟨hLeft, hAfter⟩
    exact (hAfter.recovers .right).keep
      (fun _ _ hOk h => ⟨h.1.step hOk.allowed, h.2.step h.1.toTalking hOk⟩) ⟨hAfter, hLeft⟩
  obtain ⟨later, hUnaided, hRight, -, hLeft⟩ := hBoth
  refine ⟨later, hUnaided, fun side => ?_⟩
  have hOnward := onward_run hUnaided side
  have hWhole : Whole (Run.run step x later) side := by
    cases side with
    | left => exact hLeft
    | right => exact hRight
  exact ⟨hWhole.read.trans hOnward.accepted,
    fun hClosed => hWhole.ended (hOnward.outbound.trans hClosed)⟩

theorem run_recovers_crossing :
    Run.Attains step Unaided (Run.run step (new fun _ => {}) crossing).lost fun y =>
      (y.machine .right).delivered = [1, 2, 3] ∧
        (y.machine .right).peer.inbound.isClosed = true := by
  have h := run_recovers (fun _ => {}) crossing (fun _ => by decide) (fun _ => by decide)
    (by decide +kernel)
  dsimp only at h
  generalize hx : (Run.run step (new fun _ => {}) crossing).lost = x at h ⊢
  have hWritten : (x.machine .left).accepted = [1, 2, 3] := by
    rw [← hx]
    decide +kernel
  have hClosed : (x.machine .left).peer.outbound.isClosed = true := by
    rw [← hx]
    decide +kernel
  exact h.mono fun y hy => ⟨(hy .left).1.trans hWritten, (hy .left).2 hClosed⟩

end Conversation

end Minnow
