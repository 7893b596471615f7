import Minnow.ConnectionProgress
import Minnow.ConversationEnd
import Minnow.SenderPace

/-! # What the peers of a conversation can still do

Their timers can expire, their receivers have room once everything has been
read, and a segment is answered. Applications that only read leave everything
else as it is.
-/

namespace Minnow

open Library

namespace Connection

variable {isn : Wrap32} {c : Connection}

theorem Sound.received_of_nothingLeft (h : Sound isn c) (hLeft : c.sender.NothingLeft) :
    c.received = c.accepted ∧
      (c.sender.input.closed = true → c.receiver.reassembler.output.closed = true) := by
  obtain ⟨hOut, hBuffer, hEnd⟩ := hLeft
  have hNext : c.sender.nextSeqno ≤ c.receiver.absAckno :=
    (h.consistent.empty hOut).symm.trans_le h.ackno_le
  constructor
  · refine h.received_isPrefix.eq_of_length_le ?_
    have hPopped := c.sender.input.pushed_eq
    have hUsed := h.streams.next
    rw [ByteStream.peek] at hBuffer
    rw [hBuffer, List.length_nil, h.streams.pushed] at hPopped
    rw [h.received_length]
    cases hIsn : c.receiver.isn.isSome with
    | false =>
      rw [TCPReceiver.absAckno, hIsn, if_neg Bool.false_ne_true] at hNext
      omega
    | true =>
      have hHeard := h.heard (h.reads.isn_eq.resolve_left (Option.isSome_iff_ne_none.mp hIsn))
      cases hClosed : c.receiver.reassembler.output.closed with
      | true =>
        rw [← h.received_length, (h.received_of_closed hClosed).2]
      | false =>
        rw [TCPReceiver.absAckno, hIsn, if_pos rfl, TCPReceiver.ackAbs_eq, hClosed,
          Bool.toNat_false] at hNext
        rw [hHeard, Bool.toNat_true] at hUsed
        change _ ≤ c.receiver.reassembler.output.totalPushed
        omega
  · intro hClosed
    have hFlight := h.consistent.bytesInFlight_eq_zero.mpr hOut
    exact (h.complete (hEnd hClosed).1 hFlight).1

end Connection

namespace TCPSender

@[simp] theorem still_outstanding (s : TCPSender) : s.still.outstanding = s.outstanding := by
  rw [still]
  split <;> rfl

end TCPSender

section Direction

open TCPSender

variable {c : Connection} {speaker listener : Talker} {there back : List TCPMessage}

/-- `push` finds nothing to send and nothing is unanswered. -/
theorem Backs.finished (h : Backs c speaker listener there back)
    (hPush : speaker.peer.sender.push.1.outstanding = []) :
    listener.received = speaker.accepted ∧
      (speaker.peer.outbound.isClosed = true → listener.peer.inbound.isClosed = true) := by
  have hStill : c.sender.push.1 = speaker.peer.sender.push.1.still := by
    rw [h.sender]
    exact congrArg Prod.fst (h.toBehind.still_answer (k := .push) nofun)
  have hNone : c.sender.push.1.outstanding = [] := by
    rw [hStill, still_outstanding]
    exact hPush
  obtain ⟨hAll, hEnd⟩ := h.sound.received_of_nothingLeft
    (h.sound.consistent.nothingLeft_of_push h.sound.streams hNone)
  rw [h.received, h.accepted] at hAll
  rw [h.receiver, h.sender, still_closed] at hEnd
  exact ⟨hAll, hEnd⟩

theorem Backs.sequenceLength_pos (h : Backs c speaker listener there back) {o : Outstanding}
    (hMem : o ∈ speaker.peer.sender.outstanding) : 0 < o.msg.sequenceLength := by
  have hOut : o ∈ c.sender.outstanding := by
    rw [h.sender, still_outstanding]
    exact hMem
  obtain ⟨lo, -, hTiles⟩ := h.sound.consistent.tiles
  rw [← (h.sound.streams.filed o hOut).2]
  exact hTiles.len_pos hOut

/-- The oldest segment is what the receiver needs next, if it has room for it. -/
theorem Backs.overtakes (h : Backs c speaker listener there back) {o : Outstanding}
    (hHead : o ∈ speaker.peer.sender.outstanding.head?)
    (hEmpty : listener.peer.inbound.buffer = []) (hCapacity : 0 < listener.peer.inbound.capacity)
    (hRange : listener.peer.inbound.capacity + 2 ^ 31 ≤ 2 ^ 64) :
    speaker.peer.sender.receiverAckno < (listener.peer.receiver.receive o.msg).absAckno := by
  have hOldest : o ∈ c.sender.outstanding.head? := by
    rw [h.sender, still_outstanding]
    exact hHead
  have hUsed : c.sender.receiverAckno < c.sender.nextSeqno := by
    obtain ⟨lo, -, hTiles⟩ := h.sound.consistent.tiles
    exact (h.sound.consistent.head o hOldest).trans_le
      (hTiles.bounds (List.mem_of_mem_head? hOldest)).2
  have hOutput : c.receiver.reassembler.output = listener.peer.inbound := by
    rw [h.receiver]
    rfl
  rw [← hOutput] at hEmpty hCapacity hRange
  have hPopped := h.sound.reads.assembles.popped_le.trans h.sound.reads.assembles.bound
  have hSent := h.sound.sent_short
  have hAdvance := h.sound.deliver_oldest hOldest
    (h.sound.room h.sound (Std.Refl.refl c) hEmpty hCapacity (by omega) hUsed)
  rw [h.sender, h.receiver, still_receiverAckno] at hAdvance
  exact hAdvance

theorem Backs.acknowledged (h : Backs c speaker listener there back)
    (hAhead : speaker.peer.sender.receiverAckno < listener.peer.receiver.absAckno) :
    (speaker.peer.sender.receive listener.peer.receiver.send).receiverAckno =
      listener.peer.receiver.absAckno := by
  have hAnswer := h.toBehind.still_answer (k := .receive listener.peer.receiver.send) nofun
  have hStill : speaker.peer.sender.still.receive listener.peer.receiver.send =
      (speaker.peer.sender.receive listener.peer.receiver.send).still := congrArg Prod.fst hAnswer
  have hAdvanced := h.sound.acknowledged
  rw [h.sender, h.receiver, hStill, still_receiverAckno, still_receiverAckno] at hAdvanced
  exact hAdvanced hAhead

end Direction

namespace Talker

open TCPPeer

variable {t : Talker} {a : Action}

/-- The application neither writes nor closes. -/
def Silent : Action → Prop
  | .push | .tick _ | .pop _ => True
  | _ => False

instance (a : Action) : Decidable (Silent a) :=
  match a with
  | .push | .tick _ | .pop _ => instDecidableTrue
  | .write _ | .close | .setOutboundError | .receive _ | .setInboundError => instDecidableFalse

theorem Silent.fair (h : Silent a) : t.Fair a := by
  cases a with
  | push | tick ms | pop len => trivial
  | write data | close | setOutboundError | receive msg | setInboundError => exact h.elim

/-- The timer can always expire, and what arrives in order can always be stored once the reader
has read everything. -/
structure Able (t : Talker) : Prop where
  paced : t.peer.sender.Paced
  capacity : 0 < t.peer.inbound.capacity
  range : t.peer.inbound.capacity + 2 ^ 31 ≤ 2 ^ 64

theorem capacity_step (t : Talker) (a : Action) :
    (t.step a).peer.inbound.capacity = t.peer.inbound.capacity := by
  cases a with
  | receive msg =>
    change (t.peer.receive msg).1.inbound.capacity = _
    cases hActive : t.peer.active with
    | false => rw [receive_of_inactive hActive]
    | true =>
      rw [inbound, (receive_view hActive msg).2]
      exact t.peer.receiver.receive_capacity msg.sender
  | write data | close | setOutboundError | push | tick ms | pop len | setInboundError => rfl

theorem Able.step (h : Able t) (a : Action) : Able (t.step a) := by
  refine ⟨paced_step h.paced a, ?_, ?_⟩
  · rw [t.capacity_step]
    exact h.capacity
  · rw [t.capacity_step]
    exact h.range

theorem able_new (cfg : TCPConfig) (hCapacity : 0 < cfg.recvCapacity)
    (hRange : cfg.recvCapacity + 2 ^ 31 ≤ 2 ^ 64) : Able (new cfg) := by
  refine ⟨TCPSender.paced_new _ _ ?_, hCapacity, hRange⟩
  exact cfg.rtTimeout.toNat_lt.trans (by decide)

/-- Where a talker may be after its application has only read. -/
structure Onward (t t' : Talker) : Prop where
  accepted : t'.accepted = t.accepted
  outbound : t'.peer.outbound.isClosed = t.peer.outbound.isClosed
  delivered : t.delivered <+: t'.delivered
  inbound : t.peer.inbound.isClosed = true → t'.peer.inbound.isClosed = true

theorem Onward.refl (t : Talker) : Onward t t := ⟨rfl, rfl, List.prefix_rfl, id⟩

theorem Onward.step {t' : Talker} (h : Onward t t')
    (hSilent : Silent a ∨ ∃ msg, a = .receive msg) : Onward t (t'.step a) := by
  have hSame : (t'.step a).peer.outbound.isClosed = t'.peer.outbound.isClosed := by
    refine (t'.peer.closed_step a).resolve_right ?_
    rintro rfl
    obtain hNot | ⟨_, hEq⟩ := hSilent
    · exact hNot
    · cases hEq
  refine ⟨?_, hSame.trans h.outbound, h.delivered.trans (delivered_step a),
    fun hClosed => closed_step (h.inbound hClosed) a⟩
  obtain hSilent | ⟨msg, rfl⟩ := hSilent
  · rw [← h.accepted]
    cases a with
    | push | tick ms | pop len => rfl
    | write data | close | setOutboundError | receive msg | setInboundError => exact hSilent.elim
  · exact h.accepted

end Talker

namespace Conversation

open TCPPeer Talker

/-- Everything in flight is lost. -/
def lost (self : Conversation) : Conversation := { self with sent := [] }

/-- Neither application writes or closes. -/
def Unaided (self : Conversation) : Step → Prop := self.Permits fun _ _ => Silent

instance (self : Conversation) (a : Step) : Decidable (Unaided self a) :=
  inferInstanceAs (Decidable (self.Permits (fun _ _ => Silent) a))

structure Alive (x : Conversation) : Prop extends Talking x where
  able : ∀ side, Able (x.machine side)

variable {x : Conversation} {side : Side} {a : Step}

theorem Unaided.allowed (h : Unaided x a) : Allowed x a := by
  cases a with
  | act side b => exact Silent.fair h
  | deliver side port k => trivial

theorem Alive.step (h : Alive x) (hOk : Allowed x a) : Alive (x.step a) := by
  refine ⟨h.toTalking.step hOk, Network.kept_step (K := fun _ _ _ => True)
    (fun _ _ a _ h => h.step a) ?_ h.able⟩
  cases a with
  | act side b => trivial
  | deliver side port k => exact fun _ _ => trivial

theorem onward_run {steps : List Step}
    (hUnaided : Run.Along Conversation.step Unaided x steps) :
    ∀ side, Onward (x.machine side) ((Run.run Conversation.step x steps).machine side) := by
  have hMeets : Run.Along Conversation.step
      (fun y => y.Meets Talker.machine fun _ _ a => Silent a ∨ ∃ msg, a = .receive msg)
      x steps := by
    refine hUnaided.imp fun y a h => ?_
    cases a with
    | act side b => exact .inl h
    | deliver side port k => exact fun e _ => .inr ⟨e.2, rfl⟩
  exact Network.kept_run (J := fun side => Onward (x.machine side))
    (fun _ _ _ hSilent h => h.step hSilent) hMeets fun side => .refl _

theorem Talking.lost (h : Talking x) : Talking x.lost := by
  refine ⟨fun side => ?_, h.needSend⟩
  obtain ⟨c, hBacks⟩ := h.backed side
  exact ⟨c, { hBacks with
    segments := fun _ hMem => absurd hMem List.not_mem_nil
    acks := fun _ hMem => absurd hMem List.not_mem_nil }⟩

theorem step_act (x : Conversation) (side : Side) (a : Action) :
    (x.step (.act side a)).machine side = (x.machine side).step a ∧
      (x.step (.act side a)).machine side.other = x.machine side.other ∧
      (x.step (.act side a)).sent =
        x.sent ++ ((x.machine side).peer.transmitted a).map fun m => (side, m) :=
  ⟨x.turn_machine Talker.machine side a,
    x.turn_machine_of_ne Talker.machine side a side.other_ne, rfl⟩

section Deliver

variable {k : Nat} {m : TCPMessage}

theorem step_deliver (hGet : x.sent[k]? = some (side.other, m)) :
    x.step (.deliver side () k) = x.turn Talker.machine side (.receive m) :=
  Network.step_deliver Talker.machine x hGet side.other_ne

/-- A segment is answered by a message that says how far the receiver is. -/
theorem Talking.reply (h : Talking x) (hGet : x.sent[k]? = some (side.other, m))
    (hActive : (x.machine side).peer.active = true) (hLength : 0 < m.sender.sequenceLength) :
    ((x.step (.deliver side () k)).machine side).peer.receiver =
        (x.machine side).peer.receiver.receive m.sender ∧
      (x.step (.deliver side () k)).machine side.other = x.machine side.other ∧
      ∃ m', (x.step (.deliver side () k)).sent[x.sent.length]? = some (side, m') ∧
        m'.receiver = ((x.machine side).peer.receiver.receive m.sender).send := by
  have hHere : (x.turn Talker.machine side (.receive m)).machine side =
      (x.machine side).step (.receive m) := x.turn_machine Talker.machine side (.receive m)
  have hThere := x.turn_machine_of_ne Talker.machine side (.receive m) side.other_ne
  have hOut := (receive_out hActive (h.needSend side) m).2
  have hOwes : (x.machine side).peer.owesReply m = true := by
    rw [owesReply, decide_eq_true hLength, Bool.true_or]
  rw [step_deliver hGet]
  refine ⟨?_, hThere, ?_⟩
  · rw [hHere]
    exact (receive_view hActive m).2
  · rw [Network.turn_sent]
    change ∃ m', (x.sent ++ ((x.machine side).peer.receive m).2.map _)[_]? = _ ∧ _
    rw [hOut]
    cases hFirst : ((x.machine side).peer.sender.receive m.receiver).push.2 ++
        (x.machine side).peer.reply m with
    | nil =>
      obtain ⟨hPush, hReply⟩ := List.append_eq_nil_iff.mp hFirst
      rw [TCPPeer.reply, if_pos ⟨hPush, hOwes⟩] at hReply
      exact absurd hReply (List.cons_ne_nil _ _)
    | cons first rest =>
      rw [List.getElem?_append_right le_rfl, Nat.sub_self]
      exact ⟨_, rfl, rfl⟩

theorem hear_receiverAckno (hGet : x.sent[k]? = some (side.other, m))
    (hActive : (x.machine side).peer.active = true) :
    ((x.step (.deliver side () k)).machine side).peer.sender.receiverAckno =
      ((x.machine side).peer.sender.receive m.receiver).receiverAckno := by
  have hHere : (x.turn Talker.machine side (.receive m)).machine side =
      (x.machine side).step (.receive m) := x.turn_machine Talker.machine side (.receive m)
  rw [step_deliver hGet, hHere]
  change ((x.machine side).peer.receive m).1.sender.receiverAckno = _
  rw [(receive_view hActive m).1]
  exact (TCPSender.push_untouched _).receiverAckno

end Deliver

end Conversation

end Minnow
