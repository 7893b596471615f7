import Minnow.ConversationEnd

/-! # The messages of a conversation

None of them is a reset, and none carries more than one segment may.
-/

namespace Minnow

open Library

/-- Such a message reads the same on the other side. -/
structure TCPMessage.Plain (m : TCPMessage) : Prop where
  senderRst : m.sender.rst = false
  receiverRst : m.receiver.rst = false
  payload : m.sender.payload.length ≤ maxPayloadSize

namespace TCPSender

variable {s : TCPSender}

/-- Whatever may be sent again fits into one segment. -/
def Portioned (s : TCPSender) : Prop :=
  ∀ o ∈ s.outstanding, o.msg.payload.length ≤ maxPayloadSize

theorem Portioned.push (h : Portioned s) : Portioned s.push.1 := by
  intro o hMem
  rw [s.push_stamp.2.1] at hMem
  obtain hMem | hMem := List.mem_append.mp hMem
  · exact h o hMem
  · apply s.push_payload_le
    rw [← stamp_map_msg s.nextSeqno s.push.2]
    exact List.mem_map_of_mem hMem

theorem marked_payload (s : TCPSender) (o : Outstanding) :
    (s.marked o).msg.payload = o.msg.payload := by
  rw [marked]
  split <;> rfl

theorem Portioned.tick (h : Portioned s) (ms : Nat) : Portioned (s.tick ms).1 ∧
    ∀ msg ∈ (s.tick ms).2, msg.payload.length ≤ maxPayloadSize := by
  cases hTimer : s.timerRunning with
  | false =>
    rw [tick_idle hTimer]
    exact ⟨h, fun _ hMem => absurd hMem List.not_mem_nil⟩
  | true =>
    cases hOut : s.outstanding with
    | nil =>
      rw [TCPSender.tick, hTimer, hOut]
      exact ⟨fun o hMem => absurd hMem List.not_mem_nil, fun _ hMem => absurd hMem List.not_mem_nil⟩
    | cons o rest =>
      rw [tick_eq hTimer hOut]
      split
      · have hFirst : (s.marked o).msg.payload.length ≤ maxPayloadSize := by
          rw [marked_payload]
          exact h o (hOut ▸ List.mem_cons_self)
        constructor
        · intro o' hMem
          obtain rfl | hMem := List.mem_cons.mp hMem
          · exact hFirst
          · exact h o' (hOut ▸ List.mem_cons_of_mem o hMem)
        · intro msg hMem
          rw [List.mem_singleton.mp hMem]
          exact hFirst
      · exact ⟨h, fun _ hMem => absurd hMem List.not_mem_nil⟩

theorem Portioned.receive (h : Portioned s) (msg : TCPReceiverMessage) :
    Portioned (s.receive msg) := by
  obtain ⟨-, hEq⟩ | ⟨-, -, hEq⟩ | ⟨-, -, hEq⟩ := s.receive_cases msg
  · rw [hEq]
    exact h
  · rw [hEq]
    exact h
  · rw [hEq]
    exact fun o hMem => h o ((List.dropWhile_sublist _).subset hMem)

end TCPSender

namespace TCPPeer

variable {p : TCPPeer}

structure Portioned (p : TCPPeer) : Prop where
  needSend : p.needSend = false
  sender : p.sender.Portioned

theorem portioned_new (cfg : TCPConfig) : Portioned (new cfg) where
  needSend := rfl
  sender _ hMem := absurd hMem List.not_mem_nil

theorem Portioned.sendAll (hNeed : p.needSend = false) (hSender : p.sender.Portioned)
    {msgs : List TCPSenderMessage} (hMsgs : ∀ msg ∈ msgs, msg.payload.length ≤ maxPayloadSize) :
    Portioned (p.sendAll msgs).1 ∧
      ∀ m ∈ (p.sendAll msgs).2, m.sender.payload.length ≤ maxPayloadSize := by
  refine ⟨⟨?_, hSender⟩, fun m hMem => ?_⟩
  · change (p.needSend && _) = false
    rw [hNeed, Bool.false_and]
  · obtain ⟨msg, hIn, rfl⟩ := List.mem_map.mp hMem
    exact hMsgs msg hIn

/-- What a peer transmits fits into one segment, whatever it hears. -/
theorem Portioned.step (h : Portioned p) (a : Action) : Portioned (p.step a) ∧
    ∀ m ∈ p.transmitted a, m.sender.payload.length ≤ maxPayloadSize := by
  cases a with
  | write data | close | setOutboundError | pop len | setInboundError =>
    exact ⟨⟨h.needSend, h.sender⟩, fun _ hMem => absurd hMem List.not_mem_nil⟩
  | push =>
    exact Portioned.sendAll (p := { p with sender := p.sender.push.1 }) h.needSend h.sender.push
      p.sender.push_payload_le
  | tick ms =>
    obtain ⟨hSender, hMsgs⟩ := h.sender.tick ms
    exact Portioned.sendAll (p := { p with
      cumulativeTime := u64 (p.cumulativeTime + ms)
      sender := (p.sender.tick ms).1 }) h.needSend hSender hMsgs
  | receive msg =>
    change Portioned (p.receive msg).1 ∧ ∀ m ∈ (p.receive msg).2, _
    cases hActive : p.active with
    | false =>
      rw [receive_of_inactive hActive]
      exact ⟨h, nofun⟩
    | true =>
      obtain ⟨hNeed, hOut⟩ := receive_out hActive h.needSend msg
      refine ⟨⟨hNeed, ?_⟩, fun m hMem => ?_⟩
      · rw [(receive_view hActive msg).1]
        exact (h.sender.receive msg.receiver).push
      · rw [hOut] at hMem
        obtain ⟨msg', hIn, rfl⟩ := List.mem_map.mp hMem
        obtain hIn | hIn := List.mem_append.mp hIn
        · exact (p.sender.receive msg.receiver).push_payload_le msg' hIn
        · rw [eq_of_mem_reply hIn]
          exact Nat.zero_le _

end TCPPeer

namespace Conversation

variable {x : Conversation}

theorem Talking.not_reset (h : Talking x) {side : Side} {m : TCPMessage}
    (hMem : m ∈ x.sentBy side) : m.sender.rst = false ∧ m.receiver.rst = false := by
  obtain ⟨c, hOut⟩ := h.backed side
  obtain ⟨c', hIn⟩ := h.backed_other side
  constructor
  · obtain hSegment | hHollow := hOut.segments m hMem
    · exact (hOut.sound.segments m.sender hSegment).1
    · exact hHollow.2
  · exact (hIn.sound.acks m.receiver (hIn.acks m hMem)).1

end Conversation

namespace Call

open Network

/-- The callers and their messages, by the size of what they send. -/
abbrev Sized : Call → Prop :=
  Sound (fun _ _ s => TCPPeer.Portioned s.peer) fun _ _ m =>
    m.sender.payload.length ≤ maxPayloadSize

theorem sized_guarantees : Guarantees Caller.machine (fun (_ : Side) => Caller.Fair)
    (fun _ _ s => TCPPeer.Portioned s.peer) fun _ _ m =>
      m.sender.payload.length ≤ maxPayloadSize where
  grow _ _ _ _ h := h
  grow_sent _ _ _ _ h := h
  act _ _ _ a _ h := by
    cases a with
    | talk a => exact h.step a
    | tell => exact ⟨h, nofun⟩
  hear _ _ _ _ _ msg _ h _ := h.step (.receive msg)

/-- What holds of a call whenever it is looked at. -/
structure Going (x : Call) : Prop where
  calling : Calling x
  sized : Sized x

theorem invariant_going : Invariant Caller.machine (fun _ => Caller.Fair) Going where
  step x a hOk h := ⟨invariant_calling.step x a hOk h.calling, sized_guarantees.step hOk h.sized⟩
  log x log h := ⟨invariant_calling.log x log h.calling, h.sized.machine, h.sized.sent⟩

theorem going_new (cfg : Side → TCPConfig) : Going (start fun side => Caller.new (cfg side)) where
  calling :=
    ⟨Conversation.new cfg, shows_start Caller.toTalker Eq _, Conversation.talking_new cfg, nofun⟩
  sized := ⟨fun side => TCPPeer.portioned_new (cfg side), nofun⟩

theorem Going.plain {x : Call} (h : Going x) : ∀ e ∈ x.sent, e.2.Plain := by
  intro e hMem
  obtain ⟨y, hShows, hTalking, -⟩ := h.calling
  obtain ⟨_, rfl, hIn⟩ := hShows.sent e hMem
  obtain ⟨hSender, hReceiver⟩ := hTalking.not_reset ((y.mem_sentBy e.1).mpr hIn)
  exact ⟨hSender, hReceiver, h.sized.sent e hMem⟩

end Call

end Minnow
