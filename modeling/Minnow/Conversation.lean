import Minnow.ExchangeInvariant
import Minnow.Library.Network

/-! # A conversation of two peers

Every message that a peer ever sent may reach the other one, at any time and
more than once. Behind each direction stands a connection whose applications
are the ones of the two peers.
-/

namespace Minnow

open Library

/-- A peer with what its application has had accepted and what it has read. The peer looks at
neither. -/
structure Talker where
  peer : TCPPeer
  accepted : List Byte
  delivered : List Byte

namespace Talker

open TCPPeer

def new (cfg : TCPConfig) : Talker := ⟨TCPPeer.new cfg, [], []⟩

def step (self : Talker) (a : Action) : Talker where
  peer := self.peer.step a
  accepted :=
    match a with
    | .write data => self.accepted ++ data.take self.peer.outbound.availableCapacity
    | _ => self.accepted
  delivered :=
    match a with
    | .pop len => self.delivered ++ self.peer.inbound.peek.take len
    | _ => self.delivered

def machine : Machine Talker Action Unit TCPMessage where
  perform self a := (self.step a, self.peer.transmitted a)
  hear _ msg := .receive msg

/-- What has come in, read or not. -/
def received (self : Talker) : List Byte := self.delivered ++ self.peer.inbound.peek

/-- The application neither writes after close nor reports an error, and writes fewer than
`2 ^ 31 - 2` bytes; messages come from the other peer. -/
def Fair (self : Talker) : Action → Prop
  | .write data =>
    self.peer.outbound.isClosed = false ∧ (self.step (.write data)).accepted.length < 2 ^ 31 - 2
  | .receive _ | .setOutboundError | .setInboundError => False
  | _ => True

instance (self : Talker) (a : Action) : Decidable (Fair self a) :=
  match a with
  | .write _ => inferInstanceAs (Decidable (_ ∧ _))
  | .receive _ | .setOutboundError | .setInboundError => instDecidableFalse
  | .close | .push | .tick _ | .pop _ => instDecidableTrue

end Talker

abbrev Conversation := Network Side Talker TCPPeer.Action TCPMessage

namespace Conversation

abbrev Step := Network.Step Side TCPPeer.Action Unit

def new (cfg : Side → TCPConfig) : Conversation := Network.start fun side => Talker.new (cfg side)

def step : Conversation → Step → Conversation := Network.step Talker.machine

def Allowed (self : Conversation) : Step → Prop := self.Permits fun _ => Talker.Fair

instance (self : Conversation) (a : Step) : Decidable (Allowed self a) :=
  inferInstanceAs (Decidable (self.Permits (fun _ => Talker.Fair) a))

end Conversation

section Direction

variable {c : Connection} {s : TCPSender} {r : TCPReceiver} {there back : List TCPMessage}

/-- A call of the sender that the connection makes as well. -/
theorem Behind.speak (h : Behind c s r there back) {k : TCPSender.Call} (hLocal : k.Local)
    (hLive : ∀ data, k = .write data → s.finSent = false)
    (hShort : (c.sender.accept c.accepted k).length < 2 ^ 31 - 2) {out : List TCPMessage}
    (hOut : out.map TCPMessage.sender = (s.answer k).2) :
    Behind (c.callSender k) (s.call k) r (there ++ out) back := by
  have hOpen : ∀ data, k = .write data → c.sender.finSent = false := by
    intro data hEq
    rw [h.sender, TCPSender.still_of_open (hLive data hEq)]
    exact hLive data hEq
  refine h.call hLive (h.sound.callSender hLocal.harmless hOpen hShort ?_) hOut
  rw [h.sound.consistent.call_receiverAckno hLocal]
  exact h.sound.ackno_le

theorem Behind.hear (h : Behind c s r there back) {m : TCPMessage} (hMem : m ∈ back) :
    Behind (c.callSender (.receive m.receiver)) (s.receive m.receiver) r there back := by
  have hCall : Behind _ _ r (there ++ []) back :=
    h.call (k := .receive m.receiver) nofun (h.sound.deliverAck (h.acks m hMem)) rfl
  rw [List.append_nil] at hCall
  exact hCall

theorem Behind.receive (h : Behind c s r there back) {m : TCPMessage} (hMem : m ∈ there) :
    Behind { c with receiver := r.receive m.sender } s (r.receive m.sender) there back := by
  have hReceiver := h.receiver
  obtain hSegment | hHollow := h.segments m hMem
  · obtain ⟨hSound, -⟩ := h.sound.deliverSegment hSegment
    rw [hReceiver] at hSound
    exact { h with sound := hSound, receiver := rfl }
  · have hReads := h.sound.reads
    rw [hReceiver] at hReads
    rw [hReads.receive_hollow hHollow, ← hReceiver]
    exact { h with receiver := rfl }

theorem Behind.acknowledge (h : Behind c s r there back) {out : List TCPMessage}
    (hOut : ∀ m ∈ out, m.receiver = r.send) :
    Behind (c.step .acknowledge) s r there (back ++ out) := by
  refine { h with sound := h.sound.acknowledge, acks := ?_ }
  intro m hMem
  obtain hMem | hMem := List.mem_append.mp hMem
  · exact List.mem_append_left _ (h.acks m hMem)
  · apply List.mem_append_right
    rw [hOut m hMem, h.receiver]
    exact List.mem_singleton_self _

theorem Behind.pop (h : Behind c s r there back) (len : Nat) :
    Behind (c.step (.pop len)) s (r.pop len) there back := by
  refine { h with sound := h.sound.step (a := .pop len) trivial, receiver := ?_ }
  rw [Connection.step, h.receiver]

/-- Messages that occupy no sequence numbers come on top of the segments. -/
theorem Behind.hollow (h : Behind c s r there back) {out : List TCPMessage}
    (hOut : ∀ m ∈ out, m.sender.Hollow) : Behind c s r (there ++ out) back := by
  refine { h with segments := ?_ }
  intro m hMem
  obtain hMem | hMem := List.mem_append.mp hMem
  · exact h.segments m hMem
  · exact .inr (hOut m hMem)

end Direction

/-- The applications of the connection behind a direction are the two of the conversation. -/
structure Backs (c : Connection) (speaker listener : Talker) (there back : List TCPMessage) : Prop
    extends Behind c speaker.peer.sender listener.peer.receiver there back where
  accepted : c.accepted = speaker.accepted
  delivered : c.delivered = listener.delivered

def Backed (speaker listener : Talker) (there back : List TCPMessage) : Prop :=
  ∃ c, Backs c speaker listener there back

section Backed

open TCPPeer

variable {c : Connection} {speaker listener : Talker} {there back : List TCPMessage} {a : Action}

theorem Backs.call (h : Backs c speaker listener there back) {k : TCPSender.Call}
    (hLocal : k.Local) (hLive : ∀ data, k = .write data → speaker.peer.outbound.isClosed = false)
    (hShort : (speaker.step a).accepted.length < 2 ^ 31 - 2)
    (hAccepted : (speaker.step a).accepted = speaker.peer.sender.accept speaker.accepted k)
    (hSender : (speaker.peer.step a).sender = speaker.peer.sender.call k)
    (hOut : (speaker.peer.transmitted a).map TCPMessage.sender =
      (speaker.peer.sender.answer k).2) :
    Backed (speaker.step a) listener (there ++ speaker.peer.transmitted a) back := by
  have hOpen : ∀ data, k = .write data → speaker.peer.sender.finSent = false := by
    intro data hEq
    rw [← Bool.not_eq_true]
    intro hFin
    have hClosed : speaker.peer.sender.still.input.closed = true := by
      rw [← h.sender]
      apply (h.sound.streams.fin _).1
      rw [h.sender, TCPSender.still_of_fin hFin]
      exact hFin
    rw [TCPSender.still_of_fin hFin] at hClosed
    exact Bool.false_ne_true ((hLive data hEq).symm.trans hClosed)
  have hSame : c.sender.accept c.accepted k = (speaker.step a).accepted := by
    rw [hAccepted, h.accepted, h.sender]
    cases k with
    | write data => rw [TCPSender.still_of_open (hOpen data rfl)]
    | close | setError | push | tick ms | receive msg => rfl
  refine ⟨c.callSender k, ?_⟩
  constructor
  · change Behind _ (speaker.peer.step a).sender _ _ _
    rw [hSender]
    apply h.toBehind.speak hLocal hOpen _ hOut
    rw [hSame]
    exact hShort
  · exact hSame
  · exact h.delivered

theorem Backs.speak (h : Backs c speaker listener there back) (hFair : speaker.Fair a) :
    Backed (speaker.step a) listener (there ++ speaker.peer.transmitted a) back := by
  have hShort : speaker.accepted.length < 2 ^ 31 - 2 := h.accepted ▸ h.sound.short
  have hOut : ∀ msgs : List TCPSenderMessage,
      (msgs.map fun m => (⟨m, speaker.peer.receiver.send⟩ : TCPMessage)).map TCPMessage.sender =
        msgs := fun msgs => List.map_map.trans (List.map_id _)
  cases a with
  | write data => exact h.call (k := .write data) trivial (fun _ _ => hFair.1) hFair.2 rfl rfl rfl
  | close => exact h.call (k := .close) trivial nofun hShort rfl rfl rfl
  | push => exact h.call (k := .push) trivial nofun hShort rfl rfl (hOut _)
  | tick ms => exact h.call (k := .tick ms) trivial nofun hShort rfl rfl (hOut _)
  | pop len =>
    refine ⟨c, ?_, h.accepted, h.delivered⟩
    change Behind _ _ _ (there ++ []) _
    rw [List.append_nil]
    exact h.toBehind
  | receive msg | setOutboundError | setInboundError => exact hFair.elim

theorem Backs.listen (h : Backs c speaker listener there back) (hFair : listener.Fair a) :
    Backed speaker (listener.step a) there (back ++ listener.peer.transmitted a) := by
  have hAcks : ∀ msgs : List TCPSenderMessage,
      ∀ m ∈ msgs.map fun m => (⟨m, listener.peer.receiver.send⟩ : TCPMessage),
        m.receiver = listener.peer.receiver.send := by
    intro msgs m hMem
    obtain ⟨_, -, rfl⟩ := List.mem_map.mp hMem
    rfl
  cases a with
  | write data | close =>
    refine ⟨c, ?_, h.accepted, h.delivered⟩
    change Behind _ _ _ _ (back ++ [])
    rw [List.append_nil]
    exact h.toBehind
  | push | tick ms =>
    exact ⟨_, h.toBehind.acknowledge (hAcks _), h.accepted, h.delivered⟩
  | pop len =>
    refine ⟨c.step (.pop len), ?_, h.accepted, ?_⟩
    · change Behind _ _ _ _ (back ++ [])
      rw [List.append_nil]
      exact h.toBehind.pop len
    · change c.delivered ++ c.receiver.reassembler.output.peek.take len = _
      rw [h.delivered, h.receiver]
      rfl
  | receive msg | setOutboundError | setInboundError => exact hFair.elim

theorem Backs.speaker_receive (h : Backs c speaker listener there back) {msg : TCPMessage}
    (hMem : msg ∈ back) (hNeed : speaker.peer.needSend = false) :
    Backed (speaker.step (.receive msg)) listener
      (there ++ speaker.peer.transmitted (.receive msg)) back := by
  cases hActive : speaker.peer.active with
  | false =>
    have hIdle := receive_of_inactive hActive msg
    refine ⟨c, ?_, h.accepted, h.delivered⟩
    change Behind _ (speaker.peer.receive msg).1.sender _ (there ++ (speaker.peer.receive msg).2) _
    rw [hIdle, List.append_nil]
    exact h.toBehind
  | true =>
    obtain ⟨hSender, -⟩ := receive_view hActive msg
    obtain ⟨-, hOut⟩ := receive_out hActive hNeed msg
    have hHeard := h.toBehind.hear hMem
    have hShort : (c.callSender (.receive msg.receiver)).accepted.length < 2 ^ 31 - 2 :=
      h.sound.short
    have hPushed : Behind _ _ _ (there ++ (speaker.peer.sender.receive msg.receiver).push.2.map
        fun m => ⟨m, (speaker.peer.receiver.receive msg.sender).send⟩) back :=
      hHeard.speak (k := .push) trivial nofun hShort (List.map_map.trans (List.map_id _))
    refine ⟨(c.callSender (.receive msg.receiver)).callSender .push, ?_, h.accepted, h.delivered⟩
    change Behind _ (speaker.peer.receive msg).1.sender _ (there ++ (speaker.peer.receive msg).2) _
    rw [hSender, hOut, List.map_append, ← List.append_assoc]
    apply hPushed.hollow
    intro m hIn
    obtain ⟨reply, hReply, rfl⟩ := List.mem_map.mp hIn
    rw [eq_of_mem_reply hReply]
    refine ⟨rfl, ?_⟩
    have hError := hPushed.sound.clean.error
    rw [hPushed.sender, TCPSender.still_error] at hError
    exact hError

theorem Backs.listener_receive (h : Backs c speaker listener there back) {msg : TCPMessage}
    (hMem : msg ∈ there) (hNeed : listener.peer.needSend = false) :
    Backed speaker (listener.step (.receive msg)) there
      (back ++ listener.peer.transmitted (.receive msg)) := by
  cases hActive : listener.peer.active with
  | false =>
    have hIdle := receive_of_inactive hActive msg
    refine ⟨c, ?_, h.accepted, h.delivered⟩
    change Behind _ _ (listener.peer.receive msg).1.receiver _
      (back ++ (listener.peer.receive msg).2)
    rw [hIdle, List.append_nil]
    exact h.toBehind
  | true =>
    obtain ⟨-, hReceiver⟩ := receive_view hActive msg
    obtain ⟨-, hOut⟩ := receive_out hActive hNeed msg
    have hHeard := h.toBehind.receive hMem
    have hAcked : ∀ m ∈ (listener.peer.receive msg).2,
        m.receiver = (listener.peer.receiver.receive msg.sender).send := by
      intro m hIn
      rw [hOut] at hIn
      obtain ⟨_, -, rfl⟩ := List.mem_map.mp hIn
      rfl
    refine ⟨{ c with receiver := listener.peer.receiver.receive msg.sender }.step .acknowledge, ?_,
      h.accepted, h.delivered⟩
    change Behind _ _ (listener.peer.receive msg).1.receiver _
      (back ++ (listener.peer.receive msg).2)
    rw [hReceiver]
    exact hHeard.acknowledge hAcked

theorem backed_new (cfg cfg' : TCPConfig) : Backed (Talker.new cfg) (Talker.new cfg') [] [] :=
  ⟨Connection.new cfg.sendCapacity cfg'.recvCapacity cfg.isn cfg.rtTimeout.toNat,
    ⟨Connection.sound_new _ _ _ _, rfl, rfl, nofun, nofun⟩, rfl, rfl⟩

end Backed

namespace Conversation

open TCPPeer

structure Talking (x : Conversation) : Prop where
  backed : ∀ side, Backed (x.machine side) (x.machine side.other) (x.sentBy side)
    (x.sentBy side.other)
  needSend : ∀ side, (x.machine side).peer.needSend = false

theorem talking_new (cfg : Side → TCPConfig) : Talking (new cfg) where
  backed side := backed_new (cfg side) (cfg side.other)
  needSend _ := rfl

section Steps

variable {x : Conversation} {side : Side} {a : Action}

theorem Talking.backed_other (h : Talking x) (side : Side) :
    Backed (x.machine side.other) (x.machine side) (x.sentBy side.other) (x.sentBy side) := by
  have hBacked := h.backed side.other
  rw [Side.other_other] at hBacked
  exact hBacked

theorem Talking.withLog (h : Talking x) (log : List (Side × Action)) :
    Talking { x with log := log } := ⟨h.backed, h.needSend⟩

theorem Talking.turn (h : Talking x)
    (hSpeak : Backed ((x.machine side).step a) (x.machine side.other)
      (x.sentBy side ++ (x.machine side).peer.transmitted a) (x.sentBy side.other))
    (hListen : Backed (x.machine side.other) ((x.machine side).step a) (x.sentBy side.other)
      (x.sentBy side ++ (x.machine side).peer.transmitted a))
    (hNeed : ((x.machine side).peer.step a).needSend = false) :
    Talking (x.turn Talker.machine side a) := by
  have hSent : (x.turn Talker.machine side a).sentBy side =
      x.sentBy side ++ (x.machine side).peer.transmitted a := x.turn_sentBy Talker.machine side a
  have hSame : (x.turn Talker.machine side a).sentBy side.other = x.sentBy side.other :=
    x.turn_sentBy_of_ne Talker.machine side a side.other_ne
  have hMachine : (x.turn Talker.machine side a).machine side = (x.machine side).step a :=
    x.turn_machine Talker.machine side a
  have hOther : (x.turn Talker.machine side a).machine side.other = x.machine side.other :=
    x.turn_machine_of_ne Talker.machine side a side.other_ne
  constructor
  · refine Exchange.forall_side side ?_ ?_
    · rw [hMachine, hOther, hSent, hSame]
      exact hSpeak
    · rw [Side.other_other, hMachine, hOther, hSent, hSame]
      exact hListen
  · refine Exchange.forall_side side ?_ ?_
    · rw [hMachine]
      exact hNeed
    · rw [hOther]
      exact h.needSend side.other

theorem Talking.step (h : Talking x) {a : Step} (hOk : Allowed x a) : Talking (x.step a) := by
  obtain ⟨side, b, rfl, hStep⟩ | ⟨side, j, port, msg, hMem, hOther, hStep⟩ | hStep :=
    x.step_cases Talker.machine a
  · rw [Conversation.step, hStep]
    have hFair : (x.machine side).Fair b := hOk
    obtain ⟨c, hSpeak⟩ := h.backed side
    obtain ⟨c', hListen⟩ := h.backed_other side
    refine (h.turn (hSpeak.speak hFair) (hListen.listen hFair) ?_).withLog _
    have hNeed := h.needSend side
    cases b with
    | write data | close | pop len => exact hNeed
    | push | tick ms =>
      change ((x.machine side).peer.needSend && _) = false
      rw [hNeed, Bool.false_and]
    | receive msg | setOutboundError | setInboundError => exact hFair.elim
  · rw [Conversation.step, hStep]
    obtain rfl : j = side.other := by
      cases j <;> cases side <;> first | rfl | exact absurd rfl hOther
    have hSent : msg ∈ x.sentBy side.other := (x.mem_sentBy side.other).mpr hMem
    have hNeed := h.needSend side
    obtain ⟨c, hSpeak⟩ := h.backed side
    obtain ⟨c', hListen⟩ := h.backed_other side
    refine h.turn (hSpeak.speaker_receive hSent hNeed) (hListen.listener_receive hSent hNeed) ?_
    cases hActive : (x.machine side).peer.active with
    | false =>
      change ((x.machine side).peer.receive msg).1.needSend = false
      rw [receive_of_inactive hActive]
      exact hNeed
    | true => exact (receive_out hActive hNeed msg).1
  · rw [Conversation.step, hStep]
    exact h

end Steps

theorem talking_run (cfg : Side → TCPConfig) {steps : List Step}
    (hOk : Run.Along step Allowed (new cfg) steps) : Talking (Run.run step (new cfg) steps) :=
  Run.invariant (fun _ _ hOk h => h.step hOk) hOk (talking_new cfg)

end Conversation

end Minnow
