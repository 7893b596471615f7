import Minnow.TCPReceiver
import Minnow.TCPSender

/-! # The peer

A sender and a receiver in one object, with the clock that `active` reads.
Every method returns the messages it hands to its transmit callback.
-/

namespace Minnow

structure TCPConfig where
  rtTimeout : UInt16 := 1000
  recvCapacity : Nat := 64000
  sendCapacity : Nat := 64000
  isn : Wrap32 := ⟨137⟩
deriving DecidableEq

structure TCPPeer where
  cfg : TCPConfig
  sender : TCPSender
  receiver : TCPReceiver
  needSend : Bool
  lingerAfterStreamsFinish : Bool
  cumulativeTime : Nat
  timeOfLastReceipt : Nat

namespace TCPPeer

def new (cfg : TCPConfig) : TCPPeer where
  cfg := cfg
  sender := TCPSender.new (ByteStream.new cfg.sendCapacity) cfg.isn cfg.rtTimeout.toNat
  receiver := TCPReceiver.withCapacity cfg.recvCapacity
  needSend := false
  lingerAfterStreamsFinish := true
  cumulativeTime := 0
  timeOfLastReceipt := 0

/-- The outbound stream, seen by its writer and its reader. -/
def outbound (self : TCPPeer) : ByteStream := self.sender.input

def inbound (self : TCPPeer) : ByteStream := self.receiver.reassembler.output

def anyErrors (self : TCPPeer) : Bool := self.inbound.hasError || self.outbound.hasError

def senderActive (self : TCPPeer) : Bool :=
  self.sender.sequenceNumbersInFlight != 0 || !self.outbound.isFinished

def receiverActive (self : TCPPeer) : Bool := !self.inbound.isClosed

def lingering (self : TCPPeer) : Bool :=
  self.lingerAfterStreamsFinish &&
    decide (self.cumulativeTime < u64 (self.timeOfLastReceipt + 10 * self.cfg.rtTimeout.toNat))

def active (self : TCPPeer) : Bool :=
  !self.anyErrors && (self.senderActive || self.receiverActive || self.lingering)

/-- `send`, for messages of the sender in the order in which it hands them out. -/
def sendAll (self : TCPPeer) (msgs : List TCPSenderMessage) : TCPPeer × List TCPMessage :=
  ({ self with needSend := self.needSend && msgs.isEmpty },
    msgs.map fun m => ⟨m, self.receiver.send⟩)

def push (self : TCPPeer) : TCPPeer × List TCPMessage :=
  let sent := self.sender.push
  { self with sender := sent.1 }.sendAll sent.2

def tick (self : TCPPeer) (t : Nat) : TCPPeer × List TCPMessage :=
  let sent := self.sender.tick t
  { self with cumulativeTime := u64 (self.cumulativeTime + t), sender := sent.1 }.sendAll sent.2

/-- A segment occupies sequence numbers, or is a keep-alive one below the ackno. -/
def owesReply (self : TCPPeer) (msg : TCPMessage) : Bool :=
  decide (0 < msg.sender.sequenceLength) ||
    self.receiver.send.ackno.any fun ourAckno => msg.sender.seqno.rawValue + 1 == ourAckno.rawValue

/-- `receive` up to `push`. -/
def accept (self : TCPPeer) (msg : TCPMessage) : TCPPeer :=
  { self with
    timeOfLastReceipt := self.cumulativeTime
    needSend := self.needSend || self.owesReply msg
    receiver := self.receiver.receive msg.sender
    sender := self.sender.receive msg.receiver }

def replyIfNeeded (self : TCPPeer) : TCPPeer × List TCPMessage :=
  if self.needSend then self.sendAll [self.sender.makeEmptyMessage] else (self, [])

/-- The inbound stream finished before the outbound one. -/
def endLinger (self : TCPPeer) : TCPPeer :=
  if self.inbound.isClosed && !self.outbound.isFinished then
    { self with lingerAfterStreamsFinish := false }
  else self

def receive (self : TCPPeer) (msg : TCPMessage) : TCPPeer × List TCPMessage :=
  if self.active then
    let pushed := (self.accept msg).push
    let replied := pushed.1.replyIfNeeded
    (replied.1.endLinger, pushed.2 ++ replied.2)
  else (self, [])

inductive Action where
  | write (data : List Byte)
  | close
  | setOutboundError
  | push
  | tick (ms : Nat)
  | receive (msg : TCPMessage)
  | pop (len : Nat)
  | setInboundError
deriving DecidableEq

def perform (self : TCPPeer) : Action → TCPPeer × List TCPMessage
  | .write data => ({ self with sender.input := self.outbound.push data }, [])
  | .close => ({ self with sender.input := self.outbound.close }, [])
  | .setOutboundError => ({ self with sender.input := self.outbound.setError }, [])
  | .push => self.push
  | .tick ms => self.tick ms
  | .receive msg => self.receive msg
  | .pop len => ({ self with receiver := self.receiver.pop len }, [])
  | .setInboundError =>
    ({ self with receiver.reassembler.output := self.inbound.setError }, [])

def step (self : TCPPeer) (a : Action) : TCPPeer := (self.perform a).1

def transmitted (self : TCPPeer) (a : Action) : List TCPMessage := (self.perform a).2

end TCPPeer

end Minnow
