import Minnow.Library.Run
import Minnow.SenderStream
import Minnow.TCPReceiver

/-! # A sender and a receiver over a lossy network

Every segment ever transmitted and every message the receiver ever returned
stays in flight: a delivery picks any of them, so messages may be lost, delayed,
duplicated and reordered. `accepted` and `delivered` are what the two
applications have seen; neither party reads them.
-/

namespace Minnow

structure Connection where
  sender : TCPSender
  receiver : TCPReceiver
  segments : List TCPSenderMessage
  acks : List TCPReceiverMessage
  accepted : List Byte
  delivered : List Byte

namespace Connection

def new (sendCapacity receiveCapacity : Nat) (isn : Wrap32) (initialRTOms : Nat) : Connection where
  sender := TCPSender.new (ByteStream.new sendCapacity) isn initialRTOms
  receiver := TCPReceiver.withCapacity receiveCapacity
  segments := []
  acks := []
  accepted := []
  delivered := []

def callSender (self : Connection) (c : TCPSender.Call) : Connection :=
  { self with
    sender := self.sender.call c
    segments := self.segments ++ (self.sender.answer c).2
    accepted := self.sender.accept self.accepted c }

inductive Step where
  | write (data : List Byte)
  | close
  | push
  | tick (ms : Nat)
  | pop (len : Nat)
  | deliverSegment (i : Nat)
  | acknowledge
  | deliverAck (i : Nat)
deriving DecidableEq

def step (self : Connection) : Step → Connection
  | .write data => self.callSender (.write data)
  | .close => self.callSender .close
  | .push => self.callSender .push
  | .tick ms => self.callSender (.tick ms)
  | .pop len =>
    { self with
      receiver := self.receiver.pop len
      delivered := self.delivered ++ self.receiver.reassembler.output.peek.take len }
  | .deliverSegment i =>
    match self.segments[i]? with
    | some message => { self with receiver := self.receiver.receive message }
    | none => self
  | .acknowledge => { self with acks := self.acks ++ [self.receiver.send] }
  | .deliverAck i =>
    match self.acks[i]? with
    | some msg => self.callSender (.receive msg)
    | none => self

theorem step_deliverSegment {c : Connection} {i : Nat} {m : TCPSenderMessage}
    (h : c.segments[i]? = some m) :
    c.step (.deliverSegment i) = { c with receiver := c.receiver.receive m } := by
  rw [step, h]

theorem step_deliverAck {c : Connection} {i : Nat} {msg : TCPReceiverMessage}
    (h : c.acks[i]? = some msg) : c.step (.deliverAck i) = c.callSender (.receive msg) := by
  rw [step, h]

/-- No write after close, and fewer than `2 ^ 31 - 2` bytes accepted in total. -/
def Allowed (self : Connection) : Step → Prop
  | .write data => self.sender.input.isClosed = false ∧
      (self.sender.accept self.accepted (.write data)).length < 2 ^ 31 - 2
  | _ => True

instance (self : Connection) (a : Step) : Decidable (Allowed self a) :=
  match a with
  | .write _ => inferInstanceAs (Decidable (_ ∧ _))
  | .close | .push | .tick _ | .pop _ | .deliverSegment _ | .acknowledge | .deliverAck _ =>
    instDecidableTrue

def received (self : Connection) : List Byte :=
  self.delivered ++ self.receiver.reassembler.output.peek

end Connection

end Minnow
