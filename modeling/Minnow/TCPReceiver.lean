import Minnow.Messages
import Minnow.Reassembler

/-! # The receiver -/

namespace Minnow

structure TCPReceiver where
  reassembler : Reassembler
  isn : Option Wrap32

namespace TCPReceiver

def new (reassembler : Reassembler) : TCPReceiver := ⟨reassembler, none⟩

def streamIndex (self : TCPReceiver) (isn : Wrap32) (message : TCPSenderMessage) : Nat :=
  let absSeqno := message.seqno.unwrap isn (self.reassembler.output.bytesPushed + 1)
  -- `abs_seqno - 1` in 64 bits
  let streamIndex := u64 (absSeqno + (2 ^ 64 - 1))
  if message.syn && streamIndex == 2 ^ 64 - 1 then 0 else streamIndex

/-- `isn_` after a segment: the first SYN sets it. -/
def isnAfter (self : TCPReceiver) (message : TCPSenderMessage) : Option Wrap32 :=
  if message.syn && self.isn.isNone then some message.seqno else self.isn

def receive (self : TCPReceiver) (message : TCPSenderMessage) : TCPReceiver :=
  if message.rst then
    { self with
      reassembler := { self.reassembler with output := self.reassembler.output.setError } }
  else
    match self.isnAfter message with
    | none => self
    | some isn =>
      { isn := some isn
        reassembler := self.reassembler.insert (self.streamIndex isn message) message.payload
          message.fin }

def ackAbs (self : TCPReceiver) : Nat :=
  let writer := self.reassembler.output
  if writer.isClosed then writer.bytesPushed + 1 + 1 else writer.bytesPushed + 1

def windowSize (self : TCPReceiver) : UInt16 :=
  UInt16.ofNat (min 65535 self.reassembler.output.availableCapacity)

def send (self : TCPReceiver) : TCPReceiverMessage :=
  if self.reassembler.output.hasError then { ackno := none, windowSize := 0, rst := true }
  else
    match self.isn with
    | none => { ackno := none, windowSize := self.windowSize, rst := false }
    | some isn =>
      { ackno := some (Wrap32.wrap self.ackAbs isn), windowSize := self.windowSize, rst := false }

def pop (self : TCPReceiver) (len : Nat) : TCPReceiver :=
  { self with reassembler := self.reassembler.pop len }

inductive Call where
  | receive (message : TCPSenderMessage)
  | pop (len : Nat)
deriving DecidableEq

def call (self : TCPReceiver) : Call → TCPReceiver
  | .receive message => self.receive message
  | .pop len => self.pop len

def withCapacity (capacity : Nat) : TCPReceiver :=
  new (Reassembler.new (ByteStream.new capacity))

end TCPReceiver

end Minnow
