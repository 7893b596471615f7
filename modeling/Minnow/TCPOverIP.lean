import Minnow.IPv4
import Minnow.Messages

/-! # TCP segments inside IPv4 datagrams

`parse` and `serialize` of a segment, and the adapter that puts a message into
a datagram and takes it out. An address gives back the number and the port it
was built from.
-/

namespace Minnow

open Library Minnow.Parser

structure UserDatagramInfo where
  srcPort : UInt16 := 0
  dstPort : UInt16 := 0
  cksum : UInt16 := 0
deriving DecidableEq

structure TCPSegment where
  message : TCPMessage := ⟨⟨⟨0⟩, false, [], false, false⟩, ⟨none, 0, false⟩⟩
  udinfo : UserDatagramInfo := {}
deriving DecidableEq

namespace TCPSegment

def HEADER_LENGTH : UInt8 := 20

def reset (self : TCPSegment) : Bool := self.message.sender.rst || self.message.receiver.rst

def flags (self : TCPSegment) : UInt8 :=
  (if self.message.receiver.ackno.isSome then 0x10 else 0) ||| (if self.reset then 0x04 else 0) |||
    (if self.message.sender.syn then 0x02 else 0) ||| (if self.message.sender.fin then 0x01 else 0)

def serialize (self : TCPSegment) (serializer : Serializer) : Serializer :=
  serializer
  |>.integer 2 self.udinfo.srcPort.toNat
  |>.integer 2 self.udinfo.dstPort.toNat
  |>.integer 4 self.message.sender.seqno.rawValue.toNat
  |>.integer 4 (self.message.receiver.ackno.getD ⟨0⟩).rawValue.toNat
  |>.integer 1 ((HEADER_LENGTH >>> 2) <<< 4).toNat
  |>.integer 1 self.flags.toNat
  |>.integer 2 self.message.receiver.windowSize.toNat
  |>.integer 2 self.udinfo.cksum.toNat
  -- the urgent pointer
  |>.integer 2 0
  |>.append self.message.sender.payload

def computeChecksum (self : TCPSegment) (datagramLayerPseudoChecksum : Nat) : TCPSegment :=
  let zeroed := { self with udinfo.cksum := 0 }
  let s := zeroed.serialize Serializer.new
  let check := (InternetChecksum.new datagramLayerPseudoChecksum).addAll s.finish
  { zeroed with udinfo.cksum := check.value }

/-- One variable takes both sequence numbers and another both bytes: on an error the second
keeps what the first has read. -/
def parseFields (self : TCPSegment) : ParseM TCPSegment := do
  let srcPort ← integer16 self.udinfo.srcPort
  let dstPort ← integer16 self.udinfo.dstPort
  let seqno ← integer32 0
  let ackno ← integer32 seqno
  let offset ← integer8 0
  let flags ← integer8 offset
  let windowSize ← integer16 self.message.receiver.windowSize
  let cksum ← integer16 self.udinfo.cksum
  let _ ← integer16 0
  let rst := flags &&& 0x04 != 0
  let payload := self.message.sender.payload
  let sender := ⟨⟨seqno⟩, flags &&& 0x02 != 0, payload, flags &&& 0x01 != 0, rst⟩
  let receiver := ⟨if flags &&& 0x10 != 0 then some ⟨ackno⟩ else none, windowSize, rst⟩
  let self := ⟨⟨sender, receiver⟩, ⟨srcPort, dstPort, cksum⟩⟩
  let dataOffset := offset >>> 4
  if dataOffset < HEADER_LENGTH >>> 2 then do
    setError
    return self
  else do
    removePrefix (dataOffset.toNat * 4 - HEADER_LENGTH.toNat)
    return { self with message.sender.payload := ← concatenateAllRemaining }

def parse (self : TCPSegment) (datagramLayerPseudoChecksum : Nat) : ParseM TCPSegment := do
  let check := (InternetChecksum.new datagramLayerPseudoChecksum).addAll (← buffer)
  if check.value ≠ 0 then do
    setError
    return self
  else self.parseFields

end TCPSegment

structure Address where
  ipv4Numeric : UInt32
  port : UInt16
deriving DecidableEq

structure FdAdapterConfig where
  source : Address
  destination : Address
deriving DecidableEq

structure TCPOverIPv4Adapter where
  config : FdAdapterConfig
  listening : Bool
deriving DecidableEq

namespace TCPOverIPv4Adapter

def wrapTcpInIp (self : TCPOverIPv4Adapter) (msg : TCPMessage) : Option IPv4Datagram := do
  let payloadSize := msg.sender.payload.length
  let seg : TCPSegment := ⟨msg, ⟨self.config.source.port, self.config.destination.port, 0⟩⟩
  let header : IPv4Header := {
    src := self.config.source.ipv4Numeric
    dst := self.config.destination.ipv4Numeric }
  let header := { header with len := UInt16.ofNat (header.hlen.toNat * 4 + 20 + payloadSize) }
  let seg := seg.computeChecksum header.pseudoChecksum
  let header ← header.computeChecksum
  return { header, payload := (seg.serialize Serializer.new).finish }

/-- A listening adapter takes the addresses of the first SYN for its port as its own. -/
def adopt (self : TCPOverIPv4Adapter) (header : IPv4Header) (seg : TCPSegment) :
    TCPOverIPv4Adapter where
  config :=
    { source := ⟨header.dst, self.config.source.port⟩
      destination := ⟨header.src, seg.udinfo.srcPort⟩ }
  listening := false

def unwrapTcpInIp (self : TCPOverIPv4Adapter) (ipDgram : IPv4Datagram) :
    Option (TCPOverIPv4Adapter × Option TCPMessage) := do
  let header := ipDgram.header
  if ¬ self.listening ∧ header.dst ≠ self.config.source.ipv4Numeric then return (self, none)
  if ¬ self.listening ∧ header.src ≠ self.config.destination.ipv4Numeric then return (self, none)
  if header.proto ≠ IPv4Header.PROTO_TCP then return (self, none)
  match ← Minnow.parse (({} : TCPSegment).parse header.pseudoChecksum) ipDgram.payload with
  | none => return (self, none)
  | some seg =>
    if seg.udinfo.dstPort ≠ self.config.source.port then return (self, none)
    let opens := seg.message.sender.syn ∧ ¬ seg.message.sender.rst
    if self.listening ∧ ¬ opens then return (self, none)
    let self := if self.listening then self.adopt header seg else self
    if seg.udinfo.srcPort ≠ self.config.destination.port then return (self, none)
    return (self, some seg.message)

end TCPOverIPv4Adapter

end Minnow
