import Minnow.Ethernet
import Minnow.WrappingIntegers

/-! # The network interface

A method leaves a new state and the frames it has transmitted, also where it
throws: `serialize` refuses a datagram of another version than 4, and what has
been done before it gets there stays done. The order in which `tick` meets the
addresses is the order of the entries; the source leaves it open.
-/

namespace Minnow

abbrev Table (β : Type) := AList fun _ : UInt32 => β

abbrev InternetDatagram := IPv4Datagram

structure ARPEntry where
  mac : EthernetAddress
  ttlMs : Nat
deriving DecidableEq

structure NetworkInterface where
  hwAddress : EthernetAddress
  ipAddress : UInt32
  datagramsIn : List InternetDatagram
  arpCache : Table ARPEntry
  arpTimer : Table Nat
  pending : Table (List InternetDatagram)
deriving DecidableEq

namespace NetworkInterface

/-- What a method has done when it returns, or when an exception leaves it. -/
structure Outcome where
  interface : NetworkInterface
  frames : List EthernetFrame
  thrown : Bool
deriving DecidableEq

def ARP_TTL_MS : Nat := 30000

def ARP_RETRY_MS : Nat := 5000

def new (hwAddress : EthernetAddress) (ipAddress : UInt32) : NetworkInterface where
  hwAddress := hwAddress
  ipAddress := ipAddress
  datagramsIn := []
  arpCache := ∅
  arpTimer := ∅
  pending := ∅

def arpRequest (self : NetworkInterface) (ip : UInt32) : ARPMessage where
  opcode := ARPMessage.OPCODE_REQUEST
  senderIpAddress := self.ipAddress
  senderEthernetAddress := self.hwAddress
  targetIpAddress := ip

def arpReply (self : NetworkInterface) (arp : ARPMessage) : ARPMessage where
  opcode := ARPMessage.OPCODE_REPLY
  senderIpAddress := self.ipAddress
  senderEthernetAddress := self.hwAddress
  targetIpAddress := arp.senderIpAddress
  targetEthernetAddress := arp.senderEthernetAddress

/-- `none` is the exception of `serialize`. -/
def datagramFrame (self : NetworkInterface) (mac : EthernetAddress) (dgram : InternetDatagram) :
    Option EthernetFrame := do
  return ⟨⟨mac, self.hwAddress, EthernetHeader.TYPE_IPv4⟩, ← serialize dgram.serialize⟩

/-- Both messages of an interface are supported; the exception of `serialize` does not occur. -/
def arpFrame (self : NetworkInterface) (dst : EthernetAddress) (msg : ARPMessage) :
    EthernetFrame where
  header := ⟨dst, self.hwAddress, EthernetHeader.TYPE_ARP⟩
  payload := (serialize msg.serialize).getD []

def sendArp (self : NetworkInterface) (ip : UInt32) : EthernetFrame :=
  self.arpFrame ETHERNET_BROADCAST (self.arpRequest ip)

def sendDatagram (self : NetworkInterface) (dgram : InternetDatagram) (nextHop : UInt32) :
    Outcome :=
  match self.arpCache.lookup nextHop with
  | some entry =>
    match self.datagramFrame entry.mac dgram with
    | some frame => ⟨self, [frame], false⟩
    | none => ⟨self, [], true⟩
  | none =>
    let queued := (self.pending.lookup nextHop).getD []
    let self := { self with pending := self.pending.insert nextHop (queued ++ [dgram]) }
    if (self.arpTimer.lookup nextHop).all (ARP_RETRY_MS ≤ ·) then
      ⟨{ self with arpTimer := self.arpTimer.insert nextHop 0 }, [self.sendArp nextHop], false⟩
    else ⟨self, [], false⟩

/-- The loop over a queue: the frames transmitted, and whether `serialize` has thrown. -/
def flush (self : NetworkInterface) (mac : EthernetAddress) :
    List InternetDatagram → List EthernetFrame × Bool
  | [] => ([], false)
  | dgram :: queue =>
    match self.datagramFrame mac dgram with
    | some frame => (frame :: (self.flush mac queue).1, (self.flush mac queue).2)
    | none => ([], true)

/-- `recv_frame` once the ARP message has been parsed. -/
def recvArp (self : NetworkInterface) (arp : ARPMessage) : Outcome :=
  let senderIp := arp.senderIpAddress
  let senderMac := arp.senderEthernetAddress
  let self := { self with
    arpCache := self.arpCache.insert senderIp ⟨senderMac, ARP_TTL_MS⟩
    arpTimer := self.arpTimer.erase senderIp }
  let flushed := self.flush senderMac ((self.pending.lookup senderIp).getD [])
  -- an exception leaves the queue as it was, what has been sent included
  if flushed.2 then ⟨self, flushed.1, true⟩
  else
    let reply :=
      if arp.opcode = ARPMessage.OPCODE_REQUEST ∧ arp.targetIpAddress = self.ipAddress then
        [self.arpFrame senderMac (self.arpReply arp)]
      else []
    ⟨{ self with pending := self.pending.erase senderIp }, flushed.1 ++ reply, false⟩

/-- An exception of `parse` leaves `recv_frame` before anything has changed. -/
def recvFrame (self : NetworkInterface) (frame : EthernetFrame) : Option Outcome := do
  if frame.header.dst ≠ self.hwAddress ∧ frame.header.dst ≠ ETHERNET_BROADCAST then
    return ⟨self, [], false⟩
  if frame.header.type = EthernetHeader.TYPE_IPv4 then
    match ← parse ({} : InternetDatagram).parse frame.payload with
    | some dgram =>
      return ⟨{ self with datagramsIn := self.datagramsIn ++ [dgram] }, [], false⟩
    | none => return ⟨self, [], false⟩
  if frame.header.type = EthernetHeader.TYPE_ARP then
    match ← parse ({} : ARPMessage).parse frame.payload with
    | some arp => return self.recvArp arp
    | none => return ⟨self, [], false⟩
  return ⟨self, [], false⟩

def ageEntry (ms : Nat) (cache : Table ARPEntry) (e : Sigma fun _ : UInt32 => ARPEntry) :
    Table ARPEntry :=
  if e.2.ttlMs ≤ ms then cache.erase e.1
  else cache.insert e.1 { e.2 with ttlMs := e.2.ttlMs - ms }

/-- One turn of the loop over the timers, with the frames transmitted so far. -/
def ageTimer (ms : Nat) (x : NetworkInterface × List EthernetFrame)
    (t : Sigma fun _ : UInt32 => Nat) : NetworkInterface × List EthernetFrame :=
  let self := x.1
  let second := u64 (t.2 + ms)
  if ARP_RETRY_MS ≤ second ∧ t.1 ∈ self.pending then
    ({ self with
        pending := self.pending.insert t.1 []
        arpTimer := self.arpTimer.insert t.1 0 },
      x.2 ++ [self.sendArp t.1])
  else ({ self with arpTimer := self.arpTimer.insert t.1 second }, x.2)

def tick (self : NetworkInterface) (ms : Nat) : NetworkInterface × List EthernetFrame :=
  let self := { self with arpCache := self.arpCache.entries.foldl (ageEntry ms) self.arpCache }
  self.arpTimer.entries.foldl (ageTimer ms) (self, [])

inductive Action where
  | sendDatagram (dgram : InternetDatagram) (nextHop : UInt32)
  | recvFrame (frame : EthernetFrame)
  | tick (ms : Nat)
deriving DecidableEq

def call (self : NetworkInterface) : Action → Outcome
  | .sendDatagram dgram nextHop => self.sendDatagram dgram nextHop
  | .recvFrame frame => (self.recvFrame frame).getD ⟨self, [], true⟩
  | .tick ms => ⟨(self.tick ms).1, (self.tick ms).2, false⟩

def perform (self : NetworkInterface) (a : Action) : NetworkInterface × List EthernetFrame :=
  ((self.call a).interface, (self.call a).frames)

def step (self : NetworkInterface) (a : Action) : NetworkInterface := (self.perform a).1

def transmitted (self : NetworkInterface) (a : Action) : List EthernetFrame := (self.perform a).2

end NetworkInterface

end Minnow
