import Minnow.FileDescriptor
import Minnow.TCPOverIPWire

/-! # Datagram adapters

What a socket reads its messages from and writes them to. One adapter puts them
into datagrams for a TUN device, and one loses some of the messages of another
adapter. The device takes every datagram as a whole.
-/

namespace Minnow

open Minnow.Parser

/-- The loss rates belong to the lossy adapter. -/
structure AdapterConfig extends FdAdapterConfig where
  lossRateDn : UInt16 := 0
  lossRateUp : UInt16 := 0
deriving DecidableEq

/-- What a socket uses of an adapter whose device reads and writes an `F` at a time. `none` is a
thrown exception, which leaves the adapter as it is. -/
class TCPDatagramAdapter (A : Type) (F : outParam Type) where
  fd : A → FileDescriptor
  read : A → SystemCall F → Option (A × Option TCPMessage)
  write : A → TCPMessage → A × List F
  configure : A → AdapterConfig → A
  setListening : A → Bool → A

namespace TCPDatagramAdapter

variable {A F : Type} [TCPDatagramAdapter A F]

/-- The transmit callback for one message after the other. -/
def writeAll (self : A) : List TCPMessage → A × List F
  | [] => (self, [])
  | msg :: msgs =>
    let first := write self msg
    let rest := writeAll first.1 msgs
    (rest.1, first.2 ++ rest.2)

end TCPDatagramAdapter

theorem TCPOverIPv4Adapter.serialized (A : TCPOverIPv4Adapter) (m : TCPMessage) :
    ∃ d, A.wrapTcpInIp m = some d ∧ Minnow.serialize d.serialize = some d.wire := by
  refine ⟨_, A.wrapTcpInIp_eq m, IPv4Datagram.serialize_eq ?_⟩
  rfl

structure TCPOverIPv4OverTunFdAdapter extends TCPOverIPv4Adapter where
  tun : FileDescriptor

namespace TCPOverIPv4OverTunFdAdapter

def new : TCPOverIPv4OverTunFdAdapter where
  config := ⟨⟨0, 0⟩, ⟨0, 0⟩⟩
  listening := false
  tun := {}

def read (self : TCPOverIPv4OverTunFdAdapter) (answer : SystemCall (List Byte)) :
    Option (TCPOverIPv4OverTunFdAdapter × Option TCPMessage) := do
  let (tun, strs) ←
    self.tun.readBuffers [IPv4Header.LENGTH, TCPSegment.HEADER_LENGTH.toNat, 0] answer
  let self := { self with tun := tun }
  match ← Minnow.parse ({} : IPv4Datagram).parse strs with
  | none => return (self, none)
  | some ipDgram =>
    let (adapter, msg) ← self.unwrapTcpInIp ipDgram
    return ({ self with toTCPOverIPv4Adapter := adapter }, msg)

theorem packet_isSome (self : TCPOverIPv4OverTunFdAdapter) (seg : TCPMessage) :
    ((self.wrapTcpInIp seg).bind fun dgram => Minnow.serialize dgram.serialize).isSome := by
  obtain ⟨d, hWrap, hSerialize⟩ := self.serialized seg
  rw [hWrap, Option.bind_some, hSerialize]
  rfl

def packet (self : TCPOverIPv4OverTunFdAdapter) (seg : TCPMessage) : List Buffer :=
  ((self.wrapTcpInIp seg).bind fun dgram => Minnow.serialize dgram.serialize).get
    (self.packet_isSome seg)

def write (self : TCPOverIPv4OverTunFdAdapter) (seg : TCPMessage) :
    TCPOverIPv4OverTunFdAdapter × List (List Byte) :=
  ({ self with tun := self.tun.registerWrite }, [(self.packet seg).flatten])

instance : TCPDatagramAdapter TCPOverIPv4OverTunFdAdapter (List Byte) where
  fd := tun
  read := read
  write := write
  configure self cfg := { self with config := cfg.toFdAdapterConfig }
  setListening self l := { self with listening := l }

end TCPOverIPv4OverTunFdAdapter

/-- A source of random numbers. -/
class RandomEngine (R : Type) where
  next : R → Nat × R

/-- The default engine of the standard library. -/
structure MinStdRand0 where
  state : Nat
deriving DecidableEq

instance : RandomEngine MinStdRand0 where
  next self :=
    let state := 16807 * self.state % 2147483647
    (state, ⟨state⟩)

structure LossyFdAdapter (A R : Type) where
  rand : R
  adapter : A
  lossRateDn : UInt16 := 0
  lossRateUp : UInt16 := 0

namespace LossyFdAdapter

variable {A F R : Type} [TCPDatagramAdapter A F] [RandomEngine R]

/-- No number is drawn unless there is something to lose. -/
def shouldDrop (self : LossyFdAdapter A R) (uplink : Bool) : Bool × LossyFdAdapter A R :=
  let loss := if uplink then self.lossRateUp else self.lossRateDn
  if loss = 0 then (false, self)
  else
    let drawn := RandomEngine.next self.rand
    (decide (UInt16.ofNat drawn.1 < loss), { self with rand := drawn.2 })

def read (self : LossyFdAdapter A R) (answer : SystemCall F) :
    Option (LossyFdAdapter A R × Option TCPMessage) := do
  let (adapter, ret) ← TCPDatagramAdapter.read self.adapter answer
  let (drop, self) := { self with adapter := adapter }.shouldDrop false
  return (self, if drop then none else ret)

def write (self : LossyFdAdapter A R) (seg : TCPMessage) : LossyFdAdapter A R × List F :=
  let dropped := self.shouldDrop true
  if dropped.1 then (dropped.2, [])
  else
    let written := TCPDatagramAdapter.write dropped.2.adapter seg
    ({ dropped.2 with adapter := written.1 }, written.2)

instance : TCPDatagramAdapter (LossyFdAdapter A R) F where
  fd self := TCPDatagramAdapter.fd self.adapter
  read := read
  write := write
  configure self cfg := { self with
    adapter := TCPDatagramAdapter.configure self.adapter cfg
    lossRateDn := cfg.lossRateDn
    lossRateUp := cfg.lossRateUp }
  setListening self l := { self with adapter := TCPDatagramAdapter.setListening self.adapter l }

end LossyFdAdapter

end Minnow
