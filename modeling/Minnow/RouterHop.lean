import Minnow.Library.Run
import Minnow.InterfaceSlots
import Minnow.Router

/-! # One hop

A router lowers the lifetime of a datagram and writes the checksum anew. The
next hop reads the same datagram unless the header announces options, which
`parse` has skipped and `serialize` does not write: it then skips payload.
-/

namespace Minnow

namespace Router

open Library Minnow.Parser IPv4Datagram NetworkInterface

/-- A call of `send_datagram` that `route` makes. -/
structure Forward.Made (e : Forward) : Prop where
  alive : ¬ e.received.header.ttl ≤ 1
  header : (Routing.decrementTtl e.received.header).computeChecksum = some e.dgram.header
  payload : e.dgram.payload = e.received.payload
  frames : ∃ interface : NetworkInterface,
    e.frames = (interface.sendDatagram e.dgram e.nextHop).frames

namespace Routing

def AllMade (x : Routing) : Prop := ∀ e ∈ x.forwarded, e.Made

variable {x : Routing}

theorem AllMade.sendDatagram (h : x.AllMade) {received : IPv4Datagram} {dgram : InternetDatagram}
    (hAlive : ¬ received.header.ttl ≤ 1)
    (hHeader : (decrementTtl received.header).computeChecksum = some dgram.header)
    (hPayload : dgram.payload = received.payload) (nextHop : UInt32) (interfaceNum : Nat) :
    (x.sendDatagram received dgram nextHop interfaceNum).AllMade := by
  rw [Routing.sendDatagram]
  split
  · exact h
  · rename_i interface _
    intro e hMem
    obtain hMem | hMem := List.mem_append.mp hMem
    · exact h e hMem
    · rw [List.mem_singleton.mp hMem]
      exact ⟨hAlive, hHeader, hPayload, interface, rfl⟩

theorem AllMade.forward (h : x.AllMade) (d : IPv4Datagram) : (x.forward d).AllMade := by
  rw [Routing.forward]
  split
  · exact h
  · rename_i hAlive
    split
    · exact h
    · rename_i header hHeader
      split
      · exact h
      · apply h.sendDatagram hAlive
        · exact hHeader
        · rfl

theorem AllMade.drain (h : x.AllMade) (i : Nat) : (x.drain i).AllMade := by
  have hTurn : ∀ (y : Routing) (d : IPv4Datagram), y.AllMade → (turn i y d).AllMade := by
    intro y d hMade
    rw [turn]
    split
    · exact hMade
    · exact AllMade.forward (x := y.pop i) hMade d
  rw [Routing.drain]
  split
  · exact h
  · exact Run.invariant_of_step hTurn h _

end Routing

theorem route_made (self : Router) : self.route.AllMade :=
  Run.invariant_of_step (P := Routing.AllMade) (fun _ i h => h.drain i)
    (fun _ hMem => absurd hMem List.not_mem_nil) (List.range self.interfaces.length)

/-- What the next hop reads is the datagram with one hop less to live, however the bytes come in. -/
def Arrives (d : IPv4Datagram) (bytes : List Byte) : Prop :=
  ∀ buffers : List Buffer, (∀ b ∈ buffers, b ≠ []) → buffers.flatten = bytes →
    ∃ d', parse ({} : IPv4Datagram).parse buffers = some (some d') ∧
      d'.payload.flatten = d.payload.flatten ∧ d'.header.ttl = d.header.ttl - 1 ∧
      { d'.header with ttl := d.header.ttl, cksum := d.header.cksum } = d.header

section Hop

variable {e : Forward}

theorem Forward.Made.header_eq (h : e.Made) (hVer : e.received.header.ver = 4) :
    e.dgram.header = { Routing.decrementTtl e.received.header with
      cksum := (Routing.decrementTtl e.received.header).checksum } := by
  have hHeader := h.header
  rw [IPv4Header.computeChecksum_eq (h := Routing.decrementTtl e.received.header) hVer] at hHeader
  exact (Option.some.inj hHeader).symm

/-- The changed header is as canonical as the one received. -/
theorem Forward.Made.canonical (h : e.Made) (hCan : e.received.header.Canonical) :
    e.dgram.header.Canonical := by
  rw [h.header_eq hCan.ver]
  exact ⟨hCan.ver, hCan.hlen_ge, hCan.hlen_mask, hCan.offset_mask, rfl⟩

/-- What the next hop takes for the payload. -/
theorem Forward.Made.reads (h : e.Made) (hAccepted : e.received.Accepted) {buffers : List Buffer}
    (hBuffers : ∀ b ∈ buffers, b ≠ []) (hBytes : buffers.flatten = e.dgram.wire.flatten) :
    ∃ payload,
      parse ({} : IPv4Datagram).parse buffers = some (some ⟨e.dgram.header, payload⟩) ∧
      payload.flatten =
        e.received.payload.flatten.drop (e.received.header.hlen.toNat * 4 - 20) := by
  have hHeader := h.header_eq hAccepted.header.ver
  have hHlen : e.dgram.header.hlen = e.received.header.hlen := by rw [hHeader]; rfl
  have hLength : e.dgram.header.payloadLength = e.received.header.payloadLength := by
    rw [hHeader]
    rfl
  rw [e.dgram.wire_flatten, h.payload] at hBytes
  have hFits : (e.received.payload.flatten.drop (e.dgram.header.hlen.toNat * 4 - 20)).length ≤
      e.dgram.header.payloadLength.toNat := by
    rw [List.length_drop, hLength]
    exact (Nat.sub_le _ _).trans hAccepted.payload_le
  obtain ⟨payload, hParse, hPayload, -⟩ :=
    parse_wire (h.canonical hAccepted.header) hBuffers hBytes hFits
  exact ⟨payload, hParse, hHlen ▸ hPayload⟩

theorem Forward.Made.arrives_iff (h : e.Made) (hAccepted : e.received.Accepted) :
    Arrives e.received e.dgram.wire.flatten ↔
      e.received.header.hlen = 5 ∨ e.received.payload.flatten = [] := by
  have hHeader := h.header_eq hAccepted.header.ver
  have hMin : 5 ≤ e.received.header.hlen.toNat := hAccepted.header.hlen_ge
  have hFive : e.received.header.hlen = 5 ↔ e.received.header.hlen.toNat = 5 :=
    UInt8.toNat_inj.symm
  constructor
  · intro hArrives
    obtain ⟨payload, hParse, hRest⟩ := h.reads hAccepted e.dgram.wire_ne_nil rfl
    obtain ⟨d', hParse', hPayload, -⟩ := hArrives e.dgram.wire e.dgram.wire_ne_nil rfl
    cases hParse.symm.trans hParse'
    have hLength := congrArg List.length (hPayload.symm.trans hRest)
    rw [List.length_drop] at hLength
    rw [hFive, ← List.length_eq_zero_iff]
    omega
  · intro hPlain buffers hBuffers hBytes
    obtain ⟨payload, hParse, hRest⟩ := h.reads hAccepted hBuffers hBytes
    refine ⟨_, hParse, ?_, ?_, ?_⟩
    · rw [hRest]
      obtain hPlain | hPlain := hPlain
      · rw [hFive.mp hPlain, List.drop_zero]
      · rw [hPlain, List.drop_nil]
    · rw [hHeader]
      rfl
    · rw [hHeader]
      rfl

/-- A datagram arrives at the next hop exactly when its header announces no options or nothing
follows the header, whether its frame leaves at once or waits for an address. -/
theorem route_arrives_iff {self : Router} {buffers : List Buffer} {d : IPv4Datagram}
    (hBuffers : ∀ b ∈ buffers, b ≠ [])
    (hAccept : parse ({} : IPv4Datagram).parse buffers = some (some d))
    (hForward : e ∈ self.route.forwarded) (hReceived : e.received = d) :
    ∃ out, serialize e.dgram.serialize = some out ∧
      (∀ f ∈ e.frames, isDatagram f = true → f.payload = out) ∧
      (Arrives d out.flatten ↔ d.header.hlen = 5 ∨ d.payload.flatten = []) := by
  subst hReceived
  have hMade := self.route_made e hForward
  have hAccepted := accepted_of_parse hBuffers hAccept
  refine ⟨e.dgram.wire, serialize_eq (hMade.canonical hAccepted.header).ver,
    fun f hMem hDatagram => ?_, hMade.arrives_iff hAccepted⟩
  obtain ⟨interface, hFrames⟩ := hMade.frames
  rw [hFrames, sendDatagram_frames] at hMem
  split at hMem
  · split at hMem
    · rw [List.mem_singleton.mp hMem]
      rfl
    · cases hMem
  · split at hMem
    · rw [List.mem_singleton.mp hMem, isDatagram_sendArp] at hDatagram
      cases hDatagram
    · cases hMem

end Hop

/-- Two interfaces and a default route, with what the first one has received. -/
def between (payload : List Buffer) : Router :=
  let first := NetworkInterface.new #v[2, 0, 0, 0, 0, 1] 1
  let frame := ⟨⟨first.hwAddress, #v[2, 0, 0, 0, 0, 9], EthernetHeader.TYPE_IPv4⟩, payload⟩
  new.addInterface (first.step (.recvFrame frame))
    |>.addInterface (NetworkInterface.new #v[2, 0, 0, 0, 0, 2] 2)
    |>.addRoute ⟨0, 0, some 9, 1, by decide⟩

/-- Four bytes of options: the next hop takes the four bytes of payload for them. -/
theorem not_arrives_of_options :
    let header : IPv4Header :=
      { hlen := 6, len := 28, ttl := 64, cksum := 9435, src := 0x0a000001, dst := 0x0b000001 }
    let buffers : List Buffer := [header.wire ++ [1, 1, 1, 1] ++ [97, 98, 99, 100]]
    let d : IPv4Datagram := ⟨header, [[97, 98, 99, 100]]⟩
    parse ({} : IPv4Datagram).parse buffers = some (some d) ∧
      ∃ e ∈ (between buffers).route.forwarded, ∃ out, e.received = d ∧
        serialize e.dgram.serialize = some out ∧
        parse ({} : IPv4Datagram).parse out = some (some ⟨e.dgram.header, []⟩) ∧
        ¬ Arrives d out.flatten := by
  intro header buffers d
  have hOne : (between buffers).route.forwarded.length = 1 := by decide +kernel
  obtain ⟨e, hForward⟩ := List.length_eq_one_iff.mp hOne
  have hReads : ∀ e ∈ (between buffers).route.forwarded, e.received = d ∧
      e.dgram.header.ver = 4 ∧ parse ({} : IPv4Datagram).parse e.dgram.wire =
        some (some ⟨e.dgram.header, []⟩) := by
    decide +kernel
  have hMem : e ∈ (between buffers).route.forwarded := hForward ▸ List.mem_singleton_self e
  obtain ⟨hReceived, hVer, hParse⟩ := hReads e hMem
  refine ⟨by decide +kernel, e, hMem, e.dgram.wire, hReceived, serialize_eq hVer, hParse,
    fun hArrives => ?_⟩
  obtain ⟨d', hParse', hPayload, -⟩ := hArrives _ e.dgram.wire_ne_nil rfl
  cases hParse.symm.trans hParse'
  cases hPayload

/-- A datagram with four bytes of payload and no options, one hop on. -/
theorem route_arrives_plain :
    let header : IPv4Header :=
      { len := 24, ttl := 64, cksum := 9695, src := 0x0a000001, dst := 0x0b000001 }
    let buffers : List Buffer := [header.wire ++ [97, 98, 99, 100]]
    ∃ e ∈ (between buffers).route.forwarded, ∃ out, serialize e.dgram.serialize = some out ∧
      Arrives ⟨header, [[97, 98, 99, 100]]⟩ out.flatten := by
  intro header buffers
  have hOne : (between buffers).route.forwarded.length = 1 := by decide +kernel
  obtain ⟨e, hForward⟩ := List.length_eq_one_iff.mp hOne
  have hReceived : ∀ e ∈ (between buffers).route.forwarded,
      e.received = ⟨header, [[97, 98, 99, 100]]⟩ := by
    decide +kernel
  have hMem : e ∈ (between buffers).route.forwarded := hForward ▸ List.mem_singleton_self e
  have hBuffers : ∀ b ∈ buffers, b ≠ [] := by decide
  have hAccept : parse ({} : IPv4Datagram).parse buffers =
      some (some ⟨header, [[97, 98, 99, 100]]⟩) := by decide +kernel
  obtain ⟨out, hSerialize, -, hIff⟩ := route_arrives_iff hBuffers hAccept hMem (hReceived e hMem)
  exact ⟨e, hMem, out, hSerialize, hIff.mpr (.inl rfl)⟩

end Router

end Minnow
