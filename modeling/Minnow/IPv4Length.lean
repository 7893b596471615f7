import Minnow.InterfaceSlots
import Minnow.ParserPosition

/-! # What `parse` leaves of a datagram

The payload is what `truncate` keeps behind the header. It is as long as the
length field says, and free of padding, unless bytes are missing or have to be
cut off: then a buffer must end with the header and another one with the payload.
-/

namespace Minnow

open Library Minnow.Parser IPv4Header

namespace IPv4Header

theorem toNat_payloadLength (h : IPv4Header) (hHlen : h.hlen.toNat < 16) :
    h.payloadLength.toNat =
      if 4 * h.hlen.toNat ≤ h.len.toNat then h.len.toNat - 4 * h.hlen.toNat
      else h.len.toNat + 2 ^ 16 - 4 * h.hlen.toNat := by
  have hLen := h.len.toNat_lt
  have hBytes : (4 * h.hlen.toUInt16).toNat = 4 * h.hlen.toNat := by
    have hFour : (4 : UInt16).toNat = 4 := rfl
    rw [UInt16.toNat_mul, UInt8.toNat_toUInt16, hFour]
    exact Nat.mod_eq_of_lt (by omega)
  rw [payloadLength, UInt16.toNat_sub, hBytes]
  split <;> omega

end IPv4Header

namespace IPv4Datagram

variable {d : IPv4Datagram} {h : IPv4Header} {buffers : List Buffer}

/-- Where the header ends according to its first byte. -/
def headerEnd (bytes : List Byte) : Nat := 4 * (fieldAt bytes 0 1 % 16)

def totalLength (bytes : List Byte) : Nat := fieldAt bytes 2 2

/-- An accepted header was read to its end, and its lengths stand in the bytes. -/
theorem past_of_header (hBuffers : ∀ b ∈ buffers, b ≠ []) {p : Parser}
    (hHeader : ({} : IPv4Header).parse (Parser.new buffers) = some (h, p))
    (hError : p.error = false) :
    p.input.Past buffers (4 * h.hlen.toNat) ∧ 4 * h.hlen.toNat = headerEnd buffers.flatten ∧
      h.len.toNat = totalLength buffers.flatten := by
  have hStart : (Parser.new buffers).input.Past buffers 0 := BufferList.past_new hBuffers
  obtain ⟨n, hPast, hOk⟩ := IPv4Header.reads_parse _ _ _ _ hStart hHeader
  obtain ⟨-, -, rfl, hHlen, hLen⟩ := hOk hError
  rw [Nat.zero_add] at hPast
  exact ⟨hPast, congrArg (4 * ·) hHlen, hLen⟩

theorem past_of_parse (hBuffers : ∀ b ∈ buffers, b ≠ [])
    (hParse : Minnow.parse ({} : IPv4Datagram).parse buffers = some (some d)) :
    ∃ l : BufferList, l.Past buffers (headerEnd buffers.flatten) ∧
      (l.truncate d.header.payloadLength.toNat).views = some d.payload ∧
      4 * d.header.hlen.toNat = headerEnd buffers.flatten ∧
      d.header.len.toNat = totalLength buffers.flatten := by
  obtain ⟨p, hHeader, hError, hViews⟩ := parse_eq_some_iff.mp hParse
  obtain ⟨hPast, hEnd, hTotal⟩ := past_of_header hBuffers hHeader hError
  exact ⟨p.input, hEnd ▸ hPast, hViews, hEnd, hTotal⟩

/-- The payload is all that the length field announces, and the bytes held that much. -/
structure Complete (bytes : List Byte) (d : IPv4Datagram) : Prop where
  header_le : 4 * d.header.hlen.toNat ≤ d.header.len.toNat
  payload : d.payload.flatten.length = d.header.len.toNat - 4 * d.header.hlen.toNat
  len_le : d.header.len.toNat ≤ bytes.length

/-- The length field covers the header and is covered by the bytes; where it leaves some of them
out, there is no payload to keep or the payload has buffers of its own. -/
structure Fits (buffers : List Buffer) : Prop where
  header_le : headerEnd buffers.flatten ≤ totalLength buffers.flatten
  len_le : totalLength buffers.flatten ≤ buffers.flatten.length
  cut : totalLength buffers.flatten = buffers.flatten.length ∨
    totalLength buffers.flatten = headerEnd buffers.flatten ∨
    (EndsAt buffers (headerEnd buffers.flatten) ∧ EndsAt buffers (totalLength buffers.flatten))

theorem complete_iff_fits (hBuffers : ∀ b ∈ buffers, b ≠ [])
    (hParse : Minnow.parse ({} : IPv4Datagram).parse buffers = some (some d)) :
    Complete buffers.flatten d ↔ Fits buffers := by
  obtain ⟨l, hPast, hViews, hEnd, hTotal⟩ := past_of_parse hBuffers hParse
  have hHlen : d.header.hlen.toNat < 16 := by
    rw [headerEnd] at hEnd
    omega
  have hKept (hLe : headerEnd buffers.flatten ≤ totalLength buffers.flatten) :
      (l.truncate (totalLength buffers.flatten - headerEnd buffers.flatten)).views =
        some d.payload := by
    rw [← hViews, d.header.toNat_payloadLength hHlen, hEnd, hTotal, if_pos hLe]
  constructor
  · rintro ⟨hLe, hLength, hBytes⟩
    rw [hEnd, hTotal] at hLe hLength
    rw [hTotal] at hBytes
    exact ⟨hLe, hBytes, (hPast.length_truncate_iff hLe hBytes (hKept hLe)).mp hLength⟩
  · rintro ⟨hLe, hBytes, hCut⟩
    constructor
    · rw [hEnd, hTotal]
      exact hLe
    · rw [hEnd, hTotal]
      exact (hPast.length_truncate_iff hLe hBytes (hKept hLe)).mpr hCut
    · rw [hTotal]
      exact hBytes

theorem recvFrame_received {nic : NetworkInterface} {frame : EthernetFrame}
    {done : NetworkInterface.Outcome} (hReceive : nic.recvFrame frame = some done) :
    ∃ received, done.interface.datagramsIn = nic.datagramsIn ++ received ∧ ∀ d ∈ received,
      Minnow.parse ({} : IPv4Datagram).parse frame.payload = some (some d) := by
  obtain ⟨arp, -, hRecv⟩ | ⟨-, received, hReads, hRecv⟩ := nic.recvFrame_cases frame
  · rw [hRecv] at hReceive
    cases hReceive
    rw [NetworkInterface.recvArp_eq]
    exact ⟨[], (List.append_nil _).symm, fun d hMem => absurd hMem List.not_mem_nil⟩
  · rw [NetworkInterface.perform, NetworkInterface.call, hReceive] at hRecv
    exact ⟨received, congrArg (fun x => x.1.datagramsIn) hRecv,
      fun d hMem => (hReads d hMem).parsed⟩

/-- What is accepted, and what an interface receives, is complete just where the lengths fit. -/
theorem accepted_complete_iff (hBuffers : ∀ b ∈ buffers, b ≠ []) :
    (∀ d, Minnow.parse ({} : IPv4Datagram).parse buffers = some (some d) →
      (Complete buffers.flatten d ↔ Fits buffers)) ∧
    ∀ (nic : NetworkInterface) (header : EthernetHeader) (done : NetworkInterface.Outcome),
      nic.recvFrame ⟨header, buffers⟩ = some done →
        ∃ received, done.interface.datagramsIn = nic.datagramsIn ++ received ∧
          ∀ d ∈ received, (Complete buffers.flatten d ↔ Fits buffers) := by
  constructor
  · intro d hParse
    exact complete_iff_fits hBuffers hParse
  · intro nic header done hReceive
    obtain ⟨received, hIn, hParse⟩ := recvFrame_received hReceive
    exact ⟨received, hIn, fun d hMem => complete_iff_fits hBuffers (hParse d hMem)⟩

/-- 24 bytes of payload and two of padding, each part in a buffer of its own. -/
theorem accepted_complete_iff_split :
    let header : IPv4Header :=
      { len := 44, ttl := 64, cksum := 9675, src := 0x0a000001, dst := 0x0b000001 }
    let body : List Byte := List.replicate 24 97
    Complete (header.wire ++ body ++ [0, 0]) ⟨header, [body]⟩ := by
  intro header body
  have hBuffers : ∀ b ∈ [header.wire, body, [0, 0]], b ≠ [] := by decide
  have hParse : Minnow.parse ({} : IPv4Datagram).parse [header.wire, body, [0, 0]] =
      some (some ⟨header, [body]⟩) := by decide +kernel
  have hFits : Fits [header.wire, body, [0, 0]] :=
    ⟨by decide +kernel, by decide +kernel, .inr (.inr (by decide +kernel))⟩
  exact ((accepted_complete_iff hBuffers).1 _ hParse).mpr hFits

/-- Where the padding begins inside a buffer, that buffer is lost with all the payload it holds;
and a header that announces 80 bytes more than there are is accepted without any. -/
theorem not_complete_of_shared :
    let header : IPv4Header :=
      { len := 44, ttl := 64, cksum := 9675, src := 0x0a000001, dst := 0x0b000001 }
    let first : List Byte := List.replicate 10 97
    let second : List Byte := List.replicate 14 97
    let short : IPv4Header :=
      { len := 100, ttl := 64, cksum := 9619, src := 0x0a000001, dst := 0x0b000001 }
    (Minnow.parse ({} : IPv4Datagram).parse [header.wire, first, second ++ [0, 0]] =
        some (some ⟨header, [first]⟩) ∧
      ¬ Complete (header.wire ++ first ++ second ++ [0, 0]) ⟨header, [first]⟩) ∧
    Minnow.parse ({} : IPv4Datagram).parse [short.wire] = some (some ⟨short, []⟩) ∧
      ¬ Complete short.wire ⟨short, []⟩ := by
  intro header first second short
  refine ⟨⟨by decide +kernel, fun hComplete => ?_⟩, by decide +kernel, fun hComplete => ?_⟩
  · exact absurd hComplete.payload (by decide)
  · exact absurd hComplete.payload (by decide)

/-- A datagram without options whose header carries its own checksum and its true length. -/
structure Plain (d : IPv4Datagram) : Prop where
  ver : d.header.ver = 4
  hlen : d.header.hlen = 5
  cksum : d.header.cksum = d.header.checksum
  len : d.header.len.toNat = LENGTH + d.payload.flatten.length

namespace Plain

variable {padding : List Byte}

theorem payloadLength_eq (h : Plain d) :
    d.header.payloadLength.toNat = d.payload.flatten.length := by
  have hLen := h.len
  rw [LENGTH] at hLen
  have hHlen : d.header.hlen.toNat = 5 := congrArg UInt8.toNat h.hlen
  rw [d.header.toNat_payloadLength (by omega), if_pos (by omega)]
  omega

theorem canonical (h : Plain d) (hOffset : d.header.offset &&& 0x1fff = d.header.offset) :
    d.header.Canonical where
  ver := h.ver
  hlen_ge := h.hlen ▸ UInt8.le_refl _
  hlen_mask := by rw [h.hlen]; rfl
  offset_mask := hOffset
  cksum := h.cksum

/-- The header is read up to its twentieth byte. -/
theorem past_wire (h : Plain d) (hBuffers : ∀ b ∈ buffers, b ≠ []) {p : Parser}
    (hHeader : ({} : IPv4Header).parse (Parser.new buffers) = some (d.header, p))
    (hError : p.error = false) : p.input.Past buffers d.header.wire.length := by
  obtain ⟨hPast, -, -⟩ := past_of_header hBuffers hHeader hError
  rw [h.hlen] at hPast
  rw [length_wire]
  exact hPast

theorem parses_iff (h : Plain d) (hBuffers : ∀ b ∈ buffers, b ≠ [])
    (hBytes : buffers.flatten = d.header.wire ++ d.payload.flatten ++ padding) :
    (∃ payload, Minnow.parse ({} : IPv4Datagram).parse buffers =
        some (some ⟨d.header, payload⟩) ∧ payload.flatten = d.payload.flatten) ↔
      d.header.offset &&& 0x1fff = d.header.offset ∧
        (padding = [] ∨ d.payload.flatten = [] ∨
          (EndsAt buffers LENGTH ∧ EndsAt buffers (LENGTH + d.payload.flatten.length))) := by
  have hWire : d.header.wire.length = LENGTH := d.header.length_wire
  constructor
  · rintro ⟨payload, hParse, hPayload⟩
    obtain ⟨p, hHeader, hError, hViews⟩ := parse_eq_some_iff.mp hParse
    have hPast := h.past_wire hBuffers hHeader hError
    rw [h.payloadLength_eq] at hViews
    refine ⟨(accepted_of_parse hBuffers hParse).header.offset_mask, ?_⟩
    have hCut := (hPast.truncate_iff hBytes).mp ⟨payload, hViews, hPayload⟩
    rwa [hWire] at hCut
  · rintro ⟨hOffset, hCut⟩
    obtain ⟨a, p, rest, hHeader, hAt, rfl, -⟩ :=
      gives_parse {} (h.canonical hOffset) (Parser.new buffers)
        (List.append_assoc _ _ _ ▸ hBytes ▸ Parser.at_new hBuffers)
    have hPast := h.past_wire hBuffers hHeader hAt.error
    rw [← hWire] at hCut
    obtain ⟨payload, hViews, hPayload⟩ := (hPast.truncate_iff hBytes).mpr hCut
    rw [← h.payloadLength_eq] at hViews
    exact ⟨payload, parse_eq_some_iff.mpr ⟨p, hHeader, hAt.error, hViews⟩, hPayload⟩

end Plain

/-- `truncate` keeps what it should just where it has nothing to cut off, nothing to keep, or an
unread front buffer and one that ends with the last byte to keep; a plain datagram and its padding
are then told apart. -/
theorem padding_harmless_iff {l : BufferList} {bytes : List Byte} (hHolds : l.Holds bytes)
    (len : Nat) {out : List Buffer} {padding : List Byte} (hPlain : Plain d)
    (hSerialize : Minnow.serialize d.serialize = some out) (hBuffers : ∀ b ∈ buffers, b ≠ [])
    (hBytes : buffers.flatten = out.flatten ++ padding) :
    ((∃ kept, (l.truncate len).views = some kept ∧ kept.flatten = bytes.take len) ↔
      bytes.length ≤ len ∨ len = 0 ∨ (l.skip = 0 ∧ EndsAt l.buffer len)) ∧
    ((∃ payload, Minnow.parse ({} : IPv4Datagram).parse buffers =
        some (some ⟨d.header, payload⟩) ∧ payload.flatten = d.payload.flatten) ↔
      d.header.offset &&& 0x1fff = d.header.offset ∧
        (padding = [] ∨ d.payload.flatten = [] ∨
          (EndsAt buffers LENGTH ∧ EndsAt buffers (LENGTH + d.payload.flatten.length)))) := by
  constructor
  · exact hHolds.truncate_iff len
  · rw [serialize_eq hPlain.ver] at hSerialize
    cases hSerialize
    rw [wire_flatten] at hBytes
    exact hPlain.parses_iff hBuffers hBytes

/-- Four bytes of payload and the padding of a shortest Ethernet frame: where header, payload and
padding have buffers of their own the datagram is read back. -/
theorem padding_harmless_iff_split :
    let header : IPv4Header :=
      { len := 24, ttl := 64, cksum := 9695, src := 0x0a000001, dst := 0x0b000001 }
    let body : List Byte := [97, 98, 99, 100]
    let padding : List Byte := List.replicate 22 0
    (∃ kept, ((BufferList.new [body, padding]).truncate 4).views = some kept ∧
        kept.flatten = body) ∧
      ∃ payload, Minnow.parse ({} : IPv4Datagram).parse [header.wire, body, padding] =
        some (some ⟨header, payload⟩) ∧ payload.flatten = body := by
  intro header body padding
  have hPlain : Plain ⟨header, [body]⟩ := ⟨rfl, rfl, by decide +kernel, by decide⟩
  have hSerialize : Minnow.serialize (⟨header, [body]⟩ : IPv4Datagram).serialize =
      some [header.wire, body] := by decide +kernel
  have hHolds : (BufferList.new [body, padding]).Holds [body, padding].flatten :=
    BufferList.holds_new (by decide)
  have hBytes : [header.wire, body, padding].flatten = [header.wire, body].flatten ++ padding := by
    simp
  have hIff := padding_harmless_iff hHolds 4 hPlain hSerialize (by decide) hBytes
  exact ⟨hIff.1.mpr (.inr (.inr ⟨rfl, by decide⟩)),
    hIff.2.mpr ⟨by decide, .inr (.inr ⟨by decide +kernel, by decide +kernel⟩)⟩⟩

/-- The only buffer is cut in two and erased, and what is left is looked for at the front of an
empty list. A header in a buffer of its own does not help. -/
theorem not_harmless_of_shared :
    let header : IPv4Header :=
      { len := 24, ttl := 64, cksum := 9695, src := 0x0a000001, dst := 0x0b000001 }
    let body : List Byte := [97, 98, 99, 100]
    let padding : List Byte := List.replicate 22 0
    Plain ⟨header, [body]⟩ ∧
      Minnow.serialize (⟨header, [body]⟩ : IPv4Datagram).serialize = some [header.wire, body] ∧
      Minnow.parse ({} : IPv4Datagram).parse [header.wire ++ body ++ padding] = none ∧
      Minnow.parse ({} : IPv4Datagram).parse [header.wire, body ++ padding] = none := by
  intro header body padding
  exact ⟨⟨rfl, rfl, by decide +kernel, by decide⟩, by decide +kernel, by decide +kernel,
    by decide +kernel⟩

end IPv4Datagram

end Minnow
