import Minnow.IPv4Wire
import Minnow.TCPOverIP

/-! # What the peer unwraps

Both checksums cover the bytes they are stored among, at an even place, so a
reader that sums everything gets all ones. The rest is field by field.
-/

namespace Minnow

open Library Minnow.Parser

/-- A message as the other side reads it: one bit on the wire stands for both resets. -/
def TCPMessage.received (m : TCPMessage) : TCPMessage :=
  let rst := m.sender.rst || m.receiver.rst
  ⟨{ m.sender with rst }, { m.receiver with rst }⟩

namespace TCPSegment

/-- The bytes before the checksum. -/
def head (s : TCPSegment) : List Byte :=
  BigEndian.encode 2 s.udinfo.srcPort.toNat ++ BigEndian.encode 2 s.udinfo.dstPort.toNat ++
    BigEndian.encode 4 s.message.sender.seqno.rawValue.toNat ++
    BigEndian.encode 4 (s.message.receiver.ackno.getD ⟨0⟩).rawValue.toNat ++
    BigEndian.encode 1 ((HEADER_LENGTH >>> 2) <<< 4).toNat ++ BigEndian.encode 1 s.flags.toNat ++
    BigEndian.encode 2 s.message.receiver.windowSize.toNat

/-- The bytes after the checksum. -/
def tail (s : TCPSegment) : List Byte := BigEndian.encode 2 0 ++ s.message.sender.payload

def wire (s : TCPSegment) : List Byte :=
  s.head ++ (BigEndian.encode 2 s.udinfo.cksum.toNat ++ s.tail)

section Wire

variable {s : TCPSegment} {p : Nat}

theorem length_head (s : TCPSegment) : s.head.length = 16 := by simp [head]

theorem length_wire (s : TCPSegment) : s.wire.length = 20 + s.message.sender.payload.length := by
  simp only [wire, tail, List.length_append, length_head, BigEndian.length_encode]
  omega

theorem finish_serialize (s : TCPSegment) :
    (s.serialize Serializer.new).finish.flatten = s.wire := by
  have hFields : s.serialize Serializer.new =
      Serializer.appendAll [s.message.sender.payload]
        ⟨[], s.head ++ (BigEndian.encode 2 s.udinfo.cksum.toNat ++ BigEndian.encode 2 0)⟩ := by
    simp [serialize, Serializer.integer, Serializer.new, Serializer.appendAll, head]
  have hNonempty : s.head ++ (BigEndian.encode 2 s.udinfo.cksum.toNat ++ BigEndian.encode 2 0) ≠
      [] := by
    rw [← List.length_pos_iff, List.length_append, length_head]
    omega
  rw [hFields, Serializer.finish_appendAll [] hNonempty, List.nil_append, List.flatten_cons,
    List.flatten_filter_not_isEmpty]
  simp [wire, tail]

/-- The words of a segment apart from its checksum. -/
def words (s : TCPSegment) : Nat :=
  InternetChecksum.wordSum false s.head + InternetChecksum.wordSum false s.tail

theorem words_le (s : TCPSegment) : s.words ≤ 65280 * (18 + s.message.sender.payload.length) := by
  have hHead := InternetChecksum.wordSum_le false s.head
  have hTail := InternetChecksum.wordSum_le false s.tail
  rw [length_head] at hHead
  rw [tail, List.length_append, BigEndian.length_encode] at hTail
  rw [words, tail]
  omega

theorem cksum_computeChecksum (s : TCPSegment) (p : Nat) : (s.computeChecksum p).udinfo.cksum =
    ((InternetChecksum.new p).add (s.head ++ (BigEndian.encode 2 0 ++ s.tail))).value := by
  rw [computeChecksum, InternetChecksum.addAll_eq, finish_serialize]
  rfl

/-- Whoever sums the segment with its checksum reads zero. -/
theorem value_computeChecksum (hFits : p + s.words + 0xffff < 2 ^ 32) :
    ((InternetChecksum.new p).add (s.computeChecksum p).wire).value = 0 := by
  have hHead : s.head.length % 2 = 0 := by rw [length_head]
  have hWire : (s.computeChecksum p).wire =
      s.head ++ (BigEndian.encode 2 (s.computeChecksum p).udinfo.cksum.toNat ++ s.tail) := rfl
  rw [hWire, cksum_computeChecksum]
  apply InternetChecksum.value_of_stored p s.head s.tail hHead
  rw [words] at hFits
  omega

/-- Each flag is read back from its own bit. -/
theorem flags_read (s : TCPSegment) :
    (s.flags &&& 0x10 != 0) = s.message.receiver.ackno.isSome ∧
      (s.flags &&& 0x04 != 0) = s.reset ∧ (s.flags &&& 0x02 != 0) = s.message.sender.syn ∧
      (s.flags &&& 0x01 != 0) = s.message.sender.fin := by
  rw [flags]
  cases s.message.receiver.ackno.isSome <;> cases s.reset <;> cases s.message.sender.syn <;>
    cases s.message.sender.fin <;> exact ⟨rfl, rfl, rfl, rfl⟩

theorem gives_parseFields (self s : TCPSegment) :
    Gives self.parseFields s.wire fun a _ => a = ⟨s.message.received, s.udinfo⟩ := by
  simp only [wire, head, tail, List.append_assoc]
  refine (gives_integer16 s.udinfo.srcPort _).bind ?_
  rintro _ _ ⟨rfl, rfl⟩
  refine (gives_integer16 s.udinfo.dstPort _).bind ?_
  rintro _ _ ⟨rfl, rfl⟩
  refine (gives_integer32 s.message.sender.seqno.rawValue _).bind ?_
  rintro _ _ ⟨rfl, rfl⟩
  refine (gives_integer32 (s.message.receiver.ackno.getD ⟨0⟩).rawValue _).bind ?_
  rintro _ _ ⟨rfl, rfl⟩
  refine (gives_integer8 ((HEADER_LENGTH >>> 2) <<< 4) _).bind ?_
  rintro _ _ ⟨rfl, rfl⟩
  refine (gives_integer8 s.flags _).bind ?_
  rintro _ _ ⟨rfl, rfl⟩
  refine (gives_integer16 s.message.receiver.windowSize _).bind ?_
  rintro _ _ ⟨rfl, rfl⟩
  refine (gives_integer16 s.udinfo.cksum _).bind ?_
  rintro _ _ ⟨rfl, rfl⟩
  refine (gives_integer16 0 _).bind ?_
  rintro _ _ ⟨rfl, rfl⟩
  refine Gives.ite_neg (by decide) ?_
  refine (gives_removePrefix _).bind ?_
  rintro _ _ rfl
  refine gives_concatenateAllRemaining.bind ?_
  rintro _ _ rfl
  apply Gives.pure
  have hAckno : (if s.message.receiver.ackno.isSome = true then
      some (⟨(s.message.receiver.ackno.getD ⟨0⟩).rawValue⟩ : Wrap32) else none) =
      s.message.receiver.ackno := by
    cases s.message.receiver.ackno <;> rfl
  obtain ⟨hAck, hRst, hSyn, hFin⟩ := s.flags_read
  rw [hAck, hRst, hSyn, hFin, hAckno]
  rfl

theorem gives_parse (self : TCPSegment) (hFits : p + s.words + 0xffff < 2 ^ 32) :
    Gives (self.parse p) (s.computeChecksum p).wire fun a _ =>
      a = ⟨s.message.received, (s.computeChecksum p).udinfo⟩ := by
  refine gives_buffer.bind ?_
  rintro bufs _ ⟨hFlatten, -, rfl⟩
  have hValue : ((InternetChecksum.new p).addAll bufs).value = 0 := by
    rw [InternetChecksum.addAll_eq, hFlatten]
    exact value_computeChecksum hFits
  refine Gives.ite_neg (not_not.mpr hValue) ?_
  exact gives_parseFields self (s.computeChecksum p)

end Wire

end TCPSegment

namespace TCPOverIPv4Adapter

open IPv4Header

/-- What one side sends from and to is what the other one sends to and from. -/
def Mirrors (A B : TCPOverIPv4Adapter) : Prop :=
  A.config.source = B.config.destination ∧ A.config.destination = B.config.source

instance (A B : TCPOverIPv4Adapter) : Decidable (A.Mirrors B) :=
  inferInstanceAs (Decidable (_ ∧ _))

theorem mirrors_iff {A B : TCPOverIPv4Adapter} : A.Mirrors B ↔
    A.config.destination.ipv4Numeric = B.config.source.ipv4Numeric ∧
      A.config.source.ipv4Numeric = B.config.destination.ipv4Numeric ∧
      A.config.destination.port = B.config.source.port ∧
      A.config.source.port = B.config.destination.port := by
  constructor
  · rintro ⟨hSource, hDestination⟩
    rw [hSource, hDestination]
    exact ⟨rfl, rfl, rfl, rfl⟩
  · rintro ⟨hDst, hSrc, hDstPort, hSrcPort⟩
    exact ⟨congrArg₂ Address.mk hSrc hSrcPort, congrArg₂ Address.mk hDst hDstPort⟩

section Unwrap

variable {A : TCPOverIPv4Adapter} {m : TCPMessage}

/-- The segment that `wrap_tcp_in_ip` builds, before its checksum. -/
def segment (A : TCPOverIPv4Adapter) (m : TCPMessage) : TCPSegment :=
  ⟨m, ⟨A.config.source.port, A.config.destination.port, 0⟩⟩

structure Wrapped (A : TCPOverIPv4Adapter) (m : TCPMessage) (d : IPv4Datagram) : Prop where
  header : d.header.Canonical
  hlen : d.header.hlen = 5
  src : d.header.src = A.config.source.ipv4Numeric
  dst : d.header.dst = A.config.destination.ipv4Numeric
  proto : d.header.proto = PROTO_TCP
  payload : d.payload.flatten = ((A.segment m).computeChecksum d.header.pseudoChecksum).wire
  payloadLength : d.payload.flatten.length ≤ d.header.payloadLength.toNat

/-- The IPv4 header that `wrap_tcp_in_ip` builds, before its checksum. -/
def ipHeader (A : TCPOverIPv4Adapter) (m : TCPMessage) : IPv4Header where
  len := UInt16.ofNat ((5 : UInt8).toNat * 4 + 20 + m.sender.payload.length)
  src := A.config.source.ipv4Numeric
  dst := A.config.destination.ipv4Numeric

theorem ipHeader_payloadLength (A : TCPOverIPv4Adapter)
    (hPayload : m.sender.payload.length ≤ 65495) :
    (A.ipHeader m).payloadLength.toNat = 20 + m.sender.payload.length := by
  have hFive : (5 : UInt8).toNat = 5 := rfl
  have hTwenty : (4 * (A.ipHeader m).hlen.toUInt16).toNat = 20 := rfl
  have hLength : (A.ipHeader m).len.toNat = 40 + m.sender.payload.length := by
    rw [ipHeader, UInt16.toNat_ofNat', hFive]
    omega
  have hMin : 4 * (A.ipHeader m).hlen.toUInt16 ≤ (A.ipHeader m).len := by
    rw [UInt16.le_iff_toNat_le, hLength, hTwenty]
    omega
  rw [payloadLength, UInt16.toNat_sub_of_le _ _ hMin, hLength, hTwenty]
  omega

theorem wrapTcpInIp_eq (A : TCPOverIPv4Adapter) (m : TCPMessage) :
    A.wrapTcpInIp m = some ⟨{ A.ipHeader m with cksum := (A.ipHeader m).checksum },
      (((A.segment m).computeChecksum (A.ipHeader m).pseudoChecksum).serialize
        Serializer.new).finish⟩ := by
  have hHeader := computeChecksum_eq (h := A.ipHeader m) rfl
  have hWrap : A.wrapTcpInIp m = (A.ipHeader m).computeChecksum.bind fun h => some ⟨h,
      (((A.segment m).computeChecksum (A.ipHeader m).pseudoChecksum).serialize
        Serializer.new).finish⟩ := rfl
  rw [hWrap, hHeader]
  rfl

theorem wrapped (A : TCPOverIPv4Adapter) (hPayload : m.sender.payload.length ≤ 65495) :
    ∃ d, A.wrapTcpInIp m = some d ∧ Wrapped A m d := by
  have hRest := A.ipHeader_payloadLength hPayload
  refine ⟨_, A.wrapTcpInIp_eq m, ?_⟩
  generalize hSegment : (A.segment m).computeChecksum (A.ipHeader m).pseudoChecksum = seg
  have hBytes : (seg.serialize Serializer.new).finish.flatten.length =
      20 + m.sender.payload.length := by
    rw [seg.finish_serialize, TCPSegment.length_wire, ← hSegment]
    rfl
  refine { header := ?_, hlen := rfl, src := rfl, dst := rfl, proto := rfl, payload := ?_,
           payloadLength := ?_ }
  · have hHlen : (5 : UInt8) &&& 0xf = 5 := by decide
    exact Canonical.of_checksum rfl (UInt8.le_refl 5) hHlen UInt16.zero_and
  · rw [pseudoChecksum_cksum, hSegment]
    exact seg.finish_serialize
  · rw [payloadLength_cksum, hRest]
    exact hBytes.le

theorem Wrapped.parse_payload {d : IPv4Datagram} (h : Wrapped A m d)
    (hPayload : m.sender.payload.length ≤ 65495) (hBuffers : ∀ b ∈ d.payload, b ≠ []) :
    ∃ udinfo, udinfo.srcPort = A.config.source.port ∧
      udinfo.dstPort = A.config.destination.port ∧
      Minnow.parse (({} : TCPSegment).parse d.header.pseudoChecksum) d.payload =
        some (some ⟨m.received, udinfo⟩) := by
  have hWords := (A.segment m).words_le
  have hPseudo := d.header.pseudoChecksum_le
  have hSegment : (A.segment m).message.sender.payload = m.sender.payload := rfl
  rw [hSegment] at hWords
  have hGives := TCPSegment.gives_parse {} (s := A.segment m) (p := d.header.pseudoChecksum)
    (by omega)
  rw [← h.payload] at hGives
  obtain ⟨a, -, hParse, rfl⟩ := parse_of_gives hBuffers hGives
  exact ⟨_, rfl, rfl, hParse⟩

theorem Wrapped.unwrap {d : IPv4Datagram} (h : Wrapped A m d)
    (hPayload : m.sender.payload.length ≤ 65495) (hBuffers : ∀ b ∈ d.payload, b ≠ [])
    {C : TCPOverIPv4Adapter} (hListen : C.listening = false) :
    C.unwrapTcpInIp d = some (C, if A.Mirrors C then some m.received else none) := by
  obtain ⟨udinfo, hSrcPort, hDstPort, hParse⟩ := h.parse_payload hPayload hBuffers
  simp only [unwrapTcpInIp, hParse, h.src, h.dst, h.proto, hListen, mirrors_iff]
  by_cases hDst : A.config.destination.ipv4Numeric = C.config.source.ipv4Numeric
  · by_cases hSrc : A.config.source.ipv4Numeric = C.config.destination.ipv4Numeric
    · by_cases hTo : A.config.destination.port = C.config.source.port
      · by_cases hFrom : A.config.source.port = C.config.destination.port <;>
          simp [hDst, hSrc, hTo, hFrom, hSrcPort, hDstPort]
      · simp [hDst, hSrc, hTo, hDstPort]
    · simp [hDst, hSrc]
  · simp [hDst]

/-- A listening adapter that takes the message mirrors its sender from then on. -/
theorem Wrapped.unwrap_listening {d : IPv4Datagram} (h : Wrapped A m d)
    (hPayload : m.sender.payload.length ≤ 65495) (hBuffers : ∀ b ∈ d.payload, b ≠ [])
    {C : TCPOverIPv4Adapter} (hListen : C.listening = true) :
    ∃ C' r, C.unwrapTcpInIp d = some (C', r) ∧ (r ≠ none → A.Mirrors C') := by
  obtain ⟨udinfo, hSrcPort, hDstPort, hParse⟩ := h.parse_payload hPayload hBuffers
  simp only [unwrapTcpInIp, hParse, h.proto, hListen]
  by_cases hTo : A.config.destination.port = C.config.source.port
  · by_cases hOpens : m.received.sender.syn = true ∧ ¬ m.received.sender.rst = true
    · have hMirrors : A.Mirrors (C.adopt d.header ⟨m.received, udinfo⟩) :=
        mirrors_iff.mpr ⟨h.dst.symm, h.src.symm, hTo, hSrcPort.symm⟩
      refine ⟨_, some m.received, ?_, fun _ => hMirrors⟩
      simp [hTo, hDstPort, hOpens, adopt]
    · refine ⟨C, none, ?_, fun hNone => absurd rfl hNone⟩
      have hReset : m.received.sender.syn = true → m.received.sender.rst = true := by
        simpa using hOpens
      simp +contextual [hTo, hDstPort, hReset]
  · refine ⟨C, none, ?_, fun hNone => absurd rfl hNone⟩
    simp [hTo, hDstPort]

/-- A wrapped message, however its bytes are cut into buffers, is unwrapped by an adapter that
mirrors the sender, and by no other one; a listening adapter comes to mirror it first. -/
theorem wrap_unwrap (A : TCPOverIPv4Adapter) (hPayload : m.sender.payload.length ≤ 65495) :
    ∃ dgram bufs, A.wrapTcpInIp m = some dgram ∧ Minnow.serialize dgram.serialize = some bufs ∧
      ∀ buffers : List Buffer, (∀ b ∈ buffers, b ≠ []) → buffers.flatten = bufs.flatten →
        ∃ d, Minnow.parse ({} : IPv4Datagram).parse buffers = some (some d) ∧
          (∀ B, B.listening = false → A.Mirrors B →
            B.unwrapTcpInIp d = some (B, some m.received)) ∧
          ∀ C, ∃ C' r, C.unwrapTcpInIp d = some (C', r) ∧ (r ≠ none → A.Mirrors C') ∧
            (C.listening = false → C' = C) := by
  obtain ⟨dgram, hWrap, hWrapped⟩ := A.wrapped hPayload
  refine ⟨dgram, _, hWrap, IPv4Datagram.serialize_eq hWrapped.header.ver, ?_⟩
  intro buffers hBuffers hBytes
  rw [IPv4Datagram.wire_flatten] at hBytes
  have hOptions : dgram.header.hlen.toNat * 4 - 20 = 0 := by
    rw [hWrapped.hlen]
    rfl
  obtain ⟨payload, hParse, hPayload', hNonempty⟩ :=
    IPv4Datagram.parse_wire hWrapped.header hBuffers hBytes (by
      rw [hOptions]
      exact hWrapped.payloadLength)
  rw [hOptions, List.drop_zero] at hPayload'
  have hRead : Wrapped A m ⟨dgram.header, payload⟩ :=
    ⟨hWrapped.header, hWrapped.hlen, hWrapped.src, hWrapped.dst, hWrapped.proto,
      hPayload'.trans hWrapped.payload, hPayload' ▸ hWrapped.payloadLength⟩
  refine ⟨_, hParse, fun B hListen hMirrors => ?_, fun C => ?_⟩
  · rw [hRead.unwrap hPayload hNonempty hListen, if_pos hMirrors]
  · cases hListen : C.listening with
    | true =>
      obtain ⟨C', r, hUnwrap, hMirrors⟩ := hRead.unwrap_listening hPayload hNonempty hListen
      exact ⟨C', r, hUnwrap, hMirrors, fun h => (nomatch h)⟩
    | false =>
      refine ⟨C, _, hRead.unwrap hPayload hNonempty hListen, fun hSome => ?_, fun _ => rfl⟩
      by_contra hOther
      exact hSome (if_neg hOther)

/-- Three bytes of payload with SYN, FIN and one of the resets. -/
theorem wrap_unwrap_odd :
    let A : TCPOverIPv4Adapter := ⟨⟨⟨0x0a000001, 80⟩, ⟨0x0a000002, 9090⟩⟩, false⟩
    let B : TCPOverIPv4Adapter := ⟨⟨⟨0x0a000002, 9090⟩, ⟨0x0a000001, 80⟩⟩, false⟩
    let m : TCPMessage :=
      ⟨⟨⟨137⟩, true, [97, 98, 99], true, false⟩, ⟨some ⟨4294967295⟩, 1000, true⟩⟩
    ∃ dgram bufs d, A.wrapTcpInIp m = some dgram ∧
      Minnow.serialize dgram.serialize = some bufs ∧
      Minnow.parse ({} : IPv4Datagram).parse (bufs.filter fun b => !b.isEmpty) = some (some d) ∧
      B.unwrapTcpInIp d = some (B, some m.received) := by
  intro A B m
  obtain ⟨dgram, bufs, hWrap, hSerialize, hRead⟩ := wrap_unwrap (m := m) A (by decide)
  obtain ⟨d, hParse, hUnwrap, -⟩ := hRead (bufs.filter fun b => !b.isEmpty)
    (fun b hMem => by simpa using (List.mem_filter.mp hMem).2) List.flatten_filter_not_isEmpty
  exact ⟨dgram, bufs, d, hWrap, hSerialize, hParse, hUnwrap B rfl ⟨rfl, rfl⟩⟩

end Unwrap

end TCPOverIPv4Adapter

end Minnow
