import Minnow.DatagramAdapter
import Minnow.ParserPadding
import Minnow.PlainMessages

/-! # What an adapter reads of what another one has written

Nothing, or the message itself: which of the two is up to the addresses and to
chance.
-/

namespace Minnow

open Library Minnow.Parser TCPDatagramAdapter

/-- The descriptor is as far from its end. -/
def FileDescriptor.SameEnd (fd fd' : FileDescriptor) : Prop :=
  fd'.eof = fd.eof ∧ fd'.closed = fd.closed

theorem FileDescriptor.SameEnd.trans {fd fd' fd'' : FileDescriptor} (h : fd.SameEnd fd')
    (h' : fd'.SameEnd fd'') : fd.SameEnd fd'' :=
  ⟨h'.1.trans h.1, h'.2.trans h.2⟩

class LawfulAdapter (A : Type) {F : Type} [TCPDatagramAdapter A F] : Prop where
  read_write : ∀ (a b : A) {m : TCPMessage} {f : F}, m.Plain → f ∈ (write a m).2 →
    ∃ b' r, read b (.ok f) = some (b', r) ∧ (r = none ∨ r = some m)
  read_fd : ∀ (a : A) {answer : SystemCall F} {a' : A} {r : Option TCPMessage},
    read a answer = some (a', r) → (fd a).SameEnd (fd a')
  write_fd : ∀ (a : A) (m : TCPMessage), (fd a).SameEnd (fd (write a m).1)
  configure_fd : ∀ (a : A) (cfg : AdapterConfig), (fd a).SameEnd (fd (configure a cfg))
  listening_fd : ∀ (a : A) (l : Bool), (fd a).SameEnd (fd (setListening a l))

theorem TCPMessage.Plain.received_eq {m : TCPMessage} (h : m.Plain) : m.received = m := by
  obtain ⟨⟨_, _, _, _, _⟩, ⟨_, _, _⟩⟩ := m
  obtain ⟨rfl, rfl, -⟩ := h
  rfl

section WriteAll

variable {A F : Type} [TCPDatagramAdapter A F]

theorem mem_writeAll {self : A} {msgs : List TCPMessage} {f : F}
    (h : f ∈ (writeAll self msgs).2) : ∃ m ∈ msgs, ∃ a : A, f ∈ (write a m).2 := by
  induction msgs generalizing self with
  | nil => exact absurd h List.not_mem_nil
  | cons m msgs ih =>
    obtain hFirst | hRest := List.mem_append.mp h
    · exact ⟨m, List.mem_cons_self, self, hFirst⟩
    · obtain ⟨m', hMem, hWritten⟩ := ih hRest
      exact ⟨m', List.mem_cons_of_mem m hMem, hWritten⟩

theorem writeAll_fd [LawfulAdapter A] (self : A) (msgs : List TCPMessage) :
    (fd self).SameEnd (fd (writeAll self msgs).1) := by
  induction msgs generalizing self with
  | nil => exact ⟨rfl, rfl⟩
  | cons m msgs ih => exact (LawfulAdapter.write_fd self m).trans (ih (write self m).1)

end WriteAll

/-- Only the last buffers are left empty. -/
theorem FileDescriptor.scatter_padded {sizes : List Nat} (hSizes : ∀ n ∈ sizes, 0 < n)
    {data : List Byte} (hFits : data.length ≤ sizes.sum) :
    ∃ bufs, Padded bufs (scatter sizes data) ∧ (∀ b ∈ bufs, b ≠ []) ∧ bufs.flatten = data := by
  induction sizes generalizing data with
  | nil =>
    obtain rfl := List.length_eq_zero_iff.mp (Nat.le_zero.mp hFits)
    exact ⟨[], ⟨0, rfl⟩, nofun, rfl⟩
  | cons n sizes ih =>
    rw [List.sum_cons] at hFits
    have hRest : (data.drop n).length ≤ sizes.sum := by
      rw [List.length_drop]
      omega
    obtain ⟨bufs, hPadded, hNonempty, hFlatten⟩ :=
      ih (fun k hMem => hSizes k (List.mem_cons_of_mem n hMem)) hRest
    have hPos := hSizes n List.mem_cons_self
    by_cases hData : data = []
    · subst hData
      rw [List.drop_nil] at hFlatten hPadded
      obtain rfl : bufs = [] := by
        cases bufs with
        | nil => rfl
        | cons b bufs =>
          exact absurd (List.append_eq_nil_iff.mp hFlatten).1 (hNonempty b List.mem_cons_self)
      obtain ⟨k, hPadded⟩ := hPadded
      refine ⟨[], ⟨k + 1, ?_⟩, nofun, rfl⟩
      rw [scatter, List.take_nil, List.drop_nil, hPadded]
      rfl
    · refine ⟨data.take n :: bufs, hPadded.cons _, fun b hMem => ?_, ?_⟩
      · obtain rfl | hMem := List.mem_cons.mp hMem
        · rw [Ne, List.take_eq_nil_iff, not_or]
          exact ⟨Nat.ne_of_gt hPos, hData⟩
        · exact hNonempty b hMem
      · rw [List.flatten_cons, hFlatten, List.take_append_drop]

/-- Whatever an adapter makes of a datagram with a segment in it, it never makes another message
of it. -/
theorem TCPOverIPv4Adapter.unwrap_of_parse (C : TCPOverIPv4Adapter) {d : IPv4Datagram}
    {seg : TCPSegment}
    (hParse : Minnow.parse (({} : TCPSegment).parse d.header.pseudoChecksum) d.payload =
      some (some seg)) :
    ∃ C' r, C.unwrapTcpInIp d = some (C', r) ∧ (r = none ∨ r = some seg.message) := by
  simp only [unwrapTcpInIp, hParse, Option.bind_eq_bind, Option.bind_some]
  -- the conditions of the source in their order
  split
  · exact ⟨C, none, rfl, .inl rfl⟩
  split
  · exact ⟨C, none, rfl, .inl rfl⟩
  split
  · exact ⟨C, none, rfl, .inl rfl⟩
  split
  · exact ⟨C, none, rfl, .inl rfl⟩
  split
  · exact ⟨C, none, rfl, .inl rfl⟩
  generalize (if C.listening = true then C.adopt d.header seg else C) = C'
  split
  · exact ⟨C', none, rfl, .inl rfl⟩
  · exact ⟨C', some seg.message, rfl, .inr rfl⟩

namespace TCPOverIPv4OverTunFdAdapter

variable {m : TCPMessage}

/-- A packet is one read of the device: two headers and the payload, which may be empty. -/
theorem read_packet (self C : TCPOverIPv4OverTunFdAdapter) (hPlain : m.Plain) :
    ∃ C' r, C.read (.ok (self.packet m).flatten) = some (C', r) ∧ (r = none ∨ r = some m) := by
  have hShort : m.sender.payload.length ≤ 1000 := hPlain.payload
  have hPayload : m.sender.payload.length ≤ 65495 := by omega
  obtain ⟨d, hWrap, hWrapped⟩ := self.wrapped hPayload
  have hBytes : (self.packet m).flatten = d.header.wire ++ d.payload.flatten := by
    have hPacket : self.packet m = d.wire := by
      apply Option.some.inj
      rw [packet, Option.some_get, hWrap, Option.bind_some,
        IPv4Datagram.serialize_eq hWrapped.header.ver]
    rw [hPacket, d.wire_flatten]
  have hLength : (self.packet m).flatten.length = 40 + m.sender.payload.length := by
    rw [hBytes, List.length_append, IPv4Header.length_wire, hWrapped.payload,
      TCPSegment.length_wire, ← Nat.add_assoc]
    rfl
  obtain ⟨bufs, hPadded, hBuffers, hFlatten⟩ :=
    FileDescriptor.scatter_padded (show ∀ size ∈ [20, 20, 16384], 0 < size by decide)
      (show (self.packet m).flatten.length ≤ 16424 by rw [hLength]; omega)
  rw [hBytes] at hFlatten
  have hOptions : d.header.hlen.toNat * 4 - 20 = 0 := by
    rw [hWrapped.hlen]
    rfl
  obtain ⟨payload, hParse, hBody, hNonempty⟩ :=
    IPv4Datagram.parse_wire hWrapped.header hBuffers hFlatten (by
      rw [hOptions]
      exact hWrapped.payloadLength)
  rw [hOptions, List.drop_zero] at hBody
  have hRead : TCPOverIPv4Adapter.Wrapped self.toTCPOverIPv4Adapter m ⟨d.header, payload⟩ :=
    ⟨hWrapped.header, hWrapped.hlen, hWrapped.src, hWrapped.dst, hWrapped.proto,
      hBody.trans hWrapped.payload, hBody ▸ hWrapped.payloadLength⟩
  obtain ⟨udinfo, -, -, hSegment⟩ := hRead.parse_payload hPayload hNonempty
  obtain ⟨d', hParse', hSame⟩ := parse_padded (IPv4Datagram.tolerates_parse {}) hPadded hParse
  obtain ⟨_, hSegment', rfl⟩ :=
    parse_padded (TCPSegment.patient_parse {} _) hSame.payload hSegment
  rw [← hSame.header] at hSegment'
  obtain ⟨C', r, hUnwrap, hResult⟩ := C.toTCPOverIPv4Adapter.unwrap_of_parse hSegment'
  rw [hPlain.received_eq] at hResult
  refine ⟨{ C with toTCPOverIPv4Adapter := C', tun := C.tun.registerRead }, r, ?_, hResult⟩
  have hScatter : C.tun.readBuffers [IPv4Header.LENGTH, TCPSegment.HEADER_LENGTH.toNat, 0]
      (.ok (self.packet m).flatten) =
        some (C.tun.registerRead,
          FileDescriptor.scatter [20, 20, 16384] (self.packet m).flatten) := by
    rw [FileDescriptor.readBuffers, if_neg (List.cons_ne_nil _ _)]
    exact if_neg (show ¬ 16424 < (self.packet m).flatten.length by omega)
  simp [read, hScatter, hParse', hUnwrap]

theorem read_tun {self self' : TCPOverIPv4OverTunFdAdapter} {answer : SystemCall (List Byte)}
    {r : Option TCPMessage} (h : self.read answer = some (self', r)) :
    self.tun.SameEnd self'.tun := by
  obtain ⟨⟨tun, strs⟩, hRead, h⟩ := Option.bind_eq_some_iff.mp h
  obtain ⟨parsed, hParse, h⟩ := Option.bind_eq_some_iff.mp h
  have hTun : self.tun.SameEnd tun := by
    obtain rfl | rfl := FileDescriptor.readBuffers_eq_some hRead <;> exact ⟨rfl, rfl⟩
  cases parsed with
  | none =>
    cases h
    exact hTun
  | some ipDgram =>
    obtain ⟨_, hUnwrap, h⟩ := Option.bind_eq_some_iff.mp h
    cases h
    exact hTun

instance : LawfulAdapter TCPOverIPv4OverTunFdAdapter where
  read_write a b m f hPlain hMem := by
    obtain rfl := List.mem_singleton.mp hMem
    exact a.read_packet b hPlain
  read_fd _ _ _ _ h := read_tun h
  write_fd _ _ := ⟨rfl, rfl⟩
  configure_fd _ _ := ⟨rfl, rfl⟩
  listening_fd _ _ := ⟨rfl, rfl⟩

end TCPOverIPv4OverTunFdAdapter

namespace LossyFdAdapter

variable {A F R : Type} [TCPDatagramAdapter A F] [RandomEngine R]

theorem shouldDrop_adapter (self : LossyFdAdapter A R) (uplink : Bool) :
    (self.shouldDrop uplink).2.adapter = self.adapter := by
  rw [shouldDrop]
  dsimp only
  generalize (if uplink = true then self.lossRateUp else self.lossRateDn) = loss
  split <;> rfl

theorem read_eq {self : LossyFdAdapter A R} {answer : SystemCall F} {adapter : A}
    {ret : Option TCPMessage}
    (h : TCPDatagramAdapter.read self.adapter answer = some (adapter, ret)) :
    LossyFdAdapter.read self answer = some (({ self with adapter := adapter }.shouldDrop false).2,
      if ({ self with adapter := adapter }.shouldDrop false).1 then none else ret) := by
  change (TCPDatagramAdapter.read self.adapter answer).bind _ = _
  rw [h]
  rfl

/-- A read of the lossy adapter is one of the other adapter, whose message may get lost. -/
theorem read_eq_some {self self' : LossyFdAdapter A R} {answer : SystemCall F}
    {r : Option TCPMessage} (h : LossyFdAdapter.read self answer = some (self', r)) :
    ∃ ret, TCPDatagramAdapter.read self.adapter answer = some (self'.adapter, ret) ∧
      (r = none ∨ r = ret) := by
  obtain ⟨⟨adapter, ret⟩, hRead, -⟩ := Option.bind_eq_some_iff.mp h
  rw [read_eq hRead] at h
  obtain ⟨rfl, rfl⟩ := Prod.mk.inj (Option.some.inj h)
  refine ⟨ret, ?_, ?_⟩
  · rw [shouldDrop_adapter]
    exact hRead
  · split
    · exact .inl rfl
    · exact .inr rfl

instance [LawfulAdapter A] : LawfulAdapter (LossyFdAdapter A R) where
  read_write a b m f hPlain hMem := by
    have hWritten : f ∈ (TCPDatagramAdapter.write a.adapter m).2 := by
      change f ∈ (LossyFdAdapter.write a m).2 at hMem
      rw [LossyFdAdapter.write] at hMem
      dsimp only at hMem
      split at hMem
      · exact absurd hMem List.not_mem_nil
      · rw [shouldDrop_adapter] at hMem
        exact hMem
    obtain ⟨adapter, ret, hRead, hRet⟩ :=
      LawfulAdapter.read_write a.adapter b.adapter hPlain hWritten
    refine ⟨_, _, read_eq hRead, ?_⟩
    split
    · exact .inl rfl
    · exact hRet
  read_fd a _ _ _ h := by
    obtain ⟨ret, hRead, -⟩ := read_eq_some h
    exact LawfulAdapter.read_fd a.adapter hRead
  write_fd a m := by
    change (TCPDatagramAdapter.fd a.adapter).SameEnd
      (TCPDatagramAdapter.fd (LossyFdAdapter.write a m).1.adapter)
    rw [LossyFdAdapter.write]
    dsimp only
    split
    · rw [shouldDrop_adapter]
      exact ⟨rfl, rfl⟩
    · rw [shouldDrop_adapter]
      exact LawfulAdapter.write_fd a.adapter m
  configure_fd a cfg := LawfulAdapter.configure_fd a.adapter cfg
  listening_fd a l := LawfulAdapter.listening_fd a.adapter l

end LossyFdAdapter

end Minnow
