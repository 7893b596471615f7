import Minnow.IPv4
import Minnow.ParserPosition

/-! # Reading back what was written

A header that `parse` accepts is canonical: its bit fields fit, and its
checksum is its own. A canonical header is read back from the twenty bytes
`serialize` writes; the options it announces are taken from what follows.
-/

namespace Minnow

open Library Minnow.Parser

theorem uint8_or_and (a b c : UInt8) : (a ||| b) &&& c = a &&& c ||| b &&& c := by
  rw [← UInt8.toNat_inj]
  simp only [UInt8.toNat_and, UInt8.toNat_or, Nat.and_or_distrib_right]

theorem uint16_or_and (a b c : UInt16) : (a ||| b) &&& c = a &&& c ||| b &&& c := by
  rw [← UInt16.toNat_inj]
  simp only [UInt16.toNat_and, UInt16.toNat_or, Nat.and_or_distrib_right]

namespace Serializer

theorem finish_appendAll_of_nil (output : List Buffer) (bufs : List Buffer) :
    (appendAll bufs ⟨output, []⟩).finish = output ++ bufs.filter fun b => !b.isEmpty := by
  induction bufs generalizing output with
  | nil => simp [appendAll, finish, flush]
  | cons b bufs ih =>
    have hCons : appendAll (b :: bufs) ⟨output, []⟩ =
        appendAll bufs (append b ⟨output, []⟩) := rfl
    rw [hCons]
    cases hEmpty : b.isEmpty with
    | true => simp [append, hEmpty, ih]
    | false => simp [append, hEmpty, flush, ih]

theorem finish_appendAll (output : List Buffer) {buffer : Buffer} (h : buffer ≠ [])
    (bufs : List Buffer) :
    (appendAll bufs ⟨output, buffer⟩).finish =
      output ++ buffer :: bufs.filter fun b => !b.isEmpty := by
  have hFlush : buffer.isEmpty = false := by rw [List.isEmpty_eq_false_iff]; exact h
  induction bufs with
  | nil => simp [appendAll, finish, flush, hFlush]
  | cons b bufs ih =>
    have hCons : appendAll (b :: bufs) ⟨output, buffer⟩ =
        appendAll bufs (append b ⟨output, buffer⟩) := rfl
    rw [hCons]
    cases hEmpty : b.isEmpty with
    | true => simp [append, hEmpty, ih]
    | false => simp [append, hEmpty, flush, hFlush, finish_appendAll_of_nil]

end Serializer

namespace IPv4Header

/-- The twenty bytes that `serialize` writes. -/
def wire (h : IPv4Header) : List Byte :=
  BigEndian.encode 1 h.firstByte.toNat ++ BigEndian.encode 1 h.tos.toNat ++
    BigEndian.encode 2 h.len.toNat ++ BigEndian.encode 2 h.id.toNat ++
    BigEndian.encode 2 h.foVal.toNat ++ BigEndian.encode 1 h.ttl.toNat ++
    BigEndian.encode 1 h.proto.toNat ++ BigEndian.encode 2 h.cksum.toNat ++
    BigEndian.encode 4 h.src.toNat ++ BigEndian.encode 4 h.dst.toNat

theorem length_wire (h : IPv4Header) : h.wire.length = 20 := by
  simp [wire]

theorem wire_ne_nil (h : IPv4Header) : h.wire ≠ [] := by
  rw [← List.length_pos_iff, length_wire]
  decide

def checksum (h : IPv4Header) : UInt16 :=
  ((InternetChecksum.new 0).add { h with cksum := 0 }.wire).value

structure Canonical (h : IPv4Header) : Prop where
  ver : h.ver = 4
  hlen_ge : 5 ≤ h.hlen
  hlen_mask : h.hlen &&& 0xf = h.hlen
  offset_mask : h.offset &&& 0x1fff = h.offset
  cksum : h.cksum = h.checksum

section Fields

variable {h : IPv4Header} {bufs : List Buffer} {n : Nat}

theorem serialize_eq (hVer : h.ver = 4) (s : Serializer) :
    h.serialize s = some { s with buffer := s.buffer ++ h.wire } := by
  rw [serialize, if_neg (not_not.mpr hVer)]
  simp only [Serializer.integer, wire, List.append_assoc]

theorem checksum_cksum (h : IPv4Header) (cksum : UInt16) : { h with cksum }.checksum = h.checksum :=
  rfl

theorem payloadLength_cksum (h : IPv4Header) (cksum : UInt16) :
    { h with cksum }.payloadLength = h.payloadLength := rfl

theorem pseudoChecksum_cksum (h : IPv4Header) (cksum : UInt16) :
    { h with cksum }.pseudoChecksum = h.pseudoChecksum := rfl

theorem pseudoChecksum_le (h : IPv4Header) : h.pseudoChecksum ≤ 6 * 0xffff := by
  have hSrc := h.src.toNat_lt
  have hDst := h.dst.toNat_lt
  have hProto := h.proto.toNat_lt
  have hLength := h.payloadLength.toNat_lt
  rw [pseudoChecksum, Nat.shiftRight_eq_div_pow, Nat.shiftRight_eq_div_pow]
  omega

theorem Canonical.of_checksum (hVer : h.ver = 4) (hMin : 5 ≤ h.hlen)
    (hHlen : h.hlen &&& 0xf = h.hlen) (hOffset : h.offset &&& 0x1fff = h.offset) :
    Canonical { h with cksum := h.checksum } :=
  ⟨hVer, hMin, hHlen, hOffset, (h.checksum_cksum h.checksum).symm⟩

theorem computeChecksum_eq (hVer : h.ver = 4) :
    h.computeChecksum = some { h with cksum := h.checksum } := by
  have hFinish : Serializer.finish ⟨[], { h with cksum := 0 }.wire⟩ =
      [{ h with cksum := 0 }.wire] :=
    Serializer.finish_appendAll [] (wire_ne_nil _) []
  have hSerialize : { h with cksum := 0 }.serialize Serializer.new =
      some ⟨[], { h with cksum := 0 }.wire⟩ := serialize_eq (h := { h with cksum := 0 }) hVer _
  simp only [computeChecksum, hSerialize, Option.bind_eq_bind, Option.bind_some, hFinish,
    InternetChecksum.addAll, List.foldl_cons, List.foldl_nil]
  rfl

theorem firstByte_shift (hVer : h.ver = 4) : h.firstByte >>> 4 = 4 := by
  have hLow : (0xf : UInt8) >>> 4 = 0 := rfl
  rw [firstByte, hVer, UInt8.shiftRight_or, UInt8.shiftRight_and, hLow, UInt8.and_zero]
  rfl

theorem firstByte_and (hVer : h.ver = 4) (hMask : h.hlen &&& 0xf = h.hlen) :
    h.firstByte &&& 0x0f = h.hlen := by
  rw [firstByte, hVer, uint8_or_and, UInt8.and_assoc, UInt8.and_self, hMask]
  exact UInt8.zero_or

theorem foVal_df : (h.foVal &&& 0x4000 != 0) = h.df := by
  have hLow : (0x1fff : UInt16) &&& 0x4000 = 0 := rfl
  rw [foVal, uint16_or_and, UInt16.and_assoc, hLow, UInt16.and_zero]
  cases h.df <;> cases h.mf <;> rfl

theorem foVal_mf : (h.foVal &&& 0x2000 != 0) = h.mf := by
  have hLow : (0x1fff : UInt16) &&& 0x2000 = 0 := rfl
  rw [foVal, uint16_or_and, UInt16.and_assoc, hLow, UInt16.and_zero]
  cases h.df <;> cases h.mf <;> rfl

theorem foVal_offset (hMask : h.offset &&& 0x1fff = h.offset) : h.foVal &&& 0x1fff = h.offset := by
  rw [foVal, uint16_or_and, UInt16.and_assoc, UInt16.and_self, hMask]
  cases h.df <;> cases h.mf <;> exact UInt16.zero_or

theorem gives_parseFields (self : IPv4Header) {rest : List Byte} (hVer : h.ver = 4)
    (hHlen : h.hlen &&& 0xf = h.hlen) (hOffset : h.offset &&& 0x1fff = h.offset) :
    Gives self.parseFields (h.wire ++ rest) fun a r => a = h ∧ r = rest := by
  simp only [wire, List.append_assoc]
  refine (gives_integer8 h.firstByte 0).bind ?_
  rintro _ _ ⟨rfl, rfl⟩
  refine (gives_integer8 h.tos _).bind ?_
  rintro _ _ ⟨rfl, rfl⟩
  refine (gives_integer16 h.len _).bind ?_
  rintro _ _ ⟨rfl, rfl⟩
  refine (gives_integer16 h.id _).bind ?_
  rintro _ _ ⟨rfl, rfl⟩
  refine (gives_integer16 h.foVal 0).bind ?_
  rintro _ _ ⟨rfl, rfl⟩
  refine (gives_integer8 h.ttl _).bind ?_
  rintro _ _ ⟨rfl, rfl⟩
  refine (gives_integer8 h.proto _).bind ?_
  rintro _ _ ⟨rfl, rfl⟩
  refine (gives_integer16 h.cksum _).bind ?_
  rintro _ _ ⟨rfl, rfl⟩
  refine (gives_integer32 h.src _).bind ?_
  rintro _ _ ⟨rfl, rfl⟩
  refine (gives_integer32 h.dst _).bind ?_
  rintro _ _ ⟨rfl, rfl⟩
  apply Gives.pure
  rw [firstByte_shift hVer, firstByte_and hVer hHlen, foVal_df, foVal_mf, foVal_offset hOffset,
    ← hVer]
  exact ⟨rfl, rfl⟩

theorem Canonical.computeChecksum (hCan : Canonical h) : h.computeChecksum = some h := by
  rw [computeChecksum_eq hCan.ver, ← hCan.cksum]

theorem gives_verifyChecksum (hCan : Canonical h) {bytes : List Byte} :
    Gives h.verifyChecksum bytes fun a rest => a = h ∧ rest = bytes := by
  rw [verifyChecksum, hCan.computeChecksum]
  refine (gives_lift h).bind ?_
  rintro _ _ ⟨rfl, rfl⟩
  refine (gives_setErrorIf (not_not.mpr rfl)).bind ?_
  rintro _ _ rfl
  exact Gives.pure ⟨rfl, rfl⟩

theorem gives_parse (self : IPv4Header) (hCan : Canonical h) {rest : List Byte} :
    Gives self.parse (h.wire ++ rest) fun a r =>
      a = h ∧ r = rest.drop (h.hlen.toNat * 4 - 20) := by
  refine (gives_parseFields self hCan.ver hCan.hlen_mask hCan.offset_mask).bind ?_
  rintro _ _ ⟨rfl, rfl⟩
  refine (gives_setErrorIf (not_not.mpr hCan.ver)).bind ?_
  rintro _ _ rfl
  refine (gives_setErrorIf (UInt8.not_lt.mpr hCan.hlen_ge)).bind ?_
  rintro _ _ rfl
  refine gives_hasError.bind ?_
  rintro _ _ ⟨rfl, rfl⟩
  refine (gives_removePrefix _).bind ?_
  rintro _ _ rfl
  exact gives_verifyChecksum hCan

theorem verifyChecksum_of_ok {self : IPv4Header} {p p' : Parser} (hVer : self.ver = 4)
    (hRun : self.verifyChecksum p = some (h, p')) (hError : p'.error = false) :
    h = self ∧ self.cksum = self.checksum := by
  rw [verifyChecksum, computeChecksum_eq hVer] at hRun
  obtain ⟨_, mid, hLift, hRun⟩ := bind_eq_some hRun
  cases hLift
  obtain ⟨_, last, hCheck, hRun⟩ := bind_eq_some hRun
  cases hRun
  rw [setErrorIf] at hCheck
  split at hCheck
  · cases hCheck
    cases hError
  · rename_i hSame
    have hEq := not_not.mp hSame
    dsimp only at hEq
    rw [hEq]
    exact ⟨rfl, rfl⟩

theorem setErrorIf_of_ok {c : Prop} [Decidable c] {p p' : Parser} {u : Unit}
    (hRun : setErrorIf c p = some (u, p')) : (p'.error = false → ¬ c) ∧ (¬ c → p' = p) := by
  rw [setErrorIf] at hRun
  split at hRun
  · rename_i hc
    cases hRun
    exact ⟨fun hError => Bool.noConfusion hError, fun h => absurd hc h⟩
  · rename_i hc
    cases hRun
    exact ⟨fun _ => hc, fun _ => rfl⟩

/-- A header that is read without an error is one of version 4. -/
theorem ver_of_parse {self : IPv4Header} {p p' : Parser} (hRun : self.parse p = some (h, p'))
    (hError : p'.error = false) : h.ver = 4 := by
  obtain ⟨fields, mid, -, hRun⟩ := bind_eq_some hRun
  obtain ⟨_, mid₂, hVer, hRun⟩ := bind_eq_some hRun
  obtain ⟨_, mid₃, hMin, hRun⟩ := bind_eq_some hRun
  obtain ⟨_, _, hFlag, hRun⟩ := bind_eq_some hRun
  cases hFlag
  cases hError₃ : mid₃.error with
  | true =>
    rw [hError₃] at hRun
    cases hRun
    exact absurd hError₃ (by rw [hError]; exact Bool.false_ne_true)
  | false =>
    obtain ⟨hOk, hSame⟩ := setErrorIf_of_ok hMin
    have hVer' := (setErrorIf_of_ok hVer).1 (hSame (hOk hError₃) ▸ hError₃)
    rw [hError₃] at hRun
    obtain ⟨_, mid₄, -, hRun⟩ := bind_eq_some hRun
    exact (verifyChecksum_of_ok (not_not.mp hVer') hRun hError).1 ▸ not_not.mp hVer'

theorem reads_parseFields (self : IPv4Header) : Reads bufs n self.parseFields fun h n' =>
    n' = n + LENGTH ∧ h.hlen &&& 0xf = h.hlen ∧ h.offset &&& 0x1fff = h.offset ∧
      h.hlen.toNat = fieldAt bufs.flatten n 1 % 16 ∧
      h.len.toNat = fieldAt bufs.flatten (n + 2) 2 := by
  refine (reads_integer8 0).bind fun firstByte n₁ => ?_
  refine (reads_integer8 _).bind fun tos n₂ => ?_
  refine (reads_integer16 _).bind fun len n₃ => ?_
  refine (reads_integer16 _).bind fun id n₄ => ?_
  refine (reads_integer16 _).bind fun foVal n₅ => ?_
  refine (reads_integer8 _).bind fun ttl n₆ => ?_
  refine (reads_integer8 _).bind fun proto n₇ => ?_
  refine (reads_integer16 _).bind fun cksum n₈ => ?_
  refine (reads_integer32 _).bind fun src n₉ => ?_
  refine (reads_integer32 _).bind fun dst n₁₀ => Reads.pure ?_
  -- the hypotheses come from the last read to the first
  rintro ⟨-, -, hEnd⟩ ⟨-, -, h₉⟩ ⟨-, -, h₈⟩ ⟨-, -, h₇⟩ ⟨-, -, h₆⟩ ⟨-, -, h₅⟩ ⟨-, -, h₄⟩
    ⟨hLen, -, h₃⟩ ⟨-, -, h₂⟩ ⟨hFirst, -, h₁⟩
  have hLow : (firstByte &&& 0x0f).toNat = firstByte.toNat % 16 := by
    rw [UInt8.toNat_and]
    exact Nat.and_two_pow_sub_one_eq_mod firstByte.toNat 4
  obtain rfl : n₂ = n + 2 := by omega
  refine ⟨?_, ?_, ?_, hFirst ▸ hLow, hLen⟩
  · rw [LENGTH]
    omega
  · rw [UInt8.and_assoc, UInt8.and_self]
  · rw [UInt16.and_assoc, UInt16.and_self]

theorem reads_verifyChecksum (self : IPv4Header) : Reads bufs n self.verifyChecksum fun h n' =>
    n' = n ∧ (self.ver = 4 → h = self ∧ self.cksum = self.checksum) := by
  refine (reads_lift _).bind fun header n₁ => (reads_setErrorIf _).bind fun _ n₂ => Reads.pure ?_
  rintro ⟨hSame, rfl⟩ ⟨hCompute, rfl⟩
  refine ⟨rfl, fun hVer => ?_⟩
  rw [computeChecksum_eq hVer] at hCompute
  cases hCompute
  have hCksum : self.checksum = self.cksum := not_not.mp hSame
  rw [hCksum]
  exact ⟨rfl, rfl⟩

/-- A header read without an error is canonical, and the position is where it ends. -/
theorem reads_parse (self : IPv4Header) : Reads bufs n self.parse fun h n' =>
    Canonical h ∧ n' = n + 4 * h.hlen.toNat ∧ h.hlen.toNat = fieldAt bufs.flatten n 1 % 16 ∧
      h.len.toNat = fieldAt bufs.flatten (n + 2) 2 := by
  refine (reads_parseFields self).bind fun fields n₁ => ?_
  refine (reads_setErrorIf _).bind fun _ n₂ => (reads_setErrorIf _).bind fun _ n₃ => ?_
  refine reads_hasError.bind fun error n₄ => ?_
  cases error with
  | true =>
    apply Reads.pure
    rintro ⟨hFalse, -⟩
    cases hFalse
  | false =>
    refine (reads_removePrefix _).bind fun _ n₅ => (reads_verifyChecksum fields).imp ?_
    rintro h n' ⟨rfl, hCheck⟩ rfl ⟨-, rfl⟩ ⟨hMin, rfl⟩ ⟨hVer, rfl⟩
      ⟨rfl, hHlen, hOffset, hLow, hTotal⟩
    obtain ⟨rfl, hCksum⟩ := hCheck (not_not.mp hVer)
    have hMin' : 5 ≤ h.hlen := UInt8.not_lt.mp hMin
    refine ⟨⟨not_not.mp hVer, hMin', hHlen, hOffset, hCksum⟩, ?_, hLow, hTotal⟩
    have hLeast : 5 ≤ h.hlen.toNat := UInt8.le_iff_toNat_le.mp hMin'
    rw [LENGTH]
    omega

theorem steady_parse (self : IPv4Header) : Steady self.parse :=
  Reads.steady fun _ _ => reads_parse self

/-- What a header accepted from any buffers is known to be. -/
theorem canonical_of_parse {self : IPv4Header} {p p' : Parser}
    (hRun : self.parse p = some (h, p')) (hHolds : ∃ bytes, p.input.Holds bytes)
    (hError : p'.error = false) : Canonical h ∧ ∃ bytes, p'.input.Holds bytes := by
  obtain ⟨hHolds', -⟩ := steady_parse self _ _ _ hRun hHolds
  obtain ⟨bytes, hBytes⟩ := hHolds
  obtain ⟨n', -, hOk⟩ := reads_parse self _ _ _ hBytes.past hRun
  exact ⟨(hOk hError).2.1, hHolds'⟩

end Fields

end IPv4Header

theorem Parser.at_new {buffers : List Buffer} (h : ∀ b ∈ buffers, b ≠ []) :
    At buffers.flatten (Parser.new buffers) :=
  ⟨BufferList.holds_new h, rfl⟩

theorem parse_of_gives {α : Type} {m : ParseM α} {buffers : List Buffer}
    {Q : α → List Byte → Prop} (h : ∀ b ∈ buffers, b ≠ []) (hm : Gives m buffers.flatten Q) :
    ∃ a rest, parse m buffers = some (some a) ∧ Q a rest := by
  obtain ⟨a, p, rest, hRun, hAt, hQ⟩ := hm _ (at_new h)
  refine ⟨a, rest, ?_, hQ⟩
  have hRun' : StateT.run m (Parser.new buffers) = some (a, p) := hRun
  simp [parse, hRun', hAt.error]

theorem run_of_parse {α : Type} {m : ParseM α} {buffers : List Buffer} {a : α}
    (h : parse m buffers = some (some a)) :
    ∃ p, m (Parser.new buffers) = some (a, p) ∧ p.error = false := by
  obtain ⟨⟨obj, p⟩, hRun, hResult⟩ := Option.bind_eq_some_iff.mp h
  have hResult' : (if p.error then none else some obj) = some a := Option.some.inj hResult
  cases hError : p.error with
  | true => rw [hError] at hResult'; cases hResult'
  | false =>
    rw [hError] at hResult'
    cases hResult'
    exact ⟨p, hRun, hError⟩

namespace IPv4Datagram

open IPv4Header

variable {d : IPv4Datagram} {buffers : List Buffer}

/-- What a datagram accepted from any buffers is known to be. -/
structure Accepted (d : IPv4Datagram) : Prop where
  header : d.header.Canonical
  payload_le : d.payload.flatten.length ≤ d.header.payloadLength.toNat

/-- An accepted datagram is its header and what `truncate` leaves behind it. -/
theorem parse_eq_some_iff : Minnow.parse ({} : IPv4Datagram).parse buffers = some (some d) ↔
    ∃ p, ({} : IPv4Header).parse (Parser.new buffers) = some (d.header, p) ∧ p.error = false ∧
      (p.input.truncate d.header.payloadLength.toNat).views = some d.payload := by
  constructor
  · intro hParse
    obtain ⟨p, hRun, hError⟩ := run_of_parse hParse
    obtain ⟨header, mid, hHeader, hRun⟩ := bind_eq_some hRun
    obtain ⟨_, mid', hTruncate, hRun⟩ := bind_eq_some hRun
    cases hTruncate
    obtain ⟨payload, last, hRemaining, hRun⟩ := bind_eq_some hRun
    cases hRun
    obtain ⟨bufs, hViews, hEnd⟩ := Option.bind_eq_some_iff.mp hRemaining
    cases hEnd
    exact ⟨mid, hHeader, hError, hViews⟩
  · rintro ⟨p, hHeader, hError, hViews⟩
    have hRun : StateT.run ({} : IPv4Datagram).parse (Parser.new buffers) =
        some (d, { p with input := p.input.truncate d.header.payloadLength.toNat }) := by
      change (({} : IPv4Header).parse (Parser.new buffers)).bind _ = _
      rw [hHeader]
      change ((p.input.truncate d.header.payloadLength.toNat).views.bind _).bind _ = _
      rw [hViews]
      rfl
    simp [Minnow.parse, hRun, hError]

theorem accepted_of_parse (hBuffers : ∀ b ∈ buffers, b ≠ [])
    (h : Minnow.parse ({} : IPv4Datagram).parse buffers = some (some d)) : Accepted d := by
  obtain ⟨p, hHeader, hError, hViews⟩ := parse_eq_some_iff.mp h
  obtain ⟨hCan, bytes, hHolds⟩ :=
    canonical_of_parse hHeader ⟨_, BufferList.holds_new hBuffers⟩ hError
  exact ⟨hCan, hHolds.length_truncate_le hViews⟩

theorem ver_of_parse (h : Minnow.parse ({} : IPv4Datagram).parse buffers = some (some d)) :
    d.header.ver = 4 := by
  obtain ⟨p, hHeader, hError, -⟩ := parse_eq_some_iff.mp h
  exact IPv4Header.ver_of_parse hHeader hError

/-- The buffers of a datagram. -/
def wire (d : IPv4Datagram) : List Buffer :=
  d.header.wire :: d.payload.filter fun b => !b.isEmpty

theorem wire_flatten (d : IPv4Datagram) : d.wire.flatten = d.header.wire ++ d.payload.flatten := by
  rw [wire, List.flatten_cons, List.flatten_filter_not_isEmpty]

theorem wire_ne_nil (d : IPv4Datagram) : ∀ b ∈ d.wire, b ≠ [] := by
  intro b hMem
  obtain rfl | hMem := List.mem_cons.mp hMem
  · exact d.header.wire_ne_nil
  · simpa using (List.mem_filter.mp hMem).2

theorem serialize_eq (hVer : d.header.ver = 4) : Minnow.serialize d.serialize = some d.wire := by
  have hFinish := Serializer.finish_appendAll [] d.header.wire_ne_nil d.payload
  have hHeader := IPv4Header.serialize_eq hVer Serializer.new
  simp only [Serializer.new, List.nil_append] at hHeader hFinish
  simp [Minnow.serialize, IPv4Datagram.serialize, Serializer.new, hHeader, hFinish, wire]

theorem serialize_of_ne (hVer : d.header.ver ≠ 4) : Minnow.serialize d.serialize = none := by
  simp [Minnow.serialize, IPv4Datagram.serialize, IPv4Header.serialize, hVer]

theorem serialize_eq_some {out : List Buffer} :
    Minnow.serialize d.serialize = some out ↔ d.header.ver = 4 ∧ out = d.wire := by
  by_cases hVer : d.header.ver = 4
  · rw [serialize_eq hVer, Option.some.injEq, eq_comm]
    exact (and_iff_right hVer).symm
  · rw [serialize_of_ne hVer]
    exact iff_of_false (Option.some_ne_none out).symm fun h => hVer h.1

/-- Reading a canonical header and what follows it, with no more left than the header says. -/
theorem parse_wire {h : IPv4Header} (hCan : h.Canonical) {body : List Byte}
    (hBuffers : ∀ b ∈ buffers, b ≠ []) (hBytes : buffers.flatten = h.wire ++ body)
    (hLen : (body.drop (h.hlen.toNat * 4 - 20)).length ≤ h.payloadLength.toNat) :
    ∃ payload, Minnow.parse ({} : IPv4Datagram).parse buffers = some (some ⟨h, payload⟩) ∧
      payload.flatten = body.drop (h.hlen.toNat * 4 - 20) ∧ ∀ b ∈ payload, b ≠ [] := by
  have hGives : Gives ({} : IPv4Datagram).parse buffers.flatten fun a _ =>
      a.header = h ∧ a.payload.flatten = body.drop (h.hlen.toNat * 4 - 20) ∧
        ∀ b ∈ a.payload, b ≠ [] := by
    rw [hBytes]
    refine (gives_parse _ hCan).bind ?_
    rintro _ _ ⟨rfl, rfl⟩
    refine (gives_truncate hLen).bind ?_
    rintro _ _ rfl
    refine gives_allRemaining.bind ?_
    rintro payload _ ⟨hFlatten, hNonempty⟩
    exact Gives.pure ⟨rfl, hFlatten, hNonempty⟩
  obtain ⟨⟨header, payload⟩, -, hParse, hHeader, hFlatten, hNonempty⟩ :=
    parse_of_gives hBuffers hGives
  dsimp only at hHeader
  subst hHeader
  exact ⟨payload, hParse, hFlatten, hNonempty⟩

end IPv4Datagram

end Minnow
