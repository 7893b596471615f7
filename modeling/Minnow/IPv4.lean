import Minnow.Checksum
import Minnow.ParserReads

/-! # IPv4 datagrams

`serialize` writes twenty bytes whatever the header length says; `parse` skips
the options that the header length announces.
-/

namespace Minnow

open Library Minnow.Parser

structure IPv4Header where
  ver : UInt8 := 4
  hlen : UInt8 := 5
  tos : UInt8 := 0
  len : UInt16 := 0
  id : UInt16 := 0
  df : Bool := true
  mf : Bool := false
  offset : UInt16 := 0
  ttl : UInt8 := 128
  proto : UInt8 := 6
  cksum : UInt16 := 0
  src : UInt32 := 0
  dst : UInt32 := 0
deriving DecidableEq

namespace IPv4Header

def LENGTH : Nat := 20

def PROTO_TCP : UInt8 := 6

def firstByte (self : IPv4Header) : UInt8 := self.ver <<< 4 ||| self.hlen &&& 0xf

def foVal (self : IPv4Header) : UInt16 :=
  (if self.df then 0x4000 else 0) ||| (if self.mf then 0x2000 else 0) ||| self.offset &&& 0x1fff

/-- `none` is the exception for another version. -/
def serialize (self : IPv4Header) (serializer : Serializer) : Option Serializer :=
  if self.ver ≠ 4 then none
  else some <|
    serializer
    |>.integer 1 self.firstByte.toNat
    |>.integer 1 self.tos.toNat
    |>.integer 2 self.len.toNat
    |>.integer 2 self.id.toNat
    |>.integer 2 self.foVal.toNat
    |>.integer 1 self.ttl.toNat
    |>.integer 1 self.proto.toNat
    |>.integer 2 self.cksum.toNat
    |>.integer 4 self.src.toNat
    |>.integer 4 self.dst.toNat

def payloadLength (self : IPv4Header) : UInt16 := self.len - 4 * self.hlen.toUInt16

/-- Six terms of at most 16 bits each: the 32-bit sum of the source does not wrap. -/
def pseudoChecksum (self : IPv4Header) : Nat :=
  (self.src.toNat >>> 16 + self.src.toNat % 2 ^ 16) +
    (self.dst.toNat >>> 16 + self.dst.toNat % 2 ^ 16) + self.proto.toNat +
    self.payloadLength.toNat

def computeChecksum (self : IPv4Header) : Option IPv4Header := do
  let zeroed := { self with cksum := 0 }
  let s ← zeroed.serialize Serializer.new
  let check := (InternetChecksum.new 0).addAll s.finish
  return { zeroed with cksum := check.value }

def parseFields (self : IPv4Header) : ParseM IPv4Header := do
  let firstByte ← integer8 0
  let tos ← integer8 self.tos
  let len ← integer16 self.len
  let id ← integer16 self.id
  let foVal ← integer16 0
  let ttl ← integer8 self.ttl
  let proto ← integer8 self.proto
  let cksum ← integer16 self.cksum
  let src ← integer32 self.src
  let dst ← integer32 self.dst
  return {
    ver := firstByte >>> 4, hlen := firstByte &&& 0x0f, tos, len, id
    df := foVal &&& 0x4000 != 0, mf := foVal &&& 0x2000 != 0, offset := foVal &&& 0x1fff
    ttl, proto, cksum, src, dst }

def verifyChecksum (self : IPv4Header) : ParseM IPv4Header := do
  let givenCksum := self.cksum
  let self ← self.computeChecksum
  setErrorIf (self.cksum ≠ givenCksum)
  return self

def parse (self : IPv4Header) : ParseM IPv4Header := do
  let self ← self.parseFields
  setErrorIf (self.ver ≠ 4)
  setErrorIf (self.hlen < 5)
  if ← hasError then return self
  removePrefix (self.hlen.toNat * 4 - LENGTH)
  self.verifyChecksum

end IPv4Header

structure IPv4Datagram where
  header : IPv4Header := {}
  payload : List Buffer := []
deriving DecidableEq

namespace IPv4Datagram

def parse (self : IPv4Datagram) : ParseM IPv4Datagram := do
  let header ← self.header.parse
  truncate header.payloadLength.toNat
  return { header, payload := ← allRemaining }

def serialize (self : IPv4Datagram) (serializer : Serializer) : Option Serializer := do
  return (← self.header.serialize serializer).appendAll self.payload

end IPv4Datagram

end Minnow
