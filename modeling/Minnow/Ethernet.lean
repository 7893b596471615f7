import Minnow.IPv4Wire

/-! # Ethernet frames and ARP messages -/

namespace Minnow

open Library Minnow.Parser

abbrev EthernetAddress := Vector UInt8 6

def ETHERNET_BROADCAST : EthernetAddress := #v[0xff, 0xff, 0xff, 0xff, 0xff, 0xff]

namespace EthernetAddress

def parse (self : EthernetAddress) : ParseM EthernetAddress := do
  let b0 ← integer8 self[0]
  let b1 ← integer8 self[1]
  let b2 ← integer8 self[2]
  let b3 ← integer8 self[3]
  let b4 ← integer8 self[4]
  let b5 ← integer8 self[5]
  return #v[b0, b1, b2, b3, b4, b5]

def serialize (self : EthernetAddress) (serializer : Serializer) : Serializer :=
  serializer
  |>.integer 1 self[0].toNat
  |>.integer 1 self[1].toNat
  |>.integer 1 self[2].toNat
  |>.integer 1 self[3].toNat
  |>.integer 1 self[4].toNat
  |>.integer 1 self[5].toNat

def wire (a : EthernetAddress) : List Byte :=
  BigEndian.encode 1 a[0].toNat ++ BigEndian.encode 1 a[1].toNat ++
    BigEndian.encode 1 a[2].toNat ++ BigEndian.encode 1 a[3].toNat ++
    BigEndian.encode 1 a[4].toNat ++ BigEndian.encode 1 a[5].toNat

theorem serialize_eq (a : EthernetAddress) (s : Serializer) :
    serialize a s = { s with buffer := s.buffer ++ wire a } := by
  simp only [serialize, Serializer.integer, wire, List.append_assoc]

theorem gives_parse (self a : EthernetAddress) {rest : List Byte} :
    Gives (parse self) (wire a ++ rest) fun b r => b = a ∧ r = rest := by
  simp only [wire, List.append_assoc]
  refine (gives_integer8 a[0] _).bind ?_
  rintro _ _ ⟨rfl, rfl⟩
  refine (gives_integer8 a[1] _).bind ?_
  rintro _ _ ⟨rfl, rfl⟩
  refine (gives_integer8 a[2] _).bind ?_
  rintro _ _ ⟨rfl, rfl⟩
  refine (gives_integer8 a[3] _).bind ?_
  rintro _ _ ⟨rfl, rfl⟩
  refine (gives_integer8 a[4] _).bind ?_
  rintro _ _ ⟨rfl, rfl⟩
  refine (gives_integer8 a[5] _).bind ?_
  rintro _ _ ⟨rfl, rfl⟩
  refine Gives.pure ⟨?_, rfl⟩
  ext i hi
  match i with
  | 0 => rfl
  | 1 => rfl
  | 2 => rfl
  | 3 => rfl
  | 4 => rfl
  | 5 => rfl

end EthernetAddress

structure EthernetHeader where
  dst : EthernetAddress
  src : EthernetAddress
  type : UInt16
deriving DecidableEq

namespace EthernetHeader

def TYPE_IPv4 : UInt16 := 0x800

def TYPE_ARP : UInt16 := 0x806

end EthernetHeader

structure EthernetFrame where
  header : EthernetHeader
  payload : List Buffer
deriving DecidableEq

structure ARPMessage where
  hardwareType : UInt16 := 1
  protocolType : UInt16 := EthernetHeader.TYPE_IPv4
  hardwareAddressSize : UInt8 := 6
  protocolAddressSize : UInt8 := 4
  opcode : UInt16 := 0
  senderEthernetAddress : EthernetAddress := Vector.replicate 6 0
  senderIpAddress : UInt32 := 0
  targetEthernetAddress : EthernetAddress := Vector.replicate 6 0
  targetIpAddress : UInt32 := 0
deriving DecidableEq

namespace ARPMessage

def TYPE_ETHERNET : UInt16 := 1

def OPCODE_REQUEST : UInt16 := 1

def OPCODE_REPLY : UInt16 := 2

def supported (self : ARPMessage) : Bool :=
  self.hardwareType == TYPE_ETHERNET && self.protocolType == EthernetHeader.TYPE_IPv4 &&
    self.hardwareAddressSize == 6 && self.protocolAddressSize == 4 &&
    (self.opcode == OPCODE_REQUEST || self.opcode == OPCODE_REPLY)

def parseAddresses (self : ARPMessage) : ParseM ARPMessage := do
  let senderEthernetAddress ← self.senderEthernetAddress.parse
  let senderIpAddress ← integer32 self.senderIpAddress
  let targetEthernetAddress ← self.targetEthernetAddress.parse
  let targetIpAddress ← integer32 self.targetIpAddress
  return { self with
    senderEthernetAddress, senderIpAddress, targetEthernetAddress, targetIpAddress }

def parse (self : ARPMessage) : ParseM ARPMessage := do
  let hardwareType ← integer16 self.hardwareType
  let protocolType ← integer16 self.protocolType
  let hardwareAddressSize ← integer8 self.hardwareAddressSize
  let protocolAddressSize ← integer8 self.protocolAddressSize
  let opcode ← integer16 self.opcode
  let self := { self with
    hardwareType, protocolType, hardwareAddressSize, protocolAddressSize, opcode }
  if self.supported then self.parseAddresses
  else do
    setError
    return self

/-- `none` is the exception for an unsupported field combination. -/
def serialize (self : ARPMessage) (serializer : Serializer) : Option Serializer :=
  if self.supported then
    some <|
      serializer
      |>.integer 2 self.hardwareType.toNat
      |>.integer 2 self.protocolType.toNat
      |>.integer 1 self.hardwareAddressSize.toNat
      |>.integer 1 self.protocolAddressSize.toNat
      |>.integer 2 self.opcode.toNat
      |> self.senderEthernetAddress.serialize
      |>.integer 4 self.senderIpAddress.toNat
      |> self.targetEthernetAddress.serialize
      |>.integer 4 self.targetIpAddress.toNat
  else none

def wire (m : ARPMessage) : List Byte :=
  BigEndian.encode 2 m.hardwareType.toNat ++ BigEndian.encode 2 m.protocolType.toNat ++
    BigEndian.encode 1 m.hardwareAddressSize.toNat ++
    BigEndian.encode 1 m.protocolAddressSize.toNat ++ BigEndian.encode 2 m.opcode.toNat ++
    m.senderEthernetAddress.wire ++ BigEndian.encode 4 m.senderIpAddress.toNat ++
    m.targetEthernetAddress.wire ++ BigEndian.encode 4 m.targetIpAddress.toNat

section Wire

variable {m : ARPMessage}

theorem serialize_eq (h : m.supported = true) :
    Minnow.serialize m.serialize = some [m.wire] := by
  have hNonempty : m.wire ≠ [] := by simp [wire, BigEndian.encode]
  have hWrite : m.serialize Serializer.new = some ⟨[], m.wire⟩ := by
    rw [serialize, if_pos h]
    simp only [Serializer.integer, EthernetAddress.serialize_eq, Serializer.new, wire,
      List.append_assoc, List.nil_append]
  simp [Minnow.serialize, hWrite, Serializer.finish, Serializer.flush, hNonempty]

theorem gives_parse (self : ARPMessage) (h : m.supported = true) :
    Gives self.parse m.wire fun a _ => a = m := by
  rw [← List.append_nil m.wire]
  simp only [wire, List.append_assoc]
  refine (gives_integer16 m.hardwareType _).bind ?_
  rintro _ _ ⟨rfl, rfl⟩
  refine (gives_integer16 m.protocolType _).bind ?_
  rintro _ _ ⟨rfl, rfl⟩
  refine (gives_integer8 m.hardwareAddressSize _).bind ?_
  rintro _ _ ⟨rfl, rfl⟩
  refine (gives_integer8 m.protocolAddressSize _).bind ?_
  rintro _ _ ⟨rfl, rfl⟩
  refine (gives_integer16 m.opcode _).bind ?_
  rintro _ _ ⟨rfl, rfl⟩
  refine Gives.ite_pos h ?_
  refine (EthernetAddress.gives_parse _ m.senderEthernetAddress).bind ?_
  rintro _ _ ⟨rfl, rfl⟩
  refine (gives_integer32 m.senderIpAddress _).bind ?_
  rintro _ _ ⟨rfl, rfl⟩
  refine (EthernetAddress.gives_parse _ m.targetEthernetAddress).bind ?_
  rintro _ _ ⟨rfl, rfl⟩
  refine (gives_integer32 m.targetIpAddress _).bind ?_
  rintro _ _ ⟨rfl, rfl⟩
  exact Gives.pure rfl

/-- A supported message is read back from the buffers it is serialized to. -/
theorem parse_serialize (h : m.supported = true) :
    Minnow.parse ({} : ARPMessage).parse [m.wire] = some (some m) := by
  have hNonempty : ∀ b ∈ [m.wire], b ≠ [] := by
    intro b hMem
    rw [List.mem_singleton.mp hMem]
    simp [wire, BigEndian.encode]
  have hGives := gives_parse {} h
  rw [← List.append_nil m.wire] at hGives
  obtain ⟨a, -, hParse, rfl⟩ := parse_of_gives hNonempty hGives
  exact hParse

end Wire

end ARPMessage

end Minnow
