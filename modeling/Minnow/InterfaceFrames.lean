import Minnow.InterfaceLedger
import Minnow.IPv4Length
import Minnow.RouterForwarding
import Minnow.RouterHop

/-! # What an interface transmits

Every frame is an ARP message that names the interface as its sender, or a
datagram that was submitted for the address of a slot and goes where the cache
of that slot points afterwards.
-/

namespace Minnow

open Library

namespace IPv4Datagram

/-- The same datagram, however its payload is cut into buffers. -/
structure Same (d d' : IPv4Datagram) : Prop where
  header : d'.header = d.header
  payload : d'.payload.flatten = d.payload.flatten

/-- Accepted by `parse`, or as good as that, and without options. -/
structure Whole (d : IPv4Datagram) : Prop where
  accepted : d.Accepted
  hlen : d.header.hlen = 5

theorem Plain.whole {d : IPv4Datagram} (h : d.Plain)
    (hOffset : d.header.offset &&& 0x1fff = d.header.offset) : d.Whole :=
  ⟨⟨h.canonical hOffset, h.payloadLength_eq.ge⟩, h.hlen⟩

/-- What the next hop reads of it. -/
def ReadAs (d d' : IPv4Datagram) : Prop :=
  ∃ payload, Minnow.serialize d.serialize = some payload ∧
    Minnow.parse ({} : IPv4Datagram).parse payload = some (some d')

/-- A datagram without options is read back from its frame. -/
theorem Whole.readAs {d : IPv4Datagram} (h : d.Whole) : ∃ d', d.ReadAs d' ∧ d.Same d' := by
  have hNone : d.header.hlen.toNat * 4 - 20 = 0 := by rw [h.hlen]; rfl
  have hFits : (d.payload.flatten.drop (d.header.hlen.toNat * 4 - 20)).length ≤
      d.header.payloadLength.toNat := by
    rw [hNone, List.drop_zero]
    exact h.accepted.payload_le
  obtain ⟨payload, hParse, hPayload, -⟩ :=
    parse_wire h.accepted.header d.wire_ne_nil d.wire_flatten hFits
  rw [hNone, List.drop_zero] at hPayload
  exact ⟨_, ⟨_, serialize_eq h.accepted.header.ver, hParse⟩, rfl, hPayload⟩

theorem Whole.same_of_readAs {d d' : IPv4Datagram} (h : d.Whole) (hRead : d.ReadAs d') :
    d.Same d' := by
  obtain ⟨d'', ⟨payload, hSerialize, hParse⟩, hSame⟩ := h.readAs
  obtain ⟨payload', hSerialize', hParse'⟩ := hRead
  cases hSerialize.symm.trans hSerialize'
  cases hParse.symm.trans hParse'
  exact hSame

theorem ReadAs.ver {d d' : IPv4Datagram} (h : d.ReadAs d') : d'.header.ver = 4 := by
  obtain ⟨payload, -, hParse⟩ := h
  exact ver_of_parse hParse

end IPv4Datagram

namespace NetworkInterface

/-- An ARP message of the interface, in a frame of its own. -/
structure Announcement (nic : NetworkInterface) (f : EthernetFrame) (msg : ARPMessage) : Prop where
  src : f.header.src = nic.hwAddress
  type : f.header.type = EthernetHeader.TYPE_ARP
  payload : f.payload = [msg.wire]
  supported : msg.supported = true
  senderIp : msg.senderIpAddress = nic.ipAddress
  senderMac : msg.senderEthernetAddress = nic.hwAddress

section Frames

variable (nic : NetworkInterface)

theorem announcement_sendArp (ip : UInt32) :
    Announcement nic (nic.sendArp ip) (nic.arpRequest ip) where
  src := rfl
  type := rfl
  payload := nic.arpFrame_payload ETHERNET_BROADCAST rfl
  supported := rfl
  senderIp := rfl
  senderMac := rfl

theorem announcement_arpReply (mac : EthernetAddress) (arp : ARPMessage) :
    Announcement nic (nic.arpFrame mac (nic.arpReply arp)) (nic.arpReply arp) where
  src := rfl
  type := rfl
  payload := nic.arpFrame_payload mac rfl
  supported := rfl
  senderIp := rfl
  senderMac := rfl

/-- The retries of `tick` are requests. -/
theorem tick_requests (ms : Nat) : ∀ f ∈ (nic.tick ms).2, ∃ ip, f = nic.sendArp ip := by
  have hSame : ∀ (x : NetworkInterface × List EthernetFrame) (t : Sigma fun _ : UInt32 => Nat),
      (x.1.hwAddress = nic.hwAddress ∧ x.1.ipAddress = nic.ipAddress ∧
        ∀ f ∈ x.2, ∃ ip, f = nic.sendArp ip) →
      (ageTimer ms x t).1.hwAddress = nic.hwAddress ∧
        (ageTimer ms x t).1.ipAddress = nic.ipAddress ∧
        ∀ f ∈ (ageTimer ms x t).2, ∃ ip, f = nic.sendArp ip := by
    rintro x t ⟨hHw, hIp, hFrames⟩
    rw [ageTimer]
    split
    · refine ⟨hHw, hIp, fun f hMem => ?_⟩
      obtain hMem | hMem := List.mem_append.mp hMem
      · exact hFrames f hMem
      · refine ⟨t.1, ?_⟩
        rw [List.mem_singleton.mp hMem, sendArp, sendArp, arpFrame, arpFrame, arpRequest,
          arpRequest, hHw, hIp]
    · exact ⟨hHw, hIp, hFrames⟩
  refine (Run.invariant_of_step (P := fun x : NetworkInterface × List EthernetFrame =>
    x.1.hwAddress = nic.hwAddress ∧ x.1.ipAddress = nic.ipAddress ∧
      ∀ f ∈ x.2, ∃ ip, f = nic.sendArp ip) hSame ?_ nic.arpTimer.entries).2.2
  exact ⟨rfl, rfl, fun f hMem => absurd hMem List.not_mem_nil⟩

/-- A frame without a datagram is an announcement. -/
theorem announcement_of_transmitted {a : Action} {f : EthernetFrame} (hMem : f ∈ nic.transmitted a)
    (hNot : isDatagram f = false) : ∃ msg, Announcement nic f msg := by
  cases a with
  | sendDatagram d nextHop =>
    rw [transmitted, perform, call, sendDatagram_frames] at hMem
    split at hMem
    · split at hMem
      · rw [List.mem_singleton.mp hMem, isDatagram_carrying] at hNot
        cases hNot
      · cases hMem
    · split at hMem
      · rw [List.mem_singleton.mp hMem]
        exact ⟨_, nic.announcement_sendArp nextHop⟩
      · cases hMem
  | recvFrame frame =>
    rw [transmitted] at hMem
    obtain ⟨arp, -, hRecv⟩ | ⟨-, received, -, hRecv⟩ := nic.recvFrame_cases frame
    · rw [nic.perform_heard hRecv, recvArp_eq] at hMem
      obtain hMem | hMem := List.mem_append.mp hMem
      · obtain ⟨d, -, rfl⟩ := List.mem_map.mp hMem
        cases hNot
      · split at hMem
        · rw [List.mem_singleton.mp hMem]
          exact ⟨_, nic.announcement_arpReply _ arp⟩
        · cases hMem
    · rw [hRecv] at hMem
      cases hMem
  | tick ms =>
    obtain ⟨ip, rfl⟩ := nic.tick_requests ms f hMem
    exact ⟨_, nic.announcement_sendArp ip⟩

theorem transmitted_cases {a : Action} {f : EthernetFrame} (hMem : f ∈ nic.transmitted a) :
    (∃ msg, Announcement nic f msg) ∨ ∃ hop d mac,
      (d, mac) ∈ (nic.slot hop).sends (nic.event hop a) ∧ f = nic.carrying mac d := by
  cases hDatagram : isDatagram f with
  | false => exact .inl (nic.announcement_of_transmitted hMem hDatagram)
  | true =>
    right
    have hSent : f ∈ (nic.transmitted a).filter isDatagram := List.mem_filter.mpr ⟨hMem, hDatagram⟩
    rw [datagrams_step] at hSent
    cases hHop : nic.addressee a with
    | none =>
      rw [hHop] at hSent
      cases hSent
    | some hop =>
      rw [hHop] at hSent
      obtain ⟨⟨d, mac⟩, hSends, rfl⟩ := List.mem_map.mp hSent
      exact ⟨hop, d, mac, hSends, rfl⟩

end Frames

section Slot

variable {s : Slot} {e : Event}

theorem Slot.cache_origin {entry : ARPEntry} (h : (s.step e).cache = some entry) :
    e = .learn entry.mac ∨ ∃ old, s.cache = some old ∧ old.mac = entry.mac := by
  cases e with
  | send d' =>
    right
    cases hCache : s.cache with
    | none => simp [Slot.step, hCache] at h
    | some old =>
      simp only [Slot.step, hCache, Option.some.injEq] at h
      exact ⟨old, rfl, congrArg ARPEntry.mac h⟩
  | learn mac =>
    left
    cases h
    rfl
  | tick ms =>
    right
    obtain ⟨old, hOld, hAged⟩ := Option.bind_eq_some_iff.mp h
    refine ⟨old, hOld, ?_⟩
    split at hAged
    · cases hAged
    · cases hAged
      rfl
  | idle => exact .inr ⟨entry, h, rfl⟩

end Slot

section Step

variable {nic : NetworkInterface} {a : Action} {hop : UInt32}

/-- Only an ARP message that has been heard is learnt. -/
theorem learn_of_event {mac : EthernetAddress} (h : nic.event hop a = .learn mac) :
    ∃ frame arp, a = .recvFrame frame ∧ nic.heard frame = some arp ∧
      arp.senderIpAddress = hop ∧ arp.senderEthernetAddress = mac := by
  cases a with
  | sendDatagram d nextHop =>
    rw [event] at h
    split at h <;> cases h
  | recvFrame frame =>
    rw [event_recvFrame] at h
    cases hHeard : nic.heard frame with
    | none =>
      rw [hHeard] at h
      cases h
    | some arp =>
      rw [hHeard] at h
      dsimp only at h
      split at h
      · rename_i hSender
        cases h
        exact ⟨frame, arp, rfl, hHeard, hSender, rfl⟩
      · cases h
  | tick ms => cases h

theorem heard_eq_some {frame : EthernetFrame} {arp : ARPMessage} (h : nic.heard frame = some arp) :
    (frame.header.dst = nic.hwAddress ∨ frame.header.dst = ETHERNET_BROADCAST) ∧
      frame.header.type = EthernetHeader.TYPE_ARP ∧
      parse ({} : ARPMessage).parse frame.payload = some (some arp) := by
  rw [heard] at h
  split at h
  · rename_i hFor
    refine ⟨hFor.1, hFor.2, ?_⟩
    cases hParse : parse ({} : ARPMessage).parse frame.payload with
    | none =>
      rw [hParse] at h
      cases h
    | some parsed =>
      rw [hParse] at h
      exact congrArg some h
  · cases h

theorem tick_datagramsIn (nic : NetworkInterface) (ms : Nat) :
    (nic.tick ms).1.datagramsIn = nic.datagramsIn := by
  refine Run.invariant_of_step (P := fun x : NetworkInterface × List EthernetFrame =>
    x.1.datagramsIn = nic.datagramsIn) ?_ rfl nic.arpTimer.entries
  intro x t h
  rw [ageTimer]
  split <;> exact h

theorem recvFrame_datagram {frame : EthernetFrame} {d : IPv4Datagram} (h : nic.Reads frame d) :
    nic.perform (.recvFrame frame) = ({ nic with datagramsIn := nic.datagramsIn ++ [d] }, []) := by
  have hForUs : ¬ (frame.header.dst ≠ nic.hwAddress ∧ frame.header.dst ≠ ETHERNET_BROADCAST) :=
    fun hOther => h.dst.elim hOther.1 hOther.2
  rw [perform, call, recvFrame, if_neg hForUs, if_pos h.type, h.parsed]
  rfl

/-- What has been received was there before or is read from the frame that came in. -/
theorem mem_datagramsIn_step {d : IPv4Datagram} (h : d ∈ (nic.step a).datagramsIn) :
    d ∈ nic.datagramsIn ∨ ∃ frame, a = .recvFrame frame ∧ nic.Reads frame d := by
  cases a with
  | sendDatagram d' nextHop =>
    left
    rw [step, perform, call, sendDatagram_same] at h
    exact h
  | recvFrame frame =>
    rw [step] at h
    obtain ⟨arp, -, hRecv⟩ | ⟨-, received, hReads, hRecv⟩ := nic.recvFrame_cases frame
    · left
      rw [nic.perform_heard hRecv, recvArp_eq] at h
      exact h
    · rw [hRecv] at h
      exact (List.mem_append.mp h).imp_right fun hNew => ⟨frame, rfl, hReads d hNew⟩
  | tick ms =>
    left
    rw [step, perform, call, tick_datagramsIn] at h
    exact h

end Step

/-! What holds of an interface follows from what is submitted to it and what it hears -/

/-- The cache holds mappings as in `O`, datagrams wait that were submitted as `Q` says, and what
has been received is as in `R`. -/
structure Knows (O : EthernetAddress → UInt32 → Prop) (Q : InternetDatagram → UInt32 → Prop)
    (R : IPv4Datagram → Prop) (nic : NetworkInterface) : Prop where
  cache : ∀ h e, (nic.slot h).cache = some e → O e.mac h
  queue : ∀ h, ∀ d ∈ (nic.slot h).queue.getD [], Q d h
  received : ∀ d' ∈ nic.datagramsIn, R d'

/-- An ARP message names the interface it comes from; a datagram was submitted there and goes to
an owner of its next hop. -/
inductive Says (O : EthernetAddress → UInt32 → Prop) (Q : InternetDatagram → UInt32 → Prop)
    (hw : EthernetAddress) (ip : UInt32) (f : EthernetFrame) : Prop where
  | arp (msg : ARPMessage) (hType : f.header.type = EthernetHeader.TYPE_ARP)
      (hPayload : f.payload = [msg.wire]) (hSupported : msg.supported = true)
      (hIp : msg.senderIpAddress = ip) (hMac : msg.senderEthernetAddress = hw)
  | datagram (d : InternetDatagram) (h : UInt32) (hType : f.header.type = EthernetHeader.TYPE_IPv4)
      (hPayload : serialize d.serialize = some f.payload) (hSubmitted : Q d h)
      (hOwns : O f.header.dst h)

section Knows

variable {O : EthernetAddress → UInt32 → Prop} {Q Q' : InternetDatagram → UInt32 → Prop}
  {R R' : IPv4Datagram → Prop} {hw : EthernetAddress} {ip : UInt32} {nic : NetworkInterface}
  {f : EthernetFrame}

theorem knows_new (hw : EthernetAddress) (ip : UInt32) : Knows O Q R (new hw ip) where
  cache h e hSome := by cases hSome
  queue h d hMem := by cases hMem
  received d' hMem := by cases hMem

theorem Knows.mono (h : Knows O Q R nic) (hQ : ∀ d hop, Q d hop → Q' d hop)
    (hR : ∀ d', R d' → R' d') : Knows O Q' R' nic where
  cache := h.cache
  queue hop d hMem := hQ d hop (h.queue hop d hMem)
  received d' hMem := hR d' (h.received d' hMem)

theorem Says.mono (h : Says O Q hw ip f) (hQ : ∀ d hop, Q d hop → Q' d hop) :
    Says O Q' hw ip f := by
  cases h with
  | arp msg hType hPayload hSupported hIp hMac => exact .arp msg hType hPayload hSupported hIp hMac
  | datagram d hop hType hPayload hSubmitted hOwns =>
    exact .datagram d hop hType hPayload (hQ d hop hSubmitted) hOwns

/-- What is heard from an ARP message is true of the interface it comes from. -/
theorem Says.owns (h : Says O Q hw ip f) {arp : ARPMessage} (hHeard : nic.heard f = some arp) :
    arp.senderEthernetAddress = hw ∧ arp.senderIpAddress = ip := by
  obtain ⟨-, hType, hParse⟩ := heard_eq_some hHeard
  cases h with
  | arp msg _ hPayload hSupported hIp hMac =>
    rw [hPayload, ARPMessage.parse_serialize hSupported] at hParse
    cases hParse
    exact ⟨hMac, hIp⟩
  | datagram d hop hType' =>
    rw [hType] at hType'
    cases hType'

theorem Says.submitted (h : Says O Q hw ip f)
    (hType : f.header.type = EthernetHeader.TYPE_IPv4) :
    ∃ d hop, serialize d.serialize = some f.payload ∧ Q d hop ∧ O f.header.dst hop := by
  cases h with
  | arp msg hType' =>
    rw [hType] at hType'
    cases hType'
  | datagram d hop _ hPayload hSubmitted hOwns => exact ⟨d, hop, hPayload, hSubmitted, hOwns⟩

/-- One action, given what is submitted and what is heard. -/
theorem Knows.step (h : Knows O Q R nic) {a : Action}
    (hSubmit : ∀ d hop, a = .sendDatagram d hop → Q d hop)
    (hLearn : ∀ f arp, a = .recvFrame f → nic.heard f = some arp →
      O arp.senderEthernetAddress arp.senderIpAddress)
    (hRead : ∀ f d', a = .recvFrame f → nic.Reads f d' → R d') :
    Knows O Q R (nic.step a) ∧
      ∀ f ∈ nic.transmitted a, Says O Q nic.hwAddress nic.ipAddress f := by
  have hArrives : ∀ hop, ∀ d ∈ (nic.event hop a).arrivals, Q d hop :=
    fun hop d hMem => hSubmit d hop (mem_arrivals hMem)
  have hCache : ∀ hop e, ((nic.step a).slot hop).cache = some e → O e.mac hop := by
    intro hop e hSome
    rw [slot_step] at hSome
    obtain hLearnt | ⟨old, hOld, hMac⟩ := Slot.cache_origin hSome
    · obtain ⟨frame, arp, hEq, hHeard, rfl, hMac⟩ := learn_of_event hLearnt
      exact hMac ▸ hLearn frame arp hEq hHeard
    · exact hMac ▸ h.cache hop old hOld
  constructor
  · refine ⟨hCache, fun hop d hMem => ?_, fun d' hMem => ?_⟩
    · rw [slot_step] at hMem
      exact (Slot.queue_origin hMem).elim (h.queue hop d) (hArrives hop d)
    · obtain hOld | ⟨f, hEq, hReads⟩ := mem_datagramsIn_step hMem
      · exact h.received d' hOld
      · exact hRead f d' hEq hReads
  · intro f hMem
    obtain ⟨msg, hMsg⟩ | ⟨hop, d, mac, hSends, rfl⟩ := nic.transmitted_cases hMem
    · exact .arp msg hMsg.type hMsg.payload hMsg.supported hMsg.senderIp hMsg.senderMac
    · have hMac := Slot.sends_mac hSends
      rw [← slot_step] at hMac
      obtain ⟨e, hEntry, rfl⟩ := Option.map_eq_some_iff.mp hMac
      refine .datagram d hop rfl (IPv4Datagram.serialize_eq (Slot.sends_ver hSends)) ?_
        (hCache hop e hEntry)
      exact (Slot.sends_origin hSends).elim (h.queue hop d) (hArrives hop d)

end Knows

end NetworkInterface

end Minnow
