import Minnow.InterfaceFrames
import Minnow.Library.Network

/-! # Interfaces on one Ethernet segment

A frame may reach any interface but the one that sent it, at any time, more
than once or never. No frame comes from elsewhere, so what the caches hold is
what the owners of the addresses have announced.
-/

namespace Minnow

open Library

namespace NetworkInterface

def machine : Machine NetworkInterface Action Unit EthernetFrame where
  perform := perform
  hear _ frame := .recvFrame frame

/-- Sending and the passing of time; frames come from the segment. -/
def Action.IsOwn : Action → Prop
  | .sendDatagram _ _ | .tick _ => True
  | .recvFrame _ => False

instance (a : Action) : Decidable a.IsOwn :=
  match a with
  | .sendDatagram _ _ | .tick _ => instDecidableTrue
  | .recvFrame _ => instDecidableFalse

end NetworkInterface

abbrev NetworkSegment (ι : Type*) :=
  Network ι NetworkInterface NetworkInterface.Action EthernetFrame

namespace NetworkSegment

open NetworkInterface

variable {ι : Type*}

abbrev Step (ι : Type*) := Network.Step ι Action Unit

def new (hw : ι → EthernetAddress) (ip : ι → UInt32) : NetworkSegment ι :=
  Network.start fun i => NetworkInterface.new (hw i) (ip i)

def step [DecidableEq ι] : NetworkSegment ι → Step ι → NetworkSegment ι :=
  Network.step NetworkInterface.machine

def Allowed (self : NetworkSegment ι) : Step ι → Prop := self.Permits fun _ _ a => a.IsOwn

instance (self : NetworkSegment ι) (a : Step ι) : Decidable (Allowed self a) :=
  inferInstanceAs (Decidable (self.Permits (fun _ _ a => a.IsOwn) a))

section Invariant

variable (hw : ι → EthernetAddress) (ip : ι → UInt32)

/-- The hardware address belongs to an interface with the IP address. -/
def Owns (mac : EthernetAddress) (h : UInt32) : Prop := ∃ j, ip j = h ∧ hw j = mac

/-- It was submitted to another interface, for the address of one that takes what comes here. -/
def Delivered (log : List (ι × Action)) (j : ι) (d' : IPv4Datagram) : Prop :=
  ∃ i d h mac, i ≠ j ∧ (i, .sendDatagram d h) ∈ log ∧ Owns hw ip mac h ∧
    (mac = hw j ∨ mac = ETHERNET_BROADCAST) ∧ d.ReadAs d'

structure Informed (log : List (ι × Action)) (i : ι) (nic : NetworkInterface) : Prop where
  hwAddress : nic.hwAddress = hw i
  ipAddress : nic.ipAddress = ip i
  knows : Knows (Owns hw ip) (fun d h => (i, .sendDatagram d h) ∈ log) (Delivered hw ip log i) nic

abbrev Truthful (log : List (ι × Action)) (i : ι) (f : EthernetFrame) : Prop :=
  Says (Owns hw ip) (fun d h => (i, .sendDatagram d h) ∈ log) (hw i) (ip i) f

variable {hw ip}

section Step

variable {log log' : List (ι × Action)} {i j : ι} {nic : NetworkInterface} {f : EthernetFrame}

theorem Informed.mono (h : Informed hw ip log i nic) (hLog : log ⊆ log') :
    Informed hw ip log' i nic := by
  refine { h with knows := h.knows.mono (fun d hop hMem => hLog hMem) ?_ }
  rintro d' ⟨k, d, hop, mac, hOther, hSubmit, hRest⟩
  exact ⟨k, d, hop, mac, hOther, hLog hSubmit, hRest⟩

/-- One action of an informed interface, given what it may hear. -/
theorem Informed.step (h : Informed hw ip log i nic) {a : Action}
    (hSubmit : ∀ d hop, a = .sendDatagram d hop → (i, .sendDatagram d hop) ∈ log)
    (hHear : ∀ f, a = .recvFrame f → ∃ j, j ≠ i ∧ Truthful hw ip log j f) :
    Informed hw ip log i (nic.step a) ∧ ∀ f ∈ nic.transmitted a, Truthful hw ip log i f := by
  obtain ⟨hKnows, hSays⟩ := h.knows.step hSubmit
    (fun f arp hEq hHeard => by
      obtain ⟨j, -, hTrue⟩ := hHear f hEq
      obtain ⟨hMac, hIp⟩ := hTrue.owns hHeard
      exact ⟨j, hIp.symm, hMac.symm⟩)
    (fun f d' hEq hReads => by
      obtain ⟨j, hOther, hTrue⟩ := hHear f hEq
      obtain ⟨d, hop, hPayload, hLog, hOwns⟩ := hTrue.submitted hReads.type
      exact ⟨j, d, hop, f.header.dst, hOther, hLog, hOwns, h.hwAddress ▸ hReads.dst,
        f.payload, hPayload, hReads.parsed⟩)
  rw [h.hwAddress, h.ipAddress] at hSays
  exact ⟨⟨(nic.addresses_step a).1.trans h.hwAddress, (nic.addresses_step a).2.trans h.ipAddress,
    hKnows⟩, hSays⟩

end Step

theorem guarantees (hw : ι → EthernetAddress) (ip : ι → UInt32) :
    Network.Guarantees NetworkInterface.machine (fun _ _ a => a.IsOwn) (Informed hw ip)
      (Truthful hw ip) where
  grow log e i nic h := h.mono (List.subset_append_left log [e])
  grow_sent log e i f h := h.mono fun d hop hMem => List.mem_append_left [e] hMem
  act log i nic a hOwn h := by
    refine (h.mono (List.subset_append_left log [(i, a)])).step ?_ ?_
    · rintro d hop rfl
      exact List.mem_append_right _ (List.mem_singleton_self _)
    · rintro f rfl
      exact hOwn.elim
  hear log i j nic port f hOther h hTrue := by
    refine h.step nofun ?_
    intro f' hEq
    cases hEq
    exact ⟨j, hOther, hTrue⟩

theorem informed_new (hw : ι → EthernetAddress) (ip : ι → UInt32) (i : ι) :
    Informed hw ip [] i (NetworkInterface.new (hw i) (ip i)) := ⟨rfl, rfl, knows_new _ _⟩

theorem sound_run [DecidableEq ι] (hw : ι → EthernetAddress) (ip : ι → UInt32)
    {steps : List (Step ι)} (hOk : Run.Along step Allowed (new hw ip) steps) :
    Network.Sound (Informed hw ip) (Truthful hw ip) (Run.run step (new hw ip) steps) :=
  (guarantees hw ip).run hOk ⟨informed_new hw ip, fun _ hMem => absurd hMem List.not_mem_nil⟩

end Invariant

/-- In every state that honest interfaces reach, a mapping names the hardware address of an
interface with that IP address, and a datagram has been received only by the interface it was
submitted for, as it was submitted. -/
theorem run_addressed [DecidableEq ι] (hw : ι → EthernetAddress) (ip : ι → UInt32)
    (hDistinct : Function.Injective hw) (hUnicast : ∀ i, hw i ≠ ETHERNET_BROADCAST)
    (steps : List (Step ι)) (hOk : Run.Along step Allowed (new hw ip) steps) :
    let x := Run.run step (new hw ip) steps
    (∀ i h e, e ∈ (x.machine i).arpCache.lookup h → ∃ j, ip j = h ∧ e.mac = hw j) ∧
      ∀ j, ∀ d' ∈ (x.machine j).datagramsIn, ∃ i d, i ≠ j ∧
        (i, .sendDatagram d (ip j)) ∈ x.log ∧ d.ReadAs d' ∧ (d.Whole → d.Same d') := by
  intro x
  have h : Network.Sound (Informed hw ip) (Truthful hw ip) x := sound_run hw ip hOk
  constructor
  · intro i hop e hMem
    obtain ⟨j, hIp, hMac⟩ := (h.machine i).knows.cache hop e hMem
    exact ⟨j, hIp, hMac.symm⟩
  · intro j d' hMem
    obtain ⟨i, d, hop, mac, hOther, hLog, ⟨k, rfl, rfl⟩, hDst, hRead⟩ :=
      (h.machine j).knows.received d' hMem
    obtain rfl : k = j := hDistinct (hDst.resolve_right (hUnicast k))
    exact ⟨i, d, hOther, hLog, hRead, fun hWhole => hWhole.same_of_readAs hRead⟩

/-- Two interfaces, and a datagram with four bytes of payload. -/
def pairHw (side : Bool) : EthernetAddress := #v[2, 0, 0, 0, 0, if side then 2 else 1]

def pairIp (side : Bool) : UInt32 := if side then 2 else 1

def pairDatagram : InternetDatagram where
  header := { len := 24, ttl := 64, cksum := 9695, src := 0x0a000001, dst := 0x0b000001 }
  payload := [[97, 98, 99, 100]]

theorem pairHw_injective : Function.Injective pairHw := by decide

theorem pairHw_ne_broadcast : ∀ side, pairHw side ≠ ETHERNET_BROADCAST := by decide

theorem run_addressed_pair :
    let x := Run.run step (new pairHw pairIp) [.act false (.sendDatagram pairDatagram 2),
      .deliver true () 0, .deliver false () 1, .deliver true () 2]
    (x.machine true).datagramsIn = [pairDatagram] ∧
      ∃ i d, i ≠ true ∧ (i, .sendDatagram d 2) ∈ x.log := by
  have h := run_addressed pairHw pairIp pairHw_injective pairHw_ne_broadcast
    [.act false (.sendDatagram pairDatagram 2), .deliver true () 0, .deliver false () 1,
      .deliver true () 2] (by decide +kernel)
  dsimp only at h ⊢
  generalize hx : Run.run step (new pairHw pairIp) _ = x at h ⊢
  have hIn : (x.machine true).datagramsIn = [pairDatagram] := by
    rw [← hx]
    decide +kernel
  have hMem : pairDatagram ∈ (x.machine true).datagramsIn := by
    rw [hIn]
    exact List.mem_singleton_self _
  obtain ⟨i, d, hOther, hLog, -⟩ := h.2 true pairDatagram hMem
  exact ⟨hIn, i, d, hOther, hLog⟩

end NetworkSegment

end Minnow
