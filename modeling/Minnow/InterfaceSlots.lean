import Minnow.Library.EntryLoop
import Minnow.NetworkInterface

/-! # One address at a time

The interface is a product of small machines, one for each address: a cache
entry, a request timer and a queue. Every action is an event of one of them,
or of all of them for a tick, and what it transmits is what these machines say.
-/

namespace Minnow.NetworkInterface

open Library

/-- The version that `serialize` takes. -/
def writable (dgram : InternetDatagram) : Bool := dgram.header.ver == 4

theorem writable_iff {d : InternetDatagram} : writable d = true ↔ d.header.ver = 4 := beq_iff_eq

structure Slot where
  cache : Option ARPEntry
  timer : Option Nat
  queue : Option (List InternetDatagram)
deriving DecidableEq

inductive Event where
  | send (dgram : InternetDatagram)
  | learn (mac : EthernetAddress)
  | tick (ms : Nat)
  | idle
deriving DecidableEq

namespace Slot

def empty : Slot := ⟨none, none, none⟩

/-- A datagram that has to wait is accompanied by a request when the last one is old enough. -/
def asks (s : Slot) : Bool := s.timer.all (ARP_RETRY_MS ≤ ·)

/-- The branch of `tick` that drops the queue and asks again. -/
def retries (s : Slot) (ms : Nat) : Bool :=
  s.timer.any (fun t => ARP_RETRY_MS ≤ u64 (t + ms)) && s.queue.isSome

theorem retries_iff {s : Slot} {ms : Nat} : s.retries ms = true ↔
    (∃ t ∈ s.timer, ARP_RETRY_MS ≤ u64 (t + ms)) ∧ s.queue.isSome = true := by
  simp [retries, Option.any_eq_true]

/-- What a flush sends before its end, or before `serialize` throws. -/
def flushed (s : Slot) : List InternetDatagram := (s.queue.getD []).takeWhile writable

/-- The queue holds a datagram that makes `serialize` throw. -/
def stuck (s : Slot) : Bool := (s.queue.getD []).any fun dgram => !writable dgram

theorem flushed_of_writable {s : Slot} (h : ∀ d ∈ s.queue.getD [], d.header.ver = 4) :
    s.flushed = s.queue.getD [] ∧ s.stuck = false := by
  constructor
  · exact List.takeWhile_eq_self_iff.mpr fun d hMem => writable_iff.mpr (h d hMem)
  · refine List.any_eq_false.mpr fun d hMem => ?_
    rw [writable_iff.mpr (h d hMem)]
    exact Bool.false_ne_true

def step (s : Slot) : Event → Slot
  | .send dgram =>
    match s.cache with
    | some _ => s
    | none =>
      { s with
        queue := some (s.queue.getD [] ++ [dgram])
        timer := if s.asks then some 0 else s.timer }
  | .learn mac => ⟨some ⟨mac, ARP_TTL_MS⟩, none, if s.stuck then s.queue else none⟩
  | .tick ms =>
    { cache := s.cache.bind fun e =>
        if e.ttlMs ≤ ms then none else some { e with ttlMs := e.ttlMs - ms }
      timer := s.timer.map fun t => if s.retries ms then 0 else u64 (t + ms)
      queue := if s.retries ms then some [] else s.queue }
  | .idle => s

def requests (s : Slot) : Event → Nat
  | .send _ => if s.cache.isNone && s.asks then 1 else 0
  | .tick ms => if s.retries ms then 1 else 0
  | _ => 0

/-- The datagrams sent, each with the hardware address it is sent to. -/
def sends (s : Slot) : Event → List (InternetDatagram × EthernetAddress)
  | .send dgram =>
    match s.cache with
    | some entry => if writable dgram then [(dgram, entry.mac)] else []
    | none => []
  | .learn mac => s.flushed.map fun dgram => (dgram, mac)
  | _ => []

end Slot

def slot (self : NetworkInterface) (ip : UInt32) : Slot :=
  ⟨self.arpCache.lookup ip, self.arpTimer.lookup ip, self.pending.lookup ip⟩

/-- The ARP message accepted from a frame, if there is one. -/
def heard (self : NetworkInterface) (frame : EthernetFrame) : Option ARPMessage :=
  if (frame.header.dst = self.hwAddress ∨ frame.header.dst = ETHERNET_BROADCAST) ∧
      frame.header.type = EthernetHeader.TYPE_ARP then
    (parse ({} : ARPMessage).parse frame.payload).join
  else none

/-- The frame brings the interface this datagram. -/
structure Reads (nic : NetworkInterface) (frame : EthernetFrame) (dgram : IPv4Datagram) : Prop where
  dst : frame.header.dst = nic.hwAddress ∨ frame.header.dst = ETHERNET_BROADCAST
  type : frame.header.type = EthernetHeader.TYPE_IPv4
  parsed : parse ({} : IPv4Datagram).parse frame.payload = some (some dgram)

def event (self : NetworkInterface) (ip : UInt32) : Action → Event
  | .sendDatagram dgram nextHop => if nextHop = ip then .send dgram else .idle
  | .recvFrame frame =>
    match self.heard frame with
    | some arp => if arp.senderIpAddress = ip then .learn arp.senderEthernetAddress else .idle
    | none => .idle
  | .tick ms => .tick ms

/-- The address whose datagrams the action may send. -/
def addressee (self : NetworkInterface) : Action → Option UInt32
  | .sendDatagram _ nextHop => some nextHop
  | .recvFrame frame => (self.heard frame).map ARPMessage.senderIpAddress
  | .tick _ => none

/-- A broadcast ARP request for the address, as any receiver reads it. -/
def isRequestFor (ip : UInt32) (frame : EthernetFrame) : Bool :=
  frame.header.dst == ETHERNET_BROADCAST && frame.header.type == EthernetHeader.TYPE_ARP &&
    match parse ({} : ARPMessage).parse frame.payload with
    | some (some arp) => arp.opcode == ARPMessage.OPCODE_REQUEST && arp.targetIpAddress == ip
    | _ => false

def isDatagram (frame : EthernetFrame) : Bool := frame.header.type == EthernetHeader.TYPE_IPv4

section Frames

variable (nic : NetworkInterface) (ip ip' : UInt32) (mac : EthernetAddress)

/-- The frame of a datagram that `serialize` takes. -/
def carrying (dgram : InternetDatagram) : EthernetFrame :=
  ⟨⟨mac, nic.hwAddress, EthernetHeader.TYPE_IPv4⟩, dgram.wire⟩

theorem datagramFrame_eq (d : InternetDatagram) :
    nic.datagramFrame mac d = if writable d then some (nic.carrying mac d) else none := by
  rw [datagramFrame]
  split
  · rename_i hWritable
    rw [IPv4Datagram.serialize_eq (writable_iff.mp hWritable)]
    rfl
  · rename_i hRefused
    rw [IPv4Datagram.serialize_of_ne (mt writable_iff.mpr hRefused)]
    rfl

theorem flush_eq (queue : List InternetDatagram) : nic.flush mac queue =
    ((queue.takeWhile writable).map (nic.carrying mac), queue.any fun d => !writable d) := by
  induction queue with
  | nil => rfl
  | cons d queue ih =>
    rw [flush, datagramFrame_eq, ih]
    cases hWritable : writable d <;> simp [hWritable]

theorem arpFrame_payload {msg : ARPMessage} (h : msg.supported = true) :
    (nic.arpFrame mac msg).payload = [msg.wire] := by
  rw [arpFrame, ARPMessage.serialize_eq h]
  rfl

@[simp] theorem isRequestFor_sendArp : isRequestFor ip (nic.sendArp ip') = (ip' == ip) := by
  have hSupported : (nic.arpRequest ip').supported = true := rfl
  have hPayload : (nic.sendArp ip').payload = [(nic.arpRequest ip').wire] :=
    nic.arpFrame_payload ETHERNET_BROADCAST hSupported
  rw [isRequestFor, hPayload, ARPMessage.parse_serialize hSupported]
  simp [sendArp, arpFrame, arpRequest]

@[simp] theorem isRequestFor_reply (arp : ARPMessage) :
    isRequestFor ip (nic.arpFrame mac (nic.arpReply arp)) = false := by
  have hSupported : (nic.arpReply arp).supported = true := rfl
  rw [isRequestFor, nic.arpFrame_payload mac hSupported, ARPMessage.parse_serialize hSupported]
  simp [arpReply, ARPMessage.OPCODE_REPLY, ARPMessage.OPCODE_REQUEST]

@[simp] theorem isRequestFor_carrying (d : InternetDatagram) :
    isRequestFor ip (nic.carrying mac d) = false := by
  simp [isRequestFor, carrying, EthernetHeader.TYPE_IPv4, EthernetHeader.TYPE_ARP]

@[simp] theorem isDatagram_carrying (d : InternetDatagram) :
    isDatagram (nic.carrying mac d) = true := rfl

@[simp] theorem isDatagram_arpFrame (msg : ARPMessage) :
    isDatagram (nic.arpFrame mac msg) = false := rfl

@[simp] theorem isDatagram_sendArp : isDatagram (nic.sendArp ip) = false := rfl

end Frames

section Methods

variable (nic : NetworkInterface) (ip : UInt32)

/-- Whether it is sent or refused, a datagram with a known next hop changes nothing. -/
theorem sendDatagram_cached (d : InternetDatagram) {nextHop : UInt32} {entry : ARPEntry}
    (hCache : nic.arpCache.lookup nextHop = some entry) : nic.sendDatagram d nextHop =
      ⟨nic, if writable d then [nic.carrying entry.mac d] else [], !writable d⟩ := by
  rw [sendDatagram, hCache]
  dsimp only
  rw [datagramFrame_eq]
  cases writable d <;> rfl

/-- Only a refused datagram makes the call throw. -/
theorem sendDatagram_thrown {d : InternetDatagram} (hVer : d.header.ver = 4) (nextHop : UInt32) :
    (nic.sendDatagram d nextHop).thrown = false := by
  cases hCache : nic.arpCache.lookup nextHop with
  | some entry => rw [nic.sendDatagram_cached d hCache, writable_iff.mpr hVer, Bool.not_true]
  | none =>
    rw [sendDatagram, hCache]
    dsimp only
    split <;> rfl

theorem slot_sendDatagram (d : InternetDatagram) (nextHop : UInt32) :
    (nic.sendDatagram d nextHop).interface.slot ip =
      (nic.slot ip).step (if nextHop = ip then .send d else .idle) := by
  cases hCache : nic.arpCache.lookup nextHop with
  | some entry =>
    rw [nic.sendDatagram_cached d hCache]
    by_cases hHop : nextHop = ip
    · subst hHop
      rw [if_pos rfl]
      simp [slot, Slot.step, hCache]
    · rw [if_neg hHop]
      rfl
  | none =>
    rw [sendDatagram, hCache]
    by_cases hHop : nextHop = ip
    · subst hHop
      rw [if_pos rfl]
      simp only [slot, Slot.step, Slot.asks, hCache]
      split <;> simp [hCache]
    · rw [if_neg hHop]
      dsimp only
      split <;> simp [slot, Slot.step, AList.lookup_insert_ne (Ne.symm hHop)]

theorem sendDatagram_frames (d : InternetDatagram) (nextHop : UInt32) :
    (nic.sendDatagram d nextHop).frames =
      match (nic.slot nextHop).cache with
      | some entry => if writable d then [nic.carrying entry.mac d] else []
      | none => if (nic.slot nextHop).asks then [nic.sendArp nextHop] else [] := by
  rw [slot]
  cases hCache : nic.arpCache.lookup nextHop with
  | some entry => rw [nic.sendDatagram_cached d hCache]
  | none =>
    rw [sendDatagram, hCache]
    by_cases hAsks : (nic.slot nextHop).asks = true
    · exact (congrArg Outcome.frames (if_pos hAsks)).trans (if_pos hAsks).symm
    · exact (congrArg Outcome.frames (if_neg hAsks)).trans (if_neg hAsks).symm

/-- The reply is sent and the queue erased unless the flush has thrown. -/
theorem recvArp_eq (arp : ARPMessage) :
    let s := nic.slot arp.senderIpAddress
    nic.recvArp arp =
      { interface := { nic with
          arpCache := nic.arpCache.insert arp.senderIpAddress
            ⟨arp.senderEthernetAddress, ARP_TTL_MS⟩
          arpTimer := nic.arpTimer.erase arp.senderIpAddress
          pending := if s.stuck then nic.pending else nic.pending.erase arp.senderIpAddress }
        frames := s.flushed.map (nic.carrying arp.senderEthernetAddress) ++
          if s.stuck = false ∧ arp.opcode = ARPMessage.OPCODE_REQUEST ∧
            arp.targetIpAddress = nic.ipAddress then
            [nic.arpFrame arp.senderEthernetAddress (nic.arpReply arp)]
          else []
        thrown := s.stuck } := by
  intro s
  have hStuck : ((nic.pending.lookup arp.senderIpAddress).getD []).any (fun d => !writable d) =
      s.stuck := rfl
  rw [recvArp]
  simp only [flush_eq, hStuck]
  cases s.stuck with
  | true => simp only [if_true, Bool.true_eq_false, false_and, if_false, List.append_nil]; rfl
  | false => simp only [Bool.false_eq_true, if_false, true_and]; rfl

theorem slot_recvArp (arp : ARPMessage) : (nic.recvArp arp).interface.slot ip =
    (nic.slot ip).step
      (if arp.senderIpAddress = ip then .learn arp.senderEthernetAddress else .idle) := by
  rw [recvArp_eq]
  by_cases hSender : arp.senderIpAddress = ip
  · subst hSender
    rw [if_pos rfl, Slot.step]
    cases (nic.slot arp.senderIpAddress).stuck <;> simp [slot]
  · rw [if_neg hSender]
    cases (nic.slot arp.senderIpAddress).stuck <;>
      simp [slot, Slot.step, AList.lookup_insert_ne (Ne.symm hSender),
        AList.lookup_erase_ne (Ne.symm hSender)]

/-- An accepted ARP message is learnt; any other frame changes no slot and transmits nothing, and
adds to the received datagrams what `parse` makes of it. -/
theorem recvFrame_cases (frame : EthernetFrame) :
    (∃ arp, nic.heard frame = some arp ∧ nic.recvFrame frame = some (nic.recvArp arp)) ∨
    (nic.heard frame = none ∧ ∃ received, (∀ d ∈ received, nic.Reads frame d) ∧
      nic.perform (.recvFrame frame) =
        ({ nic with datagramsIn := nic.datagramsIn ++ received }, [])) := by
  have hNone : ∃ received, (∀ d ∈ received, nic.Reads frame d) ∧
      (nic, ([] : List EthernetFrame)) =
        ({ nic with datagramsIn := nic.datagramsIn ++ received }, []) := by
    refine ⟨[], fun d hMem => absurd hMem List.not_mem_nil, ?_⟩
    rw [List.append_nil]
  by_cases hDst : frame.header.dst ≠ nic.hwAddress ∧ frame.header.dst ≠ ETHERNET_BROADCAST
  · refine .inr ⟨if_neg fun h => h.1.elim hDst.1 hDst.2, ?_⟩
    rw [perform, call, recvFrame, if_pos hDst]
    exact hNone
  · have hForUs : frame.header.dst = nic.hwAddress ∨ frame.header.dst = ETHERNET_BROADCAST :=
      or_iff_not_and_not.mpr hDst
    by_cases hIPv4 : frame.header.type = EthernetHeader.TYPE_IPv4
    · have hNotArp : frame.header.type ≠ EthernetHeader.TYPE_ARP := by
        rw [hIPv4]
        decide
      refine .inr ⟨if_neg fun h => hNotArp h.2, ?_⟩
      rw [perform, call, recvFrame, if_neg hDst, if_pos hIPv4]
      cases hParse : parse ({} : IPv4Datagram).parse frame.payload with
      | none => exact hNone
      | some parsed =>
        cases parsed with
        | none => exact hNone
        | some dgram =>
          refine ⟨[dgram], fun d hMem => ?_, rfl⟩
          rw [List.mem_singleton.mp hMem]
          exact ⟨hForUs, hIPv4, hParse⟩
    · by_cases hArp : frame.header.type = EthernetHeader.TYPE_ARP
      · rw [perform, call, recvFrame, if_neg hDst, if_neg hIPv4, if_pos hArp, heard,
          if_pos ⟨hForUs, hArp⟩]
        cases parse ({} : ARPMessage).parse frame.payload with
        | none => exact .inr ⟨rfl, hNone⟩
        | some parsed =>
          cases parsed with
          | none => exact .inr ⟨rfl, hNone⟩
          | some arp => exact .inl ⟨arp, rfl, rfl⟩
      · refine .inr ⟨if_neg fun h => hArp h.2, ?_⟩
        rw [perform, call, recvFrame, if_neg hDst, if_neg hIPv4, if_neg hArp]
        exact hNone

/-- What an accepted ARP message does. -/
theorem perform_heard {frame : EthernetFrame} {arp : ARPMessage}
    (hRecv : nic.recvFrame frame = some (nic.recvArp arp)) :
    nic.perform (.recvFrame frame) = ((nic.recvArp arp).interface, (nic.recvArp arp).frames) := by
  rw [perform, call, hRecv, Option.getD_some]

end Methods

section Tick

variable (nic : NetworkInterface) (ip : UInt32) (ms : Nat)

theorem lookup_ageCache (cache : Table ARPEntry) :
    (cache.entries.foldl (ageEntry ms) cache).lookup ip =
      (cache.lookup ip).bind fun e =>
        if e.ttlMs ≤ ms then none else some { e with ttlMs := e.ttlMs - ms } := by
  rw [EntryLoop.view_foldl (fun c : Table ARPEntry => c.lookup ip)
    fun e _ => if e.ttlMs ≤ ms then none else some { e with ttlMs := e.ttlMs - ms }]
  · cases cache.lookup ip <;> rfl
  · intro c e hNe
    rw [ageEntry]
    split
    · exact AList.lookup_erase_ne (Ne.symm hNe)
    · exact AList.lookup_insert_ne (Ne.symm hNe)
  · intro c e
    rw [ageEntry]
    split
    · exact AList.lookup_erase _ _
    · exact AList.lookup_insert _

/-- What one turn of the timer loop does to the slot of its own address. -/
def Slot.ageTimer (t : Nat) (x : Slot × Nat) : Slot × Nat :=
  if ARP_RETRY_MS ≤ u64 (t + ms) ∧ x.1.queue.isSome then
    ({ x.1 with timer := some 0, queue := some [] }, x.2 + 1)
  else ({ x.1 with timer := some (u64 (t + ms)) }, x.2)

theorem ageTimers_view (timers : Table Nat) (x : NetworkInterface × List EthernetFrame) :
    let reached := timers.entries.foldl (ageTimer ms) x
    (reached.1.slot ip, reached.2.countP (isRequestFor ip)) =
      (timers.lookup ip).elim (x.1.slot ip, x.2.countP (isRequestFor ip)) fun t =>
        Slot.ageTimer ms t (x.1.slot ip, x.2.countP (isRequestFor ip)) := by
  refine EntryLoop.view_foldl (fun x : NetworkInterface × List EthernetFrame =>
    (x.1.slot ip, x.2.countP (isRequestFor ip))) (Slot.ageTimer ms) ?_ ?_ timers x
  · rintro x ⟨ip', t⟩ hNe
    rw [ageTimer]
    split <;> simp [slot, AList.lookup_insert_ne (Ne.symm hNe), List.countP_append,
      beq_false_of_ne hNe]
  · intro x t
    have hIff : (ARP_RETRY_MS ≤ u64 (t + ms) ∧ (x.1.slot ip).queue.isSome = true) ↔
        (ARP_RETRY_MS ≤ u64 (t + ms) ∧ ip ∈ x.1.pending) :=
      and_congr_right fun _ => AList.lookup_isSome
    rw [ageTimer, Slot.ageTimer]
    simp only [hIff]
    by_cases hRetry : ARP_RETRY_MS ≤ u64 (t + ms) ∧ ip ∈ x.1.pending
    · rw [if_pos hRetry, if_pos hRetry]
      simp [slot, List.countP_append]
    · rw [if_neg hRetry, if_neg hRetry]
      simp [slot]

theorem tick_slot :
    (nic.tick ms).1.slot ip = (nic.slot ip).step (.tick ms) ∧
      (nic.tick ms).2.countP (isRequestFor ip) = (nic.slot ip).requests (.tick ms) := by
  have hView := ageTimers_view ip ms nic.arpTimer
    ({ nic with arpCache := nic.arpCache.entries.foldl (ageEntry ms) nic.arpCache }, [])
  have hSlot : ({ nic with arpCache := nic.arpCache.entries.foldl (ageEntry ms) nic.arpCache } :
      NetworkInterface).slot ip =
        { nic.slot ip with cache := ((nic.slot ip).step (.tick ms)).cache } := by
    simp only [slot, lookup_ageCache]
    rfl
  rw [hSlot] at hView
  change ((nic.tick ms).1.slot ip, (nic.tick ms).2.countP (isRequestFor ip)) = _ at hView
  have hTimer : nic.arpTimer.lookup ip = (nic.slot ip).timer := rfl
  rw [hTimer] at hView
  generalize nic.slot ip = s at hView
  cases hT : s.timer with
  | none =>
    have hRetries : s.retries ms = false := by simp [Slot.retries, hT]
    simp only [hT, Option.elim_none, Prod.mk.injEq] at hView
    rw [hView.1, hView.2]
    simp [Slot.step, Slot.requests, hT, hRetries]
  | some t =>
    have hRetries : s.retries ms = true ↔
        ARP_RETRY_MS ≤ u64 (t + ms) ∧ s.queue.isSome = true := by
      simp [Slot.retries_iff, hT]
    simp only [hT, Option.elim_some, Slot.ageTimer, ← hRetries] at hView
    cases hRetry : s.retries ms with
    | true =>
      rw [if_pos hRetry, Prod.mk.injEq] at hView
      rw [hView.1, hView.2]
      simp [Slot.step, Slot.requests, hT, hRetry]
    | false =>
      rw [if_neg (Bool.eq_false_iff.mp hRetry), Prod.mk.injEq] at hView
      rw [hView.1, hView.2]
      simp [Slot.step, Slot.requests, hT, hRetry]

/-- The interface keeps its addresses, and `tick` transmits nothing but requests. -/
theorem tick_frames :
    (nic.tick ms).1.hwAddress = nic.hwAddress ∧ (nic.tick ms).1.ipAddress = nic.ipAddress ∧
      ∀ f ∈ (nic.tick ms).2, isDatagram f = false := by
  have hLoop : ∀ (timers : List (Sigma fun _ : UInt32 => Nat))
      (x : NetworkInterface × List EthernetFrame), (∀ f ∈ x.2, isDatagram f = false) →
      (timers.foldl (ageTimer ms) x).1.hwAddress = x.1.hwAddress ∧
        (timers.foldl (ageTimer ms) x).1.ipAddress = x.1.ipAddress ∧
        ∀ f ∈ (timers.foldl (ageTimer ms) x).2, isDatagram f = false := by
    intro timers
    induction timers with
    | nil => exact fun x h => ⟨rfl, rfl, h⟩
    | cons t timers ih =>
      intro x h
      have hTurn : (ageTimer ms x t).1.hwAddress = x.1.hwAddress ∧
          (ageTimer ms x t).1.ipAddress = x.1.ipAddress ∧
          ∀ f ∈ (ageTimer ms x t).2, isDatagram f = false := by
        rw [ageTimer]
        split
        · refine ⟨rfl, rfl, fun f hMem => ?_⟩
          obtain hMem | hMem := List.mem_append.mp hMem
          · exact h f hMem
          · rw [List.mem_singleton.mp hMem, isDatagram_sendArp]
        · exact ⟨rfl, rfl, h⟩
      obtain ⟨hHw, hIp, hFrames⟩ := ih _ hTurn.2.2
      exact ⟨hHw.trans hTurn.1, hIp.trans hTurn.2.1, hFrames⟩
  exact hLoop nic.arpTimer.entries _ fun f hMem => absurd hMem List.not_mem_nil

end Tick

section Step

variable (nic : NetworkInterface) (ip : UInt32) (a : Action)

theorem event_recvFrame (frame : EthernetFrame) : nic.event ip (.recvFrame frame) =
    match nic.heard frame with
    | some arp => if arp.senderIpAddress = ip then .learn arp.senderEthernetAddress else .idle
    | none => .idle := rfl

/-- Every action is an event of the small machine of each address. -/
theorem slot_step : (nic.step a).slot ip = (nic.slot ip).step (nic.event ip a) := by
  cases a with
  | sendDatagram d nextHop => exact nic.slot_sendDatagram ip d nextHop
  | recvFrame frame =>
    rw [event_recvFrame, step]
    obtain ⟨arp, hHeard, hRecv⟩ | ⟨hHeard, received, -, hRecv⟩ := nic.recvFrame_cases frame
    · rw [hHeard, nic.perform_heard hRecv]
      exact nic.slot_recvArp ip arp
    · rw [hHeard, hRecv]
      rfl
  | tick ms => exact (nic.tick_slot ip ms).1

theorem sendDatagram_requests (d : InternetDatagram) (nextHop : UInt32) :
    (nic.sendDatagram d nextHop).frames.countP (isRequestFor ip) =
      (nic.slot ip).requests (if nextHop = ip then .send d else .idle) := by
  rw [sendDatagram_frames]
  by_cases hHop : nextHop = ip
  · subst hHop
    cases hCache : (nic.slot nextHop).cache with
    | some entry => cases hWritable : writable d <;> simp [Slot.requests, hCache]
    | none => cases hAsks : (nic.slot nextHop).asks <;> simp [Slot.requests, hCache, hAsks]
  · rw [if_neg hHop]
    cases (nic.slot nextHop).cache with
    | some entry => cases writable d <;> simp [Slot.requests]
    | none => cases (nic.slot nextHop).asks <;> simp [Slot.requests, hHop]

theorem recvArp_requests (arp : ARPMessage) :
    (nic.recvArp arp).frames.countP (isRequestFor ip) = 0 := by
  rw [List.countP_eq_zero, recvArp_eq]
  intro f hMem
  obtain hMem | hMem := List.mem_append.mp hMem
  · obtain ⟨d, -, rfl⟩ := List.mem_map.mp hMem
    simp
  · split at hMem
    · rw [List.mem_singleton.mp hMem]
      simp
    · cases hMem

theorem requests_step :
    (nic.transmitted a).countP (isRequestFor ip) = (nic.slot ip).requests (nic.event ip a) := by
  cases a with
  | sendDatagram d nextHop => exact nic.sendDatagram_requests ip d nextHop
  | recvFrame frame =>
    rw [event_recvFrame, transmitted]
    obtain ⟨arp, hHeard, hRecv⟩ | ⟨hHeard, received, -, hRecv⟩ := nic.recvFrame_cases frame
    · rw [hHeard, nic.perform_heard hRecv, recvArp_requests]
      dsimp only
      split <;> rfl
    · rw [hHeard, hRecv]
      rfl
  | tick ms => exact (nic.tick_slot ip ms).2

theorem recvArp_datagrams (arp : ARPMessage) : (nic.recvArp arp).frames.filter isDatagram =
    ((nic.slot arp.senderIpAddress).sends (.learn arp.senderEthernetAddress)).map
      fun x => nic.carrying x.2 x.1 := by
  rw [recvArp_eq, List.filter_append, Slot.sends, List.map_map]
  rw [List.filter_eq_self.mpr, List.filter_eq_nil_iff.mpr, List.append_nil]
  · rfl
  · intro f hMem
    split at hMem
    · rw [List.mem_singleton.mp hMem]
      simp
    · cases hMem
  · intro f hMem
    obtain ⟨d, -, rfl⟩ := List.mem_map.mp hMem
    rfl

/-- The datagrams an action sends, all of them for its addressee. -/
theorem datagrams_step : (nic.transmitted a).filter isDatagram =
    match nic.addressee a with
    | some hop => ((nic.slot hop).sends (nic.event hop a)).map fun x => nic.carrying x.2 x.1
    | none => [] := by
  cases a with
  | sendDatagram d nextHop =>
    have hEvent : nic.event nextHop (.sendDatagram d nextHop) = .send d := if_pos rfl
    simp only [addressee, hEvent, transmitted, perform, call, sendDatagram_frames, Slot.sends]
    cases (nic.slot nextHop).cache with
    | some entry => cases hWritable : writable d <;> rfl
    | none => cases (nic.slot nextHop).asks <;> rfl
  | recvFrame frame =>
    obtain ⟨arp, hHeard, hRecv⟩ | ⟨hHeard, received, -, hRecv⟩ := nic.recvFrame_cases frame
    · have hEvent : nic.event arp.senderIpAddress (.recvFrame frame) =
          .learn arp.senderEthernetAddress := by
        rw [event_recvFrame, hHeard]
        exact if_pos rfl
      simp only [addressee, hHeard, Option.map_some, hEvent, transmitted, nic.perform_heard hRecv,
        recvArp_datagrams]
    · simp only [addressee, hHeard, Option.map_none, transmitted, hRecv]
      rfl
  | tick ms =>
    refine List.filter_eq_nil_iff.mpr fun f hMem => ?_
    rw [(nic.tick_frames ms).2.2 f hMem]
    exact Bool.false_ne_true

/-- Sending changes the timer and the queue of the next hop at most. -/
theorem sendDatagram_same (d : InternetDatagram) (nextHop : UInt32) :
    (nic.sendDatagram d nextHop).interface =
      { nic with
        arpTimer := (nic.sendDatagram d nextHop).interface.arpTimer
        pending := (nic.sendDatagram d nextHop).interface.pending } := by
  cases hCache : nic.arpCache.lookup nextHop with
  | some entry => rw [nic.sendDatagram_cached d hCache]
  | none =>
    rw [sendDatagram, hCache]
    dsimp only
    split <;> rfl

theorem addresses_step :
    (nic.step a).hwAddress = nic.hwAddress ∧ (nic.step a).ipAddress = nic.ipAddress := by
  cases a with
  | sendDatagram d nextHop =>
    rw [step, perform, call, sendDatagram_same]
    exact ⟨rfl, rfl⟩
  | recvFrame frame =>
    rw [step]
    obtain ⟨arp, -, hRecv⟩ | ⟨-, received, -, hRecv⟩ := nic.recvFrame_cases frame
    · rw [nic.perform_heard hRecv, recvArp_eq]
      exact ⟨rfl, rfl⟩
    · rw [hRecv]
      exact ⟨rfl, rfl⟩
  | tick ms => exact ⟨(nic.tick_frames ms).1, (nic.tick_frames ms).2.1⟩

end Step

end Minnow.NetworkInterface
