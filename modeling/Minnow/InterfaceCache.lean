import Minnow.Library.Run
import Minnow.InterfaceSlots

/-! # How long a mapping is alive

The countdown in a cache entry is the lifetime less the time since the latest
ARP message of its address, so the cache is a function of that message and of
the sum of the ticks after it. No other part of the interface is read.
-/

namespace Minnow.NetworkInterface

open Library

/-- What the latest ARP message of one address announced, and the ticks since then. -/
structure Sighting where
  mac : EthernetAddress
  age : Nat
deriving DecidableEq

namespace Sighting

def record (ip : UInt32) (latest : Option Sighting) (nic : NetworkInterface) :
    Action → Option Sighting
  | .sendDatagram _ _ => latest
  | .recvFrame frame =>
    match nic.heard frame with
    | some arp => if arp.senderIpAddress = ip then some ⟨arp.senderEthernetAddress, 0⟩ else latest
    | none => latest
  | .tick ms => latest.map fun x => { x with age := x.age + ms }

def entry (x : Sighting) : Option ARPEntry :=
  if x.age < ARP_TTL_MS then some ⟨x.mac, ARP_TTL_MS - x.age⟩ else none

theorem entry_tick (x : Sighting) (ms : Nat) :
    entry { x with age := x.age + ms } = x.entry.bind fun e =>
      if e.ttlMs ≤ ms then none else some { e with ttlMs := e.ttlMs - ms } := by
  simp only [entry]
  by_cases hAlive : x.age < ARP_TTL_MS
  · rw [if_pos hAlive, Option.bind_some]
    by_cases hStill : x.age + ms < ARP_TTL_MS
    · have hLeft : ¬ ARP_TTL_MS - x.age ≤ ms := by omega
      rw [if_pos hStill, if_neg hLeft, Nat.sub_sub]
    · have hLeft : ARP_TTL_MS - x.age ≤ ms := by omega
      rw [if_neg hStill, if_pos hLeft]
  · have hDead : ¬ x.age + ms < ARP_TTL_MS := by omega
    rw [if_neg hAlive, if_neg hDead, Option.bind_none]

end Sighting

def Remembers (ip : UInt32) (nic : NetworkInterface) (latest : Option Sighting) : Prop :=
  (nic.slot ip).cache = latest.bind Sighting.entry

section Cache

variable {nic : NetworkInterface} {ip : UInt32} {latest : Option Sighting}

theorem Remembers.record (h : Remembers ip nic latest) (a : Action) :
    Remembers ip (nic.step a) (Sighting.record ip latest nic a) := by
  rw [Remembers, slot_step]
  rw [Remembers] at h
  cases a with
  | sendDatagram d nextHop =>
    rw [Sighting.record, event, ← h]
    split
    · cases hCache : (nic.slot ip).cache <;> simp [Slot.step, hCache]
    · rfl
  | recvFrame frame =>
    rw [Sighting.record, event_recvFrame]
    cases nic.heard frame with
    | none => exact h
    | some arp =>
      dsimp only
      split
      · rfl
      · exact h
  | tick ms =>
    rw [Sighting.record, event, Slot.step, h]
    cases latest with
    | none => rfl
    | some x => exact (x.entry_tick ms).symm

theorem Remembers.send (h : Remembers ip nic latest) (d : InternetDatagram) :
    (nic.transmitted (.sendDatagram d ip)).filter isDatagram =
      if writable d then
        ((latest.bind Sighting.entry).map fun e => nic.carrying e.mac d).toList
      else [] := by
  have hEvent : nic.event ip (.sendDatagram d ip) = .send d := if_pos rfl
  rw [datagrams_step, addressee, ← h]
  dsimp only
  rw [hEvent]
  cases hCache : (nic.slot ip).cache <;> cases hWritable : writable d <;>
    simp [Slot.sends, hCache, hWritable]

end Cache

/-- The hardware address and the mappings that are alive are the same. -/
def SameCache (nic nic' : NetworkInterface) : Prop :=
  nic.hwAddress = nic'.hwAddress ∧ ∀ ip, nic.arpCache.lookup ip = nic'.arpCache.lookup ip

theorem Slot.cache_congr {s s' : Slot} (h : s.cache = s'.cache) (e : Event) :
    (s.step e).cache = (s'.step e).cache := by
  cases e with
  | send d =>
    rw [Slot.step, Slot.step]
    cases hCache : s.cache <;> simp [← h, hCache]
  | learn mac => rfl
  | tick ms => exact congrArg (Option.bind · _) h
  | idle => exact h

theorem event_congr {nic nic' : NetworkInterface} (h : nic.hwAddress = nic'.hwAddress)
    (ip : UInt32) (a : Action) : nic.event ip a = nic'.event ip a := by
  cases a with
  | sendDatagram d nextHop => rfl
  | recvFrame frame => rw [event_recvFrame, event_recvFrame, heard, heard, h]
  | tick ms => rfl

theorem SameCache.step {nic nic' : NetworkInterface} (h : SameCache nic nic') (a : Action) :
    SameCache (nic.step a) (nic'.step a) := by
  obtain ⟨hHw, hCache⟩ := h
  refine ⟨(nic.addresses_step a).1.trans (hHw.trans (nic'.addresses_step a).1.symm), fun ip => ?_⟩
  change ((nic.step a).slot ip).cache = ((nic'.step a).slot ip).cache
  rw [slot_step, slot_step, event_congr hHw]
  exact Slot.cache_congr (hCache ip) (nic'.event ip a)

theorem sameCache_tick_add (nic : NetworkInterface) (m n : Nat) :
    SameCache ((nic.step (.tick m)).step (.tick n)) (nic.step (.tick (m + n))) := by
  refine ⟨?_, fun ip => ?_⟩
  · simp only [addresses_step]
  · change (((nic.step (.tick m)).step (.tick n)).slot ip).cache =
      ((nic.step (.tick (m + n))).slot ip).cache
    rw [slot_step, slot_step, slot_step]
    cases hCache : (nic.slot ip).cache with
    | none => simp [event, Slot.step, hCache]
    | some entry =>
      by_cases hFirst : entry.ttlMs ≤ m
      · have hBoth : entry.ttlMs ≤ m + n := hFirst.trans (Nat.le_add_right m n)
        simp [event, Slot.step, hCache, hFirst, hBoth]
      · have hIff : entry.ttlMs - m ≤ n ↔ entry.ttlMs ≤ m + n := by omega
        simp [event, Slot.step, hCache, hFirst, hIff, Nat.sub_sub]

/-- A datagram leaves at once exactly when it has the version that `serialize` takes and its next
hop was heard of in the last thirty seconds, and then for the address heard last. How the time is
cut into ticks does not matter. -/
theorem run_fresh (hwAddress : EthernetAddress) (ipAddress ip : UInt32)
    (actions : List Action) (d : InternetDatagram) :
    let y := Run.run (Run.withHistory step (Sighting.record ip))
      (new hwAddress ipAddress, none) actions
    ((∃ f ∈ y.1.transmitted (.sendDatagram d ip), isDatagram f = true) ↔
        d.header.ver = 4 ∧ ∃ x ∈ y.2, x.age < ARP_TTL_MS) ∧
      (∀ f ∈ y.1.transmitted (.sendDatagram d ip), isDatagram f = true →
        ∃ x ∈ y.2, f.header.dst = x.mac) ∧
      ∀ m n later, SameCache (Run.run step y.1 (.tick m :: .tick n :: later))
        (Run.run step y.1 (.tick (m + n) :: later)) := by
  intro y
  have hCache : Remembers ip y.1 y.2 :=
    Run.invariant_withHistory (P := fun y => Remembers ip y.1 y.2) (Sighting.record ip)
      (fun y a h => h.record a) (new hwAddress ipAddress, none) rfl actions
  have hSent : ∀ f, f ∈ y.1.transmitted (.sendDatagram d ip) ∧ isDatagram f = true ↔
      d.header.ver = 4 ∧ ∃ x ∈ y.2, x.age < ARP_TTL_MS ∧ y.1.carrying x.mac d = f := by
    intro f
    rw [← List.mem_filter, hCache.send d, ← writable_iff]
    cases y.2 with
    | none => simp
    | some x =>
      by_cases hAlive : x.age < ARP_TTL_MS <;> cases writable d <;>
        simp [Sighting.entry, hAlive, eq_comm]
  refine ⟨?_, ?_, ?_⟩
  · constructor
    · rintro ⟨f, hSend⟩
      obtain ⟨hVer, x, hLatest, hAlive, -⟩ := (hSent f).mp hSend
      exact ⟨hVer, x, hLatest, hAlive⟩
    · rintro ⟨hVer, x, hLatest, hAlive⟩
      exact ⟨y.1.carrying x.mac d, (hSent _).mpr ⟨hVer, x, hLatest, hAlive, rfl⟩⟩
  · intro f hMem hDatagram
    obtain ⟨-, x, hLatest, -, rfl⟩ := (hSent f).mp ⟨hMem, hDatagram⟩
    exact ⟨x, hLatest, rfl⟩
  · intro m n later
    rw [Run.run_cons, Run.run_cons, Run.run_cons]
    exact Run.simulation (C := fun _ _ => True) (fun _ _ a _ h => h.step a)
      (Run.along_true step _ later) (y.1.sameCache_tick_add m n)

/-- The next hop has just been heard of, but `serialize` throws and nothing is transmitted. -/
theorem not_fresh_of_version :
    let request := (new #v[2, 0, 0, 0, 0, 9] 9).sendArp 1
    let d : InternetDatagram := { header := { ver := 6 } }
    let y := Run.run (Run.withHistory step (Sighting.record 9))
      (new #v[2, 0, 0, 0, 0, 1] 1, none) [.recvFrame request]
    y.2 = some ⟨#v[2, 0, 0, 0, 0, 9], 0⟩ ∧ y.1.transmitted (.sendDatagram d 9) = [] ∧
      ¬ ((∃ f ∈ y.1.transmitted (.sendDatagram d 9), isDatagram f = true) ↔
        ∃ x ∈ y.2, x.age < ARP_TTL_MS) := by
  intro request d y
  have hHeard : y.2 = some ⟨#v[2, 0, 0, 0, 0, 9], 0⟩ := by decide +kernel
  have hNothing : y.1.transmitted (.sendDatagram d 9) = [] := by decide +kernel
  refine ⟨hHeard, hNothing, fun hIff => ?_⟩
  obtain ⟨f, hMem, -⟩ := hIff.mpr ⟨_, hHeard, (by decide : 0 < ARP_TTL_MS)⟩
  rw [hNothing] at hMem
  cases hMem

end Minnow.NetworkInterface
