import Minnow.InterfaceCache
import Minnow.InterfaceRequests
import Minnow.InterfaceTables

/-! # The account of every datagram

A ledger follows the datagrams submitted for one next hop, in order. Frames
that leave are charged to the datagrams that have waited longest; what the
interface then no longer holds is written off. It balances as long as all of
them have the version that `serialize` takes.
-/

namespace Minnow.NetworkInterface

open Library

/-- `lost` is a datagram that disappears without a tick. -/
inductive Fate where
  | sent (frame : EthernetFrame) (announced : Option EthernetAddress)
  | discarded (elapsed : Option Nat)
  | lost
deriving DecidableEq

namespace Fate

def frame : Fate → Option EthernetFrame
  | sent f _ => some f
  | _ => none

/-- A frame carries the datagram to the address announced last, and a datagram is discarded
no sooner than five seconds after the request. -/
def Lawful (hwAddress : EthernetAddress) (d : InternetDatagram) : Fate → Prop
  | sent f announced => serialize d.serialize = some f.payload ∧
      ∃ mac ∈ announced, f.header = ⟨mac, hwAddress, EthernetHeader.TYPE_IPv4⟩
  | discarded elapsed => ∃ ms ∈ elapsed, ARP_RETRY_MS ≤ ms
  | lost => False

end Fate

structure Ledger where
  requests : Spacing
  latest : Option Sighting
  submitted : List InternetDatagram
  settled : List (InternetDatagram × Fate)
  waiting : List InternetDatagram
  frames : List EthernetFrame
deriving DecidableEq

namespace Ledger

def initial : Ledger := ⟨Spacing.initial, none, [], [], [], []⟩

def settle (x : Ledger) (arrivals : List InternetDatagram) (frames : List EthernetFrame)
    (announced : Option EthernetAddress) (otherwise : Fate) (held : Nat) : Ledger :=
  let queue := x.waiting ++ arrivals
  let rest := queue.drop frames.length
  { x with
    submitted := x.submitted ++ arrivals
    settled := x.settled ++ (queue.zip frames).map (fun e => (e.1, .sent e.2 announced)) ++
      (rest.take (rest.length - held)).map (fun d => (d, otherwise))
    waiting := rest.drop (rest.length - held)
    frames := x.frames ++ frames }

def arrivals (hop : UInt32) : Action → List InternetDatagram
  | .sendDatagram d nextHop => if nextHop = hop then [d] else []
  | _ => []

/-- The datagram frames of an action count for its addressee. -/
def departures (hop : UInt32) (nic : NetworkInterface) (a : Action) : List EthernetFrame :=
  if nic.addressee a = some hop then (nic.transmitted a).filter isDatagram else []

def writeOff (x : Ledger) : Action → Fate
  | .tick ms => .discarded (x.requests.pass (.tick ms)).since
  | _ => .lost

def record (hop : UInt32) (x : Ledger) (nic : NetworkInterface) (a : Action) : Ledger :=
  let latest := Sighting.record hop x.latest nic a
  let held := (((nic.step a).pending.lookup hop).getD []).length
  { x.settle (arrivals hop a) (departures hop nic a) (latest.map Sighting.mac) (x.writeOff a)
      held with
    requests := x.requests.record hop nic a
    latest := latest }

theorem settle_eq {x : Ledger} {arrivals dropped kept : List InternetDatagram} {ι : Type*}
    {out : List ι} {dgram : ι → InternetDatagram} (frame : ι → EthernetFrame)
    (hQueue : x.waiting ++ arrivals = out.map dgram ++ (dropped ++ kept))
    (announced : Option EthernetAddress) (otherwise : Fate) :
    x.settle arrivals (out.map frame) announced otherwise kept.length =
      { x with
        submitted := x.submitted ++ arrivals
        settled := x.settled ++ out.map (fun i => (dgram i, .sent (frame i) announced)) ++
          dropped.map (fun d => (d, otherwise))
        waiting := kept
        frames := x.frames ++ out.map frame } := by
  have hZip : (x.waiting ++ arrivals).zip (out.map frame) =
      out.map fun i => (dgram i, frame i) := by
    rw [hQueue, ← List.append_nil (out.map frame), List.zip_append (by simp), List.zip_nil_right,
      List.append_nil, List.zip_map']
  have hRest : (x.waiting ++ arrivals).drop (out.map frame).length = dropped ++ kept := by
    rw [hQueue, List.length_map, ← List.length_map (f := dgram), List.drop_left]
  have hLength : (dropped ++ kept).length - kept.length = dropped.length := by
    rw [List.length_append, Nat.add_sub_cancel]
  simp only [settle, hZip, hRest, hLength, List.take_left, List.drop_left, List.map_map]
  rfl

end Ledger

namespace Slot

/-- The datagrams that the retry of a tick gives up. -/
def drops (s : Slot) : Event → List InternetDatagram
  | .tick ms => if s.retries ms then s.queue.getD [] else []
  | _ => []

end Slot

section Slot

variable {s : Slot}

/-- What waits after the event was there before or has just come, and the rest left in order. -/
theorem Coherent.flow (h : Coherent s) {e : Event} (hVer : ∀ d ∈ e.arrivals, d.header.ver = 4) :
    s.queue.getD [] ++ e.arrivals =
      (s.sends e).map Prod.fst ++ (s.drops e ++ (s.step e).queue.getD []) := by
  cases e with
  | send d =>
    cases hCache : s.cache with
    | some entry =>
      have hQueue : s.queue = none := by
        by_contra hSome
        rw [h.disjoint (Option.isSome_iff_ne_none.mpr hSome)] at hCache
        cases hCache
      have hWritable : writable d = true := writable_iff.mpr (hVer d (List.mem_singleton_self d))
      simp [Event.arrivals, Slot.sends, Slot.drops, Slot.step, hCache, hQueue, hWritable]
    | none => simp [Event.arrivals, Slot.sends, Slot.drops, Slot.step, hCache]
  | learn mac =>
    rw [h.queue_learn mac, Slot.sends, (Slot.flushed_of_writable h.sendable).1]
    simp [Event.arrivals, Slot.drops, Function.comp_def]
  | tick ms =>
    cases hRetry : s.retries ms <;>
      simp [Event.arrivals, Slot.sends, Slot.drops, Slot.step, hRetry]
  | idle => simp [Event.arrivals, Slot.sends, Slot.drops, Slot.step]

/-- What is sent has passed `serialize`. -/
theorem Slot.sends_ver {e : Event} {x : InternetDatagram × EthernetAddress} (h : x ∈ s.sends e) :
    x.1.header.ver = 4 := by
  cases e with
  | send d =>
    rw [Slot.sends] at h
    split at h
    · split at h
      · rename_i hWritable
        rw [List.mem_singleton.mp h]
        exact writable_iff.mp hWritable
      · cases h
    · cases h
  | learn mac =>
    obtain ⟨d, hMem, rfl⟩ := List.mem_map.mp h
    exact writable_iff.mp (List.mem_takeWhile_imp hMem)
  | tick ms => cases h
  | idle => cases h

/-- A datagram goes to the address that the cache holds afterwards. -/
theorem Slot.sends_mac {e : Event} {x : InternetDatagram × EthernetAddress} (h : x ∈ s.sends e) :
    (s.step e).cache.map ARPEntry.mac = some x.2 := by
  cases e with
  | send d =>
    cases hCache : s.cache with
    | some entry =>
      rw [Slot.sends, hCache] at h
      dsimp only at h
      split at h
      · rw [List.mem_singleton.mp h]
        simp [Slot.step, hCache]
      · cases h
    | none => simp [Slot.sends, hCache] at h
  | learn mac =>
    obtain ⟨d, -, rfl⟩ := List.mem_map.mp h
    rfl
  | tick ms => cases h
  | idle => cases h

end Slot

structure Accounted (hop : UInt32) (nic : NetworkInterface) (x : Ledger) : Prop where
  submitted : x.submitted = x.settled.map Prod.fst ++ (nic.pending.lookup hop).getD []
  frames : x.frames = x.settled.filterMap fun e => e.2.frame
  lawful : ∀ e ∈ x.settled, e.2.Lawful nic.hwAddress e.1

/-- What a ledger knows of the interface, whatever is submitted. -/
structure Kept (hop : UInt32) (nic : NetworkInterface) (x : Ledger) : Prop where
  spaced : Spaced (nic.slot hop) x.requests
  remembers : Remembers hop nic x.latest
  held : x.waiting.length ≤ ((nic.slot hop).queue.getD []).length
  queued : ∀ d ∈ (nic.slot hop).queue.getD [], d ∈ x.submitted

/-- The account with what the next action needs to know. -/
structure Balanced (hop : UInt32) (nic : NetworkInterface) (x : Ledger) : Prop
    extends Kept hop nic x where
  coherent : Coherent (nic.slot hop)
  waiting : x.waiting = (nic.slot hop).queue.getD []
  accounted : Accounted hop nic x

section Step

variable {hop : UInt32} {nic : NetworkInterface} {x : Ledger}

theorem arrivals_event (hop : UInt32) (nic : NetworkInterface) (a : Action) :
    Ledger.arrivals hop a = (nic.event hop a).arrivals := by
  cases a with
  | sendDatagram d nextHop =>
    rw [Ledger.arrivals, event]
    split <;> rfl
  | recvFrame frame =>
    rw [event_recvFrame]
    cases nic.heard frame with
    | none => rfl
    | some arp =>
      dsimp only
      split <;> rfl
  | tick ms => rfl

theorem departures_event (hop : UInt32) (nic : NetworkInterface) (a : Action) :
    Ledger.departures hop nic a = ((nic.slot hop).sends (nic.event hop a)).map
      fun e => nic.carrying e.2 e.1 := by
  rw [Ledger.departures]
  split
  · rename_i hHop
    rw [datagrams_step, hHop]
  · rename_i hHop
    have hNone : (nic.slot hop).sends (nic.event hop a) = [] := by
      cases a with
      | sendDatagram d nextHop =>
        have hOther : ¬ nextHop = hop := fun h => hHop (congrArg some h)
        rw [event, if_neg hOther]
        rfl
      | recvFrame frame =>
        rw [event_recvFrame]
        rw [addressee] at hHop
        cases hHeard : nic.heard frame with
        | none => rfl
        | some arp =>
          have hOther : ¬ arp.senderIpAddress = hop := fun h => hHop (by rw [hHeard, ← h]; rfl)
          dsimp only
          rw [if_neg hOther]
          rfl
      | tick ms => rfl
    rw [hNone]
    rfl

theorem Kept.record (h : Kept hop nic x) (a : Action) :
    Kept hop (nic.step a) (x.record hop nic a) where
  spaced := h.spaced.record a
  remembers := h.remembers.record a
  held := by
    change (((x.waiting ++ Ledger.arrivals hop a).drop _).drop _).length ≤ _
    rw [List.length_drop]
    exact tsub_tsub_le
  queued d hMem := by
    change d ∈ x.submitted ++ Ledger.arrivals hop a
    rw [slot_step] at hMem
    rw [arrivals_event hop nic a]
    exact List.mem_append.mpr ((Slot.queue_origin hMem).imp_left (h.queued d))

/-- An action that is no event for the hop leaves the account as it is. -/
theorem Kept.record_idle (h : Kept hop nic x) {a : Action} (hIdle : nic.event hop a = .idle) :
    (x.record hop nic a).settled = x.settled ∧ (x.record hop nic a).frames = x.frames ∧
      (nic.step a).pending.lookup hop = nic.pending.lookup hop := by
  have hArrivals : Ledger.arrivals hop a = [] := by
    rw [arrivals_event hop nic a, hIdle]
    rfl
  have hDepartures : Ledger.departures hop nic a = [] := by
    rw [departures_event, hIdle]
    rfl
  have hQueue : (nic.step a).pending.lookup hop = nic.pending.lookup hop := by
    have hSlot := congrArg Slot.queue (nic.slot_step hop a)
    rw [hIdle] at hSlot
    exact hSlot
  have hNone : x.waiting.length - ((nic.pending.lookup hop).getD []).length = 0 :=
    Nat.sub_eq_zero_of_le h.held
  refine ⟨?_, ?_, hQueue⟩
  · simp [Ledger.record, Ledger.settle, hArrivals, hDepartures, hQueue, hNone]
  · simp [Ledger.record, Ledger.settle, hDepartures]

/-- The action submits nothing for the hop that `serialize` does not take. -/
def Submits (hop : UInt32) (a : Action) : Prop :=
  ∀ d, a = .sendDatagram d hop → d.header.ver = 4

theorem Submits.arrivals {a : Action} (h : Submits hop a) :
    ∀ d ∈ (nic.event hop a).arrivals, d.header.ver = 4 :=
  fun d hMem => h d (mem_arrivals hMem)

/-- The ledger of an action, in the terms of the small machine. -/
theorem Balanced.record_eq (h : Balanced hop nic x) {a : Action} (hOk : Submits hop a) :
    let s := nic.slot hop
    let e := nic.event hop a
    let latest := Sighting.record hop x.latest nic a
    x.record hop nic a =
      { requests := x.requests.record hop nic a
        latest := latest
        submitted := x.submitted ++ e.arrivals
        settled := x.settled ++
          (s.sends e).map (fun i =>
            (i.1, .sent (nic.carrying i.2 i.1) (latest.map Sighting.mac))) ++
          (s.drops e).map (fun d => (d, x.writeOff a))
        waiting := (s.step e).queue.getD []
        frames := x.frames ++ (s.sends e).map fun i => nic.carrying i.2 i.1 } := by
  intro s e latest
  have hFlow : x.waiting ++ e.arrivals =
      (s.sends e).map Prod.fst ++ (s.drops e ++ (s.step e).queue.getD []) := by
    rw [h.waiting]
    exact h.coherent.flow hOk.arrivals
  have hHeld : ((nic.step a).pending.lookup hop).getD [] = (s.step e).queue.getD [] :=
    congrArg (fun slot => slot.queue.getD []) (nic.slot_step hop a)
  have hSettle := Ledger.settle_eq (fun i => nic.carrying i.2 i.1) hFlow
    (latest.map Sighting.mac) (x.writeOff a)
  rw [Ledger.record, arrivals_event hop nic a, departures_event, hHeld, hSettle]

theorem Kept.lawful_sent (h : Kept hop nic x) (a : Action)
    {i : InternetDatagram × EthernetAddress} (hSent : i ∈ (nic.slot hop).sends (nic.event hop a)) :
    Fate.Lawful nic.hwAddress i.1 (.sent (nic.carrying i.2 i.1)
      ((Sighting.record hop x.latest nic a).map Sighting.mac)) := by
  refine ⟨IPv4Datagram.serialize_eq (Slot.sends_ver hSent), i.2, ?_, rfl⟩
  have hMac := Slot.sends_mac hSent
  rw [← slot_step, h.remembers.record a] at hMac
  cases hLatest : Sighting.record hop x.latest nic a with
  | none => simp [hLatest] at hMac
  | some latest =>
    by_cases hAlive : latest.age < ARP_TTL_MS
    · simpa [hLatest, Sighting.entry, hAlive] using hMac
    · simp [hLatest, Sighting.entry, hAlive] at hMac

theorem Kept.lawful_dropped (h : Kept hop nic x) (a : Action) {d : InternetDatagram}
    (hDrop : d ∈ (nic.slot hop).drops (nic.event hop a)) :
    (x.writeOff a).Lawful nic.hwAddress d := by
  cases a with
  | tick ms =>
    have hRetry : (nic.slot hop).retries ms = true := by
      by_contra hNot
      simp [event, Slot.drops, hNot] at hDrop
    obtain ⟨⟨t, hTimer, hDue⟩, -⟩ := Slot.retries_iff.mp hRetry
    obtain ⟨e, hSince, hLe⟩ := h.spaced.timer t hTimer
    refine ⟨e + ms, Option.mem_map_of_mem _ hSince, ?_⟩
    calc ARP_RETRY_MS ≤ u64 (t + ms) := hDue
      _ ≤ t + ms := Nat.mod_le (t + ms) (2 ^ 64)
      _ ≤ e + ms := Nat.add_le_add_right hLe ms
  | sendDatagram d nextHop =>
    rw [event] at hDrop
    split at hDrop <;> cases hDrop
  | recvFrame frame =>
    rw [event_recvFrame] at hDrop
    split at hDrop
    · split at hDrop <;> cases hDrop
    · cases hDrop

theorem Balanced.record (h : Balanced hop nic x) {a : Action} (hOk : Submits hop a) :
    Balanced hop (nic.step a) (x.record hop nic a) := by
  have hQueue : ((nic.step a).slot hop).queue = ((nic.slot hop).step (nic.event hop a)).queue :=
    congrArg Slot.queue (nic.slot_step hop a)
  have hKept := h.toKept.record a
  rw [h.record_eq hOk] at hKept ⊢
  refine ⟨hKept, ?_, ?_, ?_, ?_, ?_⟩
  · rw [slot_step]
    exact h.coherent.step hOk.arrivals
  · exact congrArg (Option.getD · []) hQueue.symm
  · have hSubmitted : x.submitted = x.settled.map Prod.fst ++ (nic.slot hop).queue.getD [] :=
      h.accounted.submitted
    change _ = _ ++ ((nic.step a).slot hop).queue.getD []
    rw [hQueue, hSubmitted, List.append_assoc, h.coherent.flow hOk.arrivals]
    simp [Function.comp_def]
  · dsimp only
    rw [List.filterMap_append, List.filterMap_append, ← h.accounted.frames, List.filterMap_map,
      List.filterMap_map]
    have hDropped : ∀ d ∈ (nic.slot hop).drops (nic.event hop a), (x.writeOff a).frame = none := by
      cases a <;> exact fun _ _ => rfl
    have hNone : ((nic.slot hop).drops (nic.event hop a)).filterMap
        ((fun e => e.2.frame) ∘ fun d => (d, x.writeOff a)) = [] :=
      List.filterMap_eq_nil_iff.mpr hDropped
    rw [hNone, List.append_nil, ← List.filterMap_eq_map]
    rfl
  · intro e hMem
    rw [(nic.addresses_step a).1]
    rw [List.mem_append, List.mem_append] at hMem
    obtain (hMem | hMem) | hMem := hMem
    · exact h.accounted.lawful e hMem
    · obtain ⟨i, hSent, rfl⟩ := List.mem_map.mp hMem
      exact h.lawful_sent a hSent
    · obtain ⟨d, hDrop, rfl⟩ := List.mem_map.mp hMem
      exact h.lawful_dropped a hDrop

end Step

theorem balanced_new (hwAddress : EthernetAddress) (ipAddress hop : UInt32) :
    Balanced hop (new hwAddress ipAddress) Ledger.initial where
  spaced := spaced_new hwAddress ipAddress hop
  remembers := rfl
  held := le_rfl
  queued _ hMem := absurd hMem List.not_mem_nil
  coherent := coherent_empty
  waiting := rfl
  accounted := ⟨rfl, rfl, fun _ hMem => absurd hMem List.not_mem_nil⟩

/-- When only datagrams of version 4 are submitted for a next hop, every one of them has been sent,
has been discarded or waits, and frames leave in the order of submission. Whatever is submitted, a
frame with a datagram has an addressee; for the hop it carries one of those submitted, to the
address announced last. An ARP message from elsewhere leaves the account as it is. -/
theorem run_accounted (hwAddress : EthernetAddress) (ipAddress hop : UInt32)
    (actions : List Action) :
    let y := Run.run (Run.withHistory step (Ledger.record hop))
      (new hwAddress ipAddress, Ledger.initial) actions
    ((∀ d, .sendDatagram d hop ∈ actions → d.header.ver = 4) → Accounted hop y.1 y.2) ∧
      (∀ frame arp, y.1.heard frame = some arp → arp.senderIpAddress ≠ hop →
        let z := y.2.record hop y.1 (.recvFrame frame)
        z.settled = y.2.settled ∧ z.frames = y.2.frames ∧
          (y.1.step (.recvFrame frame)).pending.lookup hop = y.1.pending.lookup hop) ∧
      ∀ a, ∀ f ∈ y.1.transmitted a, isDatagram f = true → ∃ other,
        y.1.addressee a = some other ∧ (other = hop →
          let z := y.2.record hop y.1 a
          ∃ d ∈ z.submitted,
            (Fate.sent f (z.latest.map Sighting.mac)).Lawful y.1.hwAddress d) := by
  intro y
  have hNew := balanced_new hwAddress ipAddress hop
  have hKept : Kept hop y.1 y.2 :=
    Run.invariant_withHistory (P := fun y => Kept hop y.1 y.2) (Ledger.record hop)
      (fun y a h => h.record a) (new hwAddress ipAddress, Ledger.initial) hNew.toKept actions
  refine ⟨fun hVer => ?_, fun frame arp hHeard hOther => ?_, fun a f hMem hDatagram => ?_⟩
  · have hBalanced : Balanced hop y.1 y.2 :=
      Run.invariant (P := fun y : NetworkInterface × Ledger => Balanced hop y.1 y.2)
        (C := fun _ a => Submits hop a) (fun y a hOk h => h.record hOk)
        (Run.along_of_forall fun a hMem _ d hEq => hVer d (hEq ▸ hMem)) hNew
    exact hBalanced.accounted
  · apply hKept.record_idle
    rw [event_recvFrame, hHeard]
    exact if_neg hOther
  · have hSent : f ∈ (y.1.transmitted a).filter isDatagram := List.mem_filter.mpr ⟨hMem, hDatagram⟩
    cases hAddressee : y.1.addressee a with
    | none =>
      rw [datagrams_step, hAddressee] at hSent
      cases hSent
    | some other =>
      refine ⟨other, rfl, ?_⟩
      rintro rfl
      rw [datagrams_step, hAddressee] at hSent
      obtain ⟨i, hSends, rfl⟩ := List.mem_map.mp hSent
      refine ⟨i.1, ?_, hKept.lawful_sent a hSends⟩
      change i.1 ∈ y.2.submitted ++ Ledger.arrivals other a
      rw [arrivals_event other y.1 a]
      exact List.mem_append.mpr ((Slot.sends_origin hSends).imp_left (hKept.queued i.1))

/-- A datagram for 9 that waits for an answer, beside one of version 6 for 8. -/
theorem run_accounted_answered :
    let request := (new #v[2, 0, 0, 0, 0, 9] 9).sendArp 1
    let d : InternetDatagram := {}
    let y := Run.run (Run.withHistory step (Ledger.record 9))
      (new #v[2, 0, 0, 0, 0, 1] 1, Ledger.initial)
      [.sendDatagram d 9, .sendDatagram { header := { ver := 6 } } 8, .tick 100,
        .recvFrame request]
    y.2.frames.length = 1 ∧ Accounted 9 y.1 y.2 := by
  intro request d y
  refine ⟨by decide +kernel, (run_accounted #v[2, 0, 0, 0, 0, 1] 1 9
    [.sendDatagram d 9, .sendDatagram { header := { ver := 6 } } 8, .tick 100,
      .recvFrame request]).1 ?_⟩
  intro d' hMem
  have hOnly : d' = d := by simpa using hMem
  rw [hOnly]

/-- A datagram of version 6 whose next hop is known is neither sent nor kept; one that waits makes
every flush throw, and the datagram before it is sent once more each time. -/
theorem not_accounted_of_version :
    let request := (new #v[2, 0, 0, 0, 0, 9] 9).sendArp 1
    let first : InternetDatagram := {}
    let second : InternetDatagram := { header := { ver := 6 } }
    let start := (new #v[2, 0, 0, 0, 0, 1] 1, Ledger.initial)
    let x := Run.run (Run.withHistory step (Ledger.record 9)) start
      [.recvFrame request, .sendDatagram second 9]
    let y := Run.run (Run.withHistory step (Ledger.record 9)) start
      [.sendDatagram first 9, .sendDatagram second 9, .recvFrame request, .recvFrame request]
    (x.2.frames = [] ∧ x.1.pending.lookup 9 = none ∧ x.2.settled = [(second, .lost)] ∧
      ¬ Accounted 9 x.1 x.2) ∧
    y.2.frames.map EthernetFrame.payload = [first.wire, first.wire] ∧
      y.1.pending.lookup 9 = some [first, second] ∧ ¬ Accounted 9 y.1 y.2 := by
  intro request first second start x y
  have hSettled : x.2.settled = [(second, .lost)] := by decide +kernel
  have hPending : y.1.pending.lookup 9 = some [first, second] := by decide +kernel
  refine ⟨⟨by decide +kernel, by decide +kernel, hSettled, fun h => ?_⟩, by decide +kernel,
    hPending, fun h => ?_⟩
  · exact h.lawful (second, .lost) (by rw [hSettled]; exact List.mem_singleton_self _)
  · have hSubmitted := congrArg List.length h.submitted
    have hTwo : y.2.submitted.length = 2 := by decide +kernel
    have hSome : y.2.settled.length ≠ 0 := by decide +kernel
    rw [hPending, hTwo, List.length_append, List.length_map] at hSubmitted
    change 2 = y.2.settled.length + 2 at hSubmitted
    omega

end Minnow.NetworkInterface
