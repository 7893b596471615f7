import Minnow.Library.Run
import Minnow.InterfaceSlots

/-! # How the three tables fit together

Seen at one address the tables are in one of three conditions: nothing is
known, a mapping is alive, or a request is out and a queue waits for its reply.
A queue that makes `serialize` throw is a fourth one: it outlasts the reply.
-/

namespace Minnow.NetworkInterface

open Library

/-- A timer runs only beside a queue, and no timer or mapping has outlived its time. -/
structure Timely (s : Slot) : Prop where
  queued : s.timer.isSome = true → s.queue.isSome = true
  young : ∀ t ∈ s.timer, t < ARP_RETRY_MS
  alive : ∀ e ∈ s.cache, 0 < e.ttlMs ∧ e.ttlMs ≤ ARP_TTL_MS

/-- All that waits can be sent. A queue then has a timer beside it, and never a mapping. -/
structure Coherent (s : Slot) : Prop extends Timely s where
  sendable : ∀ d ∈ s.queue.getD [], d.header.ver = 4
  timed : s.queue.isSome = true → s.timer.isSome = true
  disjoint : s.queue.isSome = true → s.cache = none

def Event.arrivals : Event → List InternetDatagram
  | .send d => [d]
  | _ => []

section Events

variable {s : Slot}

theorem coherent_empty : Coherent Slot.empty where
  queued h := by cases h
  young _ hMem := by cases hMem
  alive _ hMem := by cases hMem
  sendable _ hMem := by cases hMem
  timed h := by cases h
  disjoint h := by cases h

/-- The timer is either the one that runs already, or a new one. -/
theorem Timely.send_timer (h : Timely s) (d : InternetDatagram) (hCache : s.cache = none) :
    ∃ t, (s.step (.send d)).timer = some t ∧ t < ARP_RETRY_MS := by
  cases hOld : s.timer with
  | none => exact ⟨0, by simp [Slot.step, Slot.asks, hCache, hOld], by decide⟩
  | some t =>
    have hYoung := h.young t hOld
    have hAsks : s.asks = false := by simpa [Slot.asks, hOld] using hYoung
    exact ⟨t, by simp [Slot.step, hCache, hAsks, hOld], hYoung⟩

theorem Timely.send (h : Timely s) (d : InternetDatagram) : Timely (s.step (.send d)) := by
  cases hCache : s.cache with
  | some entry =>
    have hIdle : s.step (.send d) = s := by simp [Slot.step, hCache]
    rw [hIdle]
    exact h
  | none =>
    obtain ⟨t, hTimer, hYoung⟩ := h.send_timer d hCache
    have hSame : (s.step (.send d)).cache = none := by simp [Slot.step, hCache]
    constructor
    · intro _
      simp [Slot.step, hCache]
    · intro t' hMem
      rw [hTimer, Option.mem_some_iff] at hMem
      exact hMem ▸ hYoung
    · intro e hMem
      rw [hSame] at hMem
      cases hMem

theorem queue_tick (s : Slot) (ms : Nat) :
    (s.step (.tick ms)).queue.isSome = s.queue.isSome := by
  change (if s.retries ms then some [] else s.queue).isSome = _
  cases hRetry : s.retries ms with
  | false => rfl
  | true => exact (Slot.retries_iff.mp hRetry).2.symm

theorem timer_tick (s : Slot) (ms : Nat) :
    (s.step (.tick ms)).timer.isSome = s.timer.isSome := Option.isSome_map

theorem Timely.tick (h : Timely s) (ms : Nat) : Timely (s.step (.tick ms)) := by
  constructor
  · rw [timer_tick, queue_tick]
    exact h.queued
  · intro t' hMem
    obtain ⟨t, hOld, rfl⟩ := Option.map_eq_some_iff.mp hMem
    cases hRetry : s.retries ms with
    | true => exact (by decide : 0 < ARP_RETRY_MS)
    | false =>
      -- a timer that has reached the retry time would have been restarted
      by_contra hOver
      have hQueued : s.queue.isSome = true := h.queued (by rw [hOld]; rfl)
      have hDue : ARP_RETRY_MS ≤ u64 (t + ms) := Nat.not_lt.mp hOver
      have hTrue := Slot.retries_iff.mpr ⟨⟨t, hOld, hDue⟩, hQueued⟩
      exact Bool.false_ne_true (hRetry.symm.trans hTrue)
  · intro e' hMem
    obtain ⟨e, hOld, hAged⟩ := Option.bind_eq_some_iff.mp hMem
    obtain ⟨hPos, hLe⟩ := h.alive e hOld
    split at hAged
    · cases hAged
    · rename_i hLeft
      obtain rfl := Option.some.inj hAged
      dsimp only
      omega

theorem Timely.step (h : Timely s) (e : Event) : Timely (s.step e) := by
  cases e with
  | send d => exact h.send d
  | learn mac =>
    constructor
    · intro hSome
      cases hSome
    · intro t hMem
      cases hMem
    · intro e hMem
      obtain rfl := Option.some.inj hMem
      exact ⟨(by decide : 0 < ARP_TTL_MS), le_rfl⟩
  | tick ms => exact h.tick ms
  | idle => exact h

theorem Coherent.send (h : Coherent s) {d : InternetDatagram} (hVer : d.header.ver = 4) :
    Coherent (s.step (.send d)) := by
  cases hCache : s.cache with
  | some entry =>
    have hIdle : s.step (.send d) = s := by simp [Slot.step, hCache]
    rw [hIdle]
    exact h
  | none =>
    obtain ⟨t, hTimer, -⟩ := h.toTimely.send_timer d hCache
    refine { h.toTimely.send d with sendable := ?_, timed := ?_, disjoint := ?_ }
    · intro d' hMem
      simp only [Slot.step, hCache, Option.getD_some, List.mem_append, List.mem_singleton] at hMem
      obtain hMem | rfl := hMem
      · exact h.sendable d' hMem
      · exact hVer
    · intro _
      rw [hTimer]
      rfl
    · intro _
      simp [Slot.step, hCache]

theorem Coherent.tick (h : Coherent s) (ms : Nat) : Coherent (s.step (.tick ms)) := by
  refine { h.toTimely.tick ms with sendable := ?_, timed := ?_, disjoint := ?_ }
  · intro d hMem
    change d ∈ (if s.retries ms then some [] else s.queue).getD [] at hMem
    split at hMem
    · cases hMem
    · exact h.sendable d hMem
  · rw [timer_tick, queue_tick]
    exact h.timed
  · rw [queue_tick]
    intro hSome
    change s.cache.bind _ = none
    rw [h.disjoint hSome, Option.bind_none]

/-- A flush that cannot throw leaves no queue. -/
theorem Coherent.queue_learn (h : Coherent s) (mac : EthernetAddress) :
    (s.step (.learn mac)).queue = none := by
  rw [Slot.step, (Slot.flushed_of_writable h.sendable).2]
  rfl

theorem Coherent.step (h : Coherent s) {e : Event} (hVer : ∀ d ∈ e.arrivals, d.header.ver = 4) :
    Coherent (s.step e) := by
  cases e with
  | send d => exact h.send (hVer d (List.mem_singleton_self d))
  | learn mac =>
    have hNone := h.queue_learn mac
    refine { h.toTimely.step (.learn mac) with sendable := ?_, timed := ?_, disjoint := ?_ }
    · rw [hNone]
      exact fun d hMem => absurd hMem List.not_mem_nil
    · rw [hNone]
      exact fun hSome => absurd hSome Bool.false_ne_true
    · rw [hNone]
      exact fun hSome => absurd hSome Bool.false_ne_true
  | tick ms => exact h.tick ms
  | idle => exact h

/-- What is sent was waiting or has just come. -/
theorem Slot.sends_origin {e : Event} {d : InternetDatagram} {mac : EthernetAddress}
    (h : (d, mac) ∈ s.sends e) :
    d ∈ s.queue.getD [] ∨ d ∈ e.arrivals := by
  cases e with
  | send d' =>
    right
    cases hCache : s.cache with
    | none => simp [Slot.sends, hCache] at h
    | some entry =>
      rw [Slot.sends, hCache] at h
      dsimp only at h
      split at h
      · cases List.mem_singleton.mp h
        exact List.mem_singleton_self d
      · cases h
  | learn mac' =>
    left
    obtain ⟨d', hMem, hEq⟩ := List.mem_map.mp h
    cases hEq
    exact List.takeWhile_subset _ hMem
  | tick ms => cases h
  | idle => cases h

theorem Slot.queue_origin {e : Event} {d : InternetDatagram} (h : d ∈ (s.step e).queue.getD []) :
    d ∈ s.queue.getD [] ∨ d ∈ e.arrivals := by
  cases e with
  | send d' =>
    cases hCache : s.cache with
    | none => simpa [Slot.step, hCache, Event.arrivals] using h
    | some entry => exact .inl (by simpa [Slot.step, hCache] using h)
  | learn mac =>
    left
    change d ∈ (if s.stuck then s.queue else none).getD [] at h
    split at h
    · exact h
    · cases h
  | tick ms =>
    left
    change d ∈ (if s.retries ms then some [] else s.queue).getD [] at h
    split at h
    · cases h
    · exact h
  | idle => exact .inl h

end Events

/-- Only a submitted datagram arrives at a slot. -/
theorem mem_arrivals {nic : NetworkInterface} {a : Action} {ip : UInt32} {d : InternetDatagram}
    (h : d ∈ (nic.event ip a).arrivals) : a = .sendDatagram d ip := by
  cases a with
  | sendDatagram d' nextHop =>
    rw [event] at h
    split at h
    · rename_i hHop
      rw [List.mem_singleton.mp h, hHop]
    · cases h
  | recvFrame frame =>
    rw [event_recvFrame] at h
    split at h
    · split at h <;> cases h
    · cases h
  | tick ms => cases h

theorem timely_run (hwAddress : EthernetAddress) (ipAddress : UInt32) (actions : List Action)
    (ip : UInt32) : Timely ((Run.run step (new hwAddress ipAddress) actions).slot ip) := by
  have hNew : Timely ((new hwAddress ipAddress).slot ip) := coherent_empty.toTimely
  exact Run.invariant_of_step (P := fun nic : NetworkInterface => Timely (nic.slot ip))
    (fun nic a h => slot_step nic ip a ▸ h.step (nic.event ip a)) hNew actions

theorem coherent_run (hwAddress : EthernetAddress) (ipAddress : UInt32) {actions : List Action}
    {ip : UInt32} (hVer : ∀ d, .sendDatagram d ip ∈ actions → d.header.ver = 4) :
    Coherent ((Run.run step (new hwAddress ipAddress) actions).slot ip) := by
  have hNew : Coherent ((new hwAddress ipAddress).slot ip) := coherent_empty
  refine Run.invariant (P := fun nic : NetworkInterface => Coherent (nic.slot ip))
    (C := fun _ a => ∀ d, a = .sendDatagram d ip → d.header.ver = 4)
    (fun nic a hOk h => ?_) ?_ hNew
  · rw [slot_step]
    exact h.step fun d hMem => hOk d (mem_arrivals hMem)
  · exact Run.along_of_forall fun a hMem _ d hEq => hVer d (hEq ▸ hMem)

/-- After every call a timer runs only beside a queue, no timer has reached the retry time, and
every mapping is alive. For an address that only datagrams of version 4 have been submitted for,
the timers and the queues have the same keys, and no queue waits beside a mapping. -/
theorem run_coherent (hwAddress : EthernetAddress) (ipAddress : UInt32) (actions : List Action) :
    let nic := Run.run step (new hwAddress ipAddress) actions
    (∀ ip, (∀ d, .sendDatagram d ip ∈ actions → d.header.ver = 4) →
      (ip ∈ nic.arpTimer ↔ ip ∈ nic.pending) ∧ ¬ (ip ∈ nic.arpCache ∧ ip ∈ nic.pending)) ∧
      (∀ ip, ip ∈ nic.arpTimer → ip ∈ nic.pending) ∧
      (∀ ip, ∀ t ∈ nic.arpTimer.lookup ip, t < 5000) ∧
      ∀ ip, ∀ e ∈ nic.arpCache.lookup ip, 0 < e.ttlMs ∧ e.ttlMs ≤ 30000 := by
  intro nic
  have hTimely : ∀ ip, Timely (nic.slot ip) := timely_run hwAddress ipAddress actions
  have hQueued : ∀ ip, ip ∈ nic.arpTimer → ip ∈ nic.pending := by
    intro ip
    rw [← AList.lookup_isSome, ← AList.lookup_isSome]
    exact (hTimely ip).queued
  refine ⟨fun ip hVer => ?_, hQueued, fun ip => (hTimely ip).young, fun ip => (hTimely ip).alive⟩
  have h : Coherent (nic.slot ip) := coherent_run hwAddress ipAddress hVer
  refine ⟨⟨hQueued ip, ?_⟩, ?_⟩
  · rw [← AList.lookup_isSome, ← AList.lookup_isSome]
    exact h.timed
  · rintro ⟨hCache, hPending⟩
    rw [← AList.lookup_isSome] at hCache hPending
    have hNone : nic.arpCache.lookup ip = none := h.disjoint hPending
    rw [hNone] at hCache
    cases hCache

/-- The datagram of version 6 waits for 8 only. -/
theorem run_coherent_mixed :
    let nic := Run.run step (new #v[2, 0, 0, 0, 0, 1] 1)
      [.sendDatagram {} 9, .sendDatagram { header := { ver := 6 } } 8, .tick 1000]
    9 ∈ nic.arpTimer ∧ 9 ∈ nic.pending ∧ 9 ∉ nic.arpCache := by
  intro nic
  have h := (run_coherent #v[2, 0, 0, 0, 0, 1] 1
    [.sendDatagram {} 9, .sendDatagram { header := { ver := 6 } } 8, .tick 1000]).1 9 (by simp)
  have hQueue : 9 ∈ nic.pending := by decide +kernel
  exact ⟨h.1.mpr hQueue, hQueue, fun hCache => h.2 ⟨hCache, hQueue⟩⟩

/-- The exception of `serialize` leaves the flush when the mapping is there and the timer gone, but
the queue not yet erased. -/
theorem not_coherent_of_version :
    let request := (new #v[2, 0, 0, 0, 0, 9] 9).sendArp 1
    let nic := Run.run step (new #v[2, 0, 0, 0, 0, 1] 1)
      [.sendDatagram { header := { ver := 6 } } 9, .recvFrame request]
    9 ∈ nic.arpCache ∧ 9 ∈ nic.pending ∧ 9 ∉ nic.arpTimer := by
  decide +kernel

end Minnow.NetworkInterface
