import Minnow.Library.Run
import Minnow.InterfaceSlots

/-! # When requests are broadcast

A request leaves traffic waiting unless `tick` issued it, because that branch
has just emptied the queue. Requests for one address are far apart whatever
issued them: the timer is behind the time since the last one, and without a
timer a cache entry has kept the address quiet for longer.
-/

namespace Minnow.NetworkInterface

open Library

/-- Whoever is asked for has a datagram waiting when the action is over. -/
def RequestsHaveTraffic (nic : NetworkInterface) (a : Action) : Prop :=
  ∀ ip, 0 < (nic.transmitted a).countP (isRequestFor ip) →
    ((nic.step a).pending.lookup ip).getD [] ≠ []

/-- No tick brings the timer of an address with a queue to the retry time. -/
def NoRetry (nic : NetworkInterface) : Action → Prop
  | .tick ms => ∀ t ∈ nic.arpTimer.entries, t.1 ∈ nic.pending → u64 (t.2 + ms) < ARP_RETRY_MS
  | _ => True

instance (nic : NetworkInterface) (a : Action) : Decidable (NoRetry nic a) :=
  match a with
  | .tick ms => inferInstanceAs (Decidable (∀ t ∈ nic.arpTimer.entries,
      t.1 ∈ nic.pending → u64 (t.2 + ms) < ARP_RETRY_MS))
  | .sendDatagram _ _ => instDecidableTrue
  | .recvFrame _ => instDecidableTrue

theorem noRetry_tick (nic : NetworkInterface) (ms : Nat) :
    NoRetry nic (.tick ms) ↔ ∀ ip, ¬ (nic.slot ip).retries ms = true := by
  constructor
  · intro h ip hRetry
    obtain ⟨⟨t, hTimer, hLe⟩, hQueue⟩ := Slot.retries_iff.mp hRetry
    have hLt := h ⟨ip, t⟩ (AList.mem_lookup_iff.mp hTimer) (AList.lookup_isSome.mp hQueue)
    exact absurd hLe (Nat.not_le.mpr hLt)
  · rintro h ⟨ip, t⟩ hEntry hQueue
    by_contra hLe
    refine h ip (Slot.retries_iff.mpr ⟨⟨t, ?_, Nat.not_lt.mp hLe⟩, ?_⟩)
    · exact AList.mem_lookup_iff.mpr hEntry
    · exact AList.lookup_isSome.mpr hQueue

theorem requestsHaveTraffic_iff (nic : NetworkInterface) (a : Action) :
    RequestsHaveTraffic nic a ↔ NoRetry nic a := by
  have hQueue : ∀ ip,
      (nic.step a).pending.lookup ip = ((nic.slot ip).step (nic.event ip a)).queue :=
    fun ip => congrArg Slot.queue (nic.slot_step ip a)
  simp only [RequestsHaveTraffic, requests_step, hQueue]
  cases a with
  | sendDatagram d nextHop =>
    refine iff_of_true (fun ip hPos => ?_) trivial
    simp only [event] at hPos ⊢
    split at hPos
    · rename_i hHop
      rw [if_pos hHop]
      cases hCache : (nic.slot ip).cache with
      | some entry => simp [Slot.requests, hCache] at hPos
      | none => simp [Slot.step, hCache]
    · cases hPos
  | recvFrame frame =>
    refine iff_of_true (fun ip hPos => absurd hPos ?_) trivial
    rw [event_recvFrame]
    split
    · split <;> exact lt_irrefl 0
    · exact lt_irrefl 0
  | tick ms =>
    rw [noRetry_tick]
    apply forall_congr'
    intro ip
    cases hRetry : (nic.slot ip).retries ms <;> simp [Slot.requests, Slot.step, event, hRetry]

/-- A run broadcasts every request with traffic waiting exactly when no tick of it retries. -/
theorem run_requestsHaveTraffic (hwAddress : EthernetAddress) (ipAddress : UInt32)
    (actions : List Action) :
    Run.Along step RequestsHaveTraffic (new hwAddress ipAddress) actions ↔
      Run.Along step NoRetry (new hwAddress ipAddress) actions := by
  have hSame : RequestsHaveTraffic = NoRetry := by
    funext nic a
    exact propext (requestsHaveTraffic_iff nic a)
  rw [hSame]

/-- The queue of an unanswered address is emptied, its entry and its timer stay: every further
tick of five seconds asks again for nobody. -/
theorem not_requestsHaveTraffic_of_discard :
    let nic := Run.run step (new #v[2, 0, 0, 0, 0, 1] 1)
      [.sendDatagram {} 9, .tick 5000]
    nic.pending.lookup 9 = some [] ∧
      (nic.transmitted (.tick 5000)).countP (isRequestFor 9) = 1 ∧
      (nic.step (.tick 5000)).pending.lookup 9 = some [] ∧
      ¬ RequestsHaveTraffic nic (.tick 5000) := by
  intro nic
  have hCount : (nic.transmitted (.tick 5000)).countP (isRequestFor 9) = 1 := by decide +kernel
  have hQueue : (nic.step (.tick 5000)).pending.lookup 9 = some [] := by decide +kernel
  refine ⟨by decide +kernel, hCount, hQueue, fun h => ?_⟩
  have hWaiting := h 9 (by rw [hCount]; exact Nat.one_pos)
  rw [hQueue] at hWaiting
  exact hWaiting rfl

/-- The time since the latest request for one address, and the times between all of them. -/
structure Spacing where
  since : Option Nat
  gaps : List Nat
deriving DecidableEq

namespace Spacing

def initial : Spacing := ⟨none, []⟩

def pass (x : Spacing) : Action → Spacing
  | .tick ms => { x with since := x.since.map (· + ms) }
  | _ => x

def request (x : Spacing) : Spacing := ⟨some 0, x.gaps ++ x.since.toList⟩

def record (ip : UInt32) (x : Spacing) (nic : NetworkInterface) (a : Action) : Spacing :=
  request^[(nic.transmitted a).countP (isRequestFor ip)] (x.pass a)

end Spacing

structure Spaced (s : Slot) (x : Spacing) : Prop where
  gaps : ∀ gap ∈ x.gaps, ARP_RETRY_MS ≤ gap
  timer : ∀ t ∈ s.timer, ∃ e ∈ x.since, t ≤ e
  silent : s.timer = none → s.cache = none → ∀ e ∈ x.since, ARP_RETRY_MS ≤ e
  cached : s.timer = none → ∀ entry ∈ s.cache, ∀ e ∈ x.since, ARP_TTL_MS ≤ e + entry.ttlMs

section Spacing

variable {s : Slot} {x : Spacing}

/-- A request after the retry time starts the timer anew. -/
theorem Spaced.request (hGaps : ∀ gap ∈ x.gaps, ARP_RETRY_MS ≤ gap)
    (hDue : ∀ e ∈ x.since, ARP_RETRY_MS ≤ e) (hTimer : s.timer = some 0) :
    Spaced s x.request where
  gaps gap hMem := by
    obtain hMem | hMem := List.mem_append.mp hMem
    · exact hGaps gap hMem
    · exact hDue gap (Option.mem_toList.mp hMem)
  timer t hMem := by
    rw [hTimer, Option.mem_some_iff] at hMem
    exact ⟨0, rfl, hMem ▸ le_rfl⟩
  silent hNone := by
    rw [hTimer] at hNone
    cases hNone
  cached hNone := by
    rw [hTimer] at hNone
    cases hNone

theorem Spaced.send (h : Spaced s x) (d : InternetDatagram) :
    Spaced (s.step (.send d)) (Spacing.request^[s.requests (.send d)] x) := by
  cases hCache : s.cache with
  | some entry =>
    have hIdle : s.step (.send d) = s := by simp [Slot.step, hCache]
    have hNone : s.requests (.send d) = 0 := by simp [Slot.requests, hCache]
    rw [hIdle, hNone]
    exact h
  | none =>
    cases hAsks : s.asks with
    | true =>
      have hOne : s.requests (.send d) = 1 := by simp [Slot.requests, hCache, hAsks]
      rw [hOne]
      refine Spaced.request h.gaps (fun e hSince => ?_) (by simp [Slot.step, hCache, hAsks])
      cases hTimer : s.timer with
      | none => exact h.silent hTimer hCache e hSince
      | some t =>
        obtain ⟨e', hSince', hLe⟩ := h.timer t hTimer
        rw [Option.mem_unique hSince hSince']
        have hDue : ARP_RETRY_MS ≤ t := by simpa [Slot.asks, hTimer] using hAsks
        exact hDue.trans hLe
    | false =>
      have hNone : s.requests (.send d) = 0 := by simp [Slot.requests, hAsks]
      rw [hNone]
      have hTimer : (s.step (.send d)).timer = s.timer := by simp [Slot.step, hCache, hAsks]
      have hSame : (s.step (.send d)).cache = s.cache := by simp [Slot.step, hCache]
      constructor
      · exact h.gaps
      · rw [hTimer]
        exact h.timer
      · rw [hTimer, hSame]
        exact h.silent
      · rw [hTimer, hSame]
        exact h.cached

theorem Spaced.learn (h : Spaced s x) (mac : EthernetAddress) :
    Spaced (s.step (.learn mac)) x where
  gaps := h.gaps
  timer _ hMem := by cases hMem
  silent _ hCache := by cases hCache
  cached _ entry hMem e _ := by
    have hEntry : (⟨mac, ARP_TTL_MS⟩ : ARPEntry) = entry := Option.some.inj hMem
    rw [← hEntry]
    exact Nat.le_add_left ARP_TTL_MS e

/-- The timer may wrap around, so it never runs ahead of the time it measures. -/
theorem Spaced.pass (h : Spaced s x) {ms : Nat} (hRetry : s.retries ms = false) :
    Spaced (s.step (.tick ms)) (x.pass (.tick ms)) where
  gaps := h.gaps
  timer t hMem := by
    simp only [Slot.step, hRetry, Bool.false_eq_true, if_false] at hMem
    obtain ⟨t', hTimer, rfl⟩ := Option.mem_map.mp hMem
    obtain ⟨e, hSince, hLe⟩ := h.timer t' hTimer
    refine ⟨e + ms, Option.mem_map_of_mem _ hSince, ?_⟩
    exact (Nat.mod_le (t' + ms) (2 ^ 64)).trans (Nat.add_le_add_right hLe ms)
  silent hTimer hCache e hMem := by
    obtain ⟨e', hSince, rfl⟩ := Option.mem_map.mp hMem
    have hNone : s.timer = none := Option.map_eq_none_iff.mp hTimer
    cases hEntry : s.cache with
    | none => exact (h.silent hNone hEntry e' hSince).trans (Nat.le_add_right e' ms)
    | some entry =>
      have hExpired : entry.ttlMs ≤ ms := by
        by_contra hLt
        simp [Slot.step, hEntry, hLt] at hCache
      have hLong := h.cached hNone entry hEntry e' hSince
      have hTtl : ARP_RETRY_MS ≤ ARP_TTL_MS := by decide
      omega
  cached hTimer entry hMem e hMem' := by
    obtain ⟨e', hSince, rfl⟩ := Option.mem_map.mp hMem'
    have hNone : s.timer = none := Option.map_eq_none_iff.mp hTimer
    obtain ⟨entry', hEntry, hAged⟩ := Option.bind_eq_some_iff.mp hMem
    have hLong := h.cached hNone entry' hEntry e' hSince
    split at hAged
    · cases hAged
    · rw [← Option.some.inj hAged]
      dsimp only
      omega

theorem Spaced.tick (h : Spaced s x) (ms : Nat) :
    Spaced (s.step (.tick ms)) (Spacing.request^[s.requests (.tick ms)] (x.pass (.tick ms))) := by
  cases hRetry : s.retries ms with
  | false =>
    have hNone : s.requests (.tick ms) = 0 := by simp [Slot.requests, hRetry]
    rw [hNone]
    exact h.pass hRetry
  | true =>
    have hOne : s.requests (.tick ms) = 1 := by simp [Slot.requests, hRetry]
    rw [hOne]
    obtain ⟨⟨t, hTimer, hDue⟩, -⟩ := Slot.retries_iff.mp hRetry
    refine Spaced.request h.gaps (fun e hSince => ?_)
      (by simp [Slot.step, Option.mem_def.mp hTimer, hRetry])
    obtain ⟨e', hSince', rfl⟩ := Option.mem_map.mp hSince
    obtain ⟨e'', hSince'', hLe⟩ := h.timer t hTimer
    rw [Option.mem_unique hSince' hSince'']
    calc ARP_RETRY_MS ≤ u64 (t + ms) := hDue
      _ ≤ t + ms := Nat.mod_le (t + ms) (2 ^ 64)
      _ ≤ e'' + ms := Nat.add_le_add_right hLe ms

theorem Spaced.record {nic : NetworkInterface} {ip : UInt32} (h : Spaced (nic.slot ip) x)
    (a : Action) : Spaced ((nic.step a).slot ip) (x.record ip nic a) := by
  rw [Spacing.record, requests_step, slot_step]
  cases a with
  | sendDatagram d nextHop =>
    rw [event]
    split
    · exact h.send d
    · exact h
  | recvFrame frame =>
    rw [event_recvFrame]
    cases nic.heard frame with
    | none => exact h
    | some arp =>
      dsimp only
      split
      · exact h.learn arp.senderEthernetAddress
      · exact h
  | tick ms => exact h.tick ms

end Spacing

theorem spaced_new (hwAddress : EthernetAddress) (ipAddress ip : UInt32) :
    Spaced ((new hwAddress ipAddress).slot ip) Spacing.initial where
  gaps _ hMem := absurd hMem List.not_mem_nil
  timer _ hMem := by cases hMem
  silent _ _ e hMem := by cases hMem
  cached _ _ hMem := by cases hMem

/-- The ticks between two consecutive requests for an address add up to five seconds. -/
theorem run_spacing (hwAddress : EthernetAddress) (ipAddress ip : UInt32)
    (actions : List Action) :
    ∀ gap ∈ (Run.run (Run.withHistory step (Spacing.record ip))
      (new hwAddress ipAddress, Spacing.initial) actions).2.gaps, ARP_RETRY_MS ≤ gap := by
  have hSpaced := Run.invariant_withHistory (P := fun y => Spaced (y.1.slot ip) y.2)
    (Spacing.record ip) (fun y a h => h.record a) (new hwAddress ipAddress, Spacing.initial)
    (spaced_new hwAddress ipAddress ip) actions
  exact hSpaced.gaps

theorem run_spacing_retry :
    let y := Run.run (Run.withHistory step (Spacing.record 7))
      (new #v[2, 0, 0, 0, 0, 1] 1, Spacing.initial)
      [.sendDatagram {} 7, .tick 3000, .sendDatagram {} 7, .tick 2500]
    5500 ∈ y.2.gaps ∧ ARP_RETRY_MS ≤ 5500 := by
  intro y
  have hMem : 5500 ∈ y.2.gaps := by decide +kernel
  exact ⟨hMem, run_spacing #v[2, 0, 0, 0, 0, 1] 1 7
    [.sendDatagram {} 7, .tick 3000, .sendDatagram {} 7, .tick 2500] 5500 hMem⟩

end Minnow.NetworkInterface
