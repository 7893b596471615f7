import Minnow.InterfaceSlots
import Minnow.RouterTable

/-! # What a router forwards

One pass over the queues hands every datagram to the table once, in the order
of arrival. A datagram that lives on leaves by the longest match, and nothing
of the interfaces is read but what they have received.
-/

namespace Minnow

open Library

namespace NetworkInterface

theorem sendDatagram_datagramsIn (nic : NetworkInterface) (d : InternetDatagram)
    (nextHop : UInt32) : (nic.sendDatagram d nextHop).interface.datagramsIn = nic.datagramsIn := by
  rw [sendDatagram_same]

/-- The interface without what it has received. -/
def drained (self : NetworkInterface) : NetworkInterface := { self with datagramsIn := [] }

theorem drained_of_empty {nic : NetworkInterface} (h : nic.datagramsIn = []) :
    nic.drained = nic := by
  rw [drained, ← h]

/-- Sending reads nothing of what has been received. -/
theorem sendDatagram_drained (nic : NetworkInterface) (d : InternetDatagram) (nextHop : UInt32) :
    nic.drained.sendDatagram d nextHop =
      { nic.sendDatagram d nextHop with
        interface := (nic.sendDatagram d nextHop).interface.drained } := by
  cases hCache : nic.arpCache.lookup nextHop with
  | some entry =>
    have hCache' : nic.drained.arpCache.lookup nextHop = some entry := hCache
    rw [nic.sendDatagram_cached d hCache, nic.drained.sendDatagram_cached d hCache']
    rfl
  | none =>
    rw [sendDatagram, sendDatagram, drained, hCache]
    dsimp only
    split <;> rfl

end NetworkInterface

namespace Router

/-- A call of `send_datagram` without what the interface makes of it. -/
structure Delivery where
  received : IPv4Datagram
  header : IPv4Header
  payload : List Buffer
  nextHop : UInt32
  interfaceNum : Nat
deriving DecidableEq

def Forward.delivery (self : Forward) : Delivery where
  received := self.received
  header := self.dgram.header
  payload := self.dgram.payload
  nextHop := self.nextHop
  interfaceNum := self.interfaceNum

/-- The call itself, made on the interfaces of a router. -/
def Forward.call (interfaces : List NetworkInterface) (self : Forward) : List NetworkInterface :=
  match interfaces[self.interfaceNum]? with
  | none => interfaces
  | some interface =>
    interfaces.set self.interfaceNum (interface.sendDatagram self.dgram self.nextHop).interface

/-- The call names one of the interfaces, and its frames are those that this one transmits. -/
def Forward.CalledOn (interfaces : List NetworkInterface) (self : Forward) : Prop :=
  ∃ interface ∈ interfaces[self.interfaceNum]?,
    self.frames = (interface.sendDatagram self.dgram self.nextHop).frames

/-- The header one hop on. -/
def nextHeader (header : IPv4Header) : IPv4Header :=
  { header with
    ttl := header.ttl - 1
    cksum := { header with ttl := header.ttl - 1 }.checksum }

/-- What a router with these routes owes to a datagram it has received. -/
def delivery (routes : List RouteEntry) (d : IPv4Datagram) : Option Delivery :=
  if 2 ≤ d.header.ttl.toNat then
    (longestMatch routes d.header.dst).map fun r =>
      ⟨d, nextHeader d.header, d.payload, r.nextHop.getD d.header.dst, r.interfaceNum⟩
  else none

namespace Routing

def queues (x : Routing) : List (List IPv4Datagram) :=
  x.router.interfaces.map NetworkInterface.datagramsIn

/-- The interfaces but for their queues. -/
def ports (x : Routing) : List NetworkInterface :=
  x.router.interfaces.map NetworkInterface.drained

/-- Nothing has been thrown, and every route names an interface that exists. -/
structure Sound (x : Routing) : Prop where
  thrown : x.thrown = false
  existing : ∀ r ∈ x.router.routingTable, r.interfaceNum < x.queues.length

/-- The calls `es` have been made between `x` and `y`, and nothing else has been done to the
interfaces but for their queues. -/
structure Calls (x y : Routing) (es : List Forward) : Prop where
  forwarded : y.forwarded = x.forwarded ++ es
  called : Run.Along Forward.call Forward.CalledOn x.ports es
  ports : y.ports = Run.run Forward.call x.ports es

/-- From `x` to `y` exactly the datagrams `ds` have been dealt with. -/
structure Handles (x y : Routing) (ds : List IPv4Datagram) : Prop where
  thrown : y.thrown = false
  table : y.router.routingTable = x.router.routingTable
  length : y.queues.length = x.queues.length
  calls : ∃ es, Calls x y es ∧
    es.map Forward.delivery = ds.filterMap (delivery x.router.routingTable)

section Handles

variable {x y z : Routing} {ds ds' : List IPv4Datagram} {d : IPv4Datagram}

theorem calls_nil (hForwarded : y.forwarded = x.forwarded) (hPorts : y.ports = x.ports) :
    Calls x y [] where
  forwarded := by rw [hForwarded, List.append_nil]
  called := trivial
  ports := hPorts

theorem Calls.trans {es es' : List Forward} (h : Calls x y es) (h' : Calls y z es') :
    Calls x z (es ++ es') where
  forwarded := by rw [h'.forwarded, h.forwarded, List.append_assoc]
  called := Run.along_append.mpr ⟨h.called, h.ports ▸ h'.called⟩
  ports := by rw [h'.ports, h.ports, Run.run_append]

theorem Sound.refl (h : Sound x) : Handles x x [] where
  thrown := h.thrown
  table := rfl
  length := rfl
  calls := ⟨[], calls_nil rfl rfl, rfl⟩

theorem Handles.sound (h : Handles x y ds) (hx : Sound x) : Sound y where
  thrown := h.thrown
  existing := by
    rw [h.table, h.length]
    exact hx.existing

theorem Handles.trans (h : Handles x y ds) (h' : Handles y z ds') : Handles x z (ds ++ ds') where
  thrown := h'.thrown
  table := h'.table.trans h.table
  length := h'.length.trans h.length
  calls := by
    obtain ⟨es, hCalls, hSent⟩ := h.calls
    obtain ⟨es', hCalls', hSent'⟩ := h'.calls
    refine ⟨es ++ es', hCalls.trans hCalls', ?_⟩
    rw [List.map_append, hSent, hSent', h.table, List.filterMap_append]

theorem handles_sendDatagram (h : Sound x) {r : RouteEntry} (hMem : r ∈ x.router.routingTable)
    (dgram : InternetDatagram) (hVer : dgram.header.ver = 4) (nextHop : UInt32)
    (hDelivery : delivery x.router.routingTable d =
      some ⟨d, dgram.header, dgram.payload, nextHop, r.interfaceNum⟩) :
    Handles x (x.sendDatagram d dgram nextHop r.interfaceNum) [d] ∧
      (x.sendDatagram d dgram nextHop r.interfaceNum).queues = x.queues := by
  have hLt : r.interfaceNum < x.router.interfaces.length := by
    have hExisting := h.existing r hMem
    rwa [queues, List.length_map] at hExisting
  let sent := x.router.interfaces[r.interfaceNum].sendDatagram dgram nextHop
  have hQueues : (x.router.interfaces.set r.interfaceNum sent.interface).map
      NetworkInterface.datagramsIn = x.queues := by
    have hLt' : r.interfaceNum < (x.router.interfaces.map NetworkInterface.datagramsIn).length := by
      rwa [List.length_map]
    have hSame : x.router.interfaces[r.interfaceNum].datagramsIn =
        (x.router.interfaces.map NetworkInterface.datagramsIn)[r.interfaceNum] :=
      (List.getElem_map _).symm
    rw [List.map_set, NetworkInterface.sendDatagram_datagramsIn, hSame, List.set_getElem_self,
      queues]
  have hPort : x.ports[r.interfaceNum]? =
      some x.router.interfaces[r.interfaceNum].drained := by
    rw [ports, List.getElem?_map, List.getElem?_eq_getElem hLt, Option.map_some]
  have hSent := x.router.interfaces[r.interfaceNum].sendDatagram_drained dgram nextHop
  let e : Forward := ⟨d, dgram, nextHop, r.interfaceNum, sent.frames⟩
  have hThrown := x.router.interfaces[r.interfaceNum].sendDatagram_thrown hVer nextHop
  rw [sendDatagram, List.getElem?_eq_getElem hLt]
  refine ⟨⟨hThrown, rfl, congrArg List.length hQueues, [e], ⟨rfl, ?_, ?_⟩, ?_⟩, hQueues⟩
  · exact ⟨⟨_, hPort, (congrArg NetworkInterface.Outcome.frames hSent).symm⟩, trivial⟩
  · rw [Run.run_cons, Run.run_nil, Forward.call, hPort]
    dsimp only
    rw [hSent]
    exact List.map_set
  · rw [List.filterMap_cons_some hDelivery]
    rfl

theorem handles_forward (h : Sound x) (hVer : d.header.ver = 4) :
    Handles x (x.forward d) [d] ∧ (x.forward d).queues = x.queues := by
  have hDrop : delivery x.router.routingTable d = none →
      Handles x x [d] ∧ x.queues = x.queues := by
    intro hNone
    refine ⟨{ h.refl with calls := ⟨[], calls_nil rfl rfl, ?_⟩ }, rfl⟩
    rw [List.filterMap_cons_none hNone]
    rfl
  have hHeader : (decrementTtl d.header).computeChecksum = some (nextHeader d.header) :=
    IPv4Header.computeChecksum_eq (h := decrementTtl d.header) hVer
  rw [forward]
  split
  · rename_i hDead
    exact hDrop (if_neg (Nat.not_le.mpr (Nat.lt_succ_of_le hDead)))
  · rename_i hAlive
    have hTwo : 2 ≤ d.header.ttl.toNat := Nat.lt_of_not_le hAlive
    rw [hHeader]
    dsimp only
    have hBest : x.router.bestRoute (nextHeader d.header).dst =
        longestMatch x.router.routingTable d.header.dst := bestRoute_eq _ _
    rw [hBest]
    cases hRoute : longestMatch x.router.routingTable d.header.dst with
    | none =>
      apply hDrop
      rw [delivery, if_pos hTwo, hRoute]
      rfl
    | some r =>
      have hNext : (nextHeader d.header).ver = 4 := hVer
      apply handles_sendDatagram h (mem_of_longestMatch hRoute).1
        { d with header := nextHeader d.header } hNext
      rw [delivery, if_pos hTwo, hRoute]
      rfl

theorem queues_pop (x : Routing) (i : Nat) : (x.pop i).queues = x.queues.modify i List.tail := by
  apply List.ext_getElem?
  intro j
  rw [queues, pop, queues, List.getElem?_map, List.getElem?_modify, List.getElem?_modify,
    List.getElem?_map]
  cases x.router.interfaces[j]? with
  | none => rfl
  | some nic =>
    simp only [Option.map_eq_map, Option.map_some]
    split <;> rfl

/-- What is popped is no part of the ports. -/
theorem ports_pop (x : Routing) (i : Nat) : (x.pop i).ports = x.ports := by
  rw [ports, pop, ports]
  apply List.ext_getElem?
  intro j
  rw [List.getElem?_map, List.getElem?_modify, List.getElem?_map]
  cases x.router.interfaces[j]? with
  | none => rfl
  | some nic =>
    simp only [Option.map_eq_map, Option.map_some]
    split <;> rfl

theorem handles_turn (h : Sound x) (hVer : d.header.ver = 4) (i : Nat) :
    Handles x (turn i x d) [d] ∧ (turn i x d).queues = x.queues.modify i List.tail := by
  have hLength : (x.pop i).queues.length = x.queues.length := by
    rw [queues_pop, List.length_modify]
  have hPop : Sound (x.pop i) := ⟨h.thrown, fun r hMem => hLength ▸ h.existing r hMem⟩
  obtain ⟨hForward, hQueues⟩ := handles_forward hPop hVer
  rw [turn, h.thrown, if_neg Bool.false_ne_true]
  obtain ⟨es, hCalls, hSent⟩ := hForward.calls
  have hPopped : Calls x (x.pop i) [] := calls_nil rfl (x.ports_pop i)
  exact ⟨⟨hForward.thrown, hForward.table, hForward.length.trans hLength, es,
    hPopped.trans hCalls, hSent⟩, hQueues.trans (x.queues_pop i)⟩

theorem handles_turns (h : Sound x) (hVer : ∀ d ∈ ds, d.header.ver = 4) (i : Nat) :
    Handles x (ds.foldl (turn i) x) ds ∧
      (ds.foldl (turn i) x).queues = x.queues.modify i (List.drop ds.length) := by
  induction ds generalizing x with
  | nil =>
    refine ⟨h.refl, ?_⟩
    rw [List.foldl_nil, List.length_nil]
    exact (List.modify_id i x.queues).symm
  | cons d ds ih =>
    obtain ⟨hTurn, hQueues⟩ := handles_turn h (hVer d List.mem_cons_self) i
    obtain ⟨hRest, hQueues'⟩ :=
      ih (hTurn.sound h) fun d' hMem => hVer d' (List.mem_cons_of_mem d hMem)
    refine ⟨hTurn.trans hRest, ?_⟩
    rw [List.foldl_cons, hQueues', hQueues, List.modify_modify_eq]
    congr 1
    funext q
    rw [Function.comp_apply, List.drop_tail, List.length_cons]

theorem handles_drain (h : Sound x) {i : Nat} (hLt : i < x.queues.length)
    (hVer : ∀ d ∈ x.queues[i], d.header.ver = 4) :
    Handles x (x.drain i) x.queues[i] ∧ (x.drain i).queues = x.queues.set i [] := by
  have hLt' : i < x.router.interfaces.length := by rwa [queues, List.length_map] at hLt
  have hQueue : x.queues[i] = x.router.interfaces[i].datagramsIn := List.getElem_map _
  rw [hQueue] at hVer
  obtain ⟨hTurns, hQueues⟩ := handles_turns h hVer i
  rw [drain, List.getElem?_eq_getElem hLt', hQueue]
  refine ⟨hTurns, hQueues.trans ?_⟩
  rw [List.modify_eq_set, List.getElem?_eq_getElem hLt, Option.getD_some, hQueue,
    List.drop_length]

/-- The queues before `k` have been emptied, the others are as they were. -/
theorem handles_drains (h : Sound x) (hVer : ∀ q ∈ x.queues, ∀ d ∈ q, d.header.ver = 4) {k : Nat}
    (hk : k ≤ x.queues.length) :
    Handles x ((List.range k).foldl drain x) (x.queues.take k).flatten ∧
      ((List.range k).foldl drain x).queues = List.replicate k [] ++ x.queues.drop k := by
  induction k with
  | zero => exact ⟨h.refl, rfl⟩
  | succ k ih =>
    obtain ⟨hBefore, hQueues⟩ := ih (Nat.le_of_succ_le hk)
    rw [List.range_succ, List.foldl_append, List.foldl_cons, List.foldl_nil]
    generalize (List.range k).foldl drain x = y at hBefore hQueues
    have hLt : k < y.queues.length := by rw [hBefore.length]; exact hk
    have hQueue : y.queues[k] = x.queues[k] := by
      simp only [hQueues]
      rw [List.getElem_append_right (by rw [List.length_replicate]), List.getElem_drop]
      simp only [List.length_replicate, Nat.sub_self, Nat.add_zero]
    have hVer' : ∀ d ∈ y.queues[k], d.header.ver = 4 := by
      rw [hQueue]
      exact hVer _ (List.getElem_mem hk)
    obtain ⟨hDrain, hEmptied⟩ := handles_drain (hBefore.sound h) hLt hVer'
    constructor
    · have hTrans := hBefore.trans hDrain
      rw [hQueue] at hTrans
      rw [List.take_succ_eq_append_getElem hk, List.flatten_append, List.flatten_singleton]
      exact hTrans
    · have hReplicate : (List.replicate k ([] : List IPv4Datagram)).length ≤ k :=
        List.length_replicate.le
      rw [hEmptied, hQueues, List.drop_eq_getElem_cons hk, List.set_append_right k [] hReplicate,
        List.length_replicate, Nat.sub_self, List.set_cons_zero, List.replicate_succ',
        List.append_assoc]
      rfl

end Handles

/-- Two passes over the same interfaces whose tables answer alike. -/
structure Agrees (x y : Routing) : Prop where
  interfaces : y.router.interfaces = x.router.interfaces
  forwarded : y.forwarded = x.forwarded
  thrown : y.thrown = x.thrown
  best : ∀ dstIp, y.router.bestRoute dstIp = x.router.bestRoute dstIp

section Agrees

variable {x y : Routing}

theorem Agrees.throw (h : Agrees x y) : Agrees x.throw y.throw :=
  ⟨h.interfaces, h.forwarded, rfl, h.best⟩

theorem Agrees.sendDatagram (h : Agrees x y) (received : IPv4Datagram) (dgram : InternetDatagram)
    (nextHop : UInt32) (interfaceNum : Nat) :
    Agrees (x.sendDatagram received dgram nextHop interfaceNum)
      (y.sendDatagram received dgram nextHop interfaceNum) := by
  rw [Routing.sendDatagram, Routing.sendDatagram, h.interfaces]
  cases x.router.interfaces[interfaceNum]? with
  | none => exact h.throw
  | some interface => exact ⟨rfl, congrArg (· ++ _) h.forwarded, rfl, h.best⟩

theorem Agrees.forward (h : Agrees x y) (d : IPv4Datagram) :
    Agrees (x.forward d) (y.forward d) := by
  rw [Routing.forward, Routing.forward]
  split
  · exact h
  · cases (decrementTtl d.header).computeChecksum with
    | none => exact h.throw
    | some header =>
      dsimp only
      rw [h.best]
      cases x.router.bestRoute header.dst with
      | none => exact h
      | some route => exact h.sendDatagram _ _ _ _

theorem Agrees.turn (h : Agrees x y) (i : Nat) (d : IPv4Datagram) :
    Agrees (turn i x d) (turn i y d) := by
  rw [Routing.turn, Routing.turn, h.thrown]
  split
  · exact h
  · apply Agrees.forward
    exact ⟨congrArg (List.modify · i _) h.interfaces, h.forwarded, h.thrown, h.best⟩

theorem Agrees.drain (h : Agrees x y) (i : Nat) : Agrees (x.drain i) (y.drain i) := by
  rw [Routing.drain, Routing.drain, h.interfaces]
  cases x.router.interfaces[i]? with
  | none => exact h
  | some interface =>
    exact Run.simulation (fun _ _ d _ hAgrees => hAgrees.turn i d)
      (Run.along_true (Routing.turn i) x interface.datagramsIn) h

end Agrees

end Routing

theorem route_agrees {self self' : Router} (hInterfaces : self'.interfaces = self.interfaces)
    (hBest : ∀ dstIp, self'.bestRoute dstIp = self.bestRoute dstIp) :
    Routing.Agrees self.route self'.route := by
  rw [route, route, hInterfaces]
  exact Run.simulation (fun _ _ i _ hAgrees => hAgrees.drain i)
    (Run.along_true Routing.drain _ (List.range self.interfaces.length))
    ⟨hInterfaces, rfl, rfl, hBest⟩

/-- `route` ends with every queue empty and has called `send_datagram` for exactly the datagrams
that live on and match, each once and as its longest match says, whatever the order in which
routes that do not clash were added. These calls, in their order, make the interfaces what they
are in the end. -/
theorem route_forwards (interfaces : List NetworkInterface) (routes : List RouteEntry)
    (hExisting : ∀ r ∈ routes, r.interfaceNum < interfaces.length)
    (hReceived : ∀ nic ∈ interfaces, ∀ d ∈ nic.datagramsIn,
      ∃ payload, parse ({} : IPv4Datagram).parse payload = some (some d)) :
    let x := (Run.run addRoute ⟨interfaces, []⟩ routes).route
    let empty := interfaces.map NetworkInterface.drained
    x.thrown = false ∧
      (∀ nic ∈ x.router.interfaces, nic.datagramsIn = []) ∧
      x.forwarded.map Forward.delivery =
        (interfaces.flatMap NetworkInterface.datagramsIn).filterMap (delivery routes) ∧
      (Run.Along Forward.call Forward.CalledOn empty x.forwarded ∧
        x.router.interfaces = Run.run Forward.call empty x.forwarded) ∧
      ∀ routes', routes.Perm routes' → (routes.Pairwise fun a b => ¬ RouteEntry.Clash a b) →
        let x' := (Run.run addRoute ⟨interfaces, []⟩ routes').route
        x'.forwarded = x.forwarded ∧ x'.router.interfaces = x.router.interfaces := by
  intro x empty
  let start : Routing := ⟨⟨interfaces, routes⟩, [], false⟩
  have hx : x = (List.range start.queues.length).foldl Routing.drain start := by
    have hLength : start.queues.length = interfaces.length := List.length_map _
    rw [hLength]
    exact congrArg route (run_addRoute interfaces routes)
  have hSound : start.Sound := by
    refine ⟨rfl, fun r hMem => ?_⟩
    rw [Routing.queues, List.length_map]
    exact hExisting r hMem
  have hVer : ∀ q ∈ start.queues, ∀ d ∈ q, d.header.ver = 4 := by
    intro q hq d hMem
    obtain ⟨nic, hNic, rfl⟩ := List.mem_map.mp hq
    obtain ⟨payload, hParse⟩ := hReceived nic hNic d hMem
    exact IPv4Datagram.ver_of_parse hParse
  obtain ⟨hHandles, hQueues⟩ := Routing.handles_drains hSound hVer le_rfl
  rw [← hx] at hHandles hQueues
  have hEmpty : ∀ nic ∈ x.router.interfaces, nic.datagramsIn = [] := by
    intro nic hMem
    have hIn : nic.datagramsIn ∈ x.queues := List.mem_map_of_mem hMem
    rw [hQueues, List.drop_length, List.append_nil] at hIn
    exact List.eq_of_mem_replicate hIn
  have hPorts : x.ports = x.router.interfaces :=
    (List.map_congr_left fun nic hMem =>
      NetworkInterface.drained_of_empty (hEmpty nic hMem)).trans (List.map_id _)
  obtain ⟨es, hCalls, hSent⟩ := hHandles.calls
  have hForwarded : x.forwarded = es := hCalls.forwarded
  rw [List.take_length] at hSent
  refine ⟨hHandles.thrown, hEmpty, ?_, ?_, ?_⟩
  · rw [hForwarded]
    exact hSent
  · rw [hForwarded, ← hPorts]
    exact ⟨hCalls.called, hCalls.ports⟩
  · intro routes' hPerm hDistinct x'
    have hBest : ∀ dstIp, (⟨interfaces, routes'⟩ : Router).bestRoute dstIp =
        (⟨interfaces, routes⟩ : Router).bestRoute dstIp := by
      intro dstIp
      rw [bestRoute_eq, bestRoute_eq]
      exact (longestMatch_perm hPerm hDistinct dstIp).symm
    have hAgrees : Routing.Agrees (⟨interfaces, routes⟩ : Router).route
        (⟨interfaces, routes'⟩ : Router).route := route_agrees rfl hBest
    simp only [x', x, run_addRoute]
    exact ⟨hAgrees.forwarded, hAgrees.interfaces⟩

/-- A default route, and two of eight bits that clash: the first of these two is taken. -/
theorem route_forwards_overlapping :
    let header : IPv4Header :=
      { len := 24, ttl := 64, cksum := 9695, src := 0x0a000001, dst := 0x0b000001 }
    let d : IPv4Datagram := ⟨header, [[97, 98, 99, 100]]⟩
    let first : NetworkInterface :=
      { NetworkInterface.new #v[2, 0, 0, 0, 0, 1] 1 with datagramsIn := [d] }
    let second := NetworkInterface.new #v[2, 0, 0, 0, 0, 2] 2
    let routes : List RouteEntry := [⟨0, 0, some 9, 0, by decide⟩,
      ⟨0x0b000000, 8, none, 1, by decide⟩, ⟨0x0b110000, 8, some 7, 0, by decide⟩]
    (Run.run addRoute ⟨[first, second], []⟩ routes).route.forwarded.map Forward.delivery =
      [⟨d, { header with ttl := 63, cksum := 9951 }, [[97, 98, 99, 100]], 0x0b000001, 1⟩] := by
  intro header d first second routes
  have hParse : parse ({} : IPv4Datagram).parse [header.wire ++ [97, 98, 99, 100]] =
      some (some d) := by decide +kernel
  have hReceived : ∀ nic ∈ [first, second], ∀ d ∈ nic.datagramsIn,
      ∃ payload, parse ({} : IPv4Datagram).parse payload = some (some d) := by
    intro nic hNic d' hMem
    obtain rfl | hNic := List.mem_cons.mp hNic
    · rw [List.mem_singleton.mp hMem]
      exact ⟨_, hParse⟩
    · rw [List.mem_singleton.mp hNic] at hMem
      cases hMem
  have h := (route_forwards [first, second] routes (by decide) hReceived).2.2.1
  exact h.trans (by decide +kernel)

end Router

end Minnow
