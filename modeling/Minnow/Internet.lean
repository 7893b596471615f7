import Minnow.NetworkSegment

/-! # Hosts and routers

A host is a router that is never told to route. Frames may reach any interface
of any other station: nothing is assumed of how the segments connect them, but
that every frame stems from a station.
-/

namespace Minnow

open Library

namespace Router

inductive Action where
  | interface (i : Nat) (a : NetworkInterface.Action)
  | route
deriving DecidableEq

def onInterface (self : Router) (i : Nat) (a : NetworkInterface.Action) :
    Router × List EthernetFrame :=
  match self.interfaces[i]? with
  | none => (self, [])
  | some interface =>
    ({ self with interfaces := self.interfaces.set i (interface.step a) }, interface.transmitted a)

def perform (self : Router) : Action → Router × List EthernetFrame
  | .interface i a => self.onInterface i a
  | .route => (self.route.router, self.route.forwarded.flatMap Forward.frames)

def machine : Machine Router Action Nat EthernetFrame where
  perform := perform
  hear i frame := .interface i (.recvFrame frame)

/-- Frames come from other stations. -/
def Action.IsOwn : Action → Prop
  | .interface _ a => a.IsOwn
  | .route => True

instance (a : Action) : Decidable a.IsOwn :=
  match a with
  | .interface _ a => inferInstanceAs (Decidable a.IsOwn)
  | .route => instDecidableTrue

end Router

abbrev Internet (ι : Type*) := Network ι Router Router.Action EthernetFrame

namespace Internet

open Router NetworkInterface

variable {ι : Type*}

abbrev Step (ι : Type*) := Network.Step ι Router.Action Nat

/-- The addresses of the interfaces of a station, and its routes. -/
structure Site where
  ports : List (EthernetAddress × UInt32)
  routes : List RouteEntry

def Site.station (self : Site) : Router where
  interfaces := self.ports.map fun p => NetworkInterface.new p.1 p.2
  routingTable := self.routes

def new (site : ι → Site) : Internet ι := Network.start fun i => (site i).station

def step [DecidableEq ι] : Internet ι → Step ι → Internet ι := Network.step Router.machine

def Allowed (self : Internet ι) : Step ι → Prop := self.Permits fun _ _ a => a.IsOwn

instance (self : Internet ι) (a : Step ι) : Decidable (Allowed self a) :=
  inferInstanceAs (Decidable (self.Permits (fun _ _ a => a.IsOwn) a))

section Travel

variable (site : ι → Site) (log : List (ι × Router.Action))

/-- The datagram `d₀` that was submitted is `d` after so many routers and on its way to the hop
`h`: the first hop is the one it was submitted for, and every router that had the address of a hop
has chosen the next one by its routes. -/
inductive Travels (d₀ : InternetDatagram) : Nat → InternetDatagram → UInt32 → Prop
  | submitted {i : ι} {port : Nat} {h : UInt32}
      (hLog : (i, .interface port (.sendDatagram d₀ h)) ∈ log) : Travels d₀ 0 d₀ h
  | forwarded {n : Nat} {d d' : InternetDatagram} {h : UInt32} {i : ι} {mac : EthernetAddress}
      {received : IPv4Datagram} {e : Delivery} (hTravels : Travels d₀ n d h)
      (hPort : (mac, h) ∈ (site i).ports)
      (hRead : d.ReadAs received)
      (hDelivery : delivery (site i).routes received = some e)
      (hHeader : d'.header = e.header) (hPayload : d'.payload = e.payload) :
      Travels d₀ (n + 1) d' e.nextHop

/-- It has been read at the hop `h` that it was on its way to. -/
def Arrived (h : UInt32) (received : IPv4Datagram) : Prop :=
  ∃ d₀ n d, Travels site log d₀ n d h ∧ d.ReadAs received

def Submitted (d : InternetDatagram) (h : UInt32) : Prop := ∃ d₀ n, Travels site log d₀ n d h

def Owns (mac : EthernetAddress) (h : UInt32) : Prop := ∃ i, (mac, h) ∈ (site i).ports

/-- An interface of a station, with what it knows. -/
structure At (i : ι) (nic : NetworkInterface) : Prop where
  port : (nic.hwAddress, nic.ipAddress) ∈ (site i).ports
  knows : Knows (Owns site) (Submitted site log) (Arrived site log nic.ipAddress) nic

def Truthful (i : ι) (f : EthernetFrame) : Prop :=
  ∃ p ∈ (site i).ports, Says (Owns site) (Submitted site log) p.1 p.2 f

structure Sited (i : ι) (r : Router) : Prop where
  routes : r.routingTable = (site i).routes
  interfaces : ∀ nic ∈ r.interfaces, At site log i nic

end Travel

section Mono

variable {site : ι → Site} {log log' : List (ι × Router.Action)} {i : ι}

theorem Travels.mono {d₀ d : InternetDatagram} {n : Nat} {h : UInt32}
    (hTravels : Travels site log d₀ n d h) (hLog : log ⊆ log') : Travels site log' d₀ n d h := by
  induction hTravels with
  | submitted hMem => exact .submitted (hLog hMem)
  | forwarded hTravels hPort hRead hDelivery hHeader hPayload ih =>
    exact .forwarded ih hPort hRead hDelivery hHeader hPayload

theorem At.mono {nic : NetworkInterface} (h : At site log i nic) (hLog : log ⊆ log') :
    At site log' i nic := by
  refine ⟨h.port, h.knows.mono ?_ ?_⟩
  · rintro d hop ⟨d₀, n, hTravels⟩
    exact ⟨d₀, n, hTravels.mono hLog⟩
  · rintro received ⟨d₀, n, d, hTravels, hRead⟩
    exact ⟨d₀, n, d, hTravels.mono hLog, hRead⟩

theorem Truthful.mono {f : EthernetFrame} (h : Truthful site log i f) (hLog : log ⊆ log') :
    Truthful site log' i f := by
  obtain ⟨p, hPort, hSays⟩ := h
  refine ⟨p, hPort, hSays.mono ?_⟩
  rintro d hop ⟨d₀, n, hTravels⟩
  exact ⟨d₀, n, hTravels.mono hLog⟩

theorem Sited.mono {r : Router} (h : Sited site log i r) (hLog : log ⊆ log') :
    Sited site log' i r := ⟨h.routes, fun nic hMem => (h.interfaces nic hMem).mono hLog⟩

end Mono

section Route

variable {site : ι → Site} {log : List (ι × Router.Action)} {i : ι}

theorem At.of_knows {nic : NetworkInterface} (h : At site log i nic) {a : NetworkInterface.Action}
    (hStep : Knows (Owns site) (Submitted site log) (Arrived site log nic.ipAddress) (nic.step a) ∧
      ∀ f ∈ nic.transmitted a,
        Says (Owns site) (Submitted site log) nic.hwAddress nic.ipAddress f) :
    At site log i (nic.step a) ∧ ∀ f ∈ nic.transmitted a, Truthful site log i f := by
  obtain ⟨hHw, hIp⟩ := nic.addresses_step a
  refine ⟨⟨?_, ?_⟩, fun f hMem => ⟨_, h.port, hStep.2 f hMem⟩⟩
  · rw [hHw, hIp]
    exact h.port
  · rw [hIp]
    exact hStep.1

theorem At.sendDatagram {nic : NetworkInterface} (h : At site log i nic) {d : InternetDatagram}
    {hop : UInt32} (hSubmit : Submitted site log d hop) :
    At site log i (nic.sendDatagram d hop).interface ∧
      ∀ f ∈ (nic.sendDatagram d hop).frames, Truthful site log i f :=
  h.of_knows (a := .sendDatagram d hop)
    (h.knows.step (fun d' hop' hEq => by cases hEq; exact hSubmit) nofun nofun)

/-- What a router keeps while it routes. -/
structure Routed (site : ι → Site) (log : List (ι × Router.Action)) (i : ι) (x : Routing) : Prop
    extends Sited site log i x.router where
  frames : ∀ e ∈ x.forwarded, ∀ f ∈ e.frames, Truthful site log i f

variable {x : Routing}

theorem Routed.sendDatagram (h : Routed site log i x) (received : IPv4Datagram)
    {d : InternetDatagram} {hop : UInt32} (hSubmit : Submitted site log d hop) (k : Nat) :
    Routed site log i (x.sendDatagram received d hop k) := by
  rw [Routing.sendDatagram]
  split
  · exact { h with }
  · next nic hGet =>
    obtain ⟨hAt, hFrames⟩ := (h.interfaces nic (List.mem_of_getElem? hGet)).sendDatagram hSubmit
    refine ⟨⟨h.routes, fun other hMem => ?_⟩, fun e hMem => ?_⟩
    · obtain hOld | rfl := List.mem_or_eq_of_mem_set hMem
      · exact h.interfaces other hOld
      · exact hAt
    · obtain hOld | hNew := List.mem_append.mp hMem
      · exact h.frames e hOld
      · rw [List.mem_singleton.mp hNew]
        exact hFrames

theorem At.pop {nic : NetworkInterface} (h : At site log i nic) :
    At site log i { nic with datagramsIn := nic.datagramsIn.tail } :=
  ⟨h.port, { h.knows with
    received := fun d hMem => h.knows.received d (List.mem_of_mem_tail hMem) }⟩

theorem Routed.pop (h : Routed site log i x) (k : Nat) : Routed site log i (x.pop k) := by
  refine { h with interfaces := fun nic hMem => ?_ }
  obtain ⟨j, hGet⟩ := List.getElem?_of_mem hMem
  rw [Routing.pop, List.getElem?_modify] at hGet
  obtain ⟨old, hOld, rfl⟩ := Option.map_eq_some_iff.mp hGet
  have hAt := h.interfaces old (List.mem_of_getElem? hOld)
  split
  · exact hAt.pop
  · exact hAt

/-- A datagram that has arrived goes on as the routes say. -/
theorem Routed.forward (h : Routed site log i x) {mac : EthernetAddress} {hop : UInt32}
    (hPort : (mac, hop) ∈ (site i).ports) {d : IPv4Datagram} (hArrived : Arrived site log hop d) :
    Routed site log i (x.forward d) := by
  obtain ⟨d₀, n, d₁, hTravels, hRead⟩ := hArrived
  have hHeader : (Routing.decrementTtl d.header).computeChecksum = some (nextHeader d.header) :=
    IPv4Header.computeChecksum_eq (h := Routing.decrementTtl d.header) hRead.ver
  rw [Routing.forward]
  split
  · exact h
  · next hAlive =>
    rw [hHeader]
    dsimp only
    have hBest : x.router.bestRoute (nextHeader d.header).dst =
        longestMatch (site i).routes d.header.dst := h.routes ▸ bestRoute_eq _ _
    rw [hBest]
    cases hRoute : longestMatch (site i).routes d.header.dst with
    | none => exact h
    | some r =>
      have hTwo : 2 ≤ d.header.ttl.toNat := Nat.lt_of_not_le hAlive
      have hDelivery : delivery (site i).routes d = some ⟨d, nextHeader d.header, d.payload,
          r.nextHop.getD d.header.dst, r.interfaceNum⟩ := by
        rw [delivery, if_pos hTwo, hRoute]
        rfl
      have hNext : Submitted site log { d with header := nextHeader d.header }
          (r.nextHop.getD d.header.dst) :=
        ⟨d₀, n + 1, .forwarded hTravels hPort hRead hDelivery rfl rfl⟩
      exact h.sendDatagram d hNext _

theorem Routed.drain (h : Routed site log i x) (k : Nat) : Routed site log i (x.drain k) := by
  rw [Routing.drain]
  split
  · exact h
  · next nic hGet =>
    have hAt := h.interfaces nic (List.mem_of_getElem? hGet)
    refine Run.invariant (C := fun _ d => Arrived site log nic.ipAddress d) (fun y d hOk hy => ?_)
      (Run.along_of_forall fun d hMem _ => hAt.knows.received d hMem) h
    rw [Routing.turn]
    split
    · exact hy
    · exact (hy.pop k).forward hAt.port hOk

theorem Sited.route {r : Router} (h : Sited site log i r) : Routed site log i r.route :=
  Run.invariant_of_step (P := Routed site log i) (fun _ k hx => hx.drain k)
    ⟨h, fun _ hMem => absurd hMem List.not_mem_nil⟩ (List.range r.interfaces.length)

end Route

section Stations

/-- An Ethernet address belongs to one IP address only, and none of them is the broadcast one. -/
structure Distinct (site : ι → Site) : Prop where
  unicast : ∀ i, ∀ p ∈ (site i).ports, p.1 ≠ ETHERNET_BROADCAST
  unique : ∀ i j, ∀ p ∈ (site i).ports, ∀ q ∈ (site j).ports, p.1 = q.1 → p.2 = q.2

variable {site : ι → Site} {log : List (ι × Router.Action)} {i : ι}

theorem At.step {nic : NetworkInterface} (h : At site log i nic) (hDistinct : Distinct site)
    {a : NetworkInterface.Action}
    (hSubmit : ∀ d hop, a = .sendDatagram d hop → Submitted site log d hop)
    (hHear : ∀ f, a = .recvFrame f → ∃ j, Truthful site log j f) :
    At site log i (nic.step a) ∧ ∀ f ∈ nic.transmitted a, Truthful site log i f := by
  refine h.of_knows (h.knows.step hSubmit (fun f arp hEq hHeard => ?_)
    fun f d' hEq hReads => ?_)
  · obtain ⟨j, p, hPort, hSays⟩ := hHear f hEq
    obtain ⟨hMac, hIp⟩ := hSays.owns hHeard
    exact ⟨j, hMac ▸ hIp ▸ hPort⟩
  · obtain ⟨j, p, hPort, hSays⟩ := hHear f hEq
    obtain ⟨d, hop, hPayload, ⟨d₀, n, hTravels⟩, k, hOwns⟩ := hSays.submitted hReads.type
    obtain hUs | hAll := hReads.dst
    · obtain rfl : hop = nic.ipAddress := hDistinct.unique k i _ hOwns _ h.port hUs
      exact ⟨d₀, n, d, hTravels, f.payload, hPayload, hReads.parsed⟩
    · exact absurd hAll (hDistinct.unicast k _ hOwns)

theorem Sited.onInterface {r : Router} (h : Sited site log i r) (hDistinct : Distinct site)
    {k : Nat} {a : NetworkInterface.Action}
    (hSubmit : ∀ d hop, a = .sendDatagram d hop → Submitted site log d hop)
    (hHear : ∀ f, a = .recvFrame f → ∃ j, Truthful site log j f) :
    Sited site log i (r.onInterface k a).1 ∧
      ∀ f ∈ (r.onInterface k a).2, Truthful site log i f := by
  rw [Router.onInterface]
  split
  · exact ⟨h, fun f hMem => absurd hMem List.not_mem_nil⟩
  · next nic hGet =>
    obtain ⟨hAt, hFrames⟩ :=
      (h.interfaces nic (List.mem_of_getElem? hGet)).step hDistinct hSubmit hHear
    refine ⟨⟨h.routes, fun other hMem => ?_⟩, hFrames⟩
    obtain hOld | rfl := List.mem_or_eq_of_mem_set hMem
    · exact h.interfaces other hOld
    · exact hAt

theorem guarantees (site : ι → Site) (hDistinct : Distinct site) :
    Network.Guarantees Router.machine (fun _ _ a => a.IsOwn) (Sited site) (Truthful site) where
  grow log e i r h := h.mono (List.subset_append_left log [e])
  grow_sent log e i f h := h.mono (List.subset_append_left log [e])
  act log i r a hOwn h := by
    have hNow := h.mono (List.subset_append_left log [(i, a)])
    cases a with
    | interface k a =>
      refine hNow.onInterface hDistinct ?_ ?_
      · rintro d hop rfl
        exact ⟨d, 0, .submitted (List.mem_append_right _ (List.mem_singleton_self _))⟩
      · rintro f rfl
        exact hOwn.elim
    | route =>
      have hRouted := hNow.route
      refine ⟨hRouted.toSited, fun f hMem => ?_⟩
      obtain ⟨e, hIn, hFrame⟩ := List.mem_flatMap.mp hMem
      exact hRouted.frames e hIn f hFrame
  hear log i j r port f _ h hTrue := by
    refine h.onInterface hDistinct nofun ?_
    rintro f' ⟨⟩
    exact ⟨j, hTrue⟩

theorem sited_new (site : ι → Site) (i : ι) : Sited site [] i (site i).station where
  routes := rfl
  interfaces nic hMem := by
    obtain ⟨p, hPort, rfl⟩ := List.mem_map.mp hMem
    exact ⟨hPort, knows_new _ _⟩

theorem sound_run [DecidableEq ι] (site : ι → Site) (hDistinct : Distinct site)
    {steps : List (Step ι)} (hOk : Run.Along step Allowed (new site) steps) :
    Network.Sound (Sited site) (Truthful site) (Run.run step (new site) steps) :=
  (guarantees site hDistinct).run hOk ⟨sited_new site, fun _ hMem => absurd hMem List.not_mem_nil⟩

end Stations

/-- The same datagram, but for the lifetime it has lost and the checksum that goes with it. -/
structure Aged (d₀ : IPv4Datagram) (n : Nat) (d : IPv4Datagram) : Prop where
  payload : d.payload.flatten = d₀.payload.flatten
  ttl : d.header.ttl.toNat + n = d₀.header.ttl.toNat
  header : { d.header with ttl := d₀.header.ttl, cksum := d₀.header.cksum } = d₀.header

section Intact

variable {site : ι → Site} {log : List (ι × Router.Action)} {d₀ d : InternetDatagram} {n : Nat}
  {h : UInt32} {received : IPv4Datagram}

theorem delivery_eq_some {routes : List RouteEntry} {e : Delivery}
    (hDelivery : delivery routes received = some e) : 2 ≤ received.header.ttl.toNat ∧
      e.header = nextHeader received.header ∧ e.payload = received.payload := by
  rw [delivery] at hDelivery
  split at hDelivery
  · next hTwo =>
    obtain ⟨r, -, rfl⟩ := Option.map_eq_some_iff.mp hDelivery
    exact ⟨hTwo, rfl, rfl⟩
  · cases hDelivery

theorem Aged.hop (hAged : Aged d₀ n d)
    (hSame : d.Same received) (hTwo : 2 ≤ received.header.ttl.toNat)
    {d' : IPv4Datagram} (hHeader : d'.header = nextHeader received.header)
    (hPayload : d'.payload = received.payload) : Aged d₀ (n + 1) d' where
  payload := by rw [hPayload, hSame.payload, hAged.payload]
  ttl := by
    have hTtl := hAged.ttl
    rw [hSame.header] at hTwo
    have hLess : (d.header.ttl - 1).toNat = d.header.ttl.toNat - 1 :=
      UInt8.toNat_sub_of_le _ _ (Nat.le_of_succ_le hTwo)
    rw [hHeader, hSame.header]
    change (d.header.ttl - 1).toNat + (n + 1) = _
    omega
  header := by
    rw [hHeader, hSame.header, ← hAged.header]
    rfl

theorem Travels.intact (hTravels : Travels site log d₀ n d h) (hWhole : d₀.Whole) :
    d.Whole ∧ Aged d₀ n d := by
  induction hTravels with
  | submitted hLog => exact ⟨hWhole, rfl, rfl, rfl⟩
  | forwarded hTravels hPort hRead hDelivery hHeader hPayload ih =>
    obtain ⟨hBefore, hAged⟩ := ih
    have hSame := hBefore.same_of_readAs hRead
    obtain ⟨hTwo, hNext, hKept⟩ := delivery_eq_some hDelivery
    rw [hNext] at hHeader
    rw [hKept] at hPayload
    refine ⟨⟨⟨?_, ?_⟩, ?_⟩, hAged.hop hSame hTwo hHeader hPayload⟩
    · have hCan := hBefore.accepted.header
      rw [hHeader, hSame.header]
      exact ⟨hCan.ver, hCan.hlen_ge, hCan.hlen_mask, hCan.offset_mask, rfl⟩
    · rw [hPayload, hHeader, hSame.payload, hSame.header]
      exact hBefore.accepted.payload_le
    · rw [hHeader, hSame.header]
      exact hBefore.hlen

end Intact

/-- A host, a router with two interfaces and another host. -/
def lineSite : Fin 3 → Site := List.get
  [⟨[(#v[2, 0, 0, 0, 1, 1], 1)], []⟩,
   ⟨[(#v[2, 0, 0, 0, 1, 2], 2), (#v[2, 0, 0, 0, 1, 3], 3)],
      [⟨0x0b000000, 16, none, 1, by decide⟩]⟩,
   ⟨[(#v[2, 0, 0, 0, 1, 4], 0x0b000001)], []⟩]

/-- Both hops have to be resolved first. -/
def lineSteps : List (Step (Fin 3)) :=
  [.act 0 (.interface 0 (.sendDatagram NetworkSegment.pairDatagram 2)), .deliver 1 0 0,
    .deliver 0 0 1, .deliver 1 0 2, .act 1 .route, .deliver 2 0 3, .deliver 1 1 4, .deliver 2 0 5]

end Internet

end Minnow
