import Minnow.NetworkInterface

/-! # The router

`route` empties the queues of received datagrams one after another. Sending
adds to none of them, so each loop sees the datagrams there when it begins.
-/

namespace Minnow

/-- A longer prefix would shift by a negative number, which the language leaves undefined. -/
structure RouteEntry where
  routePrefix : UInt32
  prefixLength : UInt8
  nextHop : Option UInt32
  interfaceNum : Nat
  prefixLength_le : prefixLength ≤ 32
deriving DecidableEq

namespace RouteEntry

def mask (self : RouteEntry) : UInt32 :=
  if self.prefixLength = 0 then 0 else 0xffffffff <<< (32 - self.prefixLength).toUInt32

end RouteEntry

structure Router where
  interfaces : List NetworkInterface
  routingTable : List RouteEntry
deriving DecidableEq

namespace Router

def new : Router := ⟨[], []⟩

def addInterface (self : Router) (interface : NetworkInterface) : Router :=
  { self with interfaces := self.interfaces ++ [interface] }

def addRoute (self : Router) (route : RouteEntry) : Router :=
  { self with routingTable := self.routingTable ++ [route] }

/-- The best match so far and its length, which is -1 before there is one. -/
structure Match where
  route : Option RouteEntry
  maxPrefixLen : Int
deriving DecidableEq

def consider (dstIp : UInt32) (best : Match) (route : RouteEntry) : Match :=
  if dstIp &&& route.mask = route.routePrefix &&& route.mask then
    if best.maxPrefixLen < route.prefixLength.toNat then
      ⟨some route, route.prefixLength.toNat⟩
    else best
  else best

def bestRoute (self : Router) (dstIp : UInt32) : Option RouteEntry :=
  (self.routingTable.foldl (consider dstIp) ⟨none, -1⟩).route

/-- A call of `send_datagram`, with the datagram it stems from and the frames it transmits. -/
structure Forward where
  received : IPv4Datagram
  dgram : InternetDatagram
  nextHop : UInt32
  interfaceNum : Nat
  frames : List EthernetFrame
deriving DecidableEq

/-- What `route` has done so far; an exception leaves it there. -/
structure Routing where
  router : Router
  forwarded : List Forward
  thrown : Bool
deriving DecidableEq

namespace Routing

def throw (self : Routing) : Routing := { self with thrown := true }

def sendDatagram (self : Routing) (received : IPv4Datagram) (dgram : InternetDatagram)
    (nextHop : UInt32) (interfaceNum : Nat) : Routing :=
  match self.router.interfaces[interfaceNum]? with
  | none => self.throw
  | some interface =>
    let sent := interface.sendDatagram dgram nextHop
    { router.interfaces := self.router.interfaces.set interfaceNum sent.interface
      router.routingTable := self.router.routingTable
      forwarded := self.forwarded ++ [⟨received, dgram, nextHop, interfaceNum, sent.frames⟩]
      thrown := sent.thrown }

def pop (self : Routing) (i : Nat) : Routing :=
  { self with
    router.interfaces := self.router.interfaces.modify i fun interface =>
      { interface with datagramsIn := interface.datagramsIn.tail } }

def decrementTtl (header : IPv4Header) : IPv4Header := { header with ttl := header.ttl - 1 }

/-- The body of the loop over one queue, once the datagram has been popped. -/
def forward (self : Routing) (dgram : IPv4Datagram) : Routing :=
  if dgram.header.ttl ≤ 1 then self
  else
    match (decrementTtl dgram.header).computeChecksum with
    | none => self.throw
    | some header =>
      match self.router.bestRoute header.dst with
      | none => self
      | some route =>
        self.sendDatagram dgram { dgram with header } (route.nextHop.getD header.dst)
          route.interfaceNum

def turn (i : Nat) (self : Routing) (dgram : IPv4Datagram) : Routing :=
  if self.thrown then self else (self.pop i).forward dgram

def drain (self : Routing) (i : Nat) : Routing :=
  match self.router.interfaces[i]? with
  | none => self
  | some interface => interface.datagramsIn.foldl (turn i) self

end Routing

def route (self : Router) : Routing :=
  (List.range self.interfaces.length).foldl Routing.drain ⟨self, [], false⟩

end Router

end Minnow
