import Minnow.DatagramAdapter
import Minnow.EventLoop
import Minnow.Library.Network
import Minnow.TCPPeer

/-! # The socket

A thread of the socket moves bytes between the owner, the peer and a datagram
adapter, by three rules of an event loop and a tick after each event. Writing to
the device of the adapter does not fail.
-/

namespace Minnow

open EventLoop Library TCPDatagramAdapter

/-- What the thread shares with its rules. `sent` is what the adapter has written, `taken` what has
been read from the owner and `given` what has been written to it. -/
structure MinnowSocket (A F : Type) where
  tcp : TCPPeer
  datagramAdapter : A
  threadData : FileDescriptor
  inboundShutdown : Bool
  outboundShutdown : Bool
  sent : List F
  taken : List Byte
  given : List Byte

namespace MinnowSocket

/-- The answers of the kernel to the callbacks. -/
structure Answers (F : Type) where
  readAdapter : SystemCall F := .again
  readThreadData : SystemCall (List Byte) := .again
  writeThreadData : SystemCall Nat := .again
  shutdownThreadData : SystemCall Unit := .ok ()
deriving DecidableEq

variable {A F : Type}

def new (cfg : TCPConfig) (adapter : A) : MinnowSocket A F where
  tcp := TCPPeer.new cfg
  datagramAdapter := adapter
  threadData := ({} : FileDescriptor).setBlocking false
  inboundShutdown := false
  outboundShutdown := false
  sent := []
  taken := []
  given := []

variable [TCPDatagramAdapter A F]

/-- The peer after an action, with the adapter as its transmit callback. -/
def perform (self : MinnowSocket A F) (a : TCPPeer.Action) : MinnowSocket A F :=
  let written := writeAll self.datagramAdapter (self.tcp.transmitted a)
  { self with
    tcp := self.tcp.step a
    datagramAdapter := written.1
    sent := self.sent ++ written.2 }

def configure (self : MinnowSocket A F) (cfg : AdapterConfig) : MinnowSocket A F :=
  { self with datagramAdapter := TCPDatagramAdapter.configure self.datagramAdapter cfg }

def listen (self : MinnowSocket A F) : MinnowSocket A F :=
  { self with datagramAdapter := setListening self.datagramAdapter true }

/-! The callbacks of the three rules -/

def receiveSegment (answers : Answers F) (self : MinnowSocket A F) :
    Except (MinnowSocket A F) (MinnowSocket A F) :=
  match read self.datagramAdapter answers.readAdapter with
  | none => .error self
  | some (adapter, seg) =>
    let self := { self with datagramAdapter := adapter }
    match seg with
    | none => .ok self
    | some seg => .ok (self.perform (.receive seg))

def pushBytes (answers : Answers F) (self : MinnowSocket A F) :
    Except (MinnowSocket A F) (MinnowSocket A F) :=
  match self.threadData.read self.tcp.outbound.availableCapacity answers.readThreadData with
  | none => .error self
  | some (threadData, data) =>
    let self := { self with threadData := threadData, taken := self.taken ++ data }
    let self := self.perform (.write data)
    let self :=
      if threadData.eof then { self.perform .close with outboundShutdown := true } else self
    .ok (self.perform .push)

/-- As far as the owner takes the bytes. -/
def passBytes (answers : Answers F) (self : MinnowSocket A F) : Option (MinnowSocket A F) :=
  let inbound := self.tcp.inbound
  if inbound.bytesBuffered = 0 then some self
  else
    match self.threadData.write inbound.peek answers.writeThreadData with
    | none => none
    | some (threadData, written) =>
      let self := { self with
        threadData := threadData
        given := self.given ++ inbound.peek.take written }
      some (self.perform (.pop written))

def readInbound (answers : Answers F) (self : MinnowSocket A F) :
    Except (MinnowSocket A F) (MinnowSocket A F) :=
  match self.passBytes answers with
  | none => .error self
  | some self =>
    if self.tcp.inbound.isFinished || self.tcp.inbound.hasError then
      match self.threadData.shutdownWrite answers.shutdownThreadData with
      | none => .error self
      | some threadData => .ok { self with threadData := threadData, inboundShutdown := true }
    else .ok self

def receiveRule (categoryId : Nat) : FDRule (MinnowSocket A F) (Answers F) where
  categoryId := categoryId
  fd self := fd self.datagramAdapter
  direction := .input
  callback := receiveSegment
  interest self := self.tcp.active

def pushRule (categoryId : Nat) : FDRule (MinnowSocket A F) (Answers F) where
  categoryId := categoryId
  fd := threadData
  direction := .input
  callback := pushBytes
  interest self := self.tcp.active && !self.outboundShutdown &&
    decide (0 < self.tcp.outbound.availableCapacity)
  cancel self := { self.perform .close with outboundShutdown := true }
  error self := self.perform .setOutboundError

def inboundRule (categoryId : Nat) : FDRule (MinnowSocket A F) (Answers F) where
  categoryId := categoryId
  fd := threadData
  direction := .output
  callback := readInbound
  interest self := self.tcp.inbound.bytesBuffered != 0 ||
    ((self.tcp.inbound.isFinished || self.tcp.inbound.hasError) && !self.inboundShutdown)
  error self := self.perform .setInboundError

def eventLoop : Option (EventLoop (MinnowSocket A F) (Answers F)) := do
  let loop ← addNamedRule {} "receive TCP segment from the network" receiveRule
  let loop ← loop.addNamedRule "push bytes to TCPPeer" pushRule
  loop.addNamedRule "read bytes from inbound stream" inboundRule

theorem eventLoop_isSome : (eventLoop (A := A)).isSome := rfl

/-- Before `connect` or `listen_and_accept`, in the loop of one of them, in the loop of the
thread, and after that, with the result of the last event. -/
inductive Phase where
  | unopened
  | connecting
  | accepting
  | running
  | ended (result : Result)
deriving DecidableEq

/-- The condition of the loop of that phase. -/
def Phase.continues (tcp : TCPPeer) : Phase → Bool
  | .connecting => tcp.sender.sequenceNumbersInFlight == 1
  | .accepting => tcp.receiver.send.ackno.isNone || tcp.sender.sequenceNumbersInFlight != 0
  | .running => true
  | .unopened | .ended _ => false

structure Thread (A F : Type) where
  loop : EventLoop (MinnowSocket A F) (Answers F)
  socket : MinnowSocket A F
  phase : Phase

namespace Thread

def new (cfg : TCPConfig) (adapter : A) : Thread A F where
  loop := eventLoop.get eventLoop_isSome
  socket := MinnowSocket.new cfg adapter
  phase := .unopened

/-- The answers to one turn of `_tcp_loop`, and the time it has taken. -/
structure Turn (F : Type) where
  poll : Poll
  answers : Answers F
  ms : Nat
  abort : Bool := false
deriving DecidableEq

inductive Action (F : Type) where
  | connect (cfg : AdapterConfig)
  | listenAndAccept (cfg : AdapterConfig)
  | turn (t : Turn F)
deriving DecidableEq

/-- The turn of a loop that goes on: an event, and a tick unless the event has ended the loop. -/
def event (self : Thread A F) (t : Turn F) : Thread A F :=
  let next := self.loop.waitNextEvent self.socket t.poll t.answers
  let after := { self with loop := next.2.1, socket := next.2.2 }
  if next.1 = .threw then { after with phase := .ended .threw }
  else if next.1 = .exit ∨ t.abort then
    -- `connect` and `listen_and_accept` go on to start the thread
    { after with phase := if self.phase = .running then .ended next.1 else .running }
  else if after.socket.tcp.active then
    { after with socket := after.socket.perform (.tick t.ms) }
  else after

def step (self : Thread A F) : Action F → Thread A F
  | .connect cfg =>
    if self.phase = .unopened then
      let pushed := (self.socket.configure cfg).perform .push
      -- anything but the SYN in flight is an exception
      let phase := if pushed.tcp.sender.sequenceNumbersInFlight = 1 then .connecting
        else .ended .threw
      { self with socket := pushed, phase := phase }
    else self
  | .listenAndAccept cfg =>
    if self.phase = .unopened then
      { self with socket := (self.socket.configure cfg).listen, phase := .accepting }
    else self
  | .turn t =>
    match self.phase with
    | .unopened | .ended _ => self
    | .connecting | .accepting | .running =>
      if self.phase.continues self.socket.tcp then self.event t
      else { self with phase := .running }.event t

/-- The thread with an empty record of what has been sent. -/
def fresh (self : Thread A F) : Thread A F :=
  { self with socket := { self.socket with sent := [] } }

def machine : Machine (Thread A F) (Action F) (Turn F) F where
  perform self a := (self.fresh.step a, (self.fresh.step a).socket.sent)
  hear t datagram := .turn { t with answers := { t.answers with readAdapter := .ok datagram } }

end Thread

end MinnowSocket

end Minnow
