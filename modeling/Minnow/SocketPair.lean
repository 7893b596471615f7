import Minnow.SocketRules

/-! # Two sockets and their owners

The owners of two sockets talk to each other through the threads of the sockets,
their adapters and a network that loses, delays, duplicates and reorders
datagrams. The devices may also hand in datagrams of others, as long as the
adapter makes no message of them.
-/

namespace Minnow

open EventLoop Library TCPDatagramAdapter

abbrev SocketPair (A F : Type) :=
  Network Side (MinnowSocket.Thread A F) (MinnowSocket.Thread.Action F) F

namespace SocketPair

open MinnowSocket Thread Conversation

variable {A F : Type} [TCPDatagramAdapter A F]

abbrev Step (F : Type) := Network.Step Side (Thread.Action F) (Turn F)

def new (cfg : Side → TCPConfig) (adapter : Side → A) : SocketPair A F :=
  Network.start fun side => Thread.new (cfg side) (adapter side)

def step : SocketPair A F → Step F → SocketPair A F := Network.step machine

/-- The messages that the threads hear come from each other. -/
def Private (self : SocketPair A F) : Step F → Prop := self.Permits fun _ => Own

def Fairly (self : SocketPair A F) : Step F → Prop := self.Meets machine fun _ => Thread.Fair

instance (self : SocketPair A F) (a : Step F) : Decidable (Private self a) :=
  inferInstanceAs (Decidable (self.Permits (fun _ => Own) a))

instance (self : SocketPair A F) (a : Step F) : Decidable (Fairly self a) :=
  inferInstanceAs (Decidable (self.Meets machine (fun _ => Thread.Fair) a))

/-- The conversation that stands behind two sockets. -/
structure Behind (x : SocketPair A F) (z : Conversation) : Prop where
  machine : ∀ side, z.machine side = (x.machine side).socket.caller.toTalker
  talking : Talking z
  heard : ∀ side, (x.machine side).socket.inboundShutdown = true → Heard z side

variable [LawfulAdapter A]

theorem behind_run (cfg : Side → TCPConfig) (adapter : Side → A) {steps : List (Step F)}
    (hPrivate : Run.Along step Private (new cfg adapter) steps)
    (hFairly : Run.Along step Fairly (new cfg adapter) steps) :
    (∀ side, Ready ((Run.run step (new cfg adapter) steps).machine side)) ∧
      ∃ z, Behind (Run.run step (new cfg adapter) steps) z := by
  have hStart : Network.Refined (fun x => x.caller) (Carries A) (fun _ => Ready) Call.Going
      (new cfg adapter) :=
    ⟨fun side => ready_new (cfg side) (adapter side),
      _, Network.shows_start _ _ _, Call.going_new cfg⟩
  obtain ⟨hReady, y, hShows, hGoing⟩ := refines_caller.run Call.invariant_going
    (fun _ h => h.plain) hPrivate hFairly hStart
  obtain ⟨z, hShows', hTalking, hHeard⟩ := hGoing.calling
  have hMachine := hShows.machine
  refine ⟨hReady, z, fun side => ?_, hTalking, fun side hTold => hHeard side ?_⟩
  · rw [hShows'.machine side, hMachine side]
    rfl
  · rw [hMachine side]
    exact hTold

abbrev LossyTunAdapter := LossyFdAdapter TCPOverIPv4OverTunFdAdapter MinStdRand0

/-- With these seeds only the first message of the left side gets lost. -/
def lossyAdapter (side : Side) : LossyTunAdapter where
  rand := ⟨if side = .left then 8 else 1⟩
  adapter := TCPOverIPv4OverTunFdAdapter.new

def heardDatagram : Turn (List Byte) where
  poll := .ready [{ pollin := true }]
  answers := {}
  ms := 1

def strayDatagram (data : List Byte) : Turn (List Byte) where
  poll := .ready [{ pollin := true }]
  answers := { readAdapter := .ok data }
  ms := 1

def waited (ms : Nat) : Turn (List Byte) where
  poll := .timeout
  answers := {}
  ms := ms

def fromOwner (data : List Byte) : Turn (List Byte) where
  poll := .ready [{}, { pollin := true }]
  answers := { readThreadData := .ok data }
  ms := 1

def toOwner (n : Nat) : Turn (List Byte) where
  poll := .ready [{}, {}, { pollout := true }]
  answers := { writeThreadData := .ok n }
  ms := 1

/-- The left owner hands over three bytes and closes; its FIN arrives before them. -/
def transfer : List (Step (List Byte)) :=
  [.act .left (.connect ⟨⟨⟨0x0a000001, 4000⟩, ⟨0x0a000002, 80⟩⟩, 0, 0x4000⟩),
    .act .right (.listenAndAccept ⟨⟨⟨0, 80⟩, ⟨0, 0⟩⟩, 0, 0⟩),
    .act .right (.turn (strayDatagram [69, 0])), .act .left (.turn (waited 1000)),
    .deliver .right heardDatagram 0, .deliver .left heardDatagram 1,
    .deliver .right heardDatagram 2, .act .left (.turn (fromOwner [1, 2, 3])),
    .act .left (.turn (fromOwner [])), .deliver .right heardDatagram 4,
    .deliver .right heardDatagram 3, .deliver .right heardDatagram 4,
    .act .right (.turn (toOwner 2)), .act .right (.turn (toOwner 1))]

end SocketPair

end Minnow
