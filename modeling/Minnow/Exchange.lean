import Minnow.Library.Run
import Minnow.TCPPeer

/-! # Two peers and the channel between them

Everything a peer transmits is in flight until it is delivered or dropped, from
any position: the channel delays, reorders and loses messages, but it does not
duplicate them.
-/

namespace Minnow

inductive Side where
  | left
  | right
deriving DecidableEq

def Side.other : Side → Side
  | .left => .right
  | .right => .left

@[simp] theorem Side.other_other (side : Side) : side.other.other = side := by cases side <;> rfl

theorem Side.other_ne (side : Side) : side.other ≠ side := by cases side <;> nofun

structure Exchange where
  peer : Side → TCPPeer
  /-- The messages on the way to a side. -/
  inFlight : Side → List TCPMessage

namespace Exchange

def new (cfg : Side → TCPConfig) : Exchange where
  peer side := TCPPeer.new (cfg side)
  inFlight _ := []

/-- A peer acts; what it transmits goes to the other side. -/
def act (self : Exchange) (side : Side) (a : TCPPeer.Action) : Exchange where
  peer := Function.update self.peer side ((self.peer side).step a)
  inFlight := Function.update self.inFlight side.other
    (self.inFlight side.other ++ (self.peer side).transmitted a)

/-- One message leaves the channel. -/
def take (self : Exchange) (side : Side) (i : Nat) : Exchange :=
  { self with inFlight := Function.update self.inFlight side ((self.inFlight side).eraseIdx i) }

inductive Step where
  | write (side : Side) (data : List Byte)
  | close (side : Side)
  | push (side : Side)
  | tick (side : Side) (ms : Nat)
  | pop (side : Side) (len : Nat)
  | deliver (side : Side) (i : Nat)
  | drop (side : Side) (i : Nat)
deriving DecidableEq

def step (self : Exchange) : Step → Exchange
  | .write side data => self.act side (.write data)
  | .close side => self.act side .close
  | .push side => self.act side .push
  | .tick side ms => self.act side (.tick ms)
  | .pop side len => self.act side (.pop len)
  | .deliver side i =>
    match (self.inFlight side)[i]? with
    | some msg => (self.take side i).act side (.receive msg)
    | none => self
  | .drop side i => self.take side i

/-- Neither time nor the applications do anything but push; every delivery is of a message that
is in flight. -/
def Quiet (self : Exchange) : Step → Prop
  | .push _ => True
  | .deliver side i | .drop side i => i < (self.inFlight side).length
  | _ => False

instance (self : Exchange) (a : Step) : Decidable (Quiet self a) :=
  match a with
  | .push _ => instDecidableTrue
  | .deliver _ _ | .drop _ _ => Nat.decLt _ _
  | .write _ _ | .close _ | .tick _ _ | .pop _ _ => instDecidableFalse

/-- The step takes a message out of the channel. -/
def Step.isDelivery : Step → Bool
  | .deliver _ _ | .drop _ _ => true
  | _ => false

theorem step_deliver {x : Exchange} {side : Side} {i : Nat} {msg : TCPMessage}
    (h : (x.inFlight side)[i]? = some msg) :
    x.step (.deliver side i) = (x.take side i).act side (.receive msg) := by
  rw [step, h]

section Fields

variable (x : Exchange) (side : Side) (a : TCPPeer.Action) (i : Nat)

@[simp] theorem act_peer : (x.act side a).peer side = (x.peer side).step a :=
  Function.update_self side _ _

@[simp] theorem act_peer_other : (x.act side a).peer side.other = x.peer side.other :=
  Function.update_of_ne side.other_ne _ _

@[simp] theorem act_inFlight : (x.act side a).inFlight side = x.inFlight side :=
  Function.update_of_ne side.other_ne.symm _ _

@[simp] theorem act_inFlight_other : (x.act side a).inFlight side.other =
    x.inFlight side.other ++ (x.peer side).transmitted a :=
  Function.update_self side.other _ _

@[simp] theorem take_peer : (x.take side i).peer = x.peer := rfl

@[simp] theorem take_inFlight :
    (x.take side i).inFlight side = (x.inFlight side).eraseIdx i :=
  Function.update_self side _ _

@[simp] theorem take_inFlight_other : (x.take side i).inFlight side.other = x.inFlight side.other :=
  Function.update_of_ne side.other_ne _ _

end Fields

/-- A property of both sides, from the side that acts. -/
theorem forall_side {P : Side → Prop} (side : Side) (h : P side) (hOther : P side.other) :
    ∀ d, P d := by
  cases side with
  | left =>
    rintro (_ | _)
    · exact h
    · exact hOther
  | right =>
    rintro (_ | _)
    · exact hOther
    · exact h

end Exchange

end Minnow
