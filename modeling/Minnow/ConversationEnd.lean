import Minnow.ConversationSafety
import Minnow.Library.NetworkRefinement

/-! # Telling the application that the stream has ended

A caller is a talker that tells its application of the end of the stream when
there is nothing more to read. The application may rely on it: by then it has
read all that the other one ever writes.
-/

namespace Minnow

open Library

structure Caller extends Talker where
  told : Bool

namespace Caller

inductive Action where
  | talk (a : TCPPeer.Action)
  | tell
deriving DecidableEq

def new (cfg : TCPConfig) : Caller := { Talker.new cfg with told := false }

def machine : Machine Caller Action Unit TCPMessage where
  perform self
    | .talk a => ({ self with toTalker := self.toTalker.step a }, self.peer.transmitted a)
    | .tell => ({ self with told := true }, [])
  hear _ msg := .talk (.receive msg)

/-- An error is reported like the end of the stream. -/
def Fair (self : Caller) : Action → Prop
  | .talk a => self.toTalker.Fair a
  | .tell => self.peer.inbound.isFinished = true ∨ self.peer.inbound.hasError = true

/-- An action that is not the hearing of a message. -/
def Own (a : Action) : Prop := ∀ msg, a ≠ .talk (.receive msg)

theorem Fair.own {self : Caller} {a : Action} (h : self.Fair a) : Own a := by
  rintro msg rfl
  exact h

end Caller

namespace TCPPeer

/-- Only a close closes the writer. -/
theorem closed_step (p : TCPPeer) (a : Action) :
    (p.step a).outbound.isClosed = p.outbound.isClosed ∨ a = .close := by
  cases a with
  | close => exact .inr rfl
  | write data | setOutboundError | pop len | setInboundError => exact .inl rfl
  | push => exact .inl p.sender.push_untouched.closed
  | tick ms => exact .inl (congrArg ByteStream.isClosed (p.sender.tick_kept ms).1)
  | receive msg =>
    left
    change (p.receive msg).1.outbound.isClosed = _
    cases hActive : p.active with
    | false => rw [receive_of_inactive hActive]
    | true =>
      rw [outbound, (receive_view hActive msg).1]
      refine (p.accept msg).sender.push_untouched.closed.trans ?_
      change (p.sender.receive msg.receiver).input.closed = _
      obtain ⟨-, hEq⟩ | ⟨-, -, hEq⟩ | ⟨-, -, hEq⟩ := p.sender.receive_cases msg.receiver
      all_goals
        rw [hEq]
        rfl

end TCPPeer

namespace Talker

variable {t : Talker}

theorem delivered_step (a : TCPPeer.Action) : t.delivered <+: (t.step a).delivered := by
  cases a with
  | pop len => exact List.prefix_append _ _
  | write data | close | setOutboundError | push | tick ms | receive msg | setInboundError =>
    exact List.prefix_rfl

theorem closed_step (h : t.peer.inbound.isClosed = true) (a : TCPPeer.Action) :
    (t.step a).peer.inbound.isClosed = true := by
  cases a with
  | write data | close | setOutboundError | push | tick ms | pop len | setInboundError => exact h
  | receive msg =>
    change (t.peer.receive msg).1.inbound.isClosed = true
    cases hActive : t.peer.active with
    | false =>
      rw [TCPPeer.receive_of_inactive hActive]
      exact h
    | true =>
      rw [TCPPeer.inbound, (TCPPeer.receive_view hActive msg).2, TCPReceiver.receive]
      split
      · exact h
      · cases t.peer.receiver.isnAfter msg.sender with
        | none => exact h
        | some isn => exact Reassembler.closed_insert h _ _ _

/-- A closed writer has had everything accepted. -/
theorem Fair.accepted {a : TCPPeer.Action} (h : t.Fair a)
    (hClosed : t.peer.outbound.isClosed = true) : (t.step a).accepted = t.accepted := by
  cases a with
  | write data => exact absurd (h.1.symm.trans hClosed) Bool.false_ne_true
  | close | setOutboundError | push | tick ms | receive msg | pop len | setInboundError => rfl

end Talker

namespace Conversation

variable {x : Conversation} {side i : Side} {a : TCPPeer.Action}

/-- The application of that side has read all that the other one has had accepted, and the
stream has ended. -/
structure Heard (x : Conversation) (side : Side) : Prop where
  closed : (x.machine side).peer.inbound.isClosed = true
  whole : (x.machine side).delivered = (x.machine side.other).accepted

theorem Talking.heard_of_finished (h : Talking x)
    (hFinished : (x.machine side).peer.inbound.isFinished = true) : Heard x side := by
  obtain ⟨hClosed, hBuffer⟩ := ByteStream.isFinished_iff.mp hFinished
  obtain ⟨c, hBacks⟩ := h.backed_other side
  have hAll := (hBacks.of_closed hClosed).2
  rw [Talker.received, ByteStream.peek, hBuffer, List.append_nil] at hAll
  exact ⟨hClosed, hAll⟩

/-- The reader can only have read on, and the writer has nothing to add. -/
theorem Heard.turn (h : Heard x side) (hTalking : Talking (x.turn Talker.machine i a))
    (hAccepted : i = side.other → ((x.machine i).step a).accepted = (x.machine i).accepted) :
    Heard (x.turn Talker.machine i a) side := by
  have hPrefix : ((x.turn Talker.machine i a).machine side).delivered <+:
      ((x.turn Talker.machine i a).machine side.other).accepted := by
    obtain ⟨c, hBacks⟩ := hTalking.backed_other side
    exact (List.prefix_append _ _).trans hBacks.isPrefix
  by_cases hSide : i = side
  · subst hSide
    have hMachine : (x.turn Talker.machine i a).machine i = (x.machine i).step a :=
      x.turn_machine Talker.machine i a
    have hOther : (x.turn Talker.machine i a).machine i.other = x.machine i.other :=
      x.turn_machine_of_ne Talker.machine i a i.other_ne
    rw [hMachine, hOther] at hPrefix
    constructor
    · rw [hMachine]
      exact Talker.closed_step h.closed a
    · rw [hMachine, hOther]
      refine hPrefix.eq_of_length_le ?_
      rw [← h.whole]
      exact (Talker.delivered_step a).length_le
  · obtain rfl : i = side.other := by
      cases i <;> cases side <;> first | rfl | exact absurd rfl hSide
    have hMachine : (x.turn Talker.machine side.other a).machine side.other =
        (x.machine side.other).step a := x.turn_machine Talker.machine side.other a
    have hOther : (x.turn Talker.machine side.other a).machine side = x.machine side :=
      x.turn_machine_of_ne Talker.machine side.other a (Ne.symm side.other_ne)
    constructor
    · rw [hOther]
      exact h.closed
    · rw [hMachine, hOther, hAccepted rfl]
      exact h.whole

theorem Heard.step (h : Heard x side) (hTalking : Talking x) {a : Step} (hOk : Allowed x a) :
    Heard (x.step a) side := by
  have hAfter := hTalking.step hOk
  obtain ⟨i, b, rfl, hStep⟩ | ⟨i, j, port, msg, hMem, hOther, hStep⟩ | hStep :=
    x.step_cases Talker.machine a
  · rw [Conversation.step, hStep] at hAfter ⊢
    have hFair : (x.machine i).Fair b := hOk
    have hTurn := h.turn (i := i) (a := b) (hAfter.withLog x.log) fun hSide => by
      subst hSide
      obtain ⟨c, hBacks⟩ := hTalking.backed_other side
      exact hFair.accepted (hBacks.of_closed h.closed).1
    exact ⟨hTurn.closed, hTurn.whole⟩
  · rw [Conversation.step, hStep] at hAfter ⊢
    exact h.turn hAfter fun _ => rfl
  · rw [Conversation.step, hStep]
    exact h

end Conversation

/-! The conversation of two callers -/

abbrev Call := Network Side Caller Caller.Action TCPMessage

namespace Call

open Conversation Network TCPPeer

abbrev Step := Network.Step Side Caller.Action Unit

/-- A conversation of the callers' talkers stands behind the call, and who has been told of the end
has heard it. -/
def Calling (x : Call) : Prop :=
  ∃ y, Shows Caller.toTalker Eq x y ∧ Talking y ∧
    ∀ side, (x.machine side).told = true → Heard y side

theorem refines_talker : Refines Caller.machine Talker.machine Caller.toTalker Eq (fun _ => True)
    (fun _ => Caller.Own) (fun (_ : Side) _ => True) (fun _ s a => Caller.Own a → s.Fair a)
    (fun _ => Talker.Fair) where
  act _ s a hOwn hFair _ := by
    refine ⟨trivial, ?_⟩
    cases a with
    | talk a => exact ⟨_, .single (.act s.toTalker [] a (hFair hOwn)), fun m hMem => ⟨m, hMem, rfl⟩⟩
    | tell => exact ⟨[], .refl, fun m hMem => ⟨m, hMem, rfl⟩⟩
  hear _ s port m n hSame _ _ _ := by
    subst hSame
    exact ⟨trivial, _, .single (.hear s.toTalker [] port n rfl), fun m hMem => ⟨m, hMem, rfl⟩⟩

/-- The talkers of a call, with what has been heard to the end on some sides. -/
theorem invariant_heard (told : Side → Prop) : Invariant Talker.machine (fun _ => Talker.Fair)
    fun x : Conversation => Talking x ∧ ∀ side, told side → Heard x side where
  step _ _ hOk h := ⟨h.1.step hOk, fun side hTold => (h.2 side hTold).step h.1 hOk⟩
  log _ log h := ⟨h.1.withLog log,
    fun side hTold => ⟨(h.2 side hTold).closed, (h.2 side hTold).whole⟩⟩

theorem told_step {x : Call} {a : Step} {side : Side}
    (h : ((x.step Caller.machine a).machine side).told = true) :
    (x.machine side).told = true ∨ a = .act side .tell := by
  have hTurn : ∀ i b, ((x.turn Caller.machine i b).machine side).told = true →
      (x.machine side).told = true ∨ i = side ∧ b = .tell := by
    intro i b h
    by_cases hSide : side = i
    · subst hSide
      rw [turn_machine] at h
      cases b with
      | talk a => exact .inl h
      | tell => exact .inr ⟨rfl, rfl⟩
    · rw [turn_machine_of_ne _ _ _ _ hSide] at h
      exact .inl h
  obtain ⟨i, b, rfl, hStep⟩ | ⟨i, j, port, msg, hMem, hOther, hStep⟩ | hStep :=
    x.step_cases Caller.machine a
  · rw [hStep] at h
    refine (hTurn i b h).imp_right ?_
    rintro ⟨rfl, rfl⟩
    rfl
  · rw [hStep] at h
    exact (hTurn i _ h).imp_right fun hTell => nomatch hTell.2
  · rw [hStep] at h
    exact .inl h

theorem invariant_calling : Invariant Caller.machine (fun _ => Caller.Fair) Calling where
  log x log h := h.imp fun _ hy => ⟨⟨hy.1.machine, hy.1.sent⟩, hy.2⟩
  step x a hOk h := by
    have hOwn : x.Permits (fun _ _ => Caller.Own) a := by
      cases a with
      | act i a => exact Caller.Fair.own hOk
      | deliver i port k => trivial
    have hMeets : x.Meets Caller.machine (fun _ s a => Caller.Own a → s.Fair a) a := by
      cases a with
      | act i a => exact fun _ => hOk
      | deliver i port k => exact fun e _ hOwn => absurd rfl (hOwn e.2)
    obtain ⟨-, y, hShows, hTalking, hHeard⟩ := refines_talker.step
      (invariant_heard fun side => (x.machine side).told = true) (fun _ _ _ _ => trivial) hOwn
      hMeets ⟨fun _ => trivial, h⟩
    refine ⟨y, hShows, hTalking, fun side hTold => ?_⟩
    obtain hOld | rfl := told_step hTold
    · exact hHeard side hOld
    · -- the peer has been left alone
      have hSame : (y.machine side).peer = (x.machine side).peer := by
        rw [hShows.machine side]
        change ((x.turn Caller.machine side .tell).machine side).peer = _
        rw [turn_machine]
        rfl
      have hClean := (Bool.or_eq_false_iff.mp (hTalking.noErrors side)).1
      refine hTalking.heard_of_finished ?_
      rw [hSame] at hClean ⊢
      exact hOk.resolve_right (Bool.eq_false_iff.mp hClean)

end Call

end Minnow
