import Minnow.ExchangeDirection
import Minnow.PeerShutdown

/-! # The invariant of an exchange

Both directions are linked and no peer owes a reply between two steps, in every
state in which neither application has written too much yet.
-/

namespace Minnow

open Library

namespace TCPSender

/-- Only a write puts bytes into the stream. -/
theorem call_pushed (s : TCPSender) {c : Call} (hWrite : ∀ data, c ≠ .write data) :
    (s.call c).input.totalPushed = s.input.totalPushed := by
  cases c with
  | write data => exact absurd rfl (hWrite data)
  | close | setError => rfl
  | push =>
    exact push_rule (P := fun t _ => t.input.totalPushed = s.input.totalPushed)
      (fun _ _ _ _ h => h) rfl
  | tick ms => exact congrArg ByteStream.totalPushed (s.tick_kept ms).1
  | receive msg =>
    change (s.receive msg).input.totalPushed = _
    obtain ⟨-, hEq⟩ | ⟨-, -, hEq⟩ | ⟨-, -, hEq⟩ := s.receive_cases msg <;> rw [hEq]
    · rfl
    · rfl

end TCPSender

namespace TCPPeer

variable {p : TCPPeer}

/-- What `receive` sends if `push` does not send anything. -/
def reply (p : TCPPeer) (msg : TCPMessage) : List TCPSenderMessage :=
  let sent := (p.sender.receive msg.receiver).push
  if sent.2 = [] ∧ p.owesReply msg then [sent.1.makeEmptyMessage] else []

theorem receive_out (hActive : p.active = true) (hNeed : p.needSend = false) (msg : TCPMessage) :
    (p.receive msg).1.needSend = false ∧
      (p.receive msg).2 = ((p.sender.receive msg.receiver).push.2 ++ p.reply msg).map
        fun m => ⟨m, (p.receiver.receive msg.sender).send⟩ := by
  have hLinger : ∀ q : TCPPeer, q.endLinger.needSend = q.needSend := by
    intro q
    rw [endLinger]
    split <;> rfl
  have hPushed : (p.accept msg).push.1.needSend =
      (p.owesReply msg && (p.sender.receive msg.receiver).push.2.isEmpty) := by
    change ((p.needSend || p.owesReply msg) && _) = _
    rw [hNeed, Bool.false_or]
    rfl
  rw [receive, if_pos hActive, List.map_append]
  dsimp only
  rw [hLinger, replyIfNeeded]
  cases hOwes : (p.owesReply msg && (p.sender.receive msg.receiver).push.2.isEmpty) with
  | true =>
    obtain ⟨hOwes, hNone⟩ := (Bool.and_eq_true _ _).mp hOwes
    have hReply : p.reply msg = [(p.sender.receive msg.receiver).push.1.makeEmptyMessage] :=
      if_pos ⟨List.isEmpty_iff.mp hNone, hOwes⟩
    rw [hPushed, hOwes, hNone, hReply]
    exact ⟨Bool.and_false _, rfl⟩
  | false =>
    have hReply : p.reply msg = [] := by
      apply if_neg
      rintro ⟨hNone, hTrue⟩
      rw [hTrue, hNone] at hOwes
      cases hOwes
    rw [hPushed, hOwes, hReply]
    exact ⟨hPushed.trans hOwes, rfl⟩

theorem eq_of_mem_reply {msg : TCPMessage} {m : TCPSenderMessage} (h : m ∈ p.reply msg) :
    m = (p.sender.receive msg.receiver).push.1.makeEmptyMessage := by
  unfold reply at h
  dsimp only at h
  split at h
  · exact List.mem_singleton.mp h
  · cases h

theorem step_pushed (p : TCPPeer) {a : Action} (hWrite : ∀ data, a ≠ .write data) :
    (p.step a).outbound.bytesPushed = p.outbound.bytesPushed := by
  cases a with
  | write data => exact absurd rfl (hWrite data)
  | close | setOutboundError | pop len | setInboundError => rfl
  | push => exact p.sender.call_pushed (c := .push) (by simp)
  | tick ms => exact p.sender.call_pushed (c := .tick ms) (by simp)
  | receive msg =>
    cases hActive : p.active with
    | false => rw [TCPPeer.step, perform, receive_of_inactive hActive]
    | true =>
      have hPush := (p.sender.receive msg.receiver).call_pushed (c := .push) (by simp)
      have hHear := p.sender.call_pushed (c := .receive msg.receiver) (by simp)
      rw [TCPPeer.step, perform, outbound, (receive_view hActive msg).1]
      exact hPush.trans hHear

theorem pushed_le_step (p : TCPPeer) (a : Action) :
    p.outbound.bytesPushed ≤ (p.step a).outbound.bytesPushed := by
  by_cases hWrite : ∀ data, a ≠ .write data
  · exact (p.step_pushed hWrite).ge
  · simp only [not_forall, not_not] at hWrite
    obtain ⟨data, rfl⟩ := hWrite
    exact Nat.le_add_right _ _

end TCPPeer

namespace Exchange

/-- Fewer than `2 ^ 31 - 2` bytes have been written in either direction. -/
def Short (self : Exchange) : Prop := ∀ side, (self.peer side).outbound.bytesPushed < 2 ^ 31 - 2

structure Regular (x : Exchange) : Prop where
  linked : ∀ side, Linked (x.peer side).sender (x.peer side.other).receiver
    (x.inFlight side.other) (x.inFlight side)
  needSend : ∀ side, (x.peer side).needSend = false

theorem regular_new (cfg : Side → TCPConfig) : Regular (new cfg) where
  linked side := linked_new (cfg side) (cfg side.other)
  needSend _ := rfl

section Steps

variable {x : Exchange} {side : Side}

theorem regular_act {a : TCPPeer.Action}
    (hSend : Linked ((x.peer side).step a).sender (x.peer side.other).receiver
      (x.inFlight side.other ++ (x.peer side).transmitted a) (x.inFlight side))
    (hReceive : Linked (x.peer side.other).sender ((x.peer side).step a).receiver
      (x.inFlight side) (x.inFlight side.other ++ (x.peer side).transmitted a))
    (hNeed : ((x.peer side).step a).needSend = false)
    (hOther : (x.peer side.other).needSend = false) : Regular (x.act side a) := by
  constructor
  · refine forall_side side ?_ ?_
    · rw [act_peer, act_peer_other, act_inFlight, act_inFlight_other]
      exact hSend
    · rw [Side.other_other, act_peer, act_peer_other, act_inFlight, act_inFlight_other]
      exact hReceive
  · refine forall_side side ?_ ?_
    · rw [act_peer]
      exact hNeed
    · rw [act_peer_other]
      exact hOther

theorem Regular.linked_other (h : Regular x) (side : Side) :
    Linked (x.peer side.other).sender (x.peer side).receiver (x.inFlight side)
      (x.inFlight side.other) := by
  have hLinked := h.linked side.other
  rw [Side.other_other] at hLinked
  exact hLinked

/-- A call of the sender alone; what it sends acknowledges what has been received so far. -/
theorem Regular.call (h : Regular x) {a : TCPPeer.Action} {k : TCPSender.Call} (hLocal : k.Local)
    (hShort : ((x.peer side).step a).outbound.bytesPushed < 2 ^ 31 - 2)
    (hSender : ((x.peer side).step a).sender = (x.peer side).sender.call k)
    (hReceiver : ((x.peer side).step a).receiver = (x.peer side).receiver)
    (hNeed : ((x.peer side).step a).needSend = false)
    (hOut : (x.peer side).transmitted a =
      ((x.peer side).sender.answer k).2.map fun m => ⟨m, (x.peer side).receiver.send⟩) :
    Regular (x.act side a) := by
  rw [TCPPeer.outbound, hSender] at hShort
  refine regular_act ?_ ?_ hNeed (h.needSend side.other)
  · rw [hSender]
    rw [hOut]
    exact (h.linked side).call hLocal hShort (x.peer side).receiver.send
  · rw [hReceiver]
    apply (h.linked_other side).acknowledge
    rw [hOut]
    intro m hMem
    obtain ⟨_, -, rfl⟩ := List.mem_map.mp hMem
    rfl

theorem Regular.take (h : Regular x) (side : Side) (i : Nat) : Regular (x.take side i) := by
  have hSub : (x.inFlight side).eraseIdx i ⊆ x.inFlight side := List.eraseIdx_subset
  refine ⟨forall_side side ?_ ?_, h.needSend⟩
  · rw [take_inFlight, take_inFlight_other]
    exact (h.linked side).mono (fun m hMem => .inl hMem) hSub
  · rw [Side.other_other, take_inFlight, take_inFlight_other]
    exact (h.linked_other side).mono (fun m hMem => .inl (hSub hMem)) (List.Subset.refl _)

theorem Regular.deliver (h : Regular x) {i : Nat} {msg : TCPMessage}
    (hGet : (x.inFlight side)[i]? = some msg)
    (hShort : ((x.peer side).step (.receive msg)).outbound.bytesPushed < 2 ^ 31 - 2) :
    Regular ((x.take side i).act side (.receive msg)) := by
  have hMem : msg ∈ x.inFlight side := List.mem_of_getElem? hGet
  have hSub : (x.inFlight side).eraseIdx i ⊆ x.inFlight side := List.eraseIdx_subset
  have hTaken := h.take side i
  cases hActive : (x.peer side).active with
  | false =>
    have hIdle : (x.peer side).perform (.receive msg) = (x.peer side, []) :=
      TCPPeer.receive_of_inactive hActive msg
    apply regular_act
    · rw [take_peer, TCPPeer.step, TCPPeer.transmitted, hIdle, List.append_nil]
      exact hTaken.linked side
    · rw [take_peer, TCPPeer.step, TCPPeer.transmitted, hIdle, List.append_nil]
      exact hTaken.linked_other side
    · rw [take_peer, TCPPeer.step, hIdle]
      exact h.needSend side
    · exact h.needSend side.other
  | true =>
    obtain ⟨hSender, hReceiver⟩ := TCPPeer.receive_view hActive msg
    obtain ⟨hNeed, hOut⟩ := TCPPeer.receive_out hActive (h.needSend side) msg
    rw [TCPPeer.outbound, TCPPeer.step, TCPPeer.perform, hSender] at hShort
    have hPushed := ((h.linked side).hear hMem).call (k := .push) trivial hShort
      ((x.peer side).receiver.receive msg.sender).send
    apply regular_act
    · rw [take_peer, take_inFlight, take_inFlight_other, TCPPeer.step, TCPPeer.transmitted,
        TCPPeer.perform, hSender, hOut]
      refine hPushed.mono ?_ hSub
      intro m hIn
      rw [List.map_append, ← List.append_assoc] at hIn
      refine (List.mem_append.mp hIn).imp_right fun hLast => ?_
      obtain ⟨reply, hReply, rfl⟩ := List.mem_map.mp hLast
      rw [TCPPeer.eq_of_mem_reply hReply]
      exact ⟨rfl, hPushed.error⟩
    · rw [take_peer, take_inFlight, take_inFlight_other, TCPPeer.step, TCPPeer.transmitted,
        TCPPeer.perform, hReceiver, hOut]
      have hHeard := ((h.linked_other side).receive hMem).mono (fun m hIn => .inl (hSub hIn))
        (List.Subset.refl _)
      apply hHeard.acknowledge
      intro m hIn
      obtain ⟨_, -, rfl⟩ := List.mem_map.mp hIn
      rfl
    · exact hNeed
    · exact h.needSend side.other

theorem Regular.step (h : Regular x) (a : Step) (hShort : Short (x.step a)) :
    Regular (x.step a) := by
  have hSide : ∀ side b, x.step a = x.act side b →
      ((x.peer side).step b).outbound.bytesPushed < 2 ^ 31 - 2 := by
    intro side b hEq
    have hSide := hShort side
    rw [hEq, act_peer] at hSide
    exact hSide
  have hSent : ∀ side (msgs : List TCPSenderMessage),
      ((x.peer side).needSend && msgs.isEmpty) = false := by
    intro side msgs
    rw [h.needSend side, Bool.false_and]
  cases a with
  | write side data =>
    exact h.call (k := .write data) trivial (hSide side _ rfl) rfl rfl (h.needSend side) rfl
  | close side =>
    exact h.call (k := .close) trivial (hSide side _ rfl) rfl rfl (h.needSend side) rfl
  | push side =>
    exact h.call (k := .push) trivial (hSide side _ rfl) rfl rfl (hSent side _) rfl
  | tick side ms =>
    exact h.call (k := .tick ms) trivial (hSide side _ rfl) rfl rfl (hSent side _) rfl
  | pop side len =>
    apply regular_act
    · change Linked _ _ (_ ++ []) _
      rw [List.append_nil]
      exact h.linked side
    · change Linked _ _ _ (_ ++ [])
      rw [List.append_nil]
      exact (h.linked_other side).pop len
    · exact h.needSend side
    · exact h.needSend side.other
  | deliver side i =>
    cases hGet : (x.inFlight side)[i]? with
    | none =>
      have hSame : x.step (.deliver side i) = x := by rw [Exchange.step, hGet]
      rw [hSame]
      exact h
    | some msg =>
      rw [step_deliver hGet]
      apply h.deliver hGet
      have hSide := hShort side
      rw [step_deliver hGet, act_peer] at hSide
      exact hSide
  | drop side i => exact h.take side i

theorem pushed_le_act (x : Exchange) (side : Side) (a : TCPPeer.Action) :
    ∀ d, (x.peer d).outbound.bytesPushed ≤ ((x.act side a).peer d).outbound.bytesPushed := by
  refine forall_side side ?_ ?_
  · rw [act_peer]
    exact (x.peer side).pushed_le_step a
  · rw [act_peer_other]

theorem short_of_step {a : Step} (h : Short (x.step a)) : Short x := by
  intro d
  refine lt_of_le_of_lt ?_ (h d)
  cases a with
  | write side data | close side | push side | tick side ms | pop side len =>
    exact x.pushed_le_act side _ d
  | deliver side i =>
    cases hGet : (x.inFlight side)[i]? with
    | none => rw [Exchange.step, hGet]
    | some msg =>
      rw [step_deliver hGet]
      exact (x.take side i).pushed_le_act side (.receive msg) d
  | drop side i => exact le_rfl

theorem Short.act (h : Short x) {a : TCPPeer.Action} (hWrite : ∀ data, a ≠ .write data) :
    Short (x.act side a) := by
  refine forall_side side ?_ ?_
  · rw [act_peer, TCPPeer.step_pushed _ hWrite]
    exact h side
  · rw [act_peer_other]
    exact h side.other

end Steps

theorem regular_run (cfg : Side → TCPConfig) (steps : List Step) :
    Short (Run.run step (new cfg) steps) → Regular (Run.run step (new cfg) steps) :=
  Run.invariant_of_step (P := fun x => Short x → Regular x)
    (fun _ a h hShort => (h (short_of_step hShort)).step a hShort)
    (fun _ => regular_new cfg) steps

end Exchange

end Minnow
