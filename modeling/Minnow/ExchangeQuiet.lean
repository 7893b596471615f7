import Minnow.ExchangeInvariant

/-! # A quiet exchange comes to an end

A peer that sends segments has fewer sequence numbers left. Otherwise it only
replies to a message, and never to one that carries the current sequence number
of its sender; the reply itself does. So a reply always replaces a message that
weighs more, until a segment is sent.
-/

namespace Minnow

open Library

namespace TCPSender

/-- The sequence numbers that are left for the sender unless more is written. -/
def remaining (self : TCPSender) : Nat :=
  if self.finSent then 0 else (!self.synSent).toNat + self.input.buffer.length + 1

section Remaining

variable {s : TCPSender}

theorem remaining_of_open (h : s.finSent = false) :
    s.remaining = (!s.synSent).toNat + s.input.buffer.length + 1 := by
  rw [remaining, h, if_neg Bool.false_ne_true]

theorem emit_remaining (hFin : s.finSent = false) (win : Nat) :
    (s.emit win).remaining + (s.nextMsg win).sequenceLength ≤ s.remaining := by
  have hBuffer := congrArg List.length (s.buffer_eq_append win)
  rw [List.length_append] at hBuffer
  rw [remaining_of_open hFin, nextMsg_length]
  cases hNext : s.nextFin win with
  | false =>
    have hOpen : (s.emit win).finSent = false := by
      change (s.finSent || s.nextFin win) = false
      rw [hFin, hNext]
      rfl
    have hSyn : (s.emit win).synSent = true := rfl
    rw [remaining_of_open hOpen, hSyn, Bool.not_true, Bool.toNat_false]
    omega
  | true =>
    have hEnded : (s.emit win).finSent = true := by
      change (s.finSent || s.nextFin win) = true
      rw [hNext, Bool.or_true]
    rw [remaining, hEnded, if_pos rfl, Bool.toNat_true]
    omega

theorem push_remaining (s : TCPSender) : s.push.1.remaining + s.push.2.length ≤ s.remaining := by
  have hTotal : s.push.1.remaining + totalLength TCPSenderMessage.sequenceLength s.push.2 ≤
      s.remaining := by
    refine push_rule (P := fun t out =>
      t.remaining + totalLength TCPSenderMessage.sequenceLength out ≤ s.remaining) ?_ le_rfl
    intro t out hFin _ h
    have hEmit := emit_remaining hFin s.effectiveWindow
    rw [totalLength_append, totalLength_cons, totalLength_nil]
    omega
  have hLength := length_le_totalLength s.push_stamp.1
  omega

/-- The sender has not used any sequence number. -/
structure Rests (s t : TCPSender) : Prop where
  remaining : t.remaining ≤ s.remaining
  nextSeqno : t.nextSeqno = s.nextSeqno
  isn : t.isn = s.isn

theorem receive_rests (s : TCPSender) (msg : TCPReceiverMessage) : Rests s (s.receive msg) := by
  obtain ⟨-, hEq⟩ | ⟨-, -, hEq⟩ | ⟨-, -, hEq⟩ := s.receive_cases msg <;> rw [hEq]
  · exact ⟨le_rfl, rfl, rfl⟩
  · exact ⟨le_rfl, rfl, rfl⟩
  · exact ⟨le_rfl, rfl, rfl⟩

theorem push_rests (h : s.push.2 = []) : Rests s s.push.1 := by
  have hNext := s.push_stamp.2.2
  have hRemaining := s.push_remaining
  rw [h] at hNext hRemaining
  exact ⟨hRemaining, hNext, s.push_untouched.isn⟩

end Remaining

end TCPSender

/-- The message is empty and carries the sequence number that the sender would use next. -/
def TCPMessage.Current (s : TCPSender) (m : TCPMessage) : Prop :=
  m.sender.sequenceLength = 0 ∧ m.sender.seqno = Wrap32.wrap s.nextSeqno s.isn

instance (s : TCPSender) (m : TCPMessage) : Decidable (m.Current s) :=
  inferInstanceAs (Decidable (_ ∧ _))

theorem Wrap32.succ_ne_wrap {n k : Nat} (hLe : k ≤ n) (hShort : n < 2 ^ 31) (zeroPoint : Wrap32) :
    (wrap n zeroPoint).rawValue + 1 ≠ (wrap k zeroPoint).rawValue := by
  intro hEq
  have hNat := congrArg UInt32.toNat hEq
  rw [UInt32.toNat_add, wrap_rawValue, wrap_rawValue] at hNat
  have hOne : (1 : UInt32).toNat = 1 := rfl
  rw [hOne] at hNat
  omega

/-- A message that carries the current sequence number of its sender is not below the ackno. -/
theorem Linked.owes_nothing {s : TCPSender} {p : TCPPeer} {there back : List TCPMessage}
    (h : Linked s p.receiver there back) {m : TCPMessage} (hCurrent : m.Current s) :
    p.owesReply m = false := by
  obtain ⟨c, h⟩ := h
  obtain ⟨hEmpty, hSeqno⟩ := hCurrent
  have hReads := h.sound.reads
  have hLe := h.sound.absAckno_le
  have hLt := h.sound.next_lt
  rw [h.sender, TCPSender.still_nextSeqno] at hLe hLt
  rw [h.receiver] at hReads hLe
  have hSeqno := hSeqno
  rw [TCPPeer.owesReply, hEmpty, hReads.send_eq, hSeqno]
  dsimp only
  split
  · simpa using Wrap32.succ_ne_wrap hLe hLt s.isn
  · rfl

namespace TCPPeer

/-- Every message that is sent has cost a sequence number. -/
def Spends (s t : TCPSender) (out : List TCPMessage) : Prop :=
  out ≠ [] ∧ t.remaining + out.length ≤ s.remaining

variable {p : TCPPeer}

theorem push_turn (p : TCPPeer) :
    Spends p.sender p.push.1.sender p.push.2 ∨
      (p.sender.Rests p.push.1.sender ∧ p.push.2 = []) := by
  by_cases hNone : p.sender.push.2 = []
  · exact .inr ⟨TCPSender.push_rests hNone, List.map_eq_nil_iff.mpr hNone⟩
  · refine .inl ⟨fun hNil => hNone (List.map_eq_nil_iff.mp hNil), ?_⟩
    change p.sender.push.1.remaining + (p.sender.push.2.map _).length ≤ _
    rw [List.length_map]
    exact p.sender.push_remaining

theorem receive_turn (hNeed : p.needSend = false) (msg : TCPMessage) :
    Spends p.sender (p.receive msg).1.sender (p.receive msg).2 ∨
      (p.sender.Rests (p.receive msg).1.sender ∧ ((p.receive msg).2 = [] ∨
        p.owesReply msg = true ∧ ∃ m : TCPMessage, (p.receive msg).2 = [m] ∧
          m.Current p.sender)) := by
  cases hActive : p.active with
  | false =>
    rw [receive_of_inactive hActive]
    exact .inr ⟨⟨le_rfl, rfl, rfl⟩, .inl rfl⟩
  | true =>
    have hHear := p.sender.receive_rests msg.receiver
    have hOut := (receive_out hActive hNeed msg).2
    rw [(receive_view hActive msg).1, hOut]
    change Spends p.sender (p.sender.receive msg.receiver).push.1 _ ∨
      (p.sender.Rests (p.sender.receive msg.receiver).push.1 ∧ _)
    by_cases hNone : (p.sender.receive msg.receiver).push.2 = []
    · have hPush := TCPSender.push_rests hNone
      have hRests : p.sender.Rests (p.sender.receive msg.receiver).push.1 :=
        ⟨hPush.remaining.trans hHear.remaining, hPush.nextSeqno.trans hHear.nextSeqno,
          hPush.isn.trans hHear.isn⟩
      refine .inr ⟨hRests, ?_⟩
      rw [hNone, List.nil_append]
      cases hOwes : p.owesReply msg with
      | false => exact .inl (by simp [reply, hOwes])
      | true =>
        have hReply : p.reply msg = [(p.sender.receive msg.receiver).push.1.makeEmptyMessage] :=
          if_pos ⟨hNone, hOwes⟩
        rw [hReply]
        refine .inr ⟨rfl, _, rfl, rfl, ?_⟩
        rw [← hRests.nextSeqno, ← hRests.isn]
        rfl
    · have hReply : p.reply msg = [] := if_neg fun hBoth => hNone hBoth.1
      have hPush := (p.sender.receive msg.receiver).push_remaining
      rw [hReply, List.append_nil]
      refine .inl ⟨fun hNil => hNone (List.map_eq_nil_iff.mp hNil), ?_⟩
      rw [List.length_map]
      exact hPush.trans hHear.remaining

end TCPPeer

namespace Exchange

/-- The sequence numbers that are left for the two senders. -/
def backlog (self : Exchange) : Nat :=
  (self.peer .left).sender.remaining + (self.peer .right).sender.remaining

/-- The number of messages in the channel. -/
def load (self : Exchange) : Nat :=
  (self.inFlight .left).length + (self.inFlight .right).length

/-- How many messages can leave the channel before everything is quiet. -/
def bound (self : Exchange) : Nat :=
  self.backlog * (2 * (self.load + self.backlog) + 1) + 2 * self.load

def weight (s : TCPSender) (m : TCPMessage) : Nat := if m.Current s then 1 else 2

def weightTo (self : Exchange) (side : Side) : Nat :=
  totalLength (weight (self.peer side.other).sender) (self.inFlight side)

def potential (self : Exchange) (total : Nat) : Nat :=
  self.backlog * (2 * total + 1) + (self.weightTo .left + self.weightTo .right)

section Measure

variable {x : Exchange} {total : Nat}

theorem add_sides (f : Side → Nat) (side : Side) :
    f .left + f .right = f side + f side.other := by
  cases side with
  | left => rfl
  | right => exact Nat.add_comm _ _

theorem backlog_eq (x : Exchange) (side : Side) :
    x.backlog = (x.peer side).sender.remaining + (x.peer side.other).sender.remaining :=
  add_sides (fun d => (x.peer d).sender.remaining) side

theorem load_eq (x : Exchange) (side : Side) :
    x.load = (x.inFlight side).length + (x.inFlight side.other).length :=
  add_sides (fun d => (x.inFlight d).length) side

theorem weight_eq (x : Exchange) (side : Side) :
    x.weightTo .left + x.weightTo .right =
      totalLength (weight (x.peer side.other).sender) (x.inFlight side) +
        totalLength (weight (x.peer side).sender) (x.inFlight side.other) := by
  rw [add_sides x.weightTo side, weightTo, weightTo, Side.other_other]

theorem weight_pos (s : TCPSender) (m : TCPMessage) : 0 < weight s m := by
  unfold weight
  split <;> decide

theorem weight_le (s : TCPSender) (m : TCPMessage) : weight s m ≤ 2 := by
  unfold weight
  split <;> decide

theorem weight_le_load (x : Exchange) : x.weightTo .left + x.weightTo .right ≤ 2 * x.load := by
  rw [load, Nat.mul_add]
  exact Nat.add_le_add (totalLength_le fun m _ => weight_le _ m)
    (totalLength_le fun m _ => weight_le _ m)

theorem potential_le_bound (x : Exchange) : x.potential (x.load + x.backlog) ≤ x.bound :=
  Nat.add_le_add_left x.weight_le_load _

theorem load_act (x : Exchange) (side : Side) (a : TCPPeer.Action) :
    (x.act side a).load = x.load + ((x.peer side).transmitted a).length := by
  rw [load_eq _ side, load_eq x side, act_inFlight, act_inFlight_other, List.length_append,
    Nat.add_assoc]

/-- Sending uses up part of the backlog, and that outweighs whatever is in the channel. -/
theorem potential_spends {side : Side} {a : TCPPeer.Action} (hLoad : x.load + x.backlog ≤ total)
    (h : TCPPeer.Spends (x.peer side).sender ((x.peer side).step a).sender
      ((x.peer side).transmitted a)) :
    (x.act side a).load + (x.act side a).backlog ≤ total ∧
      (x.act side a).potential total < x.potential total := by
  obtain ⟨hSome, hSpent⟩ := h
  have hPos := List.length_pos_iff.mpr hSome
  have hWeight := (x.act side a).weight_le_load
  have hBacklog : (x.act side a).backlog + ((x.peer side).transmitted a).length ≤ x.backlog := by
    rw [backlog_eq _ side, backlog_eq x side, act_peer, act_peer_other]
    omega
  have hLess : ((x.act side a).backlog + 1) * (2 * total + 1) ≤ x.backlog * (2 * total + 1) :=
    Nat.mul_le_mul_right _ (by omega)
  rw [Nat.add_mul, Nat.one_mul] at hLess
  rw [load_act] at hWeight ⊢
  refine ⟨by omega, ?_⟩
  rw [potential, potential]
  omega

theorem potential_rests (total : Nat) {side : Side} {a : TCPPeer.Action}
    (h : (x.peer side).sender.Rests ((x.peer side).step a).sender) :
    (x.act side a).backlog ≤ x.backlog ∧
      (x.act side a).potential total ≤ x.potential total +
        totalLength (weight (x.peer side).sender) ((x.peer side).transmitted a) := by
  have hWeight : weight ((x.peer side).step a).sender = weight (x.peer side).sender := by
    funext m
    have hSame : m.Current ((x.peer side).step a).sender ↔ m.Current (x.peer side).sender := by
      rw [TCPMessage.Current, h.nextSeqno, h.isn]
      rfl
    exact if_congr hSame rfl rfl
  have hBacklog : (x.act side a).backlog ≤ x.backlog := by
    rw [backlog_eq _ side, backlog_eq x side, act_peer, act_peer_other]
    exact Nat.add_le_add_right h.remaining _
  refine ⟨hBacklog, ?_⟩
  have hMul := Nat.mul_le_mul_right (2 * total + 1) hBacklog
  rw [potential, potential, weight_eq _ side, weight_eq x side, act_peer, act_peer_other,
    act_inFlight, act_inFlight_other, hWeight, totalLength_append]
  omega

theorem potential_take (total : Nat) {side : Side} {i : Nat} {m : TCPMessage}
    (h : (x.inFlight side)[i]? = some m) :
    (x.take side i).backlog = x.backlog ∧ (x.take side i).load + 1 = x.load ∧
      (x.take side i).potential total + weight (x.peer side.other).sender m =
        x.potential total := by
  obtain ⟨hLt, -⟩ := List.getElem?_eq_some_iff.mp h
  have hErase : weight (x.peer side.other).sender m +
      totalLength (weight (x.peer side.other).sender) ((x.inFlight side).eraseIdx i) = _ :=
    totalLength_eraseIdx h
  refine ⟨rfl, ?_, ?_⟩
  · rw [load_eq _ side, load_eq x side, take_inFlight, take_inFlight_other, List.length_eraseIdx,
      if_pos hLt]
    omega
  · have hBacklog : (x.take side i).backlog = x.backlog := rfl
    rw [potential, potential, hBacklog, weight_eq _ side, weight_eq x side, take_inFlight,
      take_inFlight_other, take_peer]
    omega

end Measure

structure Within (total : Nat) (x : Exchange) : Prop where
  regular : Regular x
  short : Short x
  load_le : x.load + x.backlog ≤ total

section Steps

variable {x : Exchange} {total : Nat}

theorem Within.push (h : Within total x) (side : Side) :
    (x.act side .push).load + (x.act side .push).backlog ≤ total ∧
      (x.act side .push).potential total ≤ x.potential total := by
  have hLoad := h.load_le
  obtain hSpends | ⟨hRests, hNone⟩ := (x.peer side).push_turn
  · obtain ⟨hLoad', hLess⟩ := potential_spends (a := .push) hLoad hSpends
    exact ⟨hLoad', hLess.le⟩
  · obtain ⟨hBacklog, hPotential⟩ := potential_rests total (a := .push) hRests
    have hOut : (x.peer side).transmitted .push = [] := hNone
    rw [hOut, totalLength_nil, Nat.add_zero] at hPotential
    rw [load_act, hOut, List.length_nil]
    exact ⟨by omega, hPotential⟩

theorem Within.deliver (h : Within total x) {side : Side} {i : Nat} {msg : TCPMessage}
    (hGet : (x.inFlight side)[i]? = some msg) :
    ((x.take side i).act side (.receive msg)).load +
        ((x.take side i).act side (.receive msg)).backlog ≤ total ∧
      ((x.take side i).act side (.receive msg)).potential total < x.potential total := by
  obtain ⟨hBacklog, hLoad, hPotential⟩ := potential_take total hGet
  have hWithin := h.load_le
  obtain hSpends | ⟨hRests, hReply⟩ := TCPPeer.receive_turn (h.regular.needSend side) msg
  · have hTaken : (x.take side i).load + (x.take side i).backlog ≤ total := by omega
    obtain ⟨hLoad', hLess⟩ := potential_spends (a := .receive msg) hTaken hSpends
    exact ⟨hLoad', by omega⟩
  · obtain ⟨hBacklog', hPotential'⟩ :=
      potential_rests (x := x.take side i) total (a := .receive msg) hRests
    rw [take_peer] at hPotential'
    rw [load_act, take_peer]
    change _ + (TCPPeer.receive _ msg).2.length + _ ≤ _ ∧ _
    change _ ≤ _ + totalLength _ (TCPPeer.receive _ msg).2 at hPotential'
    obtain hNone | ⟨hOwes, reply, hOut, hCurrent⟩ := hReply
    · have hPos := weight_pos (x.peer side.other).sender msg
      rw [hNone, totalLength_nil] at hPotential'
      rw [hNone, List.length_nil]
      exact ⟨by omega, by omega⟩
    · -- the message that is answered weighs more than the answer
      have hHeavy : weight (x.peer side.other).sender msg = 2 := by
        apply if_neg
        intro hCurrent
        have hOwes' := (h.regular.linked_other side).owes_nothing hCurrent
        exact Bool.false_ne_true (hOwes'.symm.trans hOwes)
      have hLight : weight (x.peer side).sender reply = 1 := if_pos hCurrent
      rw [hOut, totalLength_cons, hLight, totalLength_nil] at hPotential'
      rw [hOut, List.length_singleton]
      exact ⟨by omega, by omega⟩

theorem Within.step (h : Within total x) {a : Step} (hQuiet : Quiet x a) :
    Within total (x.step a) ∧
      (x.step a).potential total + a.isDelivery.toNat ≤ x.potential total := by
  cases a with
  | write side data | close side | tick side ms | pop side len => exact hQuiet.elim
  | push side =>
    obtain ⟨hLoad, hPotential⟩ := h.push side
    have hShort : Short (x.step (.push side)) := h.short.act nofun
    exact ⟨⟨h.regular.step _ hShort, hShort, hLoad⟩, hPotential⟩
  | deliver side i =>
    have hGet := List.getElem?_eq_getElem (show i < (x.inFlight side).length from hQuiet)
    obtain ⟨hLoad, hPotential⟩ := h.deliver hGet
    have hShort : Short (x.step (.deliver side i)) := by
      rw [step_deliver hGet]
      exact Short.act (x := x.take side i) h.short nofun
    refine ⟨⟨h.regular.step _ hShort, hShort, ?_⟩, ?_⟩
    · rw [step_deliver hGet]
      exact hLoad
    · rw [step_deliver hGet]
      exact hPotential
  | drop side i =>
    have hGet := List.getElem?_eq_getElem (show i < (x.inFlight side).length from hQuiet)
    obtain ⟨hBacklog, hLoad, hPotential⟩ := potential_take total hGet
    have hPos := weight_pos (x.peer side.other).sender (x.inFlight side)[i]
    have hWithin := h.load_le
    have hShort : Short (x.step (.drop side i)) := h.short
    refine ⟨⟨h.regular.step _ hShort, hShort, ?_⟩, ?_⟩
    · change (x.take side i).load + (x.take side i).backlog ≤ total
      omega
    · change (x.take side i).potential total + 1 ≤ _
      omega

end Steps

/-- No acknowledgment storm: once there is nothing but pushes, deliveries and losses, only so
many messages can be delivered or lost, in whatever order. -/
theorem run_quiesces (cfg : Side → TCPConfig) (steps later : List Step)
    (hShort : Short (Run.run step (new cfg) steps))
    (hQuiet : Run.Along step Quiet (Run.run step (new cfg) steps) later) :
    later.countP Step.isDelivery ≤ (Run.run step (new cfg) steps).bound := by
  generalize hStart : Run.run step (new cfg) steps = x at *
  have hWithin : Within (x.load + x.backlog) x :=
    ⟨hStart ▸ regular_run cfg steps (hStart ▸ hShort), hShort, le_rfl⟩
  have hCount : later.countP Step.isDelivery ≤ x.potential (x.load + x.backlog) :=
    Run.countP_le (μ := fun y : Exchange => y.potential (x.load + x.backlog))
      (fun _ _ hOk h => h.step hOk) hQuiet hWithin
  exact hCount.trans x.potential_le_bound

/-- An acknowledgment that has become stale is answered, the answer is not. -/
theorem run_quiesces_stale :
    let x := Run.run step (new fun _ => {}) [.push .left, .deliver .right 0, .deliver .left 0,
      .write .left [1], .push .left, .write .right [3], .tick .left 1000]
    let later : List Step := [.deliver .right 1, .push .right, .deliver .right 0, .drop .right 0,
      .deliver .left 0, .deliver .left 0, .deliver .right 0]
    later.countP Step.isDelivery ≤ x.bound ∧
      (Run.run step x later).inFlight .left = [] ∧ (Run.run step x later).inFlight .right = [] := by
  intro x later
  have h := run_quiesces (fun _ => {}) [.push .left, .deliver .right 0, .deliver .left 0,
    .write .left [1], .push .left, .write .right [3], .tick .left 1000] later
    (forall_side .left (by decide +kernel) (by decide +kernel)) (by decide +kernel)
  exact ⟨h, by decide +kernel, by decide +kernel⟩

end Exchange

end Minnow
