import Minnow.ConnectionSafety
import Minnow.SenderTimer

/-! # A loss-free round

From any state reached, a round without loss advances the acknowledgment number
unless nothing is left: the oldest outstanding segment contains that number, so
its retransmission is what the receiver needs next.
-/

namespace Minnow

open Library

namespace TCPSender

def NothingLeft (s : TCPSender) : Prop :=
  s.outstanding = [] ∧ s.input.peek = [] ∧
    (s.input.isClosed = true → s.finSent = true ∧ s.receiverAckno = s.nextSeqno)

instance (s : TCPSender) : Decidable (NothingLeft s) :=
  inferInstanceAs (Decidable (_ ∧ _ ∧ (_ → _)))

section Push

variable {s : TCPSender}

theorem Consistent.push_eq_of_nil (h : Consistent s) (hPush : s.push.1.outstanding = []) :
    s.outstanding = [] ∧ s.push.1 = s := by
  have hOut := s.push_stamp.2.1
  rw [hPush, eq_comm, List.append_eq_nil_iff] at hOut
  refine ⟨hOut.1, ?_⟩
  obtain ⟨-, hSame⟩ | ⟨-, hRunning, -⟩ := push_starts h hOut.1
  · exact hSame
  · exact absurd hPush (h.push.timer.mp hRunning)

theorem Consistent.nothingLeft_of_push (h : Consistent s) {accepted : List Byte}
    (hStreams : Streams accepted s) (hPush : s.push.1.outstanding = []) : NothingLeft s := by
  obtain ⟨hOut, hSame⟩ := h.push_eq_of_nil hPush
  have hAckno := h.empty hOut
  cases hFin : s.finSent with
  | true => exact ⟨hOut, (hStreams.fin hFin).2, fun _ => ⟨hFin, hAckno⟩⟩
  | false =>
    have hStop := push_stops hFin
    rw [hSame] at hStop
    have hRoom : s.bytesInFlight < s.effectiveWindow := by
      rw [h.bytesInFlight_eq_zero.mpr hOut, effectiveWindow]
      omega
    have hEmpty : (s.nextMsg s.effectiveWindow).sequenceLength = 0 :=
      Nat.eq_zero_of_not_pos fun hPos => hStop ⟨hRoom, hPos⟩
    obtain ⟨-, hBuffer, hClosed⟩ := exhausted_of_empty hRoom hEmpty
    refine ⟨hOut, hBuffer, ?_⟩
    intro hIsClosed
    exact absurd (hFin.symm.trans (hClosed hIsClosed)) Bool.false_ne_true

theorem Consistent.tick_rto (h : Consistent s) (hTimer : s.timerElapsedMs + s.rto < 2 ^ 64)
    {o : Outstanding} {rest : List Outstanding} (hOut : s.push.1.outstanding = o :: rest) :
    s.push.1.tick s.push.1.rto =
      (s.push.1.expired o rest, [(s.push.1.marked o).msg]) := by
  have hRto : s.push.1.rto = s.rto := s.push_untouched.rto
  have hElapsed : s.push.1.timerElapsedMs ≤ s.timerElapsedMs := by
    by_cases hNil : s.outstanding = []
    · obtain ⟨-, hSame⟩ | ⟨-, -, hZero⟩ := push_starts h hNil
      · rw [hSame]
      · rw [hZero]
        exact Nat.zero_le _
    · exact (push_samePending h hNil).elapsed.le
  have hDue : s.push.1.rto ≤ u64 (s.push.1.timerElapsedMs + s.push.1.rto) := by
    rw [u64_eq (by omega)]
    exact Nat.le_add_left _ _
  rw [h.push.tick_cons hOut, if_pos hDue]

end Push

end TCPSender

theorem TCPReceiver.receive_capacity (r : TCPReceiver) (m : TCPSenderMessage) :
    (r.receive m).reassembler.output.capacity = r.reassembler.output.capacity := by
  rw [receive]
  split
  · rfl
  · cases r.isnAfter m with
    | none => rfl
    | some isn => exact (Reassembler.insert_sameOutput _ _ _ _).capacity

namespace Connection

/-- The reader pops everything buffered; then push, and a tick by the current timeout. -/
def transmit (self : Connection) : Connection :=
  let popped := self.step (.pop self.receiver.reassembler.output.bytesBuffered)
  let pushed := popped.step .push
  pushed.step (.tick pushed.sender.rto)

/-- The segments at these positions arrive, then the receiver's answer reaches the sender. -/
def exchange (self : Connection) (order : List Nat) : Connection :=
  let heard := Run.run step self (order.map Step.deliverSegment)
  (heard.step .acknowledge).step (.deliverAck heard.acks.length)

def round (self : Connection) (order : List Nat) : Connection := self.transmit.exchange order

/-- Every segment transmitted in the round is delivered, in any order. -/
def LossFree (self : Connection) (order : List Nat) : Prop :=
  ∀ i < self.transmit.segments.length, self.segments.length ≤ i → i ∈ order

instance (self : Connection) (order : List Nat) : Decidable (LossFree self order) :=
  inferInstanceAs (Decidable (∀ i < _, _ → _))

theorem capacity_step (c : Connection) (a : Step) :
    (c.step a).receiver.reassembler.output.capacity = c.receiver.reassembler.output.capacity := by
  cases a with
  | deliverSegment i =>
    rw [step]
    cases c.segments[i]? with
    | none => rfl
    | some m => exact c.receiver.receive_capacity m
  | deliverAck i =>
    rw [step]
    cases c.acks[i]? <;> rfl
  | write data | close | push | tick ms | pop len | acknowledge => rfl

structure Follows (c d : Connection) : Prop where
  sender : d.sender = c.sender
  segments : d.segments = c.segments
  absAckno_le : c.receiver.absAckno ≤ d.receiver.absAckno
  output : Reassembler.SameOutput c.receiver.reassembler.output d.receiver.reassembler.output

instance : Std.Refl Follows := ⟨fun _ => ⟨rfl, rfl, le_rfl, rfl, rfl, rfl⟩⟩

instance : IsTrans Connection Follows :=
  ⟨fun _ _ _ h h' => ⟨h'.sender.trans h.sender, h'.segments.trans h.segments,
    h.absAckno_le.trans h'.absAckno_le, h.output.trans h'.output⟩⟩

section Round

variable {isn : Wrap32} {c d : Connection}

theorem Sound.deliver_follows (h : Sound isn c) (i : Nat) :
    Sound isn (c.step (.deliverSegment i)) ∧ Follows c (c.step (.deliverSegment i)) := by
  rw [Connection.step]
  cases hGet : c.segments[i]? with
  | none => exact ⟨h, Std.Refl.refl c⟩
  | some m =>
    have hMem := List.mem_of_getElem? hGet
    obtain ⟨hRst, start, hGenuine, -⟩ := h.segments m hMem
    obtain ⟨hSound, hForward⟩ := h.deliverSegment hMem
    exact ⟨hSound, rfl, rfl, hForward, (h.reads.receive hGenuine hRst h.sent_short).2.2.2.2⟩

theorem Sound.deliver_all (h : Sound isn c) (order : List Nat) :
    Sound isn (Run.run Connection.step c (order.map Step.deliverSegment)) ∧
      Follows c (Run.run Connection.step c (order.map Step.deliverSegment)) := by
  have hAlong : Run.Along Connection.step (fun _ a => ∃ i, a = Step.deliverSegment i) c
      (order.map Step.deliverSegment) := by
    apply Run.along_of_forall
    intro a hMem _
    obtain ⟨i, -, rfl⟩ := List.mem_map.mp hMem
    exact ⟨i, rfl⟩
  have hStep : ∀ c a, (∃ i, a = Step.deliverSegment i) → Sound isn c →
      Sound isn (c.step a) ∧ Follows c (c.step a) := by
    rintro c a ⟨i, rfl⟩ hc
    exact hc.deliver_follows i
  exact ⟨Run.invariant (fun c a ha hc => (hStep c a ha hc).1) hAlong h,
    Run.related hStep hAlong h⟩

theorem Sound.open_of_lt (h : Sound isn c) (hIsn : c.receiver.isn = some isn)
    (hLt : c.receiver.absAckno < c.sender.nextSeqno) :
    c.receiver.reassembler.output.closed = false := by
  by_contra hClosed
  have hClosed := Bool.eq_true_of_not_eq_false hClosed
  obtain ⟨hSeen, hNext⟩ := h.reads.assembles.closed_iff.mp hClosed
  have hFin := (h.reads.assembles.last hSeen).1
  rw [TCPReceiver.absAckno, hIsn, Option.isSome_some, if_pos rfl, TCPReceiver.ackAbs_eq, hClosed,
    ← h.reads.assembles.wellFormed.next_eq, hNext, sent, h.streams.sentBytes_length,
    h.streams.next, h.heard hIsn, hFin, Bool.toNat_true] at hLt
  omega

theorem Sound.deliver_oldest (h : Sound isn c) {o : Outstanding}
    (hHead : o ∈ c.sender.outstanding.head?)
    (hRoom : c.receiver.isn = some isn → c.receiver.absAckno = c.sender.receiverAckno →
      c.receiver.reassembler.nextIndex < c.receiver.reassembler.streamLimit) :
    c.sender.receiverAckno < (c.receiver.receive o.msg).absAckno := by
  have hMem := List.mem_of_mem_head? hHead
  have hRst := h.clean.unmarked o hMem
  obtain ⟨hGenuine, hLen⟩ := h.streams.filed o hMem
  rw [h.isn_eq] at hGenuine
  obtain ⟨hReads, hForward, -⟩ := h.reads.receive hGenuine hRst h.sent_short
  obtain hAhead | hSame := h.ackno_le.lt_or_eq
  · exact hAhead.trans_le hForward
  · obtain ⟨lo, hLo, hTiles⟩ := h.consistent.tiles
    have hStart : o.seqStart ≤ c.sender.receiverAckno := (hTiles.start_head hHead).trans_le hLo
    have hEnd := h.consistent.head o hHead
    obtain hNone | hSome := h.reads.isn_eq
    · have hZero : c.receiver.absAckno = 0 := by
        rw [TCPReceiver.absAckno, hNone]
        rfl
      have hSyn : o.msg.syn = true := by
        rw [hGenuine.syn, decide_eq_true_iff]
        omega
      rw [hSame, hZero, h.reads.receive_eq hGenuine hRst h.sent_short, hSyn, Bool.or_true,
        if_pos rfl, TCPReceiver.absAckno, Option.isSome_some, if_pos rfl, TCPReceiver.ackAbs_eq]
      omega
    · have hUsed : c.receiver.absAckno < c.sender.nextSeqno := by
        have hBound := (hTiles.bounds hMem).2
        omega
      rw [hSame] at hStart hEnd ⊢
      rw [hLen] at hEnd
      exact h.reads.receive_progress hGenuine hRst h.sent_short hSome (h.open_of_lt hSome hUsed)
        (hRoom hSome hSame.symm) hStart hEnd

theorem Sound.room (h : Sound isn c) (hd : Sound isn d) (hFollows : Follows c d)
    (hEmpty : c.receiver.reassembler.output.buffer = [])
    (hCapacity : 0 < c.receiver.reassembler.output.capacity)
    (hRange : c.receiver.reassembler.output.totalPopped +
      c.receiver.reassembler.output.capacity < 2 ^ 64)
    (hUsed : d.sender.receiverAckno < d.sender.nextSeqno)
    (hIsn : d.receiver.isn = some isn) (hSame : d.receiver.absAckno = d.sender.receiverAckno) :
    d.receiver.reassembler.nextIndex < d.receiver.reassembler.streamLimit := by
  have hAckno := h.ackno_le
  have hForward := hFollows.absAckno_le
  rw [← hFollows.sender] at hAckno
  have hOpen := hd.open_of_lt hIsn (hSame.trans_lt hUsed)
  have hPushed := TCPReceiver.absAckno_of_open hIsn hOpen
  have hIsn' : c.receiver.isn = some isn := by
    apply h.reads.isn_eq.resolve_left
    intro hNone
    rw [TCPReceiver.absAckno, hNone, Option.isSome_none, if_neg Bool.false_ne_true] at hAckno
    omega
  have hOpen' := h.open_of_lt hIsn' (by rw [← hFollows.sender]; omega)
  have hPushed' := TCPReceiver.absAckno_of_open hIsn' hOpen'
  have hBuffer := c.receiver.reassembler.output.pushed_eq
  rw [hEmpty, List.length_nil] at hBuffer
  have hNext := hd.reads.assembles.wellFormed.next_eq
  have hLimit : d.receiver.reassembler.streamLimit = d.receiver.reassembler.output.totalPopped +
      d.receiver.reassembler.output.capacity := by
    apply Reassembler.streamLimit_eq hNext
    rw [hFollows.output.popped, hFollows.output.capacity]
    exact hRange
  rw [hLimit, hNext, hFollows.output.popped, hFollows.output.capacity]
  omega

theorem Sound.transmit (h : Sound isn c) :
    Sound isn c.transmit ∧ c.transmit.sender.receiverAckno = c.sender.receiverAckno ∧
      c.transmit.receiver = c.receiver.pop c.receiver.reassembler.output.bytesBuffered := by
  have hPopped := h.step (a := .pop c.receiver.reassembler.output.bytesBuffered) trivial
  have hPushed := hPopped.step (a := .push) trivial
  refine ⟨hPushed.step (a := .tick _) trivial, ?_, rfl⟩
  exact (hPushed.consistent.tick_view _).1.trans c.sender.push_untouched.receiverAckno

theorem Sound.acknowledged (h : Sound isn c)
    (hAhead : c.sender.receiverAckno < c.receiver.absAckno) :
    (c.sender.receive c.receiver.send).receiverAckno = c.receiver.absAckno := by
  have hSend := h.reads.send_eq
  have hIsn : c.receiver.isn.isSome = true := by
    cases hIsn : c.receiver.isn.isSome with
    | true => rfl
    | false =>
      rw [TCPReceiver.absAckno, hIsn] at hAhead
      exact absurd hAhead (Nat.not_lt_zero _)
  have hAckno : c.receiver.send.ackno = some (Wrap32.wrap c.receiver.absAckno isn) := by
    rw [hSend, hIsn, if_pos rfl]
  have hAbs := h.absAckno_of_le le_rfl hAckno
  have hAdvances : c.sender.Advances (c.sender.absAckno c.receiver.send) := by
    rw [hAbs]
    exact ⟨h.absAckno_le, hAhead⟩
  obtain ⟨hRst, -⟩ | ⟨-, hNot, -⟩ | ⟨-, -, hEq⟩ := c.sender.receive_cases c.receiver.send
  · rw [hSend] at hRst
    cases hRst
  · exact absurd hAdvances hNot
  · rw [hEq]
    exact hAbs

/-- Once the oldest segment is among those that arrive, the answer advances the sender. -/
theorem Sound.exchange_progress (h : Sound isn c) {o : Outstanding} {k : Nat} {order : List Nat}
    (hHead : o ∈ c.sender.outstanding.head?) (hGet : c.segments[k]? = some o.msg)
    (hOrder : k ∈ order) (hEmpty : c.receiver.reassembler.output.buffer = [])
    (hCapacity : 0 < c.receiver.reassembler.output.capacity)
    (hRange : c.receiver.reassembler.output.totalPopped +
      c.receiver.reassembler.output.capacity < 2 ^ 64) :
    c.sender.receiverAckno < (c.exchange order).sender.receiverAckno := by
  obtain ⟨before, after, rfl⟩ := List.append_of_mem hOrder
  obtain ⟨hSound, hFollows⟩ := h.deliver_all before
  have hUsed : c.sender.receiverAckno < c.sender.nextSeqno := by
    obtain ⟨lo, -, hTiles⟩ := h.consistent.tiles
    exact (h.consistent.head o hHead).trans_le (hTiles.bounds (List.mem_of_mem_head? hHead)).2
  set d := Run.run Connection.step c (before.map Step.deliverSegment) with hd
  have hArrive : d.step (.deliverSegment k) = { d with receiver := d.receiver.receive o.msg } := by
    apply step_deliverSegment
    rw [hFollows.segments, hGet]
  have hMoved : c.sender.receiverAckno < (d.step (.deliverSegment k)).receiver.absAckno := by
    rw [hArrive, ← hFollows.sender]
    rw [← hFollows.sender] at hHead hUsed
    exact hSound.deliver_oldest hHead (h.room hSound hFollows hEmpty hCapacity hRange hUsed)
  obtain ⟨hSound', hFollows'⟩ := hSound.deliver_follows k
  obtain ⟨hHeard, hRest⟩ := hSound'.deliver_all after
  have hSender := hRest.sender.trans (hFollows'.sender.trans hFollows.sender)
  have hAhead := hMoved.trans_le hRest.absAckno_le
  rw [exchange, List.map_append, List.map_cons, Run.run_append, Run.run_cons, ← hd]
  set e := Run.run Connection.step (d.step (.deliverSegment k)) (after.map Step.deliverSegment)
  have hLast : (e.step .acknowledge).acks[e.acks.length]? = some e.receiver.send :=
    List.getElem?_concat_length
  have hAnswer : ((e.step .acknowledge).step (.deliverAck e.acks.length)).sender =
      e.sender.receive e.receiver.send := by
    rw [step_deliverAck hLast]
    rfl
  rw [← hSender] at hAhead ⊢
  rw [hAnswer, hHeard.acknowledged hAhead]
  exact hAhead

theorem Sound.transmit_oldest (h : Sound isn c)
    (hTimer : c.sender.timerElapsedMs + c.sender.rto < 2 ^ 64) {o : Outstanding}
    {rest : List Outstanding} (hOut : c.sender.push.1.outstanding = o :: rest) :
    c.transmit.sender.outstanding = o :: rest ∧
      c.transmit.segments = (c.segments ++ c.sender.push.2) ++ [o.msg] := by
  have hTick := h.consistent.tick_rto hTimer hOut
  have hClean : c.sender.push.1.Clean := h.clean.call (c := .push) h.consistent trivial
  rw [hClean.marked_eq o, TCPSender.expired, hClean.marked_eq o] at hTick
  have hSender : c.transmit.sender = (c.sender.push.1.tick c.sender.push.1.rto).1 := rfl
  have hSegments : c.transmit.segments =
    (c.segments ++ c.sender.push.2) ++ (c.sender.push.1.tick c.sender.push.1.rto).2 := rfl
  rw [hSender, hSegments, hTick]
  exact ⟨rfl, rfl⟩

theorem Sound.round_progress (h : Sound isn c) {order : List Nat} (hOrder : c.LossFree order)
    (hTimer : c.sender.timerElapsedMs + c.sender.rto < 2 ^ 64)
    (hCapacity : 0 < c.receiver.reassembler.output.capacity)
    (hRange : c.receiver.reassembler.output.totalPushed +
      c.receiver.reassembler.output.capacity < 2 ^ 64) :
    c.sender.receiverAckno < (c.round order).sender.receiverAckno ∨ c.sender.NothingLeft := by
  cases hOut : c.sender.push.1.outstanding with
  | nil => exact .inr (h.consistent.nothingLeft_of_push h.streams hOut)
  | cons o rest =>
    obtain ⟨hSound, hAckno, hReceiver⟩ := h.transmit
    obtain ⟨hOldest, hSegments⟩ := h.transmit_oldest hTimer hOut
    have hLength : c.transmit.segments.length = c.segments.length + c.sender.push.2.length + 1 := by
      rw [hSegments, List.length_append, List.length_append, List.length_singleton]
    have hGet : c.transmit.segments[c.segments.length + c.sender.push.2.length]? = some o.msg := by
      rw [hSegments, ← List.length_append]
      exact List.getElem?_concat_length
    have hEmpty : c.transmit.receiver.reassembler.output.buffer = [] := by
      rw [hReceiver]
      change (c.receiver.reassembler.output.pop _).buffer = []
      rw [ByteStream.pop_buffer, ByteStream.bytesBuffered, List.drop_length]
    have hPopped : c.transmit.receiver.reassembler.output.totalPopped =
        c.receiver.reassembler.output.totalPushed := by
      have hPushed := c.transmit.receiver.reassembler.output.pushed_eq
      rw [hEmpty, List.length_nil, Nat.add_zero] at hPushed
      rw [← hPushed, hReceiver]
      rfl
    have hSame : c.transmit.receiver.reassembler.output.capacity =
        c.receiver.reassembler.output.capacity := by
      rw [hReceiver]
      rfl
    have hHead : o ∈ c.transmit.sender.outstanding.head? := by
      rw [hOldest]
      rfl
    have hArrives := hOrder (c.segments.length + c.sender.push.2.length) (by omega)
      (Nat.le_add_right _ _)
    left
    rw [round, ← hAckno]
    apply hSound.exchange_progress hHead hGet hArrives hEmpty
    · rw [hSame]
      exact hCapacity
    · rw [hPopped, hSame]
      exact hRange

end Round

/-- From every state reached, a loss-free round advances the sender's acknowledgment number or
there was nothing left to deliver, as long as the timer and the window do not wrap. -/
theorem run_progress (sendCapacity receiveCapacity : Nat) (isn : Wrap32) (initialRTOms : Nat)
    (steps : List Step) (order : List Nat) (hCapacity : 1 ≤ receiveCapacity)
    (hOk : Run.Along step Allowed (new sendCapacity receiveCapacity isn initialRTOms) steps) :
    let c := Run.run step (new sendCapacity receiveCapacity isn initialRTOms) steps
    c.sender.timerElapsedMs + c.sender.rto < 2 ^ 64 →
      c.receiver.reassembler.output.bytesPushed + receiveCapacity < 2 ^ 64 → c.LossFree order →
      c.sender.receiverAckno < (c.round order).sender.receiverAckno ∨ c.sender.NothingLeft := by
  intro c hTimer hRange hOrder
  have h : Sound isn c := sound_run sendCapacity receiveCapacity isn initialRTOms hOk
  have hSame : c.receiver.reassembler.output.capacity = receiveCapacity :=
    Run.invariant_of_step (P := fun c => c.receiver.reassembler.output.capacity = receiveCapacity)
      (fun c a hc => (capacity_step c a).trans hc) rfl steps
  apply h.round_progress hOrder hTimer
  · rw [hSame]
    exact hCapacity
  · rw [hSame]
    exact hRange

theorem run_progress_lost :
    let c := Run.run step (new 10 1 ⟨4294967295⟩ 100)
      [.push, .deliverSegment 0, .acknowledge, .deliverAck 0, .write [1, 2], .push, .tick 30,
        .deliverSegment 1, .acknowledge, .deliverAck 1]
    c.sender.receiverAckno < (c.round [3, 2]).sender.receiverAckno ∨ c.sender.NothingLeft :=
  run_progress 10 1 ⟨4294967295⟩ 100
    [.push, .deliverSegment 0, .acknowledge, .deliverAck 0, .write [1, 2], .push, .tick 30,
      .deliverSegment 1, .acknowledge, .deliverAck 1] [3, 2] (by decide) (by decide +kernel)
    (by decide +kernel) (by decide +kernel) (by decide +kernel)

/-- A round without progress, though something is left, where the timer wraps, and one where the
window of the receiver wraps. -/
theorem not_progress_of_wrap :
    let start := new 10 10 ⟨0⟩ (2 ^ 64 - 1)
    let c := Run.run step start [.push, .tick 1]
    let start' := new 10 (2 ^ 64 - 1) ⟨0⟩ 100
    let steps : List Step := [.push, .deliverSegment 0, .acknowledge, .deliverAck 0, .write [1],
      .push, .deliverSegment 1, .pop 1, .acknowledge, .deliverAck 1, .write [2]]
    let d := Run.run step start' steps
    (Run.Along step Allowed start [.push, .tick 1] ∧ c.LossFree [] ∧
        ¬ (c.sender.receiverAckno < (c.round []).sender.receiverAckno ∨ c.sender.NothingLeft)) ∧
      (Run.Along step Allowed start' steps ∧ d.LossFree [2, 3] ∧
        ¬ (d.sender.receiverAckno < (d.round [2, 3]).sender.receiverAckno ∨
          d.sender.NothingLeft)) := by
  decide +kernel

end Connection

end Minnow
