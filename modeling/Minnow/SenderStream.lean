import Minnow.SenderInvariant

/-! # The stream behind the segments

`Streams accepted s` ties the counters of the sender to the bytes its writer
accepted: the next sequence number counts SYN, FIN and the bytes taken out of
the buffer, and every outstanding segment is a genuine one of these bytes.
-/

namespace Minnow.TCPSender

open Library

/-- The accepted bytes that have been put into segments. -/
def sentBytes (accepted : List Byte) (s : TCPSender) : List Byte :=
  accepted.take s.input.totalPopped

def NoWriteAfterClose (s : TCPSender) : Call → Prop
  | .write _ => s.input.isClosed = false
  | _ => True

instance (s : TCPSender) (c : Call) : Decidable (NoWriteAfterClose s c) :=
  match c with
  | .write _ => inferInstanceAs (Decidable (_ = _))
  | .push | .tick _ | .close | .setError | .receive _ => instDecidableTrue

def accept (accepted : List Byte) (s : TCPSender) : Call → List Byte
  | .write data => accepted ++ data.take s.input.availableCapacity
  | _ => accepted

structure Filed (isn : Wrap32) (S : List Byte) (ended : Bool) (o : Outstanding) : Prop where
  genuine : Genuine isn S ended o.seqStart o.msg
  len : o.len = o.msg.sequenceLength

theorem Filed.extend {isn : Wrap32} {S S' : List Byte} {ended ended' : Bool} {o : Outstanding}
    (h : Filed isn S ended o) (hExtends : Extends S ended S' ended') : Filed isn S' ended' o :=
  ⟨h.genuine.extend hExtends, h.len⟩

structure Streams (accepted : List Byte) (s : TCPSender) : Prop where
  pushed : s.input.totalPushed = accepted.length
  buffer : s.input.buffer = accepted.drop s.input.totalPopped
  next : s.nextSeqno = s.synSent.toNat + s.input.totalPopped + s.finSent.toNat
  syn : s.synSent = false → s.input.totalPopped = 0 ∧ s.finSent = false
  fin : s.finSent = true → s.input.closed = true ∧ s.input.buffer = []
  filed : ∀ o ∈ s.outstanding, Filed s.isn (s.sentBytes accepted) s.finSent o

theorem streams_new (capacity : Nat) (isn : Wrap32) (initialRTOms : Nat) :
    Streams [] (new (ByteStream.new capacity) isn initialRTOms) where
  pushed := rfl
  buffer := rfl
  next := rfl
  syn _ := ⟨rfl, rfl⟩
  fin hFin := by cases hFin
  filed o hMem := by cases hMem

section Steps

variable {accepted : List Byte} {s : TCPSender}

theorem Streams.popped_le (h : Streams accepted s) : s.input.totalPopped ≤ accepted.length := by
  rw [← h.pushed, s.input.pushed_eq]
  exact Nat.le_add_right _ _

theorem Streams.sentBytes_length (h : Streams accepted s) :
    (s.sentBytes accepted).length = s.input.totalPopped := by
  rw [sentBytes, List.length_take, min_eq_left h.popped_le]

theorem Streams.synSent_iff (h : Streams accepted s) : s.synSent = true ↔ 0 < s.nextSeqno := by
  have hNext := h.next
  cases hSyn : s.synSent with
  | false =>
    rw [hSyn, (h.syn hSyn).1, (h.syn hSyn).2] at hNext
    simp [hNext]
  | true =>
    rw [hSyn, Bool.toNat_true] at hNext
    exact iff_of_true rfl (by omega)

theorem Streams.sentBytes_of_fin (h : Streams accepted s) (hFin : s.finSent = true) :
    s.sentBytes accepted = accepted := by
  have hNil := h.buffer.symm.trans (h.fin hFin).2
  rw [List.drop_eq_nil_iff] at hNil
  exact List.take_of_length_le hNil

theorem Streams.next_le (h : Streams accepted s) : s.nextSeqno ≤ accepted.length + 2 := by
  have hSyn := Bool.toNat_le s.synSent
  have hFin := Bool.toNat_le s.finSent
  have hPopped := h.popped_le
  have hNext := h.next
  omega

/-- A writer that is not closed belongs to a sender that has not sent its FIN. -/
theorem Streams.unfinished (h : Streams accepted s) {c : Call} (hOk : NoWriteAfterClose s c)
    (data : List Byte) (hWrite : c = .write data) : s.finSent = false := by
  subst hWrite
  have hOpen : s.input.closed = false := hOk
  by_contra hFin
  have hClosed := (h.fin (Bool.eq_true_of_not_eq_false hFin)).1
  exact Bool.false_ne_true (hOpen.symm.trans hClosed)

theorem Streams.write (h : Streams accepted s) (hUnfinished : s.finSent = false)
    (data : List Byte) :
    Streams (accepted ++ data.take s.input.availableCapacity)
      { s with input := s.input.push data } := by
  have hPopped := h.popped_le
  have hTake : sentBytes (accepted ++ data.take s.input.availableCapacity)
      { s with input := s.input.push data } = s.sentBytes accepted :=
    List.take_append_of_le_length hPopped
  refine { h with pushed := ?_, buffer := ?_, fin := ?_, filed := ?_ }
  · change s.input.totalPushed + min s.input.availableCapacity data.length = _
    rw [h.pushed, List.length_append, List.length_take]
  · change (s.input.push data).buffer = _
    rw [ByteStream.push_buffer, h.buffer]
    exact (List.drop_append_of_le_length hPopped).symm
  · intro hFin
    exact absurd (hUnfinished.symm.trans hFin) Bool.false_ne_true
  · rw [hTake]
    exact h.filed

theorem Streams.popped_eq (h : Streams accepted s) (hFin : s.finSent = false) :
    s.nextSeqno - 1 = s.input.totalPopped := by
  have hNext := h.next
  rw [hFin, Bool.toNat_false, Nat.add_zero] at hNext
  cases hSyn : s.synSent with
  | false =>
    rw [hSyn, (h.syn hSyn).1] at hNext
    rw [hNext, (h.syn hSyn).1]
    rfl
  | true =>
    rw [hSyn, Bool.toNat_true] at hNext
    omega

theorem emit_totalPopped (s : TCPSender) (win : Nat) :
    (s.emit win).input.totalPopped = s.input.totalPopped + (s.nextPayload win).length := by
  change s.input.totalPopped + min (s.nextPayload win).length s.input.buffer.length = _
  rw [min_eq_left (s.nextPayload_isPrefix win).length_le]

theorem Streams.sentBytes_emit (h : Streams accepted s) (win : Nat) :
    (s.emit win).sentBytes accepted = s.sentBytes accepted ++ s.nextPayload win := by
  rw [sentBytes, emit_totalPopped, List.take_add, ← h.buffer, s.buffer_eq_append win,
    List.take_left]
  rfl

theorem Streams.emit_extends (h : Streams accepted s) (win : Nat) (hFin : s.finSent = false) :
    Extends (s.sentBytes accepted) s.finSent ((s.emit win).sentBytes accepted)
      (s.emit win).finSent := by
  rw [h.sentBytes_emit win]
  constructor
  · exact List.prefix_append _ _
  · intro hEnded
    rw [hFin] at hEnded
    cases hEnded

theorem Streams.filed_next (h : Streams accepted s) (win : Nat) (hFin : s.finSent = false) :
    Filed s.isn ((s.emit win).sentBytes accepted) (s.emit win).finSent
      ⟨s.nextMsg win, s.nextSeqno, (s.nextMsg win).sequenceLength⟩ := by
  have hIndex := h.popped_eq hFin
  have hSent := h.sentBytes_emit win
  have hEnd : s.nextSeqno - 1 + (s.nextPayload win).length =
      ((s.emit win).sentBytes accepted).length := by
    rw [hSent, List.length_append, h.sentBytes_length, hIndex]
  refine ⟨{ seqno := rfl, syn := ?_, payload := ?_, bound := hEnd.le, fin := ?_ }, rfl⟩
  · change (!s.synSent) = decide (s.nextSeqno = 0)
    have hNext := h.next
    cases hSyn : s.synSent with
    | false => simp [hNext, hSyn, hFin, (h.syn hSyn).1]
    | true => simp [hNext, hSyn]
  · change s.nextPayload win <+: ((s.emit win).sentBytes accepted).drop (s.nextSeqno - 1)
    rw [hSent, hIndex, ← h.sentBytes_length, List.drop_left]
  · intro hLast
    constructor
    · change (s.finSent || s.nextFin win) = true
      rw [hFin]
      exact hLast
    · exact hEnd

theorem Streams.emit (h : Streams accepted s) (win : Nat) (hFin : s.finSent = false) :
    Streams accepted (s.emit win) := by
  have hPopped := s.emit_totalPopped win
  refine { pushed := h.pushed, buffer := ?_, next := ?_, syn := ?_, fin := ?_, filed := ?_ }
  · rw [hPopped, ← List.drop_drop, ← h.buffer, s.buffer_eq_append win, List.drop_left]
  · have hNext := h.next
    rw [hFin, Bool.toNat_false, Nat.add_zero] at hNext
    change s.nextSeqno + ((!s.synSent).toNat + (s.nextPayload win).length +
      (s.nextFin win).toNat) = Bool.toNat true + (s.emit win).input.totalPopped +
      (s.finSent || s.nextFin win).toNat
    rw [hFin, Bool.false_or, hPopped, hNext]
    cases s.synSent <;> simp only [Bool.not_false, Bool.not_true, Bool.toNat_true,
      Bool.toNat_false] <;> omega
  · intro hSyn
    cases hSyn
  · intro hAfter
    change (s.finSent || s.nextFin win) = true at hAfter
    rw [hFin, Bool.false_or] at hAfter
    exact (closed_of_nextFin hAfter).2
  · intro o hMem
    obtain hMem | hMem := List.mem_append.mp hMem
    · exact (h.filed o hMem).extend (h.emit_extends win hFin)
    · rw [List.mem_singleton.mp hMem]
      exact h.filed_next win hFin

theorem Streams.push (h : Streams accepted s) :
    Streams accepted s.push.1 ∧
      Extends (s.sentBytes accepted) s.finSent (s.push.1.sentBytes accepted) s.push.1.finSent ∧
      s.push.1.sentBytes accepted = s.sentBytes accepted ++ s.push.2.flatMap (·.payload) := by
  refine push_rule (P := fun t out => Streams accepted t ∧
    Extends (s.sentBytes accepted) s.finSent (t.sentBytes accepted) t.finSent ∧
    t.sentBytes accepted = s.sentBytes accepted ++ out.flatMap (·.payload))
    (fun t out hFin _ ⟨ht, hExtends, hSent⟩ => ?_) ⟨h, Extends.refl _ _, by simp⟩
  have hMore := ht.sentBytes_emit s.effectiveWindow
  have hLonger := ht.emit_extends s.effectiveWindow hFin
  refine ⟨ht.emit s.effectiveWindow hFin, hExtends.trans hLonger, ?_⟩
  rw [hMore, hSent, List.flatMap_append, List.flatMap_singleton, List.append_assoc]
  rfl

theorem Streams.of_filed {t : TCPSender} (h : Streams accepted s) (hInput : t.input = s.input)
    (hIsn : t.isn = s.isn) (hNext : t.nextSeqno = s.nextSeqno) (hSyn : t.synSent = s.synSent)
    (hFin : t.finSent = s.finSent)
    (hFiled : ∀ o ∈ t.outstanding, Filed s.isn (s.sentBytes accepted) s.finSent o) :
    Streams accepted t ∧ t.sentBytes accepted = s.sentBytes accepted ∧ t.finSent = s.finSent := by
  have hSent : t.sentBytes accepted = s.sentBytes accepted := by rw [sentBytes, hInput, sentBytes]
  refine ⟨{ pushed := ?_, buffer := ?_, next := ?_, syn := ?_, fin := ?_, filed := ?_ },
    hSent, hFin⟩
  · rw [hInput]
    exact h.pushed
  · rw [hInput]
    exact h.buffer
  · rw [hNext, hInput, hSyn, hFin]
    exact h.next
  · rw [hInput, hSyn, hFin]
    exact h.syn
  · rw [hInput, hFin]
    exact h.fin
  · rw [hSent, hIsn, hFin]
    exact hFiled

theorem Streams.receive (h : Streams accepted s) (msg : TCPReceiverMessage) :
    Streams accepted (s.receive msg) ∧
      (s.receive msg).sentBytes accepted = s.sentBytes accepted ∧
      (s.receive msg).finSent = s.finSent := by
  obtain ⟨-, hEq⟩ | ⟨-, -, hEq⟩ | ⟨-, -, hEq⟩ := s.receive_cases msg
  · rw [hEq]
    exact ⟨{ h with }, rfl, rfl⟩
  · rw [hEq]
    exact h.of_filed rfl rfl rfl rfl rfl h.filed
  · rw [hEq]
    refine h.of_filed rfl rfl rfl rfl rfl ?_
    intro o hMem
    exact h.filed o ((List.dropWhile_sublist _).subset hMem)

theorem Filed.marked {isn : Wrap32} {S : List Byte} {ended : Bool} {o : Outstanding}
    (h : Filed isn S ended o) (s : TCPSender) : Filed isn S ended (s.marked o) := by
  unfold TCPSender.marked
  split
  · obtain ⟨hSeqno, hSyn, hPayload, hBound, hFin⟩ := h.genuine
    exact ⟨⟨hSeqno, hSyn, hPayload, hBound, hFin⟩, h.len⟩
  · exact h

theorem Streams.tick (h : Streams accepted s) (hConsistent : Consistent s) (ms : Nat) :
    Streams accepted (s.tick ms).1 ∧
      (s.tick ms).1.sentBytes accepted = s.sentBytes accepted ∧
      (s.tick ms).1.finSent = s.finSent := by
  cases hOut : s.outstanding with
  | nil =>
    rw [hConsistent.tick_nil hOut]
    exact ⟨h, rfl, rfl⟩
  | cons o rest =>
    rw [hConsistent.tick_cons hOut]
    split
    · refine h.of_filed rfl rfl rfl rfl rfl ?_
      intro p hMem
      have hFiled := h.filed
      rw [hOut] at hFiled
      obtain rfl | hMem := List.mem_cons.mp hMem
      · exact (hFiled o List.mem_cons_self).marked s
      · exact hFiled p (List.mem_cons_of_mem o hMem)
    · exact h.of_filed rfl rfl rfl rfl rfl h.filed

theorem Streams.call_of_ne_push (h : Streams accepted s) (hConsistent : Consistent s) {c : Call}
    (hOk : ∀ data, c = .write data → s.finSent = false) (hPush : c ≠ .push) :
    Streams (accept accepted s c) (s.call c) ∧
      (s.call c).sentBytes (accept accepted s c) = s.sentBytes accepted ∧
      (s.call c).finSent = s.finSent := by
  cases c with
  | write data =>
    exact ⟨h.write (hOk data rfl) data, List.take_append_of_le_length h.popped_le, rfl⟩
  | close =>
    exact ⟨{ h with fin := fun hFin => ⟨rfl, (h.fin hFin).2⟩ }, rfl, rfl⟩
  | setError => exact ⟨{ h with }, rfl, rfl⟩
  | push => exact absurd rfl hPush
  | tick ms => exact h.tick hConsistent ms
  | receive msg => exact h.receive msg

theorem Streams.call (h : Streams accepted s) (hConsistent : Consistent s) {c : Call}
    (hOk : ∀ data, c = .write data → s.finSent = false) :
    Streams (accept accepted s c) (s.call c) ∧
      Extends (s.sentBytes accepted) s.finSent ((s.call c).sentBytes (accept accepted s c))
        (s.call c).finSent := by
  by_cases hPush : c = .push
  · subst hPush
    exact ⟨h.push.1, h.push.2.1⟩
  · obtain ⟨hStreams, hSent, hFin⟩ := h.call_of_ne_push hConsistent hOk hPush
    rw [hSent, hFin]
    exact ⟨hStreams, Extends.refl _ _⟩

end Steps

end Minnow.TCPSender
