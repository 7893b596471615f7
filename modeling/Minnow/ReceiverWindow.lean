import Minnow.ReassemblerInvariant
import Minnow.ReceiverStream

/-! # The window of the receiver only moves forward

Every call moves the counters of the stream one way. The right edge is a
function of them that neither the 16-bit clamp nor the close can pull back.
-/

namespace Minnow.TCPReceiver

open Library

/-- The absolute acknowledgment number and right edge of a message that carries an ackno. -/
structure Offer where
  isn : Wrap32
  ackno : Nat
  edge : Nat
deriving DecidableEq

def offer (self : TCPReceiver) : Option Offer :=
  match self.send.ackno, self.isn with
  | some _, some isn =>
    some { isn, ackno := self.ackAbs, edge := self.ackAbs + self.send.windowSize.toNat }
  | _, _ => none

def Fits (r : TCPReceiver) : Call → Prop
  | .receive message =>
    r.reassembler.output.capacity + r.reassembler.output.bytesPopped + message.payload.length <
      2 ^ 64
  | .pop _ => True

instance (r : TCPReceiver) (c : Call) : Decidable (Fits r c) :=
  match c with
  | .receive _ => inferInstanceAs (Decidable (_ < _))
  | .pop _ => instDecidableTrue

/-- What every call keeps or moves forward. -/
structure Grows (r r' : TCPReceiver) : Prop where
  capacity : r'.reassembler.output.capacity = r.reassembler.output.capacity
  pushed : r.reassembler.output.totalPushed ≤ r'.reassembler.output.totalPushed
  popped : r.reassembler.output.totalPopped ≤ r'.reassembler.output.totalPopped
  closed : r.reassembler.output.closed = true → r'.reassembler.output.closed = true
  isn : ∀ isn ∈ r.isn, r'.isn = some isn

instance : Std.Refl Grows := ⟨fun _ => ⟨rfl, le_rfl, le_rfl, id, fun _ h => h⟩⟩

instance : IsTrans TCPReceiver Grows where
  trans _ _ _ h h' :=
    { capacity := h'.capacity.trans h.capacity
      pushed := h.pushed.trans h'.pushed
      popped := h.popped.trans h'.popped
      closed := fun hClosed => h'.closed (h.closed hClosed)
      isn := fun isn hMem => h'.isn isn (h.isn isn hMem) }

section Step

variable {r r' : TCPReceiver}

theorem grows_receive (hWell : r.reassembler.WellFormed) {m : TCPSenderMessage}
    (hFits : Fits r (.receive m)) :
    (r.receive m).reassembler.WellFormed ∧ Grows r (r.receive m) := by
  unfold receive
  split
  · exact ⟨⟨hWell.next_eq, hWell.separated⟩, ⟨rfl, le_rfl, le_rfl, id, fun _ h => h⟩⟩
  · cases hIsn : r.isnAfter m with
    | none => exact ⟨hWell, Std.Refl.refl r⟩
    | some isn =>
      have h : Reassembler.Inserted r.reassembler.output
          (r.reassembler.insertPushes (r.streamIndex isn m) m.payload m.fin)
          (r.reassembler.insert (r.streamIndex isn m) m.payload m.fin) := hWell.insert hFits m.fin
      refine ⟨h.wellFormed, ⟨h.sameOutput.capacity, h.totalPushed_le, h.sameOutput.popped.ge,
        h.closed, ?_⟩⟩
      intro isn' hMem
      rw [← hIsn, isnAfter, Option.mem_def.mp hMem]
      simp

theorem grows_call (hWell : r.reassembler.WellFormed) (c : Call) (hFits : Fits r c) :
    (r.call c).reassembler.WellFormed ∧ Grows r (r.call c) := by
  cases c with
  | receive m => exact grows_receive hWell hFits
  | pop len =>
    exact ⟨hWell.pop len, ⟨rfl, le_rfl, Nat.le_add_right _ _, id, fun _ h => h⟩⟩

/-- Bytes of payload a call brings in. -/
def Call.received : Call → Nat
  | .receive message => message.payload.length
  | .pop _ => 0

def held (r : TCPReceiver) : Nat := r.reassembler.nextIndex + r.reassembler.countBytesPending

theorem call_held_le (hWell : r.reassembler.WellFormed) (c : Call) (hFits : Fits r c) :
    (r.call c).held ≤ r.held + c.received := by
  cases c with
  | receive m =>
    rw [call, receive]
    split
    · exact Nat.le_add_right _ _
    · cases r.isnAfter m with
      | none => exact Nat.le_add_right _ _
      | some isn => exact hWell.insert_held_le hFits m.fin
  | pop len => exact Nat.le_add_right _ _

/-- A bound on the bytes of all segments is enough for every call to fit. -/
theorem along_fits {calls : List Call} (hWell : r.reassembler.WellFormed)
    (hTotal : r.reassembler.output.capacity + r.held + (calls.map Call.received).sum < 2 ^ 64) :
    Run.Along call Fits r calls := by
  induction calls generalizing r with
  | nil => trivial
  | cons c calls ih =>
    rw [List.map_cons, List.sum_cons] at hTotal
    have hFits : Fits r c := by
      have hPushed := r.reassembler.output.pushed_eq
      have hNext := hWell.next_eq
      unfold held at hTotal
      cases c with
      | receive m =>
        simp only [Fits, Call.received, ByteStream.bytesPopped] at hTotal ⊢
        omega
      | pop len => trivial
    obtain ⟨hWell', hGrows⟩ := grows_call hWell c hFits
    have hHeld := call_held_le hWell c hFits
    refine ⟨hFits, ih hWell' ?_⟩
    rw [hGrows.capacity]
    omega

theorem edge_eq (r : TCPReceiver) (hError : r.reassembler.output.error = false) :
    r.ackAbs + r.send.windowSize.toNat =
      1 + r.reassembler.output.closed.toNat +
        min (r.reassembler.output.totalPushed + 65535)
          (r.reassembler.output.totalPopped + r.reassembler.output.capacity) := by
  have hWindow : r.send.windowSize.toNat = min 65535 r.reassembler.output.availableCapacity := by
    unfold send
    rw [ByteStream.hasError, hError]
    cases r.isn <;>
    · simp only [Bool.false_eq_true, if_false, windowSize]
      rw [UInt16.toNat_ofNat_of_lt']
      exact lt_of_le_of_lt (min_le_left _ _) (by decide)
  have hPushed := r.reassembler.output.pushed_eq
  have hBuffer := r.reassembler.output.buffer_le
  rw [hWindow, ackAbs_eq, ByteStream.availableCapacity]
  omega

theorem eq_of_mem_offer {o : Offer} (h : o ∈ r.offer) :
    r.reassembler.output.error = false ∧ r.isn = some o.isn ∧ o.ackno = r.ackAbs ∧
      o.edge = r.ackAbs + r.send.windowSize.toNat ∧
      r.send.ackno = some (Wrap32.wrap o.ackno o.isn) := by
  cases hError : r.reassembler.output.error with
  | true => simp [offer, send, ByteStream.hasError, hError] at h
  | false =>
    cases hIsn : r.isn with
    | none => simp [offer, send, hIsn] at h
    | some isn =>
      have hSend : r.send.ackno = some (Wrap32.wrap r.ackAbs isn) := by
        simp [send, ByteStream.hasError, hError, hIsn]
      simp only [offer, hIsn, hSend, Option.mem_def, Option.some.injEq] at h
      subst h
      exact ⟨rfl, rfl, rfl, rfl, hSend⟩

theorem Grows.offer (h : Grows r r') {o o' : Offer} (ho : o ∈ r.offer) (ho' : o' ∈ r'.offer) :
    o'.isn = o.isn ∧ o.ackno ≤ o'.ackno ∧ o.edge ≤ o'.edge := by
  obtain ⟨hError, hIsn, hAckno, hEdge, -⟩ := eq_of_mem_offer ho
  obtain ⟨hError', hIsn', hAckno', hEdge', -⟩ := eq_of_mem_offer ho'
  have hClosed : r.reassembler.output.closed.toNat ≤ r'.reassembler.output.closed.toNat :=
    Bool.toNat_le_toNat h.closed
  refine ⟨?_, ?_, ?_⟩
  · have hSame := h.isn o.isn hIsn
    rw [hIsn', Option.some.injEq] at hSame
    exact hSame
  · rw [hAckno, hAckno', ackAbs_eq, ackAbs_eq]
    exact Nat.add_le_add (Nat.succ_le_succ h.pushed) hClosed
  · rw [hEdge, hEdge', edge_eq r hError, edge_eq r' hError', h.capacity]
    have hMin := min_le_min (Nat.add_le_add_right h.pushed 65535)
      (Nat.add_le_add_right h.popped r.reassembler.output.capacity)
    exact Nat.add_le_add (Nat.add_le_add_left hClosed 1) hMin

end Step

/-- The acknowledgment number and the right edge that a run has offered are never taken back. -/
theorem run_offer (capacity : Nat) (first rest : List Call)
    (hFits : Run.Along call Fits (withCapacity capacity) (first ++ rest)) :
    let r := Run.run call (withCapacity capacity) first
    let r' := Run.run call (withCapacity capacity) (first ++ rest)
    ∀ o ∈ r.offer, ∀ o' ∈ r'.offer, o'.isn = o.isn ∧ o.ackno ≤ o'.ackno ∧ o.edge ≤ o'.edge := by
  intro r r' o ho o' ho'
  obtain ⟨hFirst, hRest⟩ := Run.along_append.mp hFits
  have hWell : r.reassembler.WellFormed :=
    Run.invariant (P := fun r : TCPReceiver => r.reassembler.WellFormed)
      (fun r c hFits h => (grows_call h c hFits).1) hFirst (Reassembler.wellFormed_new capacity)
  have hGrows : Grows r r' := by
    simp only [r', Run.run_append]
    exact Run.related (fun r c hFits h => grows_call h c hFits) hRest hWell
  exact hGrows.offer ho ho'

theorem run_offer_hostile :
    let first : List Call := [.receive ⟨⟨7⟩, true, [1, 2], false, false⟩, .pop 1]
    let rest : List Call := [.receive ⟨⟨4⟩, true, [9, 9, 9, 9], true, false⟩, .pop 3,
      .receive ⟨⟨10⟩, false, [3, 4], true, false⟩]
    let r := Run.run call (withCapacity 4) first
    let r' := Run.run call (withCapacity 4) (first ++ rest)
    r.offer = some ⟨⟨7⟩, 3, 6⟩ ∧ r'.offer = some ⟨⟨7⟩, 6, 8⟩ ∧
      ∀ o ∈ r.offer, ∀ o' ∈ r'.offer, o'.isn = o.isn ∧ o.ackno ≤ o'.ackno ∧ o.edge ≤ o'.edge :=
  ⟨by decide +kernel, by decide +kernel,
    run_offer 4 _ _ (along_fits (Reassembler.wellFormed_new 4) (by decide +kernel))⟩

end Minnow.TCPReceiver
