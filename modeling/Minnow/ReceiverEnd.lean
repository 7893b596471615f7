import Minnow.Library.Run
import Minnow.ReassemblerInsert
import Minnow.TCPReceiver

/-! # After the end of the inbound stream

A segment with FIN rewrites the recorded end before `insert` compares it with
the next index, so the end is final exactly as long as no such segment names
another end.
-/

namespace Minnow.TCPReceiver

open Library

def NoReset (_ : TCPReceiver) : Call → Prop
  | .receive message => message.rst = false
  | .pop _ => True

/-- A FIN that arrives on a closed stream names the position the stream was closed at. -/
def EndsAtEnd (r : TCPReceiver) : Call → Prop
  | .receive message => r.reassembler.output.isClosed = true → message.fin = true →
      ∀ isn ∈ r.isn, u64 (r.streamIndex isn message + message.payload.length) =
        r.reassembler.nextIndex
  | .pop _ => True

instance (r : TCPReceiver) (c : Call) : Decidable (NoReset r c) :=
  match c with
  | .receive _ => inferInstanceAs (Decidable (_ = _))
  | .pop _ => instDecidableTrue

instance (r : TCPReceiver) (c : Call) : Decidable (EndsAtEnd r c) :=
  match c with
  | .receive _ => inferInstanceAs (Decidable (_ → _ → ∀ isn ∈ r.isn, _))
  | .pop _ => instDecidableTrue

def Final (r r' : TCPReceiver) : Prop :=
  r'.reassembler.output.bytesPushed = r.reassembler.output.bytesPushed ∧
    r'.send.ackno = r.send.ackno ∧
    (r.reassembler.output.isFinished = true → r'.reassembler.output.isFinished = true)

instance (r r' : TCPReceiver) : Decidable (Final r r') :=
  inferInstanceAs (Decidable (_ ∧ _ ∧ _))

structure Settled (r : TCPReceiver) : Prop where
  atEnd : r.reassembler.output.closed = true → r.reassembler.atEnd = true
  isn : r.reassembler.output.closed = true → r.isn.isSome = true

section Receive

variable {r : TCPReceiver} {m : TCPSenderMessage}

theorem receive_of_isn {isn : Wrap32} (hRst : m.rst = false) (hIsn : r.isn = some isn) :
    r.receive m =
      ⟨r.reassembler.insert (r.streamIndex isn m) m.payload m.fin, some isn⟩ := by
  have hAfter : r.isnAfter m = some isn := by rw [isnAfter, hIsn]; simp
  rw [receive, hRst, hAfter]
  rfl

theorem receive_of_closed (h : Settled r) (hClosed : r.reassembler.output.closed = true)
    (hRst : m.rst = false) (hEnd : EndsAtEnd r (.receive m)) : r.receive m = r := by
  obtain ⟨isn, hIsn⟩ := Option.isSome_iff_exists.mp (h.isn hClosed)
  have hInsert := Reassembler.insert_of_closed hClosed (h.atEnd hClosed)
    (fun hFin => hEnd hClosed hFin isn hIsn)
  rw [receive_of_isn hRst hIsn, hInsert, ← hIsn]

theorem Settled.receive (h : Settled r) (hRst : m.rst = false)
    (hEnd : EndsAtEnd r (.receive m)) : Settled (r.receive m) := by
  by_cases hClosed : r.reassembler.output.closed = true
  · rw [receive_of_closed h hClosed hRst hEnd]
    exact h
  · rw [TCPReceiver.receive, hRst]
    cases r.isnAfter m with
    | none => exact h
    | some isn =>
      exact ⟨fun hAfter => (Reassembler.insert_closed hAfter).resolve_left hClosed, fun _ => rfl⟩

end Receive

theorem Settled.pop {r : TCPReceiver} (h : Settled r) (len : Nat) : Settled (r.pop len) :=
  ⟨h.atEnd, h.isn⟩

theorem send_pop_ackno (r : TCPReceiver) (len : Nat) : (r.pop len).send.ackno = r.send.ackno := by
  have hError : (r.pop len).reassembler.output.hasError = r.reassembler.output.hasError := rfl
  have hIsn : (r.pop len).isn = r.isn := rfl
  rw [send, send, hError, hIsn]
  split
  · rfl
  · cases r.isn <;> rfl

theorem Final.refl (r : TCPReceiver) : Final r r := ⟨rfl, rfl, id⟩

theorem Final.trans {r s t : TCPReceiver} (h : Final r s) (h' : Final s t) : Final r t :=
  ⟨h'.1.trans h.1, h'.2.1.trans h.2.1, fun hFinished => h'.2.2 (h.2.2 hFinished)⟩

theorem final_pop (r : TCPReceiver) (len : Nat) : Final r (r.pop len) := by
  refine ⟨rfl, send_pop_ackno r len, ?_⟩
  intro h
  obtain ⟨hClosed, hEmpty⟩ := ByteStream.isFinished_iff.mp h
  refine ByteStream.isFinished_iff.mpr ⟨hClosed, ?_⟩
  change (r.reassembler.output.pop len).buffer = []
  rw [ByteStream.pop_buffer, hEmpty, List.drop_nil]

theorem Settled.call {r : TCPReceiver} (h : Settled r) {c : Call}
    (hOk : NoReset r c ∧ EndsAtEnd r c) :
    Settled (r.call c) ∧ (r.reassembler.output.closed = true →
      (r.call c).reassembler.output.closed = true ∧ Final r (r.call c)) := by
  cases c with
  | receive m =>
    constructor
    · exact h.receive hOk.1 hOk.2
    · intro hClosed
      rw [TCPReceiver.call, receive_of_closed h hClosed hOk.1 hOk.2]
      exact ⟨hClosed, Final.refl r⟩
  | pop len => exact ⟨h.pop len, fun hClosed => ⟨hClosed, final_pop r len⟩⟩

theorem settled_withCapacity (capacity : Nat) : Settled (withCapacity capacity) :=
  ⟨fun h => (Bool.false_ne_true h).elim, fun h => (Bool.false_ne_true h).elim⟩

/-- Once the stream is closed, nothing later changes what was delivered, acknowledged or
finished, as long as no FIN names another end. -/
theorem run_final (capacity : Nat) (first rest : List Call)
    (hOk : Run.Along call (fun r c => NoReset r c ∧ EndsAtEnd r c) (withCapacity capacity)
      (first ++ rest))
    (hClosed : (Run.run call (withCapacity capacity) first).reassembler.output.isClosed = true) :
    Final (Run.run call (withCapacity capacity) first)
      (Run.run call (withCapacity capacity) (first ++ rest)) := by
  obtain ⟨hFirst, hRest⟩ := Run.along_append.mp hOk
  have hSettled : Settled (Run.run call (withCapacity capacity) first) :=
    Run.invariant (fun r c hOk h => (h.call hOk).1) hFirst (settled_withCapacity capacity)
  rw [Run.run_append]
  have hKept := Run.invariant
    (P := fun r => Settled r ∧ r.reassembler.output.closed = true ∧
      Final (Run.run call (withCapacity capacity) first) r)
    (fun r c hOk ⟨hS, hC, hF⟩ =>
      have hCall := hS.call hOk
      ⟨hCall.1, (hCall.2 hC).1, hF.trans (hCall.2 hC).2⟩)
    hRest ⟨hSettled, hClosed, Final.refl _⟩
  exact hKept.2.2

theorem run_final_repeated :
    let fin : TCPSenderMessage := ⟨⟨1⟩, false, [97], true, false⟩
    let first : List Call := [.receive ⟨⟨0⟩, true, [], false, false⟩, .receive fin]
    let rest : List Call := [.pop 1, .receive fin, .receive ⟨⟨2⟩, false, [98], false, false⟩]
    Final (Run.run call (withCapacity 10) first) (Run.run call (withCapacity 10) (first ++ rest)) :=
  run_final 10 _ _ (by decide +kernel) (by decide +kernel)

/-- After the byte `a` and FIN, a second FIN one byte further on is assembled as well. -/
theorem not_final_of_second_fin :
    let first : List Call := [.receive ⟨⟨0⟩, true, [], false, false⟩,
      .receive ⟨⟨1⟩, false, [97], true, false⟩, .pop 1]
    let rest : List Call := [.receive ⟨⟨2⟩, false, [98], true, false⟩]
    let r := Run.run call (withCapacity 10) first
    let r' := Run.run call (withCapacity 10) (first ++ rest)
    Run.Along call NoReset (withCapacity 10) (first ++ rest) ∧
      r.reassembler.output.isClosed = true ∧ ¬ Final r r' ∧
      r.reassembler.output.bytesPushed = 1 ∧ r'.reassembler.output.bytesPushed = 2 ∧
      r.send.ackno = some ⟨3⟩ ∧ r'.send.ackno = some ⟨4⟩ ∧
      r.reassembler.output.isFinished = true ∧ r'.reassembler.output.isFinished = false := by
  decide +kernel

end Minnow.TCPReceiver
