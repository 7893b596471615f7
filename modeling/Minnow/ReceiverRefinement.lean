import Minnow.Library.Run
import Minnow.ReassemblerStream
import Minnow.TCPReceiver

/-! # The receiver refines the reassembler

A genuine segment sits at an absolute sequence number; the receiver recovers it
from the wrapped one and inserts the payload at the stream index one below.
-/

namespace Minnow.TCPReceiver

open Library

def Near (r : TCPReceiver) (start : Nat) : Prop :=
  start < r.reassembler.output.bytesPushed + 1 + 2 ^ 31 ∧
    r.reassembler.output.bytesPushed + 1 < start + 2 ^ 31

instance (r : TCPReceiver) (start : Nat) : Decidable (Near r start) :=
  inferInstanceAs (Decidable (_ ∧ _))

section Receive

variable {isn : Wrap32} {S : List Byte} {ended : Bool} {start : Nat} {m : TCPSenderMessage}
  {r : TCPReceiver}

theorem streamIndex_genuine (hGenuine : Genuine isn S ended start m) (hNear : Near r start)
    (hRange : r.reassembler.output.bytesPushed + 1 < 2 ^ 63) :
    r.streamIndex isn m = start - 1 := by
  have hUnwrap : m.seqno.unwrap isn (r.reassembler.output.bytesPushed + 1) = start := by
    rw [hGenuine.seqno]
    exact Wrap32.unwrap_wrap isn hNear.1 hNear.2 hRange
  have hStart := hNear.1
  rw [streamIndex, hUnwrap, hGenuine.syn]
  by_cases hZero : start = 0
  · subst hZero
    rfl
  · have hIndex : u64 (start + (2 ^ 64 - 1)) = start - 1 := by
      rw [u64]
      omega
    simp only [hIndex, hZero, decide_false, Bool.false_and, Bool.false_eq_true, if_false]

/-- Before the SYN a segment without one is ignored; any other genuine segment is inserted. -/
theorem receive_genuine (hGenuine : Genuine isn S ended start m) (hRst : m.rst = false)
    (hNear : Near r start) (hRange : r.reassembler.output.bytesPushed + 1 < 2 ^ 63)
    (hIsn : r.isn = none ∨ r.isn = some isn) :
    r.receive m =
      if r.isn.isSome || m.syn then
        ⟨r.reassembler.insert (start - 1) m.payload m.fin, some isn⟩
      else r := by
  have hAfter : r.isnAfter m = if r.isn.isSome || m.syn then some isn else none := by
    obtain hNone | hSome := hIsn
    · cases hSyn : m.syn with
      | false => simp [isnAfter, hNone, hSyn]
      | true =>
        have hStart : start = 0 := by simpa [hSyn] using hGenuine.syn
        have hSeqno : m.seqno = isn := by rw [hGenuine.seqno, hStart, Wrap32.wrap_zero]
        simp [isnAfter, hNone, hSyn, hSeqno]
    · simp [isnAfter, hSome]
  rw [receive, hRst, hAfter]
  cases r.isn.isSome || m.syn with
  | false => rfl
  | true => simp [streamIndex_genuine hGenuine hNear hRange]

end Receive

inductive Action where
  | segment (o e : Nat) (syn fin : Bool)
  | pop (len : Nat)
deriving DecidableEq

def segmentOf (isn : Wrap32) (S : List Byte) (o e : Nat) (syn fin : Bool) : TCPSenderMessage where
  seqno := if syn then isn else Wrap32.wrap (o + 1) isn
  syn := syn
  payload := S.extract o e
  fin := fin
  rst := false

def step (isn : Wrap32) (S : List Byte) (r : TCPReceiver) : Action → TCPReceiver
  | .segment o e syn fin => r.receive (segmentOf isn S o e syn fin)
  | .pop len => r.pop len

def Arrives (S : List Byte) (r : TCPReceiver) : Action → Prop
  | .segment o e syn fin =>
    o ≤ e ∧ e ≤ S.length ∧ (fin = true → e = S.length) ∧ (syn = true → o = 0) ∧
      Near r (if syn then 0 else o + 1)
  | .pop _ => True

instance (S : List Byte) (r : TCPReceiver) (a : Action) : Decidable (Arrives S r a) :=
  match a with
  | .segment _ _ _ _ => inferInstanceAs (Decidable (_ ∧ _ ∧ _ ∧ _ ∧ _))
  | .pop _ => instDecidableTrue

theorem start_sub_one {o : Nat} {syn : Bool} (hSyn : syn = true → o = 0) :
    (if syn then 0 else o + 1) - 1 = o := by
  cases syn with
  | false => rfl
  | true => exact (hSyn rfl).symm

theorem genuine_segmentOf (isn : Wrap32) {S : List Byte} {o e : Nat} {syn fin : Bool} (hoe : o ≤ e)
    (he : e ≤ S.length) (hFin : fin = true → e = S.length) (hSyn : syn = true → o = 0) :
    Genuine isn S true (if syn then 0 else o + 1) (segmentOf isn S o e syn fin) := by
  have hStart := start_sub_one hSyn
  have hLen : o + (S.extract o e).length = e := Reassembler.extract_end hoe he
  refine { seqno := ?_, syn := ?_, payload := ?_, bound := ?_, fin := ?_ }
  · cases syn <;> simp [segmentOf]
  · cases syn <;> simp [segmentOf]
  · rw [hStart]
    exact Reassembler.extract_prefix_drop S o e
  · rw [hStart]
    exact hLen.trans_le he
  · intro hLast
    rw [hStart]
    exact ⟨rfl, hLen.trans (hFin hLast)⟩

/-- The specification: the reassembler alone, with stream indices, deaf until the SYN. -/
structure Specification where
  synSeen : Bool
  reassembler : Reassembler

namespace Specification

def step (S : List Byte) (x : Specification) : Action → Specification
  | .segment o e syn fin =>
    if x.synSeen || syn then ⟨true, x.reassembler.insert o (S.extract o e) fin⟩ else x
  | .pop len => { x with reassembler := x.reassembler.pop len }

def receiver (isn : Wrap32) (x : Specification) : TCPReceiver :=
  ⟨x.reassembler, if x.synSeen then some isn else none⟩

end Specification

structure Implements (isn : Wrap32) (S : List Byte) (capacity : Nat) (r : TCPReceiver)
    (x : Specification) : Prop where
  same : r = x.receiver isn
  assembles : x.reassembler.Assembles S true
  capacity : x.reassembler.output.capacity = capacity
  error : x.reassembler.output.error = false

section Step

variable {isn : Wrap32} {S : List Byte} {capacity : Nat} {r : TCPReceiver} {x : Specification}

theorem Implements.segment (hS : S.length < 2 ^ 62) (h : Implements isn S capacity r x) {o e : Nat}
    {syn fin : Bool} (hOk : Arrives S r (.segment o e syn fin)) :
    Implements isn S capacity (step isn S r (.segment o e syn fin))
      (x.step S (.segment o e syn fin)) := by
  obtain ⟨hoe, he, hFin, hSyn, hNear⟩ := hOk
  have hGenuine := genuine_segmentOf isn hoe he hFin hSyn
  have hStart := start_sub_one hSyn
  have hSame := h.same
  have hPushed : r.reassembler.output.bytesPushed + 1 < 2 ^ 63 := by
    have hBound := h.assembles.bound
    rw [h.assembles.wellFormed.next_eq] at hBound
    rw [hSame]
    simp only [Specification.receiver, ByteStream.bytesPushed]
    omega
  have hIsn : r.isn = none ∨ r.isn = some isn := by
    rw [hSame]
    cases x.synSeen <;> simp [Specification.receiver]
  have hHeard : r.isn.isSome = x.synSeen := by
    rw [hSame]
    cases hSeen : x.synSeen <;> simp [Specification.receiver, hSeen]
  have hReceive := receive_genuine hGenuine rfl hNear hPushed hIsn
  rw [step, hReceive, hStart, hHeard, Specification.step]
  change Implements isn S capacity (if (x.synSeen || syn) = true then _ else _) _
  split
  · obtain ⟨-, -, hPayload, hBound, hEnd⟩ := hGenuine
    rw [hStart] at hPayload hBound hEnd
    have hInsert := h.assembles.insert (by omega) hPayload hBound hEnd
    have hOutput := Reassembler.insert_sameOutput x.reassembler o (S.extract o e) fin
    refine { same := ?_, assembles := hInsert, capacity := hOutput.capacity.trans h.capacity,
             error := hOutput.error.trans h.error }
    rw [hSame]
    rfl
  · exact h

theorem Implements.step (hS : S.length < 2 ^ 62) (h : Implements isn S capacity r x) {a : Action}
    (hOk : Arrives S r a) : Implements isn S capacity (step isn S r a) (x.step S a) := by
  cases a with
  | segment o e syn fin => exact h.segment hS hOk
  | pop len =>
    refine { h with same := ?_, assembles := h.assembles.pop len }
    rw [TCPReceiver.step, h.same]
    rfl

end Step

/-- On genuine segments near its checkpoint the receiver is the reassembler behind a SYN, and
what it sends is read off the reassembler. -/
theorem run_refines_reassembler (isn : Wrap32) (S : List Byte) (capacity : Nat)
    (actions : List Action) (hS : S.length < 2 ^ 62)
    (hOk : Run.Along (step isn S) (Arrives S) (withCapacity capacity) actions) :
    let r := Run.run (step isn S) (withCapacity capacity) actions
    let x := Run.run (Specification.step S)
      ⟨false, Reassembler.new (ByteStream.new capacity)⟩ actions
    let output := x.reassembler.output
    r = x.receiver isn ∧
      r.send.ackno = (if x.synSeen then
        some (Wrap32.wrap (1 + output.bytesPushed + output.isClosed.toNat) isn) else none) ∧
      r.send.windowSize.toNat = min 65535 (capacity - output.bytesBuffered) ∧
      r.send.rst = false := by
  intro r x output
  have h : Implements isn S capacity r x := by
    refine Run.simulation (fun _ _ _ hOk h => h.step hS hOk) hOk ?_
    exact ⟨rfl, Reassembler.assembles_new S true capacity, rfl, rfl⟩
  have hError : r.reassembler.output.hasError = false := by
    rw [h.same]
    exact h.error
  have hWindow : r.windowSize.toNat = min 65535 (capacity - output.bytesBuffered) := by
    rw [h.same, windowSize, UInt16.toNat_ofNat', ByteStream.availableCapacity]
    simp only [Specification.receiver, h.capacity, output, ByteStream.bytesBuffered]
    omega
  have hAck : r.ackAbs = 1 + output.bytesPushed + output.isClosed.toNat := by
    rw [h.same, ackAbs]
    cases hClosed : output.isClosed <;> simp [Specification.receiver, output, hClosed] <;> omega
  have hIsn : r.isn = if x.synSeen then some isn else none := by rw [h.same]; rfl
  refine ⟨h.same, ?_⟩
  rw [send, hError, hIsn, ← hAck]
  cases x.synSeen <;> exact ⟨rfl, hWindow, rfl⟩

theorem run_refines_reassembler_wrap :
    let isn : Wrap32 := ⟨4294967295⟩
    let S : List Byte := [7, 8, 9]
    let r := Run.run (step isn S) (withCapacity 2)
      [.segment 0 1 false false, .segment 1 3 false true, .segment 0 1 true false, .pop 1,
        .segment 1 3 false true]
    r.send = ⟨some ⟨4⟩, 0, false⟩ ∧ r.send.windowSize.toNat = min 65535 (2 - 2) := by
  have h := run_refines_reassembler ⟨4294967295⟩ [7, 8, 9] 2
    [.segment 0 1 false false, .segment 1 3 false true, .segment 0 1 true false, .pop 1,
      .segment 1 3 false true] (by decide) (by decide +kernel)
  refine ⟨by decide +kernel, h.2.2.1.trans ?_⟩
  decide +kernel

end Minnow.TCPReceiver
