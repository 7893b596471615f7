import Minnow.SenderInvariant

/-! # Flow control

The furthest right edge any message has offered is a history of the run. The
sender keeps the latest acknowledgment number and the latest window apart, so
an outdated message can pair an old window with a newer number.
-/

namespace Minnow.TCPSender

open Library

/-- The edge a message offers; an advertised zero counts as one. -/
def offeredEdge (s : TCPSender) (msg : TCPReceiverMessage) : Nat :=
  s.absAckno msg + max 1 msg.windowSize.toNat

def recordEdge (edge : Nat) (s : TCPSender) : Call → Nat
  | .receive msg => if msg.rst then edge else max edge (s.offeredEdge msg)
  | _ => edge

def WithinEdge (s : TCPSender) (edge : Nat) : Prop :=
  ∀ o ∈ stamp s.nextSeqno s.push.2, o.seqStart + o.len ≤ edge

instance (s : TCPSender) (edge : Nat) : Decidable (WithinEdge s edge) :=
  inferInstanceAs (Decidable (∀ o ∈ _, _))

/-- The window of an outdated message, counted from the newer acknowledgment number, stays
within an edge that was offered. -/
def OutdatedCovered (y : TCPSender × Nat) : Call → Prop
  | .receive msg => msg.rst = false → y.1.absAckno msg < y.1.receiverAckno →
      y.1.receiverAckno + max 1 msg.windowSize.toNat ≤ y.2
  | _ => True

instance (y : TCPSender × Nat) (c : Call) : Decidable (OutdatedCovered y c) :=
  match c with
  | .receive _ => inferInstanceAs (Decidable (_ → _ → _))
  | .push | .write _ | .close | .setError | .tick _ => instDecidableTrue

theorem Consistent.push_next_le {s : TCPSender} (h : Consistent s) (hSent : s.push.2 ≠ []) :
    s.push.1.nextSeqno ≤ s.receiverAckno + s.effectiveWindow := by
  have hPush := push_rule (s := s) (P := fun t out => Consistent t ∧
    t.receiverAckno = s.receiverAckno ∧
    (out ≠ [] → t.nextSeqno ≤ s.receiverAckno + s.effectiveWindow))
    (fun t out _ hReady ⟨ht, hAckno, _⟩ => ⟨ht.emit hReady, hAckno, fun _ => ?_⟩)
    ⟨h, rfl, fun hNil => (hNil rfl).elim⟩
  · exact hPush.2.2 hSent
  · have hNext := ht.next_le
    have hFits := emit_bytesInFlight_le hReady.room
    change t.nextSeqno + (t.nextMsg s.effectiveWindow).sequenceLength ≤ _
    omega

structure Bounded (s : TCPSender) (edge : Nat) : Prop where
  consistent : Consistent s
  view : s.receiverAckno + s.effectiveWindow ≤ edge

theorem Bounded.withinEdge {s : TCPSender} {edge : Nat} (h : Bounded s edge) :
    WithinEdge s edge := by
  intro o hMem
  obtain ⟨hPos, -, hNext⟩ := s.push_stamp
  have hSent : s.push.2 ≠ [] := by
    intro hNil
    rw [hNil] at hMem
    cases hMem
  have hEnd := ((tiles_stamp hPos s.nextSeqno).bounds hMem).2
  rw [← hNext] at hEnd
  exact hEnd.trans ((h.consistent.push_next_le hSent).trans h.view)

theorem Bounded.receive {s : TCPSender} {edge : Nat} (h : Bounded s edge)
    {msg : TCPReceiverMessage} (hOk : OutdatedCovered (s, edge) (.receive msg)) :
    Bounded (s.receive msg) (recordEdge edge s (.receive msg)) := by
  refine ⟨h.consistent.receive msg, ?_⟩
  rw [recordEdge]
  obtain ⟨hRst, hEq⟩ | ⟨hRst, hNot, hEq⟩ | ⟨hRst, hAdv, hEq⟩ := s.receive_cases msg
  · rw [hEq, if_pos hRst]
    exact h.view
  · rw [hEq, if_neg (by rw [hRst]; exact Bool.false_ne_true)]
    change s.receiverAckno + max 1 msg.windowSize.toNat ≤ max edge (s.offeredEdge msg)
    by_cases hOld : s.absAckno msg < s.receiverAckno
    · exact (hOk hRst hOld).trans (le_max_left _ _)
    · have hNew : s.receiverAckno + max 1 msg.windowSize.toNat ≤ s.offeredEdge msg := by
        rw [offeredEdge]
        omega
      exact hNew.trans (le_max_right _ _)
  · rw [hEq, if_neg (by rw [hRst]; exact Bool.false_ne_true)]
    exact le_max_right edge (s.offeredEdge msg)

theorem Bounded.call {s : TCPSender} {edge : Nat} (h : Bounded s edge) {c : Call}
    (hOk : OutdatedCovered (s, edge) c) : Bounded (s.call c) (recordEdge edge s c) := by
  cases c with
  | push =>
    refine ⟨h.consistent.push, ?_⟩
    have hSame := s.push_untouched
    change s.push.1.receiverAckno + max 1 s.push.1.receiverWindow ≤ edge
    rw [hSame.receiverAckno, hSame.receiverWindow]
    exact h.view
  | tick ms =>
    refine ⟨h.consistent.tick ms, ?_⟩
    obtain ⟨hAckno, hWindow, -⟩ := h.consistent.tick_view ms
    change (s.tick ms).1.receiverAckno + max 1 (s.tick ms).1.receiverWindow ≤ edge
    rw [hAckno, hWindow]
    exact h.view
  | receive msg => exact h.receive hOk
  | write data | close | setError => exact ⟨(h.consistent.call _).1, h.view⟩

theorem bounded_new (input : ByteStream) (isn : Wrap32) (initialRTOms : Nat) :
    Bounded (new input isn initialRTOms) 1 :=
  ⟨consistent_new input isn initialRTOms, le_rfl⟩

/-- As long as no outdated message widens the window, no push transmits anything beyond the
furthest edge that was offered. -/
theorem run_withinEdge (input : ByteStream) (isn : Wrap32) (initialRTOms : Nat)
    (calls : List Call)
    (hOk : Run.Along (Run.withHistory call recordEdge) OutdatedCovered
      (new input isn initialRTOms, 1) calls) :
    let reached := Run.run (Run.withHistory call recordEdge) (new input isn initialRTOms, 1) calls
    WithinEdge reached.1 reached.2 := by
  intro reached
  have h : Bounded reached.1 reached.2 :=
    Run.invariant (P := fun y : TCPSender × Nat => Bounded y.1 y.2)
      (fun _ _ hOk hy => hy.call hOk) hOk (bounded_new input isn initialRTOms)
  exact h.withinEdge

theorem run_withinEdge_reordered :
    let reached := Run.run (Run.withHistory call recordEdge) (new (ByteStream.new 20) ⟨0⟩ 100, 1)
      [.push, .receive ⟨some ⟨1⟩, 8, false⟩, .write (List.replicate 12 97), .push,
        .receive ⟨some ⟨5⟩, 8, false⟩, .receive ⟨some ⟨1⟩, 6, false⟩]
    WithinEdge reached.1 reached.2 :=
  run_withinEdge (ByteStream.new 20) ⟨0⟩ 100 _ (by decide +kernel)

/-- The receiver has room for eight bytes. Its first acknowledgment arrives twice, the second
time after the one that says the eight bytes have filled it: the next push sends four more
bytes, though the furthest edge offered is 10. -/
theorem not_withinEdge_of_outdated :
    let reached := Run.run (Run.withHistory call recordEdge) (new (ByteStream.new 12) ⟨0⟩ 100, 1)
      [.push, .receive ⟨some ⟨1⟩, 8, false⟩, .write (List.replicate 12 97), .push,
        .receive ⟨some ⟨9⟩, 0, false⟩, .receive ⟨some ⟨1⟩, 8, false⟩]
    ¬ WithinEdge reached.1 reached.2 ∧ reached.2 = 10 ∧
      reached.1.push.2 = [⟨⟨9⟩, false, List.replicate 4 97, false, false⟩] := by
  decide +kernel

end Minnow.TCPSender
