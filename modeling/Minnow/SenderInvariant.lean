import Minnow.Library.Run
import Minnow.SenderSteps

/-! # The queue of outstanding segments

`Consistent` ties the five pieces of bookkeeping of the sender together. It
holds whatever the peer sends, and both ends of the queue only move forward.
-/

namespace Minnow.TCPSender

open Library

structure Consistent (s : TCPSender) : Prop where
  tiles : ∃ lo ≤ s.receiverAckno, Tiles Outstanding.seqStart Outstanding.len lo s.outstanding
    s.nextSeqno
  inFlight : s.bytesInFlight = totalLength Outstanding.len s.outstanding
  head : ∀ o ∈ s.outstanding.head?, s.receiverAckno < o.seqStart + o.len
  empty : s.outstanding = [] → s.receiverAckno = s.nextSeqno
  timer : s.timerRunning = true ↔ s.outstanding ≠ []

theorem consistent_new (input : ByteStream) (isn : Wrap32) (initialRTOms : Nat) :
    Consistent (new input isn initialRTOms) where
  tiles := ⟨0, le_rfl, rfl⟩
  inFlight := rfl
  head o hHead := by cases hHead
  empty _ := rfl
  timer := by simp [new]

section Bounds

variable {s : TCPSender}

theorem Consistent.ackno_le (h : Consistent s) : s.receiverAckno ≤ s.nextSeqno := by
  obtain ⟨lo, hLo, hTiles⟩ := h.tiles
  cases hOut : s.outstanding with
  | nil => exact (h.empty hOut).le
  | cons o rest =>
    have hHead := h.head o (by rw [hOut]; rfl)
    have hBounds := hTiles.bounds (x := o) (by rw [hOut]; exact List.mem_cons_self)
    omega

theorem Consistent.next_le (h : Consistent s) :
    s.nextSeqno ≤ s.receiverAckno + s.bytesInFlight := by
  obtain ⟨lo, hLo, hTiles⟩ := h.tiles
  have hSum := hTiles.add_totalLength
  have hFlight := h.inFlight
  omega

theorem Consistent.bytesInFlight_eq_zero (h : Consistent s) :
    s.bytesInFlight = 0 ↔ s.outstanding = [] := by
  rw [h.inFlight]
  constructor
  · intro hZero
    cases hOut : s.outstanding with
    | nil => rfl
    | cons o rest =>
      obtain ⟨lo, -, hTiles⟩ := h.tiles
      have hPos := hTiles.len_pos (x := o) (by rw [hOut]; exact List.mem_cons_self)
      rw [hOut, totalLength_cons] at hZero
      omega
  · intro hNil
    rw [hNil, totalLength_nil]

theorem acked_add_left (s : TCPSender) (ackno : Nat) :
    totalLength Outstanding.len
        (s.outstanding.takeWhile fun o => o.seqStart + o.len ≤ ackno) +
      totalLength Outstanding.len (s.left ackno) =
    totalLength Outstanding.len s.outstanding := by
  rw [left, ← totalLength_append, List.takeWhile_append_dropWhile]

theorem Consistent.popAcked_add (h : Consistent s) (ackno : Nat) :
    (popAcked ackno s.bytesInFlight s.outstanding).1 +
        totalLength Outstanding.len
          (s.outstanding.takeWhile fun o => o.seqStart + o.len ≤ ackno) =
      s.bytesInFlight := by
  have hSplit := s.acked_add_left ackno
  rw [popAcked_eq, h.inFlight]
  dsimp only
  omega

theorem Consistent.popAcked_left (h : Consistent s) (ackno : Nat) :
    (popAcked ackno s.bytesInFlight s.outstanding).1 =
      totalLength Outstanding.len (s.left ackno) := by
  have hAdd := h.popAcked_add ackno
  have hSplit := s.acked_add_left ackno
  have hFlight := h.inFlight
  omega

end Bounds

section Steps

variable {s : TCPSender}

theorem Consistent.emit (h : Consistent s) {win : Nat} (hReady : Ready s win) :
    Consistent (s.emit win) := by
  obtain ⟨lo, hLo, hTiles⟩ := h.tiles
  refine { tiles := ⟨lo, hLo, hTiles.concat rfl hReady.pos⟩, inFlight := ?_, head := ?_,
           empty := ?_, timer := ?_ }
  · change s.bytesInFlight + _ = totalLength _ (s.outstanding ++ [_])
    rw [totalLength_append, totalLength_cons, totalLength_nil, h.inFlight]
    rfl
  · intro o hHead
    cases hOut : s.outstanding with
    | nil =>
      obtain rfl : _ = o := by simpa [TCPSender.emit, hOut] using hHead
      have hAckno := h.empty hOut
      have hPos := hReady.pos
      change s.receiverAckno < s.nextSeqno + (s.nextMsg win).sequenceLength
      omega
    | cons o' rest =>
      obtain rfl : o' = o := by simpa [TCPSender.emit, hOut] using hHead
      exact h.head o' (by rw [hOut]; rfl)
  · intro hNil
    simp [TCPSender.emit] at hNil
  · simp [TCPSender.emit]

theorem Consistent.advanced (h : Consistent s) {ackno : Nat} (hAdv : Advances s ackno) :
    Consistent (s.advanced ackno) := by
  obtain ⟨lo, hLo, hTiles⟩ := h.tiles
  obtain ⟨mid, hMid, hLeft, hHead, hEmpty⟩ :=
    hTiles.dropWhile (i := ackno) (hLo.trans hAdv.2.le) hAdv.1
  refine { tiles := ⟨mid, hMid, hLeft⟩, inFlight := h.popAcked_left ackno, head := hHead,
           empty := hEmpty, timer := ?_ }
  change (!(s.left ackno).isEmpty) = true ↔ s.left ackno ≠ []
  rw [Bool.not_eq_true', ← Bool.not_eq_true, List.isEmpty_iff]

theorem Consistent.receive (h : Consistent s) (msg : TCPReceiverMessage) :
    Consistent (s.receive msg) := by
  obtain ⟨-, hEq⟩ | ⟨-, -, hEq⟩ | ⟨-, hAdv, hEq⟩ := s.receive_cases msg
  · rw [hEq]
    exact { h with }
  · rw [hEq]
    exact { h with }
  · rw [hEq]
    exact { h.advanced hAdv with }

theorem Consistent.running (h : Consistent s) {o : Outstanding} {rest : List Outstanding}
    (hOut : s.outstanding = o :: rest) : s.timerRunning = true := by
  apply h.timer.mpr
  rw [hOut]
  exact List.cons_ne_nil _ _

theorem Consistent.tick_nil (h : Consistent s) (hOut : s.outstanding = []) (ms : Nat) :
    s.tick ms = (s, []) :=
  tick_idle (by simpa [hOut] using h.timer) ms

theorem Consistent.tick_cons (h : Consistent s) {o : Outstanding} {rest : List Outstanding}
    (hOut : s.outstanding = o :: rest) (ms : Nat) :
    s.tick ms =
      if s.rto ≤ u64 (s.timerElapsedMs + ms) then (s.expired o rest, [(s.marked o).msg])
      else ({ s with timerElapsedMs := u64 (s.timerElapsedMs + ms) }, []) :=
  tick_eq (h.running hOut) hOut ms

theorem Consistent.expired (h : Consistent s) {o : Outstanding} {rest : List Outstanding}
    (hOut : s.outstanding = o :: rest) : Consistent (s.expired o rest) := by
  obtain ⟨lo, hLo, hTiles⟩ := h.tiles
  rw [hOut] at hTiles
  refine { tiles := ⟨lo, hLo, ?_, ?_, ?_⟩, inFlight := ?_, head := ?_, empty := ?_, timer := ?_ }
  · rw [marked_seqStart]
    exact hTiles.1
  · rw [marked_len]
    exact hTiles.2.1
  · rw [marked_len]
    exact hTiles.2.2
  · change s.bytesInFlight = totalLength _ (s.marked o :: rest)
    rw [h.inFlight, hOut, totalLength_cons, totalLength_cons, marked_len]
  · intro o' hHead
    obtain rfl : s.marked o = o' := by simpa [TCPSender.expired] using hHead
    rw [marked_seqStart, marked_len]
    exact h.head o (by rw [hOut]; rfl)
  · intro hNil
    simp [TCPSender.expired] at hNil
  · simpa [TCPSender.expired] using h.running hOut

theorem Consistent.tick (h : Consistent s) (ms : Nat) : Consistent (s.tick ms).1 := by
  cases hOut : s.outstanding with
  | nil =>
    rw [h.tick_nil hOut]
    exact h
  | cons o rest =>
    rw [h.tick_cons hOut]
    split
    · exact h.expired hOut
    · exact { h with }

def Forward (s t : TCPSender) : Prop :=
  s.receiverAckno ≤ t.receiverAckno ∧ s.nextSeqno ≤ t.nextSeqno

theorem forward_push (s : TCPSender) : Forward s s.push.1 := by
  refine push_rule (P := fun t _ => Forward s t) (fun t out _ hReady h => ?_) ⟨le_rfl, le_rfl⟩
  exact ⟨h.1, h.2.trans (Nat.le_add_right t.nextSeqno (t.nextMsg _).sequenceLength)⟩

theorem forward_receive (s : TCPSender) (msg : TCPReceiverMessage) : Forward s (s.receive msg) := by
  obtain ⟨-, hEq⟩ | ⟨-, -, hEq⟩ | ⟨-, hAdv, hEq⟩ := s.receive_cases msg
  · rw [hEq]
    exact ⟨le_rfl, le_rfl⟩
  · rw [hEq]
    exact ⟨le_rfl, le_rfl⟩
  · rw [hEq]
    exact ⟨hAdv.2.le, le_rfl⟩

theorem Consistent.tick_view (h : Consistent s) (ms : Nat) :
    (s.tick ms).1.receiverAckno = s.receiverAckno ∧
      (s.tick ms).1.receiverWindow = s.receiverWindow ∧
      (s.tick ms).1.nextSeqno = s.nextSeqno := by
  cases hOut : s.outstanding with
  | nil =>
    rw [h.tick_nil hOut]
    exact ⟨rfl, rfl, rfl⟩
  | cons o rest =>
    rw [h.tick_cons hOut]
    split <;> exact ⟨rfl, rfl, rfl⟩

theorem Consistent.isn_call (h : Consistent s) (c : Call) : (s.call c).isn = s.isn := by
  cases c with
  | push => exact s.push_untouched.isn
  | tick ms =>
    change (s.tick ms).1.isn = s.isn
    cases hOut : s.outstanding with
    | nil => rw [h.tick_nil hOut]
    | cons o rest =>
      rw [h.tick_cons hOut]
      split <;> rfl
  | receive msg =>
    change (s.receive msg).isn = s.isn
    obtain ⟨-, hEq⟩ | ⟨-, -, hEq⟩ | ⟨-, -, hEq⟩ := s.receive_cases msg <;> rw [hEq]
    rfl
  | write data | close | setError => rfl

theorem Consistent.push (h : Consistent s) : Consistent s.push.1 :=
  push_rule (P := fun t _ => Consistent t) (fun _ _ _ hReady h => h.emit hReady) h

theorem Consistent.call (h : Consistent s) (c : Call) :
    Consistent (s.call c) ∧ Forward s (s.call c) := by
  cases c with
  | push => exact ⟨h.push, forward_push s⟩
  | tick ms =>
    obtain ⟨hAckno, -, hNext⟩ := h.tick_view ms
    exact ⟨h.tick ms, hAckno.ge, hNext.ge⟩
  | receive msg => exact ⟨h.receive msg, forward_receive s msg⟩
  | write data | close | setError =>
    exact ⟨{ h with }, le_rfl, le_rfl⟩

end Steps

theorem Consistent.outstanding_of_answer {s : TCPSender} (h : Consistent s) {c : Call}
    {m : TCPSenderMessage} (hMem : m ∈ (s.answer c).2) :
    ∃ o ∈ (s.call c).outstanding, o.msg = m := by
  cases c with
  | push =>
    change m ∈ s.push.2 at hMem
    obtain ⟨-, hOut, -⟩ := s.push_stamp
    rw [← stamp_map_msg s.nextSeqno s.push.2] at hMem
    obtain ⟨o, hStamp, hMsg⟩ := List.mem_map.mp hMem
    refine ⟨o, ?_, hMsg⟩
    change o ∈ s.push.1.outstanding
    rw [hOut]
    exact List.mem_append_right _ hStamp
  | tick ms =>
    change m ∈ (s.tick ms).2 at hMem
    change ∃ o ∈ (s.tick ms).1.outstanding, o.msg = m
    cases hOut : s.outstanding with
    | nil =>
      rw [h.tick_nil hOut] at hMem
      cases hMem
    | cons o rest =>
      rw [h.tick_cons hOut] at hMem ⊢
      split at hMem
      · rename_i hDue
        rw [if_pos hDue, List.mem_singleton.mp hMem]
        exact ⟨s.marked o, List.mem_cons_self, rfl⟩
      · cases hMem
  | write data | close | setError | receive msg => cases hMem

instance : Std.Refl Forward := ⟨fun _ => ⟨le_rfl, le_rfl⟩⟩

instance : IsTrans TCPSender Forward := ⟨fun _ _ _ h h' => ⟨h.1.trans h'.1, h.2.trans h'.2⟩⟩

theorem consistent_run (input : ByteStream) (isn : Wrap32) (initialRTOms : Nat)
    (calls : List Call) : Consistent (Run.run call (new input isn initialRTOms) calls) :=
  Run.invariant_of_step (fun _ c h => (h.call c).1) (consistent_new input isn initialRTOms) calls

/-- After any calls, with a peer that may send anything, the outstanding segments tile the
sequence space up to the next number, their lengths are what is in flight, the oldest one
contains the acknowledgment number, and the timer runs exactly while there is one. -/
theorem run_consistent (input : ByteStream) (isn : Wrap32) (initialRTOms : Nat)
    (calls rest : List Call) :
    let s := Run.run call (new input isn initialRTOms) calls
    let t := Run.run call (new input isn initialRTOms) (calls ++ rest)
    (s.outstanding.IsChain fun o p => p.seqStart = o.seqStart + o.len) ∧
      (∀ o ∈ s.outstanding, 0 < o.len) ∧
      (∀ o ∈ s.outstanding.getLast?, o.seqStart + o.len = s.nextSeqno) ∧
      s.bytesInFlight = (s.outstanding.map Outstanding.len).sum ∧
      (∀ ackno, (popAcked ackno s.bytesInFlight s.outstanding).1 +
        ((s.outstanding.takeWhile fun o => o.seqStart + o.len ≤ ackno).map Outstanding.len).sum =
          s.bytesInFlight) ∧
      (∀ o ∈ s.outstanding.head?, o.seqStart ≤ s.receiverAckno ∧
        s.receiverAckno < o.seqStart + o.len) ∧
      (s.outstanding = [] → s.receiverAckno = s.nextSeqno) ∧
      (s.timerRunning = true ↔ s.outstanding ≠ []) ∧
      s.receiverAckno ≤ t.receiverAckno ∧ s.nextSeqno ≤ t.nextSeqno := by
  intro s t
  have h : Consistent s := consistent_run input isn initialRTOms calls
  have hForward : Forward s t := by
    have hRun : t = Run.run call s rest := Run.run_append _ _ _ _
    rw [hRun]
    exact Run.related (P := Consistent) (fun s c _ hs => hs.call c) (Run.along_true _ _ _) h
  obtain ⟨lo, hLo, hTiles⟩ := h.tiles
  refine ⟨hTiles.isChain, fun o => hTiles.len_pos, fun o => hTiles.end_getLast, h.inFlight,
    h.popAcked_add, ?_, h.empty, h.timer, hForward⟩
  intro o hHead
  constructor
  · rw [hTiles.start_head hHead]
    exact hLo
  · exact h.head o hHead

end Minnow.TCPSender
