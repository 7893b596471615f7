import Minnow.SenderWire

/-! # What a push leaves behind

The loop of `fill_window` only ends on a full window or on an empty segment,
and an empty segment means that nothing is left to send. Every pass puts at
least one sequence number in flight, which bounds the number of passes.
-/

namespace Minnow.TCPSender

open Library

section Push

variable {s : TCPSender}

theorem push_bytesInFlight (s : TCPSender) :
    s.push.1.bytesInFlight =
      s.bytesInFlight + totalLength TCPSenderMessage.sequenceLength s.push.2 := by
  refine push_rule (P := fun t out => t.bytesInFlight =
    s.bytesInFlight + totalLength TCPSenderMessage.sequenceLength out)
    (fun t out _ _ h => ?_) rfl
  rw [totalLength_append, ← Nat.add_assoc, ← h]
  rfl

theorem push_bytesInFlight_le (hSent : s.push.2 ≠ []) :
    s.push.1.bytesInFlight ≤ s.effectiveWindow := by
  revert hSent
  refine push_rule (P := fun t out => out ≠ [] → t.bytesInFlight ≤ s.effectiveWindow)
    (fun t out _ hReady _ _ => ?_) (fun hNil => (hNil rfl).elim)
  exact emit_bytesInFlight_le hReady.room

/-- What has been sent fits into the window after every single segment. -/
theorem push_within {before after : List TCPSenderMessage} {m : TCPSenderMessage}
    (h : s.push.2 = before ++ m :: after) :
    s.bytesInFlight + totalLength TCPSenderMessage.sequenceLength (before ++ [m]) ≤
      s.effectiveWindow := by
  have hSplit : s.push.2 = (before ++ [m]) ++ after := by rw [h, List.append_assoc]; rfl
  have hNonempty : s.push.2 ≠ [] := by
    rw [h]
    exact List.append_ne_nil_of_right_ne_nil before (List.cons_ne_nil m after)
  have hSum := push_bytesInFlight_le hNonempty
  rw [push_bytesInFlight, hSplit, totalLength_append] at hSum
  omega

theorem push_length_le (s : TCPSender) :
    s.push.2.length ≤ s.effectiveWindow - s.bytesInFlight := by
  obtain ⟨hPos, -, -⟩ := s.push_stamp
  have hCount := length_le_totalLength hPos
  have hFlight := s.push_bytesInFlight
  cases Decidable.em (s.push.2 = []) with
  | inl hNil =>
    rw [hNil]
    exact Nat.zero_le _
  | inr hSent =>
    have hFits := push_bytesInFlight_le hSent
    omega

/-- Everything the stream has to offer has been sent. -/
structure Exhausted (s : TCPSender) : Prop where
  buffer : s.input.buffer = []
  syn : s.synSent = true
  fin : s.input.closed = true → s.finSent = true

theorem push_full_or_exhausted (hConsistent : Consistent s)
    (hFin : s.finSent = true → s.input.buffer = [] ∧ s.synSent = true) :
    (s.effectiveWindow ≤ s.push.1.bytesInFlight ∧ s.push.1.timerRunning = true) ∨
      Exhausted s.push.1 := by
  cases hSent : s.finSent with
  | true =>
    obtain ⟨hBuffer, hSyn⟩ := hFin hSent
    rw [push_of_fin hSent]
    exact .inr ⟨hBuffer, hSyn, fun _ => hSent⟩
  | false =>
    have hStop := push_stops hSent
    cases Nat.lt_or_ge s.push.1.bytesInFlight s.effectiveWindow with
    | inl hRoom =>
      have hEmpty : (s.push.1.nextMsg s.effectiveWindow).sequenceLength = 0 := by
        by_contra hSome
        exact hStop ⟨hRoom, Nat.pos_of_ne_zero hSome⟩
      obtain ⟨hSyn, hBuffer, hLast⟩ := exhausted_of_empty hRoom hEmpty
      exact .inr ⟨hBuffer, hSyn, hLast⟩
    | inr hFull =>
      have hPos : 0 < s.effectiveWindow := Nat.lt_of_lt_of_le Nat.one_pos (le_max_left _ _)
      have hPush := hConsistent.push
      refine .inl ⟨hFull, hPush.timer.mpr ?_⟩
      intro hNone
      have hZero := hPush.bytesInFlight_eq_zero.mpr hNone
      omega

end Push

theorem Streams.finished {accepted : List Byte} {s : TCPSender} (h : Streams accepted s)
    (hFin : s.finSent = true) : s.input.buffer = [] ∧ s.synSent = true := by
  refine ⟨(h.fin hFin).2, ?_⟩
  by_contra hSyn
  have hNone := (h.syn (Bool.eq_false_of_not_eq_true hSyn)).2
  exact Bool.false_ne_true (hNone.symm.trans hFin)

/-! The flags are set together with the messages that carry them -/

/-- Everything handed to the transmit callbacks. -/
def recordSent (sent : List TCPSenderMessage) (s : TCPSender) (c : Call) : List TCPSenderMessage :=
  sent ++ (s.answer c).2

/-- What the sender believes to have sent has been transmitted. -/
structure Announced (s : TCPSender) (sent : List TCPSenderMessage) : Prop where
  syn : s.synSent = true → ∃ m ∈ sent, m.syn = true
  fin : s.finSent = true → ∃ m ∈ sent, m.fin = true

section Announced

variable {s : TCPSender} {sent : List TCPSenderMessage}

theorem Announced.mono {t : TCPSender} (h : Announced s sent) (hSyn : t.synSent = s.synSent)
    (hFin : t.finSent = s.finSent) (more : List TCPSenderMessage) :
    Announced t (sent ++ more) where
  syn hSent := by
    obtain ⟨m, hMem, hFlag⟩ := h.syn (hSyn ▸ hSent)
    exact ⟨m, List.mem_append_left more hMem, hFlag⟩
  fin hSent := by
    obtain ⟨m, hMem, hFlag⟩ := h.fin (hFin ▸ hSent)
    exact ⟨m, List.mem_append_left more hMem, hFlag⟩

/-- A pass of the loop sets a flag only when its segment carries it. -/
theorem Announced.emit (h : Announced s sent) (win : Nat) :
    Announced (s.emit win) (sent ++ [s.nextMsg win]) where
  syn _ := by
    cases hSyn : s.synSent with
    | true =>
      obtain ⟨m, hMem, hFlag⟩ := h.syn hSyn
      exact ⟨m, List.mem_append_left _ hMem, hFlag⟩
    | false =>
      refine ⟨s.nextMsg win, List.mem_append_right sent (List.mem_singleton_self _), ?_⟩
      rw [nextMsg, hSyn]
      rfl
  fin hSent := by
    have hFin : (s.finSent || s.nextFin win) = true := hSent
    obtain hOld | hNew := Bool.or_eq_true_iff.mp hFin
    · obtain ⟨m, hMem, hFlag⟩ := h.fin hOld
      exact ⟨m, List.mem_append_left _ hMem, hFlag⟩
    · exact ⟨s.nextMsg win, List.mem_append_right sent (List.mem_singleton_self _), hNew⟩

theorem Announced.push (h : Announced s sent) : Announced s.push.1 (sent ++ s.push.2) := by
  refine push_rule (P := fun t out => Announced t (sent ++ out)) (fun t out _ _ hOut => ?_) ?_
  · rw [← List.append_assoc]
    exact hOut.emit s.effectiveWindow
  · rw [List.append_nil]
    exact h

/-- Only `push` sets the flags. -/
theorem Consistent.flags_call (h : Consistent s) {c : Call} (hPush : c ≠ .push) :
    (s.call c).synSent = s.synSent ∧ (s.call c).finSent = s.finSent := by
  cases c with
  | push => exact absurd rfl hPush
  | tick ms =>
    change (s.tick ms).1.synSent = s.synSent ∧ (s.tick ms).1.finSent = s.finSent
    cases hOut : s.outstanding with
    | nil =>
      rw [h.tick_nil hOut]
      exact ⟨rfl, rfl⟩
    | cons o rest =>
      rw [h.tick_cons hOut]
      split <;> exact ⟨rfl, rfl⟩
  | receive msg =>
    change (s.receive msg).synSent = s.synSent ∧ (s.receive msg).finSent = s.finSent
    obtain ⟨-, hEq⟩ | ⟨-, -, hEq⟩ | ⟨-, -, hEq⟩ := s.receive_cases msg <;>
    · rw [hEq]
      exact ⟨rfl, rfl⟩
  | write data | close | setError => exact ⟨rfl, rfl⟩

theorem Announced.call (h : Announced s sent) (hConsistent : Consistent s) (c : Call) :
    Announced (s.call c) (recordSent sent s c) := by
  by_cases hPush : c = .push
  · subst hPush
    exact h.push
  · obtain ⟨hSyn, hFin⟩ := hConsistent.flags_call hPush
    exact h.mono hSyn hFin _

theorem announced_run (capacity : Nat) (isn : Wrap32) (initialRTOms : Nat) (calls : List Call) :
    let reached := Run.run (Run.withHistory call recordSent)
      (new (ByteStream.new capacity) isn initialRTOms, []) calls
    Announced reached.1 reached.2 := by
  refine (Run.invariant_withHistory (P := fun y : TCPSender × List TCPSenderMessage =>
    Consistent y.1 ∧ Announced y.1 y.2) recordSent (fun y c h => ?_) _ ⟨?_, ?_⟩ calls).2
  · exact ⟨(h.1.call c).1, h.2.call h.1 c⟩
  · exact consistent_new _ _ _
  · exact ⟨fun hSyn => absurd hSyn Bool.false_ne_true, fun hFin => absurd hFin Bool.false_ne_true⟩

end Announced

/-- From every state a run reaches, `push` takes a bounded number of passes, never exceeds the
window, and stops with the window full and the timer running or with nothing left to send: the
buffer is empty, and the SYN and the FIN of a closed stream are among the messages transmitted. -/
theorem run_push (capacity : Nat) (isn : Wrap32) (initialRTOms : Nat) (calls : List Call)
    (hOk : Run.Along call NoWriteAfterClose (new (ByteStream.new capacity) isn initialRTOms)
      calls) :
    let reached := Run.run (Run.withHistory call recordSent)
      (new (ByteStream.new capacity) isn initialRTOms, []) calls
    let s := reached.1
    let t := s.push.1
    let sent := s.push.2
    sent.length ≤ max 1 s.receiverWindow - s.bytesInFlight ∧
      t.bytesInFlight = s.bytesInFlight + totalLength TCPSenderMessage.sequenceLength sent ∧
      (∀ before m after, sent = before ++ m :: after →
        s.bytesInFlight + totalLength TCPSenderMessage.sequenceLength (before ++ [m]) ≤
          max 1 s.receiverWindow) ∧
      ((max 1 s.receiverWindow ≤ t.bytesInFlight ∧
          (sent ≠ [] → t.bytesInFlight = max 1 s.receiverWindow) ∧ t.timerRunning = true) ∨
        (t.input.buffer = [] ∧ t.synSent = true ∧ (∃ m ∈ reached.2 ++ sent, m.syn = true) ∧
          (t.input.isClosed = true →
            t.finSent = true ∧ ∃ m ∈ reached.2 ++ sent, m.fin = true))) := by
  intro reached s t sent
  have hRun : s = Run.run call (new (ByteStream.new capacity) isn initialRTOms) calls :=
    Run.run_withHistory_fst _ _ _ _
  obtain ⟨x, hWired⟩ := wired_run capacity isn initialRTOms hOk
  rw [← hRun] at hWired
  have hAnnounced : Announced t (reached.2 ++ sent) :=
    (announced_run capacity isn initialRTOms calls).push
  refine ⟨s.push_length_le, s.push_bytesInFlight, fun before m after => push_within, ?_⟩
  cases push_full_or_exhausted hWired.consistent hWired.streams.finished with
  | inl hFull =>
    refine .inl ⟨hFull.1, ?_, hFull.2⟩
    intro hSent
    exact le_antisymm (push_bytesInFlight_le hSent) hFull.1
  | inr hExhausted =>
    refine .inr ⟨hExhausted.buffer, hExhausted.syn, hAnnounced.syn hExhausted.syn, ?_⟩
    intro hClosed
    have hFin := hExhausted.fin hClosed
    exact ⟨hFin, hAnnounced.fin hFin⟩

theorem run_push_closed :
    let reached := Run.run (Run.withHistory call recordSent) (new (ByteStream.new 10) ⟨7⟩ 100, [])
      [.push, .receive ⟨some ⟨8⟩, 3, false⟩, .write [1, 2, 3], .close]
    reached.1.push.1.bytesInFlight = 3 ∧ reached.1.push.1.finSent = false := by
  have h := run_push 10 ⟨7⟩ 100 [.push, .receive ⟨some ⟨8⟩, 3, false⟩, .write [1, 2, 3], .close]
    (by decide +kernel)
  refine ⟨h.2.1.trans (by decide +kernel), by decide +kernel⟩

end Minnow.TCPSender
