import Minnow.ReceiverEnd
import Minnow.SenderInvariant

/-! # Messages that should have no effect

A segment that lies before the stream still marks an end when it carries FIN,
and an acknowledgment that the sender does not act on still replaces the window.
Each receive is described by the one part it changes, so it is harmless exactly
when that part keeps its value.
-/

namespace Minnow

open Library

namespace Reassembler

theorem closed_of_closeIfAtEnd {r : Reassembler} (h : r.closeIfAtEnd.atEnd = true) :
    r.closeIfAtEnd.output.closed = true := by
  rw [closed_closeIfAtEnd, h, Bool.or_true]

theorem place_closed_of_atEnd {r : Reassembler} {firstIndex : Nat} {data : List Byte}
    (hBefore : r.atEnd = false) (h : (r.place firstIndex data).atEnd = true) :
    (r.place firstIndex data).output.closed = true := by
  unfold place at h ⊢
  split at h
  · rw [hBefore] at h
    cases h
  · rename_i hOld
    dsimp only at h
    split at h
    · rw [hBefore] at h
      cases h
    · rename_i hBeyond
      split at h
      · rw [hBefore] at h
        cases h
      · rename_i hEmpty
        simp only [if_neg hOld, if_neg hBeyond, if_neg hEmpty]
        exact closed_of_closeIfAtEnd h

/-- An insert that ends with everything assembled has closed the output. -/
theorem insert_closed_of_atEnd {r : Reassembler} {firstIndex : Nat} {data : List Byte}
    {isLast : Bool} (h : (r.insert firstIndex data isLast).atEnd = true) :
    (r.insert firstIndex data isLast).output.closed = true := by
  rw [insert] at h ⊢
  cases hEnd : (r.markEnd firstIndex data isLast).atEnd with
  | true => rfl
  | false =>
    rw [hEnd, if_neg Bool.false_ne_true] at h
    exact place_closed_of_atEnd hEnd h

/-- Nothing is ever placed at the last index: no window reaches it. -/
theorem place_last (r : Reassembler) (data : List Byte) : r.place (2 ^ 64 - 1) data = r := by
  rw [place]
  split
  · rfl
  · rename_i hNew
    have hSum := u64_lt (2 ^ 64 - 1 + data.length)
    have hLimit : r.streamLimit < 2 ^ 64 := u64_lt _
    have hTrim : leftTrim r.nextIndex (2 ^ 64 - 1) data = (2 ^ 64 - 1, data) := by
      rw [leftTrim, if_neg (by omega)]
    rw [hTrim]
    exact if_pos (Nat.le_sub_one_of_lt hLimit)

theorem insert_last_eq_iff {r : Reassembler} (hClosed : r.atEnd = true → r.output.closed = true)
    (data : List Byte) (isLast : Bool) :
    r.insert (2 ^ 64 - 1) data isLast = r ↔
      (isLast = true → r.lastSeen = true ∧ r.lastIndex = u64 (2 ^ 64 - 1 + data.length)) := by
  have hSeen : (r.insert (2 ^ 64 - 1) data isLast).lastSeen =
        (r.markEnd (2 ^ 64 - 1) data isLast).lastSeen ∧
      (r.insert (2 ^ 64 - 1) data isLast).lastIndex =
        (r.markEnd (2 ^ 64 - 1) data isLast).lastIndex := by
    rw [insert, place_last]
    split <;> exact ⟨rfl, rfl⟩
  have hKeep : r.markEnd (2 ^ 64 - 1) data isLast = r →
      r.insert (2 ^ 64 - 1) data isLast = r := by
    intro hMark
    rw [insert, hMark, place_last]
    split
    · rename_i hEnd
      rw [closeOutput, ByteStream.close, ← hClosed hEnd]
    · rfl
  cases isLast with
  | false => exact iff_of_true (hKeep rfl) fun h => by cases h
  | true =>
    constructor
    · intro hEq _
      rw [hEq] at hSeen
      exact hSeen
    · intro hKnown
      obtain ⟨hLastSeen, hLastIndex⟩ := hKnown rfl
      apply hKeep
      rw [markEnd, if_pos rfl, ← hLastSeen, ← hLastIndex]

end Reassembler

namespace TCPReceiver

def EndClosed (r : TCPReceiver) : Prop :=
  r.reassembler.atEnd = true → r.reassembler.output.closed = true

theorem EndClosed.call {r : TCPReceiver} (h : EndClosed r) (c : Call) : EndClosed (r.call c) := by
  cases c with
  | pop len => exact h
  | receive m =>
    change EndClosed (r.receive m)
    rw [TCPReceiver.receive]
    split
    · exact h
    · cases r.isnAfter m with
      | none => exact h
      | some isn => exact Reassembler.insert_closed_of_atEnd

theorem endClosed_run (capacity : Nat) (calls : List Call) :
    EndClosed (Run.run call (withCapacity capacity) calls) :=
  Run.invariant_of_step (fun _ c h => h.call c) (fun h => (Bool.false_ne_true h).elim) calls

/-- The stream index of the initial sequence number itself, without SYN. -/
theorem streamIndex_before {r : TCPReceiver} {isn : Wrap32} {m : TCPSenderMessage}
    (hSyn : m.syn = false)
    (hZero : m.seqno.unwrap isn (r.reassembler.output.bytesPushed + 1) = 0) :
    r.streamIndex isn m = 2 ^ 64 - 1 := by
  rw [streamIndex, hSyn, hZero]
  rfl

/-- A FIN before the stream repeats the end that has already been recorded. -/
def RepeatsEnd (r : TCPReceiver) (m : TCPSenderMessage) : Prop :=
  m.fin = true → r.reassembler.lastSeen = true ∧
    r.reassembler.lastIndex = u64 (2 ^ 64 - 1 + m.payload.length)

/-- A segment before the stream leaves the receiver as it was, now and after any later calls,
exactly when it names no end that is not recorded already. -/
theorem run_ignores_iff (capacity : Nat) (calls : List Call) (isn : Wrap32)
    (m : TCPSenderMessage) (hIsn : (Run.run call (withCapacity capacity) calls).isn = some isn)
    (hRst : m.rst = false) (hSyn : m.syn = false)
    (hZero : m.seqno.unwrap isn ((Run.run call (withCapacity capacity)
      calls).reassembler.output.bytesPushed + 1) = 0) :
    let r := Run.run call (withCapacity capacity) calls
    (∀ later, Run.run call (r.receive m) later = Run.run call r later) ↔ RepeatsEnd r m := by
  intro r
  have hInsert := Reassembler.insert_last_eq_iff (endClosed_run capacity calls) m.payload m.fin
  rw [Run.run_eq_iff, receive_of_isn hRst hIsn, streamIndex_before hSyn hZero]
  refine Iff.trans ?_ hInsert
  constructor
  · intro hEq
    exact congrArg TCPReceiver.reassembler hEq
  · intro hEq
    rw [hEq, ← hIsn]

theorem run_ignores_iff_stray :
    let r := Run.run call (withCapacity 4) [.receive ⟨⟨23⟩, true, [], false, false⟩]
    ∀ later, Run.run call (r.receive ⟨⟨23⟩, false, [97], false, false⟩) later =
      Run.run call r later :=
  (run_ignores_iff 4 [.receive ⟨⟨23⟩, true, [], false, false⟩] ⟨23⟩
    ⟨⟨23⟩, false, [97], false, false⟩ (by decide) rfl rfl (by decide)).mpr
      fun h => by cases h

/-- One byte with FIN at the initial sequence number closes the stream before its first byte,
and the byte that really comes first is lost. -/
theorem not_ignored_of_fin :
    let r := Run.run call (withCapacity 4) [.receive ⟨⟨23⟩, true, [], false, false⟩]
    let m : TCPSenderMessage := ⟨⟨23⟩, false, [97], true, false⟩
    let later : List Call := [.receive ⟨⟨24⟩, false, [98], false, false⟩]
    r.isn = some ⟨23⟩ ∧
      m.seqno.unwrap ⟨23⟩ (r.reassembler.output.bytesPushed + 1) = 0 ∧
      r.reassembler.output.closed = false ∧ (r.receive m).reassembler.output.closed = true ∧
      (Run.run call r later).reassembler.output.bytesPushed = 1 ∧
      (Run.run call (r.receive m) later).reassembler.output.bytesPushed = 0 := by
  decide +kernel

end TCPReceiver

namespace TCPSender

/-- An acknowledgment number outside what is in flight leaves only the new window. -/
theorem receive_outside {s : TCPSender} {msg : TCPReceiverMessage} (hRst : msg.rst = false)
    (hOutside : s.absAckno msg < s.receiverAckno ∨ s.nextSeqno < s.absAckno msg) :
    s.receive msg = { s with receiverWindow := msg.windowSize.toNat } := by
  obtain ⟨hReset, -⟩ | ⟨-, -, hEq⟩ | ⟨-, hAdv, -⟩ := s.receive_cases msg
  · rw [hRst] at hReset
    cases hReset
  · exact hEq
  · obtain ⟨hNext, hAckno⟩ := hAdv
    omega

/-- An outdated or impossible acknowledgment changes nothing and no later transmission, exactly
when its window is the one the sender already has. -/
theorem run_harmless_iff (input : ByteStream) (isn : Wrap32) (initialRTOms : Nat)
    (calls : List Call) (msg : TCPReceiverMessage) (ackno : Wrap32)
    (hAckno : msg.ackno = some ackno) (hRst : msg.rst = false)
    (hOutside : let s := Run.run call (new input isn initialRTOms) calls
      ackno.unwrap s.isn s.receiverAckno < s.receiverAckno ∨
        s.nextSeqno < ackno.unwrap s.isn s.receiverAckno) :
    let s := Run.run call (new input isn initialRTOms) calls
    (s.receive msg = s ∧
        ∀ later, Run.outputs answer (s.receive msg) later = Run.outputs answer s later) ↔
      msg.windowSize.toNat = s.receiverWindow := by
  intro s
  have hAbs : s.absAckno msg = ackno.unwrap s.isn s.receiverAckno := by rw [absAckno, hAckno]
  have hReceive : s.receive msg = { s with receiverWindow := msg.windowSize.toNat } := by
    apply receive_outside hRst
    rw [hAbs]
    exact hOutside
  constructor
  · rintro ⟨hSame, -⟩
    rw [hReceive] at hSame
    exact congrArg TCPSender.receiverWindow hSame
  · intro hWindow
    have hSame : s.receive msg = s := by rw [hReceive, hWindow]
    rw [hSame]
    exact ⟨rfl, fun later => rfl⟩

theorem run_harmless_iff_repeated :
    let s := Run.run call (new (ByteStream.new 10) ⟨7⟩ 100)
      [.push, .receive ⟨some ⟨8⟩, 1000, false⟩, .write [97, 98], .push,
        .receive ⟨some ⟨10⟩, 1000, false⟩]
    s.receive ⟨some ⟨8⟩, 1000, false⟩ = s :=
  ((run_harmless_iff (ByteStream.new 10) ⟨7⟩ 100 [.push, .receive ⟨some ⟨8⟩, 1000, false⟩,
    .write [97, 98], .push, .receive ⟨some ⟨10⟩, 1000, false⟩] ⟨some ⟨8⟩, 1000, false⟩ ⟨8⟩ rfl rfl
    (by decide +kernel)).mpr (by decide +kernel)).1

/-- The SYN is acknowledged with a window of two. An acknowledgment of a number never sent, with
a window of eight, makes the next push send eight bytes instead of two. -/
theorem not_harmless_of_wide :
    let s := Run.run call (new (ByteStream.new 20) ⟨7⟩ 100)
      [.push, .receive ⟨some ⟨8⟩, 2, false⟩, .write (List.replicate 12 97)]
    let msg : TCPReceiverMessage := ⟨some ⟨9⟩, 8, false⟩
    s.nextSeqno < (⟨9⟩ : Wrap32).unwrap s.isn s.receiverAckno ∧ s.receive msg ≠ s ∧
      (Run.outputs answer s [.push]).flatten.map (·.payload.length) = [2] ∧
      (Run.outputs answer (s.receive msg) [.push]).flatten.map (·.payload.length) = [8] := by
  decide +kernel

end TCPSender

end Minnow
