import Minnow.SenderStream

/-! # What goes on the wire

The segments transmitted for the first time, filed at the sequence numbers they
were given, are a history of the run. They tile the sequence space, carry the
accepted bytes in order, and hold the segments still outstanding as their end.
-/

namespace Minnow.TCPSender

open Library

structure Wire where
  accepted : List Byte
  firsts : List Outstanding

namespace Wire

def initial : Wire := ⟨[], []⟩

def record (x : Wire) (s : TCPSender) (c : Call) : Wire where
  accepted := accept x.accepted s c
  firsts := match c with
    | .push => x.firsts ++ stamp s.nextSeqno s.push.2
    | _ => x.firsts

def payloads (x : Wire) : List Byte := x.firsts.flatMap fun f => f.msg.payload

end Wire

def withoutRst (msg : TCPSenderMessage) : TCPSenderMessage := { msg with rst := false }

def plain (o : Outstanding) : Outstanding := { o with msg := withoutRst o.msg }

structure Wired (isn : Wrap32) (s : TCPSender) (x : Wire) : Prop where
  isn_eq : s.isn = isn
  consistent : Consistent s
  streams : Streams x.accepted s
  tiles : Tiles Outstanding.seqStart Outstanding.len 0 x.firsts s.nextSeqno
  filed : ∀ f ∈ x.firsts, Filed isn (s.sentBytes x.accepted) s.finSent f
  small : ∀ f ∈ x.firsts, f.msg.payload.length ≤ maxPayloadSize
  payloads : x.payloads = s.sentBytes x.accepted
  suffix : s.outstanding.map plain <:+ x.firsts.map plain

theorem wired_new (capacity : Nat) (isn : Wrap32) (initialRTOms : Nat) :
    Wired isn (new (ByteStream.new capacity) isn initialRTOms) Wire.initial where
  isn_eq := rfl
  consistent := consistent_new _ _ _
  streams := streams_new capacity isn initialRTOms
  tiles := rfl
  filed f hMem := by cases hMem
  small f hMem := by cases hMem
  payloads := rfl
  suffix := List.suffix_rfl

section Steps

variable {isn : Wrap32} {s : TCPSender} {x : Wire}

theorem Wired.push (h : Wired isn s x) : Wired isn s.push.1 (x.record s .push) := by
  obtain ⟨hPos, hOut, hNext⟩ := s.push_stamp
  obtain ⟨hStreams, hExtends, hSent⟩ := h.streams.push
  have hIsn : s.push.1.isn = isn := s.push_untouched.isn.trans h.isn_eq
  refine { isn_eq := hIsn, consistent := h.consistent.push, streams := hStreams, tiles := ?_,
           filed := ?_, small := ?_, payloads := ?_, suffix := ?_ }
  · rw [hNext]
    exact h.tiles.append (tiles_stamp hPos s.nextSeqno)
  · intro f hMem
    obtain hMem | hMem := List.mem_append.mp hMem
    · exact (h.filed f hMem).extend hExtends
    · have hFiled := hStreams.filed
      rw [hOut, hIsn] at hFiled
      exact hFiled f (List.mem_append_right _ hMem)
  · intro f hMem
    obtain hMem | hMem := List.mem_append.mp hMem
    · exact h.small f hMem
    · apply s.push_payload_le f.msg
      have hMsg := List.mem_map_of_mem (f := Outstanding.msg) hMem
      rwa [stamp_map_msg] at hMsg
  · change (x.firsts ++ stamp s.nextSeqno s.push.2).flatMap _ = s.push.1.sentBytes x.accepted
    have hStamp : (stamp s.nextSeqno s.push.2).flatMap (fun f => f.msg.payload) =
        s.push.2.flatMap (·.payload) := by
      conv_rhs => rw [← stamp_map_msg s.nextSeqno s.push.2, List.flatMap_map]
    rw [List.flatMap_append, hStamp, hSent, ← h.payloads]
    rfl
  · obtain ⟨before, hBefore⟩ := h.suffix
    refine ⟨before, ?_⟩
    rw [hOut]
    change _ = (x.firsts ++ stamp s.nextSeqno s.push.2).map _
    rw [List.map_append, List.map_append, ← hBefore, List.append_assoc]

theorem plain_marked (s : TCPSender) (o : Outstanding) : plain (s.marked o) = plain o := by
  unfold marked
  split <;> rfl

theorem Consistent.outstanding_suffix (h : Consistent s) {c : Call} (hPush : c ≠ .push) :
    (s.call c).outstanding.map plain <:+ s.outstanding.map plain ∧
      (s.call c).nextSeqno = s.nextSeqno := by
  cases c with
  | push => exact absurd rfl hPush
  | tick ms =>
    constructor
    · change (s.tick ms).1.outstanding.map _ <:+ _
      cases hOut : s.outstanding with
      | nil => rw [h.tick_nil hOut, hOut]
      | cons o rest =>
        rw [h.tick_cons hOut]
        split
        · change (s.marked o :: rest).map _ <:+ _
          rw [List.map_cons, List.map_cons, plain_marked]
        · rw [hOut]
    · exact (h.tick_view ms).2.2
  | receive msg =>
    change (s.receive msg).outstanding.map _ <:+ _ ∧ (s.receive msg).nextSeqno = _
    obtain ⟨-, hEq⟩ | ⟨-, -, hEq⟩ | ⟨-, -, hEq⟩ := s.receive_cases msg
    · rw [hEq]
      exact ⟨List.suffix_rfl, rfl⟩
    · rw [hEq]
      exact ⟨List.suffix_rfl, rfl⟩
    · rw [hEq]
      exact ⟨(List.dropWhile_suffix _).map _, rfl⟩
  | write data | close | setError => exact ⟨List.suffix_rfl, rfl⟩

theorem Wired.call (h : Wired isn s x) {c : Call} (hOk : NoWriteAfterClose s c) :
    Wired isn (s.call c) (x.record s c) := by
  by_cases hPush : c = .push
  · subst hPush
    exact h.push
  · obtain ⟨hStreams, hSent, hFin⟩ :=
      h.streams.call_of_ne_push h.consistent (h.streams.unfinished hOk) hPush
    obtain ⟨hSuffix, hNext⟩ := h.consistent.outstanding_suffix hPush
    have hFirsts : (x.record s c).firsts = x.firsts := by
      cases c with
      | push => exact absurd rfl hPush
      | write data | close | setError | tick ms | receive msg => rfl
    have hIsn := (h.consistent.isn_call c).trans h.isn_eq
    have hConsistent := (h.consistent.call c).1
    refine { isn_eq := hIsn, consistent := hConsistent, streams := hStreams, tiles := ?_,
             filed := ?_, small := ?_, payloads := ?_, suffix := ?_ }
    · rw [hFirsts, hNext]
      exact h.tiles
    · change ∀ f ∈ _, Filed isn ((s.call c).sentBytes (accept x.accepted s c)) _ f
      rw [hFirsts, hSent, hFin]
      exact h.filed
    · rw [hFirsts]
      exact h.small
    · rw [Wire.payloads, hFirsts]
      exact h.payloads.trans hSent.symm
    · rw [hFirsts]
      exact hSuffix.trans h.suffix

theorem Wired.end_of_fin (h : Wired isn s x) {f : Outstanding} (hMem : f ∈ x.firsts)
    (hFin : f.msg.fin = true) :
    f.seqStart + f.len = s.nextSeqno ∧ s.input.closed = true ∧ x.payloads = x.accepted := by
  obtain ⟨hGenuine, hLen⟩ := h.filed f hMem
  obtain ⟨hFinSent, hEnd⟩ := hGenuine.fin hFin
  have hSyn : s.synSent = true := by
    by_contra hSyn
    have hNone := (h.streams.syn (Bool.eq_false_of_not_eq_true hSyn)).2
    rw [hFinSent] at hNone
    cases hNone
  have hNext := h.streams.next
  rw [hFinSent, hSyn, Bool.toNat_true, ← h.streams.sentBytes_length] at hNext
  refine ⟨?_, (h.streams.fin hFinSent).1, ?_⟩
  · rw [hLen, TCPSenderMessage.sequenceLength, hFin, hGenuine.syn, Bool.toNat_true, hNext, ← hEnd]
    by_cases hZero : f.seqStart = 0
    · rw [decide_eq_true hZero, Bool.toNat_true]
      omega
    · rw [decide_eq_false hZero, Bool.toNat_false]
      omega
  · rw [h.payloads, h.streams.sentBytes_of_fin hFinSent]

theorem Wired.retransmission (h : Wired isn s x) (ms : Nat) {m : TCPSenderMessage}
    (hMem : m ∈ (s.tick ms).2) :
    ∃ o ∈ s.outstanding.head?, ∃ f ∈ x.firsts, f.seqStart = o.seqStart ∧
      withoutRst m = withoutRst f.msg := by
  cases hOut : s.outstanding with
  | nil =>
    rw [h.consistent.tick_nil hOut] at hMem
    cases hMem
  | cons o rest =>
    have hMsg : m = (s.marked o).msg := by
      rw [h.consistent.tick_cons hOut] at hMem
      split at hMem
      · exact List.mem_singleton.mp hMem
      · cases hMem
    have hPlain : plain o ∈ x.firsts.map plain := by
      apply h.suffix.subset
      apply List.mem_map_of_mem
      rw [hOut]
      exact List.mem_cons_self
    obtain ⟨f, hFirst, hEq⟩ := List.mem_map.mp hPlain
    have hStart := congrArg Outstanding.seqStart hEq
    refine ⟨o, rfl, f, hFirst, hStart, ?_⟩
    rw [hMsg]
    exact congrArg Outstanding.msg ((plain_marked s o).trans hEq.symm)

end Steps

section Runs

variable (capacity : Nat) (isn : Wrap32) (initialRTOms : Nat) {calls : List Call}

theorem wired_history (hOk : Run.Along call NoWriteAfterClose
      (new (ByteStream.new capacity) isn initialRTOms) calls) :
    let reached := Run.run (Run.withHistory call Wire.record)
      (new (ByteStream.new capacity) isn initialRTOms, Wire.initial) calls
    Wired isn reached.1 reached.2 :=
  Run.invariant (P := fun y : TCPSender × Wire => Wired isn y.1 y.2)
    (fun _ _ hOk hy => hy.call hOk) (Run.along_withHistory.mpr hOk)
    (wired_new capacity isn initialRTOms)

theorem wired_run (hOk : Run.Along call NoWriteAfterClose
      (new (ByteStream.new capacity) isn initialRTOms) calls) :
    ∃ x, Wired isn (Run.run call (new (ByteStream.new capacity) isn initialRTOms) calls) x := by
  have h := wired_history capacity isn initialRTOms hOk
  dsimp only at h
  rw [Run.run_withHistory_fst] at h
  exact ⟨_, h⟩

end Runs

/-- Whatever the peer sends, the first transmissions tile the sequence space from 0 on: the
first of them has SYN, only the last one may have FIN, their payloads are the accepted bytes in
order, and `tick` only repeats the oldest one that is outstanding. -/
theorem run_wire (capacity : Nat) (isn : Wrap32) (initialRTOms : Nat) (calls : List Call)
    (hOk : Run.Along call NoWriteAfterClose (new (ByteStream.new capacity) isn initialRTOms)
      calls) :
    let reached := Run.run (Run.withHistory call Wire.record)
      (new (ByteStream.new capacity) isn initialRTOms, Wire.initial) calls
    let s := reached.1
    let x := reached.2
    Tiles Outstanding.seqStart Outstanding.len 0 x.firsts s.nextSeqno ∧
      (∀ before f after, x.firsts = before ++ f :: after →
        f.len = f.msg.sequenceLength ∧ f.msg.seqno = Wrap32.wrap f.seqStart isn ∧
        (f.msg.syn = true ↔ before = []) ∧ f.msg.payload.length ≤ maxPayloadSize ∧
        (f.msg.fin = true → after = [] ∧ s.input.isClosed = true ∧ x.payloads = x.accepted)) ∧
      x.payloads <+: x.accepted ∧
      ∀ ms, ∀ m ∈ (s.tick ms).2, ∃ o ∈ s.outstanding.head?, ∃ f ∈ x.firsts,
        f.seqStart = o.seqStart ∧ withoutRst m = withoutRst f.msg := by
  intro reached s x
  have h : Wired isn s x := wired_history capacity isn initialRTOms hOk
  refine ⟨h.tiles, ?_, ?_, fun ms m => h.retransmission ms⟩
  · intro before f after hEq
    have hMem : f ∈ x.firsts := by
      rw [hEq]
      exact List.mem_append_right _ List.mem_cons_self
    obtain ⟨hGenuine, hLen⟩ := h.filed f hMem
    have hTiles := h.tiles
    rw [hEq] at hTiles
    obtain ⟨mid, hBefore, hStart, hPos, hAfter⟩ := hTiles.split
    refine ⟨hLen, hGenuine.seqno, ?_, h.small f hMem, ?_⟩
    · rw [hGenuine.syn, decide_eq_true_iff, hBefore.eq_nil_iff, hStart, eq_comm]
    · intro hFin
      obtain ⟨hEnd, hClosed, hAll⟩ := h.end_of_fin hMem hFin
      refine ⟨hAfter.eq_nil_iff.mpr ?_, hClosed, hAll⟩
      rw [← hEnd, hStart]
  · rw [h.payloads]
    exact List.take_prefix _ _

theorem run_wire_three :
    let reached := Run.run (Run.withHistory call Wire.record)
      (new (ByteStream.new 10) ⟨4294967295⟩ 100, Wire.initial)
      [.push, .receive ⟨some ⟨0⟩, 2, false⟩, .write [1, 2, 3], .push, .tick 100, .close,
        .receive ⟨some ⟨2⟩, 5, false⟩, .push]
    reached.2.firsts.map Outstanding.seqStart = [0, 1, 3] ∧
      reached.2.payloads <+: reached.2.accepted := by
  have h := run_wire 10 ⟨4294967295⟩ 100
    [.push, .receive ⟨some ⟨0⟩, 2, false⟩, .write [1, 2, 3], .push, .tick 100, .close,
      .receive ⟨some ⟨2⟩, 5, false⟩, .push] (by decide +kernel)
  exact ⟨by decide +kernel, h.2.2.1⟩

end Minnow.TCPSender
