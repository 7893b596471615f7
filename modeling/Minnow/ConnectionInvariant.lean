import Minnow.Connection
import Minnow.ReceiverStream

/-! # The invariant of a connection

Every segment in flight is a genuine one of the bytes put into segments so far,
and every acknowledgment in flight names a number the receiver has reached.
Both only grow, so nothing that is still in flight ever becomes wrong.
-/

namespace Minnow

open Library

namespace TCPSender

structure Clean (s : TCPSender) : Prop where
  error : s.input.error = false
  unmarked : ∀ o ∈ s.outstanding, o.msg.rst = false

def Call.Harmless : Call → Prop
  | .setError => False
  | .receive msg => msg.rst = false
  | _ => True

theorem Clean.marked_eq {s : TCPSender} (h : Clean s) (o : Outstanding) : s.marked o = o := by
  have hError : s.input.hasError = false := h.error
  rw [marked, hError, if_neg Bool.false_ne_true]

theorem Clean.call {s : TCPSender} (h : Clean s) (hConsistent : Consistent s) {c : Call}
    (hHarmless : c.Harmless) : Clean (s.call c) := by
  cases c with
  | push =>
    refine push_rule (P := fun t _ => Clean t) ?_ h
    intro t out _ _ ht
    constructor
    · exact ht.error
    · intro o hMem
      obtain hMem | hMem := List.mem_append.mp hMem
      · exact ht.unmarked o hMem
      · rw [List.mem_singleton.mp hMem]
        exact ht.error
  | tick ms =>
    change Clean (s.tick ms).1
    cases hOut : s.outstanding with
    | nil =>
      rw [hConsistent.tick_nil hOut]
      exact h
    | cons o rest =>
      rw [hConsistent.tick_cons hOut]
      split
      · constructor
        · exact h.error
        · intro p hMem
          rw [expired, h.marked_eq o, ← hOut] at hMem
          exact h.unmarked p hMem
      · exact ⟨h.error, h.unmarked⟩
  | receive msg =>
    change Clean (s.receive msg)
    obtain ⟨hRst, -⟩ | ⟨-, -, hEq⟩ | ⟨-, -, hEq⟩ := s.receive_cases msg
    · exact absurd (hHarmless.symm.trans hRst) Bool.false_ne_true
    · rw [hEq]
      exact ⟨h.error, h.unmarked⟩
    · rw [hEq]
      exact ⟨h.error, fun o hMem => h.unmarked o ((List.dropWhile_sublist _).subset hMem)⟩
  | write data | close => exact ⟨h.error, h.unmarked⟩
  | setError => exact hHarmless.elim

end TCPSender

namespace Connection

def sent (c : Connection) : List Byte := c.sender.sentBytes c.accepted

/-- A segment of the connection, all of whose numbers have been used. -/
def Travels (isn : Wrap32) (c : Connection) (m : TCPSenderMessage) : Prop :=
  m.rst = false ∧ ∃ start, Genuine isn c.sent c.sender.finSent start m ∧
    start + m.sequenceLength ≤ c.sender.nextSeqno

/-- An acknowledgment of a number that the receiver has reached. -/
def Reached (isn : Wrap32) (c : Connection) (msg : TCPReceiverMessage) : Prop :=
  msg.rst = false ∧ ∀ ackno ∈ msg.ackno, c.receiver.isn = some isn ∧
    ∃ n ≤ c.receiver.absAckno, ackno = Wrap32.wrap n isn

structure Sound (isn : Wrap32) (c : Connection) : Prop where
  isn_eq : c.sender.isn = isn
  consistent : c.sender.Consistent
  clean : c.sender.Clean
  streams : c.sender.Streams c.accepted
  short : c.accepted.length < 2 ^ 31 - 2
  segments : ∀ m ∈ c.segments, c.Travels isn m
  reads : c.receiver.Reads isn c.sent c.sender.finSent
  heard : c.receiver.isn = some isn → c.sender.synSent = true
  delivered : c.delivered = c.sent.take c.receiver.reassembler.output.totalPopped
  acks : ∀ msg ∈ c.acks, c.Reached isn msg
  ackno_le : c.sender.receiverAckno ≤ c.receiver.absAckno

theorem sound_new (sendCapacity receiveCapacity : Nat) (isn : Wrap32) (initialRTOms : Nat) :
    Sound isn (new sendCapacity receiveCapacity isn initialRTOms) where
  isn_eq := rfl
  consistent := TCPSender.consistent_new _ _ _
  clean := ⟨rfl, fun o hMem => (List.not_mem_nil hMem).elim⟩
  streams := TCPSender.streams_new sendCapacity isn initialRTOms
  short := Nat.zero_lt_of_lt (show 0 < 2 ^ 31 - 2 by decide)
  segments m hMem := (List.not_mem_nil hMem).elim
  reads := TCPReceiver.reads_withCapacity isn _ _ receiveCapacity
  heard h := by cases h
  delivered := rfl
  acks msg hMem := (List.not_mem_nil hMem).elim
  ackno_le := Nat.zero_le _

section Steps

variable {isn : Wrap32} {c : Connection}

theorem Sound.sent_length_le (h : Sound isn c) : c.sent.length ≤ c.accepted.length := by
  rw [sent, h.streams.sentBytes_length]
  exact h.streams.popped_le

theorem Sound.sent_short (h : Sound isn c) : c.sent.length < 2 ^ 31 - 2 :=
  h.sent_length_le.trans_lt h.short

theorem Sound.absAckno_le (h : Sound isn c) : c.receiver.absAckno ≤ c.sender.nextSeqno := by
  rw [TCPReceiver.absAckno]
  obtain hNone | hSome := h.reads.isn_eq
  · rw [hNone]
    exact Nat.zero_le _
  · have hAck := h.reads.ackAbs_le
    rw [sent, h.streams.sentBytes_length] at hAck
    rw [hSome, Option.isSome_some, if_pos rfl, h.streams.next, h.heard hSome, Bool.toNat_true]
    exact hAck

theorem Sound.next_lt (h : Sound isn c) : c.sender.nextSeqno < 2 ^ 31 := by
  have hNext := h.streams.next_le
  have hShort := h.short
  omega

theorem Sound.callSender (h : Sound isn c) {call : TCPSender.Call} (hHarmless : call.Harmless)
    (hOpen : ∀ data, call = .write data → c.sender.finSent = false)
    (hShort : (c.sender.accept c.accepted call).length < 2 ^ 31 - 2)
    (hAck : (c.sender.call call).receiverAckno ≤ c.receiver.absAckno) :
    Sound isn (c.callSender call) := by
  obtain ⟨hStreams, hExtends⟩ := h.streams.call h.consistent hOpen
  obtain ⟨hConsistent, hForward⟩ := h.consistent.call call
  have hClean := h.clean.call h.consistent hHarmless
  have hIsn := (h.consistent.isn_call call).trans h.isn_eq
  refine { isn_eq := hIsn, consistent := hConsistent, clean := hClean, streams := hStreams,
           short := hShort, segments := ?_, reads := h.reads.extend hExtends, heard := ?_,
           delivered := ?_, acks := h.acks, ackno_le := hAck }
  · intro m hMem
    obtain hMem | hMem := List.mem_append.mp hMem
    · obtain ⟨hRst, start, hGenuine, hEnd⟩ := h.segments m hMem
      exact ⟨hRst, start, hGenuine.extend hExtends, hEnd.trans hForward.2⟩
    · obtain ⟨o, hOut, rfl⟩ := h.consistent.outstanding_of_answer hMem
      obtain ⟨hGenuine, hLen⟩ := hStreams.filed o hOut
      obtain ⟨lo, -, hTiles⟩ := hConsistent.tiles
      have hEnd := (hTiles.bounds hOut).2
      rw [hLen] at hEnd
      rw [hIsn] at hGenuine
      exact ⟨hClean.unmarked o hOut, o.seqStart, hGenuine, hEnd⟩
  · intro hHeard
    have hOld := h.streams.synSent_iff.mp (h.heard hHeard)
    exact hStreams.synSent_iff.mpr (hOld.trans_le hForward.2)
  · obtain ⟨rest, hRest⟩ := hExtends.stream
    have hPopped : c.receiver.reassembler.output.totalPopped ≤
        (c.sender.sentBytes c.accepted).length :=
      h.reads.assembles.popped_le.trans h.reads.assembles.bound
    have hTake : (c.sender.sentBytes c.accepted ++ rest).take
        c.receiver.reassembler.output.totalPopped = c.sent.take _ :=
      List.take_append_of_le_length hPopped
    rw [hRest] at hTake
    exact h.delivered.trans hTake.symm

theorem Sound.deliverSegment (h : Sound isn c) {m : TCPSenderMessage} (hMem : m ∈ c.segments) :
    Sound isn { c with receiver := c.receiver.receive m } ∧
      c.receiver.absAckno ≤ (c.receiver.receive m).absAckno := by
  obtain ⟨hRst, start, hGenuine, hEnd⟩ := h.segments m hMem
  obtain ⟨hReads, hForward, hIsn, hNew, hSame⟩ := h.reads.receive hGenuine hRst h.sent_short
  refine ⟨{ h with reads := hReads, heard := ?_, delivered := ?_, acks := ?_, ackno_le := ?_ },
    hForward⟩
  · intro hHeard
    obtain hNone | hOld | hSyn := hNew
    · exact absurd (hNone.symm.trans hHeard) (by simp)
    · exact h.heard hOld
    · apply h.streams.synSent_iff.mpr
      rw [TCPSenderMessage.sequenceLength, hSyn, Bool.toNat_true] at hEnd
      omega
  · change c.delivered = c.sent.take (c.receiver.receive m).reassembler.output.totalPopped
    rw [hSame.popped]
    exact h.delivered
  · intro msg hAck
    obtain ⟨hRst, hReached⟩ := h.acks msg hAck
    constructor
    · exact hRst
    · intro ackno hAckno
      obtain ⟨hHeard, n, hn, hWrap⟩ := hReached ackno hAckno
      exact ⟨hIsn hHeard, n, hn.trans hForward, hWrap⟩
  · exact h.ackno_le.trans hForward

theorem Sound.acknowledge (h : Sound isn c) : Sound isn (c.step .acknowledge) := by
  refine { h with acks := ?_ }
  intro msg hMem
  obtain hMem | hMem := List.mem_append.mp hMem
  · exact h.acks msg hMem
  · rw [List.mem_singleton.mp hMem, h.reads.send_eq]
    constructor
    · rfl
    · intro ackno hAckno
      obtain hNone | hSome := h.reads.isn_eq
      · rw [hNone] at hAckno
        cases hAckno
      · rw [hSome] at hAckno
        obtain rfl : _ = ackno := by simpa using hAckno
        exact ⟨hSome, c.receiver.absAckno, le_rfl, rfl⟩

theorem Sound.absAckno_of_le (h : Sound isn c) {msg : TCPReceiverMessage} {n : Nat}
    (hn : n ≤ c.receiver.absAckno) (hAckno : msg.ackno = some (Wrap32.wrap n isn)) :
    c.sender.absAckno msg = n := by
  have hNext := h.next_lt
  have hAbs := h.absAckno_le
  have hOld := h.consistent.ackno_le
  rw [TCPSender.absAckno, hAckno, h.isn_eq]
  exact Wrap32.unwrap_wrap isn (by omega) (by omega) (by omega)

theorem Sound.deliverAck (h : Sound isn c) {msg : TCPReceiverMessage} (hMem : msg ∈ c.acks) :
    Sound isn (c.callSender (.receive msg)) := by
  have hReached := h.acks msg hMem
  refine h.callSender hReached.1 nofun h.short ?_
  change (c.sender.receive msg).receiverAckno ≤ _
  obtain ⟨hRst, -⟩ | ⟨-, -, hEq⟩ | ⟨-, -, hEq⟩ := c.sender.receive_cases msg
  · exact absurd (hReached.1.symm.trans hRst) Bool.false_ne_true
  · rw [hEq]
    exact h.ackno_le
  · rw [hEq]
    change c.sender.absAckno msg ≤ _
    cases hAckno : msg.ackno with
    | none =>
      rw [TCPSender.absAckno, hAckno]
      exact Nat.zero_le _
    | some ackno =>
      obtain ⟨-, n, hn, rfl⟩ := hReached.2 ackno hAckno
      rw [h.absAckno_of_le hn hAckno]
      exact hn

theorem Sound.step (h : Sound isn c) {a : Step} (hOk : Allowed c a) : Sound isn (c.step a) := by
  have hTick : ∀ ms, (c.sender.call (.tick ms)).receiverAckno ≤ c.receiver.absAckno :=
    fun ms => (h.consistent.tick_view ms).1.trans_le h.ackno_le
  cases a with
  | write data =>
    have hOpen : c.sender.NoWriteAfterClose (.write data) := hOk.1
    exact h.callSender trivial (h.streams.unfinished hOpen) hOk.2 h.ackno_le
  | close => exact h.callSender trivial nofun h.short h.ackno_le
  | push =>
    refine h.callSender trivial nofun h.short ?_
    exact c.sender.push_untouched.receiverAckno.trans_le h.ackno_le
  | tick ms => exact h.callSender trivial nofun h.short (hTick ms)
  | pop len =>
    obtain ⟨hReads, hSame⟩ := h.reads.pop len
    refine { h with reads := hReads, delivered := ?_ }
    rw [Connection.step, h.delivered]
    exact h.reads.assembles.take_append_pop len
  | deliverSegment i =>
    rw [Connection.step]
    cases hGet : c.segments[i]? with
    | none => exact h
    | some m => exact (h.deliverSegment (List.mem_of_getElem? hGet)).1
  | acknowledge => exact h.acknowledge
  | deliverAck i =>
    rw [Connection.step]
    cases hGet : c.acks[i]? with
    | none => exact h
    | some msg => exact h.deliverAck (List.mem_of_getElem? hGet)

end Steps

theorem sound_run (sendCapacity receiveCapacity : Nat) (isn : Wrap32) (initialRTOms : Nat)
    {steps : List Step}
    (hOk : Run.Along step Allowed (new sendCapacity receiveCapacity isn initialRTOms) steps) :
    Sound isn (Run.run step (new sendCapacity receiveCapacity isn initialRTOms) steps) :=
  Run.invariant (fun _ _ hOk h => h.step hOk) hOk
    (sound_new sendCapacity receiveCapacity isn initialRTOms)

end Connection

end Minnow
