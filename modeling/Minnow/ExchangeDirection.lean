import Minnow.ConnectionInvariant
import Minnow.Exchange

/-! # One direction of an exchange

Behind each direction stands a connection: its segments include everything of
the sender that is still on the way, its acknowledgments everything that travels
back. Bytes written after the FIN never leave, so the connection ignores them.
-/

namespace Minnow

open Library

/-- It occupies no sequence number and reports no error. -/
def TCPSenderMessage.Hollow (m : TCPSenderMessage) : Prop :=
  m.sequenceLength = 0 ∧ m.rst = false

namespace TCPReceiver

theorem streamIndex_lt (r : TCPReceiver) (isn : Wrap32) (m : TCPSenderMessage) :
    r.streamIndex isn m < 2 ^ 64 := by
  rw [streamIndex]
  split
  · decide
  · exact u64_lt _

theorem Reads.receive_hollow {isn : Wrap32} {S : List Byte} {ended : Bool} {r : TCPReceiver}
    (h : Reads isn S ended r) {m : TCPSenderMessage} (hHollow : m.Hollow) : r.receive m = r := by
  obtain ⟨hLen, hRst⟩ := hHollow
  rw [TCPSenderMessage.sequenceLength] at hLen
  have hSyn : m.syn = false := Bool.toNat_eq_zero.mp (by omega)
  have hFin : m.fin = false := Bool.toNat_eq_zero.mp (by omega)
  have hPayload : m.payload = [] := List.length_eq_zero_iff.mp (by omega)
  have hIsn : r.isnAfter m = r.isn := by
    rw [isnAfter, hSyn]
    rfl
  rw [TCPReceiver.receive, hRst, if_neg Bool.false_ne_true, hIsn, hPayload, hFin]
  cases hSome : r.isn with
  | none => rfl
  | some isn' =>
    dsimp only
    rw [h.assembles.insert_nil (r.streamIndex_lt isn' m), ← hSome]

end TCPReceiver

namespace ByteStream

/-- The stream as if nothing that is still in the buffer had been pushed. -/
def settled (self : ByteStream) : ByteStream :=
  { self with
    buffer := []
    totalPushed := self.totalPopped
    buffer_le := Nat.zero_le _
    pushed_eq := rfl }

theorem settled_of_empty {s : ByteStream} (h : s.buffer = []) : s.settled = s := by
  have hPushed := s.pushed_eq
  rw [h, List.length_nil, Nat.add_zero] at hPushed
  exact ByteStream.ext rfl rfl h.symm hPushed.symm rfl rfl

end ByteStream

namespace TCPSender

def settle (s : TCPSender) : TCPSender := { s with input := s.input.settled }

/-- The sender without the bytes written after its FIN. -/
def still (s : TCPSender) : TCPSender := if s.finSent then s.settle else s

section Still

variable {s : TCPSender}

theorem still_of_open (h : s.finSent = false) : s.still = s := by
  rw [still, h, if_neg Bool.false_ne_true]

theorem still_of_fin (h : s.finSent = true) : s.still = s.settle := by
  rw [still, h, if_pos rfl]

theorem still_of_empty (h : s.finSent = true → s.input.buffer = []) : s.still = s := by
  cases hFin : s.finSent with
  | false => exact still_of_open hFin
  | true => rw [still_of_fin hFin, settle, ByteStream.settled_of_empty (h hFin)]

@[simp] theorem still_isn (s : TCPSender) : s.still.isn = s.isn := by
  rw [still]
  split <;> rfl

@[simp] theorem still_nextSeqno (s : TCPSender) : s.still.nextSeqno = s.nextSeqno := by
  rw [still]
  split <;> rfl

@[simp] theorem still_error (s : TCPSender) : s.still.input.error = s.input.error := by
  rw [still]
  split <;> rfl

theorem settle_tick (s : TCPSender) (ms : Nat) :
    s.settle.tick ms = ((s.tick ms).1.settle, (s.tick ms).2) := by
  cases hTimer : s.timerRunning with
  | false => rw [tick_idle hTimer, tick_idle (s := s.settle) hTimer]
  | true =>
    cases hOut : s.outstanding with
    | nil => simp only [tick, settle, hTimer, hOut, Bool.not_true, Bool.false_eq_true, if_false]
    | cons o rest =>
      rw [tick_eq hTimer hOut, tick_eq (s := s.settle) hTimer hOut]
      change (if s.rto ≤ u64 (s.timerElapsedMs + ms) then _ else _) = _
      split <;> rfl

theorem settle_acknowledge (s : TCPSender) (n : Nat) :
    s.settle.acknowledge n = (s.acknowledge n).settle := by
  rw [acknowledge_eq, acknowledge_eq, apply_ite settle]
  rfl

theorem settle_receive (s : TCPSender) (msg : TCPReceiverMessage) :
    s.settle.receive msg = (s.receive msg).settle := by
  have hSome : ∀ n window,
      ({ s.settle.acknowledge n with receiverWindow := window } : TCPSender) =
        ({ s.acknowledge n with receiverWindow := window } : TCPSender).settle := by
    intro n window
    rw [settle_acknowledge]
    rfl
  obtain ⟨ackno, window, rst⟩ := msg
  cases rst with
  | true => rfl
  | false =>
    cases ackno with
    | none => rfl
    | some ackno => exact hSome (ackno.unwrap s.isn s.receiverAckno) window.toNat

/-- After the FIN a write changes nothing that any other call looks at. -/
theorem settle_answer (hFin : s.finSent = true) {c : Call} (hWrite : ∀ data, c ≠ .write data) :
    s.settle.answer c = ((s.call c).settle, (s.answer c).2) := by
  cases c with
  | write data => exact absurd rfl (hWrite data)
  | close | setError => rfl
  | push =>
    change s.settle.push = (s.push.1.settle, s.push.2)
    rw [push_of_fin hFin, push_of_fin (s := s.settle) hFin]
  | tick ms => exact s.settle_tick ms
  | receive msg => exact Prod.ext (s.settle_receive msg) rfl

theorem still_write (hFin : s.finSent = true) (data : List Byte) :
    (s.call (.write data)).still = s.still := by
  rw [still_of_fin hFin, still_of_fin (s := s.call (.write data)) hFin]
  rfl

theorem still_pushed_le (s : TCPSender) : s.still.input.totalPushed ≤ s.input.totalPushed := by
  rw [still]
  split
  · rw [s.input.pushed_eq]
    exact Nat.le_add_right _ _
  · exact le_rfl

/-- The calls that neither hear from the receiver nor report an error. -/
def Call.Local : Call → Prop
  | .setError | .receive _ => False
  | _ => True

theorem Call.Local.harmless {c : Call} (h : c.Local) : c.Harmless := by
  cases c with
  | setError | receive msg => exact h.elim
  | write data | close | push | tick ms => trivial

theorem Consistent.call_receiverAckno (h : Consistent s) {c : Call} (hLocal : c.Local) :
    (s.call c).receiverAckno = s.receiverAckno := by
  cases c with
  | setError | receive msg => exact hLocal.elim
  | write data | close => rfl
  | push => exact s.push_untouched.receiverAckno
  | tick ms => exact (h.tick_view ms).1

end Still

end TCPSender

/-- The connection `c` has everything that is on the way `there`, from the sender to the
receiver, and `back`. -/
structure Behind (c : Connection) (s : TCPSender) (r : TCPReceiver) (there back : List TCPMessage) :
    Prop where
  sound : Connection.Sound s.isn c
  sender : c.sender = s.still
  receiver : c.receiver = r
  segments : ∀ m ∈ there, m.sender ∈ c.segments ∨ m.sender.Hollow
  acks : ∀ m ∈ back, m.receiver ∈ c.acks

def Linked (s : TCPSender) (r : TCPReceiver) (there back : List TCPMessage) : Prop :=
  ∃ c, Behind c s r there back

section Linked

open TCPSender

variable {c : Connection} {s : TCPSender} {r : TCPReceiver} {there back : List TCPMessage}

theorem Behind.still_answer (h : Behind c s r there back) {k : Call}
    (hLive : ∀ data, k = .write data → s.finSent = false) :
    s.still.answer k = ((s.call k).still, (s.answer k).2) := by
  have hStreams := h.sound.streams
  have hConsistent := h.sound.consistent
  rw [h.sender] at hStreams hConsistent
  cases hFin : s.finSent with
  | false =>
    rw [still_of_open hFin] at hStreams hConsistent ⊢
    obtain ⟨hAfter, -⟩ := hStreams.call hConsistent hLive
    rw [still_of_empty fun hFin => (hAfter.fin hFin).2]
    rfl
  | true =>
    have hWrite : ∀ data, k ≠ .write data :=
      fun data hEq => Bool.false_ne_true ((hLive data hEq).symm.trans hFin)
    have hAnswer := settle_answer hFin hWrite
    rw [still_of_fin hFin] at hStreams hConsistent ⊢
    obtain ⟨-, hExtends⟩ := hStreams.call hConsistent fun data hEq => absurd hEq (hWrite data)
    have hEnded := (hExtends.final hFin).2
    rw [call, hAnswer] at hEnded
    have hKept : (s.call k).finSent = true := hEnded
    rw [hAnswer, still_of_fin hKept]

theorem Behind.call (h : Behind c s r there back) {k : Call}
    (hLive : ∀ data, k = .write data → s.finSent = false)
    (hSound : Connection.Sound s.isn (c.callSender k)) {out : List TCPMessage}
    (hOut : out.map TCPMessage.sender = (s.answer k).2) :
    Behind (c.callSender k) (s.call k) r (there ++ out) back := by
  have hAnswer := h.still_answer hLive
  have hIsn : (s.call k).isn = s.isn := by
    have hSame := h.sound.consistent.isn_call k
    rw [h.sender, TCPSender.call, hAnswer, still_isn, still_isn] at hSame
    exact hSame
  refine { sound := hIsn ▸ hSound, sender := ?_, receiver := h.receiver, segments := ?_,
           acks := h.acks }
  · rw [Connection.callSender, h.sender, TCPSender.call, hAnswer]
  · intro m hMem
    obtain hMem | hMem := List.mem_append.mp hMem
    · exact (h.segments m hMem).imp_left fun hOld => List.mem_append_left _ hOld
    · left
      apply List.mem_append_right
      rw [h.sender, hAnswer, ← hOut]
      exact List.mem_map_of_mem hMem

theorem Linked.error (h : Linked s r there back) : s.input.error = false := by
  obtain ⟨c, h⟩ := h
  rw [← still_error, ← h.sender]
  exact h.sound.clean.error

theorem Linked.call (h : Linked s r there back) {k : Call} (hLocal : k.Local)
    (hShort : (s.call k).input.totalPushed < 2 ^ 31 - 2) (msg : TCPReceiverMessage) :
    Linked (s.call k) r (there ++ (s.answer k).2.map fun m => ⟨m, msg⟩) back := by
  obtain ⟨c, h⟩ := h
  by_cases hLive : ∀ data, k = .write data → s.finSent = false
  · have hOpen : ∀ data, k = .write data → c.sender.finSent = false := by
      intro data hEq
      rw [h.sender, still_of_open (hLive data hEq)]
      exact hLive data hEq
    have hAccepted := (h.sound.streams.call h.sound.consistent hOpen).1.pushed
    have hPushed : (c.sender.call k).input.totalPushed ≤ (s.call k).input.totalPushed := by
      rw [h.sender, TCPSender.call, h.still_answer hLive]
      exact (s.call k).still_pushed_le
    refine ⟨c.callSender k, h.call hLive ?_ (List.map_map.trans (List.map_id _))⟩
    refine h.sound.callSender hLocal.harmless hOpen ?_ ?_
    · rw [← hAccepted]
      exact hPushed.trans_lt hShort
    · rw [h.sound.consistent.call_receiverAckno hLocal]
      exact h.sound.ackno_le
  · -- a write after the FIN
    simp only [not_forall] at hLive
    obtain ⟨data, rfl, hFin⟩ := hLive
    have hStill := still_write (Bool.eq_true_of_not_eq_false hFin) data
    change Linked _ r (there ++ []) back
    rw [List.append_nil]
    exact ⟨c, { h with sender := h.sender.trans hStill.symm }⟩

theorem Linked.hear (h : Linked s r there back) {m : TCPMessage} (hMem : m ∈ back) :
    Linked (s.receive m.receiver) r there back := by
  obtain ⟨c, h⟩ := h
  have hSound := h.sound.deliverAck (h.acks m hMem)
  have hNone : ([] : List TCPMessage).map TCPMessage.sender = (s.answer (.receive m.receiver)).2 :=
    rfl
  have hCall := h.call (k := .receive m.receiver) nofun hSound hNone
  rw [List.append_nil] at hCall
  exact ⟨_, hCall⟩

theorem Linked.receive (h : Linked s r there back) {m : TCPMessage} (hMem : m ∈ there) :
    Linked s (r.receive m.sender) there back := by
  obtain ⟨c, h⟩ := h
  obtain hSegment | hHollow := h.segments m hMem
  · obtain ⟨hSound, -⟩ := h.sound.deliverSegment hSegment
    rw [h.receiver] at hSound
    exact ⟨_, { h with sound := hSound, receiver := rfl }⟩
  · have hReads := h.sound.reads
    rw [h.receiver] at hReads
    rw [hReads.receive_hollow hHollow]
    exact ⟨c, h⟩

theorem Linked.acknowledge (h : Linked s r there back) {out : List TCPMessage}
    (hOut : ∀ m ∈ out, m.receiver = r.send) : Linked s r there (back ++ out) := by
  obtain ⟨c, h⟩ := h
  refine ⟨_, { h with sound := h.sound.acknowledge, acks := ?_ }⟩
  intro m hMem
  obtain hMem | hMem := List.mem_append.mp hMem
  · exact List.mem_append_left _ (h.acks m hMem)
  · apply List.mem_append_right
    rw [hOut m hMem, h.receiver]
    exact List.mem_singleton_self _

theorem Linked.pop (h : Linked s r there back) (len : Nat) : Linked s (r.pop len) there back := by
  obtain ⟨c, h⟩ := h
  refine ⟨_, { h with sound := h.sound.step (a := .pop len) trivial, receiver := ?_ }⟩
  rw [Connection.step, h.receiver]

theorem Linked.mono (h : Linked s r there back) {there' back' : List TCPMessage}
    (hThere : ∀ m ∈ there', m ∈ there ∨ m.sender.Hollow) (hBack : back' ⊆ back) :
    Linked s r there' back' := by
  obtain ⟨c, h⟩ := h
  refine ⟨c, { h with segments := ?_, acks := fun m hMem => h.acks m (hBack hMem) }⟩
  intro m hMem
  obtain hOld | hHollow := hThere m hMem
  · exact h.segments m hOld
  · exact .inr hHollow

theorem linked_new (cfg cfg' : TCPConfig) :
    Linked (TCPPeer.new cfg).sender (TCPPeer.new cfg').receiver [] [] :=
  ⟨Connection.new cfg.sendCapacity cfg'.recvCapacity cfg.isn cfg.rtTimeout.toNat,
    Connection.sound_new _ _ _ _, rfl, rfl, nofun, nofun⟩

end Linked

end Minnow
