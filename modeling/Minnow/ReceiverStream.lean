import Minnow.ReceiverRefinement

/-! # The receiver of one short stream

`Reads isn S ended r` says that `r` has only been given genuine segments of `S`.
Below `2 ^ 31` bytes every genuine segment is near the checkpoint, so the
receiver is the reassembler behind a SYN without further conditions.
-/

namespace Minnow

/-- The acknowledgment number of the receiver, 0 before the SYN arrives. -/
def TCPReceiver.absAckno (self : TCPReceiver) : Nat :=
  if self.isn.isSome then self.ackAbs else 0

namespace TCPReceiver

structure Reads (isn : Wrap32) (S : List Byte) (ended : Bool) (r : TCPReceiver) : Prop where
  assembles : r.reassembler.Assembles S ended
  isn_eq : r.isn = none ∨ r.isn = some isn
  error : r.reassembler.output.error = false

theorem reads_withCapacity (isn : Wrap32) (S : List Byte) (ended : Bool) (capacity : Nat) :
    Reads isn S ended (withCapacity capacity) :=
  ⟨Reassembler.assembles_new S ended capacity, .inl rfl, rfl⟩

theorem ackAbs_eq (r : TCPReceiver) :
    r.ackAbs = r.reassembler.output.totalPushed + 1 + r.reassembler.output.closed.toNat := by
  unfold ackAbs
  cases hClosed : r.reassembler.output.closed <;> simp [ByteStream.isClosed, hClosed,
    ByteStream.bytesPushed]

section Rules

variable {isn : Wrap32} {S : List Byte} {ended : Bool} {start : Nat} {m : TCPSenderMessage}
  {r : TCPReceiver}

theorem Reads.extend {S' : List Byte} {ended' : Bool} (h : Reads isn S ended r)
    (hExtends : Extends S ended S' ended') : Reads isn S' ended' r :=
  ⟨h.assembles.extend hExtends, h.isn_eq, h.error⟩

theorem Reads.pop (h : Reads isn S ended r) (len : Nat) :
    Reads isn S ended (r.pop len) ∧ (r.pop len).absAckno = r.absAckno :=
  ⟨⟨h.assembles.pop len, h.isn_eq, h.error⟩, rfl⟩

theorem Reads.receive_eq (h : Reads isn S ended r) (hGenuine : Genuine isn S ended start m)
    (hRst : m.rst = false) (hShort : S.length < 2 ^ 31 - 2) :
    r.receive m =
      if r.isn.isSome || m.syn then
        ⟨r.reassembler.insert (start - 1) m.payload m.fin, some isn⟩
      else r := by
  have hStart := hGenuine.bound
  have hPushed := h.assembles.bound
  rw [h.assembles.wellFormed.next_eq] at hPushed
  have hNear : Near r start := by
    constructor <;> rw [ByteStream.bytesPushed] <;> omega
  refine receive_genuine hGenuine hRst hNear ?_ h.isn_eq
  rw [ByteStream.bytesPushed]
  omega

theorem Reads.receive (h : Reads isn S ended r) (hGenuine : Genuine isn S ended start m)
    (hRst : m.rst = false) (hShort : S.length < 2 ^ 31 - 2) :
    Reads isn S ended (r.receive m) ∧ r.absAckno ≤ (r.receive m).absAckno ∧
      (r.isn = some isn → (r.receive m).isn = some isn) ∧
      ((r.receive m).isn = none ∨ r.isn = some isn ∨ m.syn = true) ∧
      Reassembler.SameOutput r.reassembler.output (r.receive m).reassembler.output := by
  rw [h.receive_eq hGenuine hRst hShort]
  split
  · rename_i hHeard
    have hLen : S.length < 2 ^ 64 := by omega
    have hSame := Reassembler.insert_sameOutput r.reassembler (start - 1) m.payload m.fin
    have hInsert := h.assembles.insert hLen hGenuine.payload hGenuine.bound hGenuine.fin
    obtain ⟨hNext, hClosed, -⟩ :=
      h.assembles.insert_forward hLen hGenuine.bound hGenuine.fin
    have hReads : Reads isn S ended
        ⟨r.reassembler.insert (start - 1) m.payload m.fin, some isn⟩ :=
      { assembles := hInsert, isn_eq := .inr rfl, error := hSame.error.trans h.error }
    refine ⟨hReads, ?_, fun _ => rfl, .inr ?_, hSame⟩
    · rw [absAckno]
      split
      · rw [absAckno, Option.isSome_some, if_pos rfl, ackAbs_eq, ackAbs_eq,
          ← h.assembles.wellFormed.next_eq, ← hInsert.wellFormed.next_eq]
        have hFlag : r.reassembler.output.closed.toNat ≤
            (r.reassembler.insert (start - 1) m.payload m.fin).output.closed.toNat :=
          Bool.toNat_le_toNat hClosed
        exact Nat.add_le_add (Nat.succ_le_succ hNext) hFlag
      · exact Nat.zero_le _
    · rw [Bool.or_eq_true] at hHeard
      apply hHeard.imp_left
      intro hSome
      apply h.isn_eq.resolve_left
      intro hNone
      rw [hNone] at hSome
      cases hSome
  · rename_i hDeaf
    rw [Bool.not_eq_true, Bool.or_eq_false_iff] at hDeaf
    exact ⟨h, le_rfl, id, .inl (Option.isNone_iff_eq_none.mp (by simpa using hDeaf.1)),
      ⟨rfl, rfl, rfl⟩⟩

theorem Reads.ackAbs_le (h : Reads isn S ended r) : r.ackAbs ≤ 1 + S.length + ended.toNat := by
  have hBound := h.assembles.bound
  have hClosed : r.reassembler.output.closed.toNat ≤ ended.toNat :=
    Bool.toNat_le_toNat fun hClosed =>
      (h.assembles.last (h.assembles.closed_iff.mp hClosed).1).1
  rw [ackAbs_eq, ← h.assembles.wellFormed.next_eq]
  omega

theorem absAckno_of_open (hIsn : r.isn = some isn)
    (hOpen : r.reassembler.output.closed = false) :
    r.absAckno = r.reassembler.output.totalPushed + 1 := by
  rw [absAckno, hIsn, Option.isSome_some, if_pos rfl, ackAbs_eq, hOpen]
  rfl

theorem Reads.receive_progress (h : Reads isn S ended r)
    (hGenuine : Genuine isn S ended start m) (hRst : m.rst = false)
    (hShort : S.length < 2 ^ 31 - 2) (hIsn : r.isn = some isn)
    (hOpen : r.reassembler.output.closed = false)
    (hRoom : r.reassembler.nextIndex < r.reassembler.streamLimit) (hStart : start ≤ r.absAckno)
    (hEnd : r.absAckno < start + m.sequenceLength) : r.absAckno < (r.receive m).absAckno := by
  have hLen : S.length < 2 ^ 64 := by omega
  have hNext := h.assembles.wellFormed.next_eq
  have hAckno := absAckno_of_open hIsn hOpen
  have hInsert := h.assembles.insert hLen hGenuine.payload hGenuine.bound hGenuine.fin
  obtain ⟨hForward, -, hSeen⟩ := h.assembles.insert_forward hLen hGenuine.bound hGenuine.fin
  have hNext' := hInsert.wellFormed.next_eq
  rw [h.receive_eq hGenuine hRst hShort, hIsn, Option.isSome_some, Bool.true_or, if_pos rfl,
    hAckno, absAckno, Option.isSome_some, if_pos rfl, ackAbs_eq, ← hNext, ← hNext']
  rw [hAckno, ← hNext] at hStart hEnd
  have hLow : start - 1 ≤ r.reassembler.nextIndex := by omega
  have hSyn : start + m.syn.toNat = start - 1 + 1 := by
    rw [hGenuine.syn]
    by_cases hZero : start = 0
    · rw [decide_eq_true hZero, hZero]
      rfl
    · rw [decide_eq_false hZero, Bool.toNat_false]
      omega
  rw [TCPSenderMessage.sequenceLength] at hEnd
  by_cases hPayload : r.reassembler.nextIndex < start - 1 + m.payload.length
  · have hMoved := h.assembles.insert_progress hLen hGenuine.bound hGenuine.fin hLow hPayload hRoom
    omega
  · have hFin : m.fin = true := by
      cases hFin : m.fin with
      | true => rfl
      | false =>
        rw [hFin, Bool.toNat_false] at hEnd
        omega
    have hAll := (hGenuine.fin hFin).2
    have hClosed : (r.reassembler.insert (start - 1) m.payload m.fin).output.closed = true := by
      apply hInsert.closed_iff.mpr
      constructor
      · rw [hSeen, hFin, Bool.or_true]
      · have hBound := hInsert.bound
        omega
    rw [hClosed, Bool.toNat_true]
    omega

theorem Reads.send_eq (h : Reads isn S ended r) :
    r.send = { ackno := if r.isn.isSome then some (Wrap32.wrap r.absAckno isn) else none
               windowSize := r.windowSize
               rst := false } := by
  have hError : r.reassembler.output.hasError = false := h.error
  rw [send, hError]
  obtain hNone | hSome := h.isn_eq
  · rw [hNone]
    rfl
  · rw [absAckno, hSome]
    rfl

end Rules

end TCPReceiver

end Minnow
