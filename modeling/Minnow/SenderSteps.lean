import Minnow.Library.Tiling
import Minnow.TCPSender

/-! # What each call of the sender does

The loop of `push` is described once: `nextMsg` is the segment of one pass,
`emit` the state after it, and `push_rule` the induction over the passes.
An acknowledgment and an expiry of the timer have one equation each.
-/

namespace Minnow.TCPSender

open Library

/-- The window `fill_window` works with: an advertised zero counts as one. -/
def effectiveWindow (self : TCPSender) : Nat := max 1 self.receiverWindow

def nextPayload (s : TCPSender) (win : Nat) : List Byte :=
  s.input.buffer.take (min (win - s.bytesInFlight - (!s.synSent).toNat) maxPayloadSize)

def nextFin (s : TCPSender) (win : Nat) : Bool :=
  !s.finSent && (s.input.closed && decide (s.nextPayload win = s.input.buffer)) &&
    decide (s.bytesInFlight + ((!s.synSent).toNat + (s.nextPayload win).length + 1) ≤ win)

def nextMsg (s : TCPSender) (win : Nat) : TCPSenderMessage where
  seqno := Wrap32.wrap s.nextSeqno s.isn
  syn := !s.synSent
  payload := s.nextPayload win
  fin := s.nextFin win
  rst := s.input.error

def drafted (s : TCPSender) (win : Nat) : TCPSender :=
  { s with
    input := s.input.pop (s.nextPayload win).length
    synSent := true
    finSent := s.finSent || s.nextFin win }

/-- The state after `nextMsg` has been sent. -/
def emit (s : TCPSender) (win : Nat) : TCPSender :=
  { s.drafted win with
    outstanding := s.outstanding ++ [⟨s.nextMsg win, s.nextSeqno, (s.nextMsg win).sequenceLength⟩]
    bytesInFlight := s.bytesInFlight + (s.nextMsg win).sequenceLength
    nextSeqno := s.nextSeqno + (s.nextMsg win).sequenceLength
    timerRunning := true
    timerElapsedMs := if s.timerRunning then s.timerElapsedMs else 0 }

theorem remainingSpace_eq (s : TCPSender) (win used : Nat) :
    s.remainingSpace win used = win - s.bytesInFlight - used := by
  unfold remainingSpace
  dsimp only
  split
  · split <;> omega
  · omega

theorem draft_eq (s : TCPSender) (win : Nat) :
    s.draft win = ({ s with input := s.input.pop (s.nextPayload win).length, synSent := true },
      { s.nextMsg win with fin := false }) := by
  have hBytes : ∀ n, (if 0 < n then s.input.readBytes n else (s.input, [])) =
      (s.input.pop n, s.input.buffer.take n) := by
    intro n
    split
    · exact ByteStream.readBytes_eq s.input n
    · have hZero : n = 0 := by omega
      rw [hZero, ByteStream.pop_zero, List.take_zero]
  have hPop : s.input.pop (s.nextPayload win).length =
      s.input.pop (min (win - s.bytesInFlight - (!s.synSent).toNat) maxPayloadSize) := by
    rw [nextPayload, List.length_take, ByteStream.pop_min]
  simp only [draft, hBytes, remainingSpace_eq, hPop]
  rfl

theorem nextMsg_length (s : TCPSender) (win : Nat) :
    (s.nextMsg win).sequenceLength =
      (!s.synSent).toNat + (s.nextPayload win).length + (s.nextFin win).toNat := rfl

theorem nextPayload_isPrefix (s : TCPSender) (win : Nat) : s.nextPayload win <+: s.input.buffer :=
  List.take_prefix _ _

theorem nextPayload_eq_iff (s : TCPSender) (win : Nat) :
    s.nextPayload win = s.input.buffer ↔ s.input.buffer.drop (s.nextPayload win).length = [] := by
  obtain ⟨rest, hRest⟩ := s.nextPayload_isPrefix win
  have hDrop : s.input.buffer.drop (s.nextPayload win).length = rest := by
    rw [← hRest, List.drop_left]
  rw [hDrop]
  constructor
  · intro hEq
    rw [hEq] at hRest
    exact List.append_right_eq_self.mp hRest
  · rintro rfl
    rw [← hRest, List.append_nil]

theorem nextSegment_eq (s : TCPSender) (win : Nat) :
    s.nextSegment win = (s.drafted win, s.nextMsg win) := by
  have hFinished : (s.input.pop (s.nextPayload win).length).isFinished =
      (s.input.closed && decide (s.nextPayload win = s.input.buffer)) := by
    rw [ByteStream.isFinished, ByteStream.pop_closed, ByteStream.pop_buffer]
    congr 1
    rw [Bool.eq_iff_iff, List.isEmpty_iff, decide_eq_true_iff, nextPayload_eq_iff]
  have hLen : ({ s.nextMsg win with fin := false } : TCPSenderMessage).sequenceLength =
      (!s.synSent).toNat + (s.nextPayload win).length := rfl
  rw [nextSegment, draft_eq]
  simp only [addFin, hFinished, hLen, Nat.add_assoc]
  cases hFin : s.nextFin win with
  | true =>
    have hCond := hFin
    rw [nextFin, Nat.add_assoc] at hCond
    rw [if_pos hCond, drafted, hFin, Bool.or_true]
    exact congrArg _ (by rw [nextMsg, hFin])
  | false =>
    have hCond := hFin
    rw [nextFin, Nat.add_assoc] at hCond
    rw [if_neg (by rw [hCond]; exact Bool.false_ne_true), drafted, hFin, Bool.or_false]
    exact congrArg _ (by rw [nextMsg, hFin])

theorem startTimerIfNeeded_of_outstanding {s : TCPSender} (h : s.outstanding ≠ []) :
    s.startTimerIfNeeded = { s with
      timerRunning := true
      timerElapsedMs := if s.timerRunning then s.timerElapsedMs else 0 } := by
  have hNonempty : s.outstanding.isEmpty = false := by simpa using h
  unfold startTimerIfNeeded
  cases hTimer : s.timerRunning with
  | false => simp [hNonempty]
  | true =>
    rw [if_neg (by simp), if_pos rfl, ← hTimer]

theorem sendSegment_drafted {s : TCPSender} {win : Nat}
    (h : 0 < (s.nextMsg win).sequenceLength) :
    (s.drafted win).sendSegment (s.nextMsg win) = (s.emit win, s.nextMsg win) := by
  have hMsg : (if (s.drafted win).input.hasError then { s.nextMsg win with rst := true }
      else s.nextMsg win) = s.nextMsg win := by
    change (if s.input.error then { s.nextMsg win with rst := true } else s.nextMsg win) = _
    cases hError : s.input.error with
    | false => rfl
    | true => simp [nextMsg, hError]
  simp only [sendSegment, hMsg, if_pos h]
  rw [startTimerIfNeeded_of_outstanding (by simp)]
  rfl

structure Ready (s : TCPSender) (win : Nat) : Prop where
  room : s.bytesInFlight < win
  pos : 0 < (s.nextMsg win).sequenceLength

section Pass

variable {s : TCPSender} {win : Nat}

theorem emit_bytesInFlight_le (h : s.bytesInFlight < win) :
    s.bytesInFlight + (s.nextMsg win).sequenceLength ≤ win := by
  have hPayload : (s.nextPayload win).length ≤ win - s.bytesInFlight - (!s.synSent).toNat := by
    rw [nextPayload, List.length_take]
    omega
  have hSyn := Bool.toNat_le (!s.synSent)
  rw [nextMsg_length]
  cases hFin : s.nextFin win with
  | false =>
    rw [Bool.toNat_false]
    omega
  | true =>
    rw [nextFin, Bool.and_eq_true, decide_eq_true_iff] at hFin
    rw [Bool.toNat_true]
    omega

theorem nextPayload_length_le (s : TCPSender) (win : Nat) :
    (s.nextPayload win).length ≤ maxPayloadSize := by
  rw [nextPayload, List.length_take]
  omega

theorem buffer_eq_append (s : TCPSender) (win : Nat) :
    s.input.buffer = s.nextPayload win ++ (s.emit win).input.buffer := by
  obtain ⟨rest, hRest⟩ := s.nextPayload_isPrefix win
  change _ = s.nextPayload win ++ (s.input.pop (s.nextPayload win).length).buffer
  rw [ByteStream.pop_buffer, ← hRest, List.drop_left]

theorem closed_of_nextFin (h : s.nextFin win = true) :
    s.finSent = false ∧ s.input.closed = true ∧ (s.emit win).input.buffer = [] := by
  simp only [nextFin, Bool.and_eq_true, decide_eq_true_iff, Bool.not_eq_true'] at h
  obtain ⟨⟨hFin, hClosed, hAll⟩, -⟩ := h
  refine ⟨hFin, hClosed, ?_⟩
  change (s.input.pop (s.nextPayload win).length).buffer = []
  rw [ByteStream.pop_buffer]
  exact (s.nextPayload_eq_iff win).mp hAll

theorem nextMsg_empty (h : (s.nextMsg win).sequenceLength = 0) :
    s.synSent = true ∧ s.nextPayload win = [] ∧ s.nextFin win = false := by
  rw [nextMsg_length] at h
  have hSyn : s.synSent = true := by
    cases hSyn : s.synSent with
    | false => simp [hSyn] at h
    | true => rfl
  have hFin : s.nextFin win = false := by
    cases hFin : s.nextFin win with
    | false => rfl
    | true => simp [hFin] at h
  exact ⟨hSyn, List.length_eq_zero_iff.mp (by omega), hFin⟩

theorem drafted_of_empty (h : (s.nextMsg win).sequenceLength = 0) : s.drafted win = s := by
  obtain ⟨hSyn, hPayload, hFin⟩ := nextMsg_empty h
  simp only [drafted, hPayload, List.length_nil, ByteStream.pop_zero, hFin, Bool.or_false]
  rw [← hSyn]

theorem exhausted_of_empty (hRoom : s.bytesInFlight < win)
    (h : (s.nextMsg win).sequenceLength = 0) :
    s.synSent = true ∧ s.input.buffer = [] ∧ (s.input.closed = true → s.finSent = true) := by
  obtain ⟨hSyn, hPayload, hNone⟩ := nextMsg_empty h
  have hBuffer : s.input.buffer = [] := by
    rw [nextPayload, hSyn, List.take_eq_nil_iff] at hPayload
    apply hPayload.resolve_left
    intro hZero
    have hMax : 0 < maxPayloadSize := by decide
    simp only [Bool.not_true, Bool.toNat_false, Nat.sub_zero] at hZero
    omega
  refine ⟨hSyn, hBuffer, ?_⟩
  intro hClosed
  by_contra hFin
  have hNext : s.nextFin win = true := by
    simp only [nextFin, hPayload, hBuffer, hClosed, hSyn, Bool.eq_false_of_not_eq_true hFin]
    simpa using hRoom
  rw [hNone] at hNext
  cases hNext

end Pass

def Drained (s : TCPSender) : Prop :=
  s.finSent = true → s.synSent = true ∧ s.input.buffer = []

theorem Drained.not_ready {s : TCPSender} {win : Nat} (h : Drained s) (hReady : Ready s win) :
    s.finSent = false := by
  by_contra hFin
  have hFin := Bool.eq_true_of_not_eq_false hFin
  obtain ⟨hSyn, hBuffer⟩ := h hFin
  have hPos := hReady.pos
  rw [nextMsg_length] at hPos
  simp [nextPayload, nextFin, hSyn, hBuffer, hFin] at hPos

theorem drained_emit {s : TCPSender} {win : Nat} (hFin : s.finSent = false) :
    Drained (s.emit win) := by
  intro hAfter
  change (s.finSent || s.nextFin win) = true at hAfter
  rw [hFin, Bool.false_or] at hAfter
  exact ⟨rfl, (closed_of_nextFin hAfter).2.2⟩

theorem fillLoop_rule {P : TCPSender → List TCPSenderMessage → Prop} {win : Nat}
    (hStep : ∀ t out, t.finSent = false → Ready t win → P t out →
      P (t.emit win) (out ++ [t.nextMsg win]))
    {s : TCPSender} (out : List TCPSenderMessage) (hDrained : Drained s) (h : P s out) :
    P (fillLoop win s).1 (out ++ (fillLoop win s).2) ∧ ¬ Ready (fillLoop win s).1 win := by
  induction hLeft : win - s.bytesInFlight using Nat.strong_induction_on generalizing s out with
  | _ left ih =>
    rw [fillLoop]
    split
    · rename_i hRoom
      simp only [nextSegment_eq]
      split
      · rename_i hEmpty
        rw [drafted_of_empty hEmpty, List.append_nil]
        exact ⟨h, fun hReady => hReady.pos.ne' hEmpty⟩
      · rename_i hSome
        have hReady : Ready s win := ⟨hRoom, Nat.pos_of_ne_zero hSome⟩
        have hFin := hDrained.not_ready hReady
        have hLess : win - (s.emit win).bytesInFlight < left := by
          change win - (s.bytesInFlight + (s.nextMsg win).sequenceLength) < left
          omega
        have hNext := ih _ hLess _ (drained_emit hFin) (hStep s out hFin hReady h) rfl
        simp only [sendSegment_drafted hReady.pos]
        rw [List.append_assoc] at hNext
        exact hNext
    · rename_i hFull
      rw [List.append_nil]
      exact ⟨h, fun hReady => hFull hReady.room⟩

theorem fillWindow_eq (s : TCPSender) :
    s.fillWindow = if s.finSent then (s, []) else fillLoop s.effectiveWindow s := by
  have hWin : (if s.receiverWindow = 0 then 1 else s.receiverWindow) = s.effectiveWindow := by
    rw [effectiveWindow]
    split <;> omega
  rw [fillWindow, hWin]

theorem push_of_fin {s : TCPSender} (h : s.finSent = true) : s.push = (s, []) := by
  rw [push, fillWindow_eq, h, if_pos rfl]

/-- What every transmitting pass keeps, the whole of `push` keeps. -/
theorem push_rule {P : TCPSender → List TCPSenderMessage → Prop} {s : TCPSender}
    (hStep : ∀ t out, t.finSent = false → Ready t s.effectiveWindow → P t out →
      P (t.emit s.effectiveWindow) (out ++ [t.nextMsg s.effectiveWindow]))
    (h : P s []) : P s.push.1 s.push.2 := by
  rw [push, fillWindow_eq]
  split
  · exact h
  · rename_i hFin
    exact (fillLoop_rule hStep [] (fun hTrue => absurd hTrue hFin) h).1

theorem push_stops {s : TCPSender} (hFin : s.finSent = false) :
    ¬ Ready s.push.1 s.effectiveWindow := by
  have hDrained : Drained s := fun hTrue => by
    rw [hFin] at hTrue
    cases hTrue
  rw [push, fillWindow_eq, hFin, if_neg Bool.false_ne_true]
  exact (fillLoop_rule (P := fun _ _ => True) (fun _ _ _ _ _ => trivial) [] hDrained trivial).2

/-- Segments sent one after the other from an absolute sequence number on. -/
def stamp : Nat → List TCPSenderMessage → List Outstanding
  | _, [] => []
  | next, msg :: msgs =>
    { msg := msg, seqStart := next, len := msg.sequenceLength } ::
      stamp (next + msg.sequenceLength) msgs

theorem stamp_append (next : Nat) (msgs msgs' : List TCPSenderMessage) :
    stamp next (msgs ++ msgs') =
      stamp next msgs ++
        stamp (next + totalLength TCPSenderMessage.sequenceLength msgs) msgs' := by
  induction msgs generalizing next with
  | nil => rfl
  | cons msg msgs ih =>
    rw [List.cons_append, stamp, stamp, ih, totalLength_cons, Nat.add_assoc, List.cons_append]

theorem tiles_stamp {msgs : List TCPSenderMessage} (h : ∀ msg ∈ msgs, 0 < msg.sequenceLength)
    (next : Nat) :
    Tiles Outstanding.seqStart Outstanding.len next (stamp next msgs)
      (next + totalLength TCPSenderMessage.sequenceLength msgs) := by
  induction msgs generalizing next with
  | nil => rfl
  | cons msg msgs ih =>
    have hTail := ih (fun m hMem => h m (List.mem_cons_of_mem _ hMem)) (next + msg.sequenceLength)
    rw [Nat.add_assoc] at hTail
    exact ⟨rfl, h msg List.mem_cons_self, hTail⟩

theorem stamp_map_msg (next : Nat) (msgs : List TCPSenderMessage) :
    (stamp next msgs).map Outstanding.msg = msgs := by
  induction msgs generalizing next with
  | nil => rfl
  | cons msg msgs ih => rw [stamp, List.map_cons, ih]

theorem push_stamp (s : TCPSender) :
    (∀ msg ∈ s.push.2, 0 < msg.sequenceLength) ∧
      s.push.1.outstanding = s.outstanding ++ stamp s.nextSeqno s.push.2 ∧
      s.push.1.nextSeqno =
        s.nextSeqno + totalLength TCPSenderMessage.sequenceLength s.push.2 := by
  refine push_rule (P := fun t out => (∀ msg ∈ out, 0 < msg.sequenceLength) ∧
    t.outstanding = s.outstanding ++ stamp s.nextSeqno out ∧
    t.nextSeqno = s.nextSeqno + totalLength TCPSenderMessage.sequenceLength out)
    (fun t out _ hReady ⟨hPos, hOut, hNext⟩ => ⟨?_, ?_, ?_⟩)
    ⟨fun msg hMem => (List.not_mem_nil hMem).elim, by simp [stamp], rfl⟩
  · intro msg hMem
    obtain hMem | hMem := List.mem_append.mp hMem
    · exact hPos msg hMem
    · rw [List.mem_singleton.mp hMem]
      exact hReady.pos
  · rw [stamp_append, ← hNext, ← List.append_assoc, ← hOut]
    rfl
  · rw [totalLength_append, ← Nat.add_assoc, ← hNext]
    rfl

theorem push_payload_le (s : TCPSender) :
    ∀ msg ∈ s.push.2, msg.payload.length ≤ maxPayloadSize := by
  refine push_rule (P := fun _ out => ∀ msg ∈ out, msg.payload.length ≤ maxPayloadSize)
    (fun t out _ _ h msg hMem => ?_) (fun msg hMem => (List.not_mem_nil hMem).elim)
  obtain hMem | hMem := List.mem_append.mp hMem
  · exact h msg hMem
  · rw [List.mem_singleton.mp hMem]
    exact t.nextPayload_length_le _

structure Untouched (s t : TCPSender) : Prop where
  isn : t.isn = s.isn
  initialRTOms : t.initialRTOms = s.initialRTOms
  receiverAckno : t.receiverAckno = s.receiverAckno
  receiverWindow : t.receiverWindow = s.receiverWindow
  rto : t.rto = s.rto
  consecutiveRetx : t.consecutiveRetx = s.consecutiveRetx
  error : t.input.error = s.input.error
  closed : t.input.closed = s.input.closed

theorem push_untouched (s : TCPSender) : Untouched s s.push.1 := by
  refine push_rule (P := fun t _ => Untouched s t) (fun t out _ _ h => ?_)
    ⟨rfl, rfl, rfl, rfl, rfl, rfl, rfl, rfl⟩
  exact ⟨h.isn, h.initialRTOms, h.receiverAckno, h.receiverWindow, h.rto, h.consecutiveRetx,
    h.error, h.closed⟩

theorem popAcked_eq (ackno bytesInFlight : Nat) (os : List Outstanding) :
    popAcked ackno bytesInFlight os =
      (bytesInFlight -
          totalLength Outstanding.len (os.takeWhile fun o => o.seqStart + o.len ≤ ackno),
        os.dropWhile fun o => o.seqStart + o.len ≤ ackno) := by
  induction os generalizing bytesInFlight with
  | nil => rfl
  | cons o os ih =>
    rw [popAcked, List.takeWhile_cons, List.dropWhile_cons]
    by_cases hDone : o.seqStart + o.len ≤ ackno
    · rw [if_pos hDone, if_pos (decide_eq_true hDone), if_pos (decide_eq_true hDone), ih,
        totalLength_cons, Nat.sub_sub]
    · rw [if_neg hDone, if_neg (by simpa using hDone), if_neg (by simpa using hDone)]
      rfl

def left (s : TCPSender) (ackno : Nat) : List Outstanding :=
  s.outstanding.dropWhile fun o => o.seqStart + o.len ≤ ackno

def advanced (s : TCPSender) (ackno : Nat) : TCPSender :=
  { s with
    receiverAckno := ackno
    bytesInFlight := (popAcked ackno s.bytesInFlight s.outstanding).1
    outstanding := s.left ackno
    rto := s.initialRTOms
    consecutiveRetx := 0
    timerRunning := !(s.left ackno).isEmpty
    timerElapsedMs := 0 }

def Advances (s : TCPSender) (ackno : Nat) : Prop :=
  ackno ≤ s.nextSeqno ∧ s.receiverAckno < ackno

instance (s : TCPSender) (ackno : Nat) : Decidable (Advances s ackno) :=
  inferInstanceAs (Decidable (_ ∧ _))

theorem acknowledge_eq (s : TCPSender) (ackno : Nat) :
    s.acknowledge ackno = if Advances s ackno then s.advanced ackno else s := by
  rw [acknowledge]
  change (if Advances s ackno then _ else s) = _
  split
  · have hLeft : (popAcked ackno s.bytesInFlight s.outstanding).2 = s.left ackno := by
      rw [popAcked_eq, left]
    simp only [hLeft, advanced]
    cases hEmpty : (s.left ackno).isEmpty <;> simp [stopTimer]
  · rfl

/-- The absolute acknowledgment number of a message; one without ackno acknowledges nothing. -/
def absAckno (s : TCPSender) (msg : TCPReceiverMessage) : Nat :=
  match msg.ackno with
  | none => 0
  | some ackno => ackno.unwrap s.isn s.receiverAckno

theorem receive_cases (s : TCPSender) (msg : TCPReceiverMessage) :
    (msg.rst = true ∧ s.receive msg = { s with input := s.input.setError }) ∨
    (msg.rst = false ∧ ¬ Advances s (s.absAckno msg) ∧
      s.receive msg = { s with receiverWindow := msg.windowSize.toNat }) ∨
    (msg.rst = false ∧ Advances s (s.absAckno msg) ∧
      s.receive msg =
        { s.advanced (s.absAckno msg) with receiverWindow := msg.windowSize.toNat }) := by
  rw [receive]
  cases hRst : msg.rst with
  | true => exact .inl ⟨rfl, rfl⟩
  | false =>
    rw [if_neg Bool.false_ne_true]
    cases hAckno : msg.ackno with
    | none =>
      have hZero : s.absAckno msg = 0 := by rw [absAckno, hAckno]
      refine .inr (.inl ⟨rfl, fun hAdv => ?_, rfl⟩)
      rw [hZero] at hAdv
      exact Nat.not_lt_zero _ hAdv.2
    | some ackno =>
      have hUnwrap : ackno.unwrap s.isn s.receiverAckno = s.absAckno msg := by
        rw [absAckno, hAckno]
      simp only [hUnwrap, acknowledge_eq]
      split
      · rename_i hAdv
        exact .inr (.inr ⟨trivial, hAdv, rfl⟩)
      · rename_i hAdv
        exact .inr (.inl ⟨trivial, hAdv, rfl⟩)

def marked (s : TCPSender) (o : Outstanding) : Outstanding :=
  if s.input.hasError then { o with msg := { o.msg with rst := true } } else o

def expired (s : TCPSender) (o : Outstanding) (rest : List Outstanding) : TCPSender :=
  { s with
    outstanding := s.marked o :: rest
    consecutiveRetx := if 0 < s.receiverWindow then s.consecutiveRetx + 1 else s.consecutiveRetx
    rto := if 0 < s.receiverWindow then u64 (s.rto * 2) else s.rto
    timerElapsedMs := 0 }

theorem tick_idle {s : TCPSender} (h : s.timerRunning = false) (ms : Nat) :
    s.tick ms = (s, []) := by
  rw [tick, h]
  rfl

theorem tick_eq {s : TCPSender} {o : Outstanding} {rest : List Outstanding}
    (hTimer : s.timerRunning = true) (h : s.outstanding = o :: rest) (ms : Nat) :
    s.tick ms =
      if s.rto ≤ u64 (s.timerElapsedMs + ms) then (s.expired o rest, [(s.marked o).msg])
      else ({ s with timerElapsedMs := u64 (s.timerElapsedMs + ms) }, []) := by
  rw [tick, hTimer, h]
  simp only [Bool.not_true, Bool.false_eq_true, if_false]
  split
  · by_cases hWindow : 0 < s.receiverWindow
    · simp only [expired, if_pos hWindow, marked, hTimer]
    · simp only [expired, if_neg hWindow, marked, hTimer]
  · rw [← h, ← hTimer]

/-- Time alone changes neither the stream nor what is in flight. -/
theorem tick_kept (s : TCPSender) (ms : Nat) :
    (s.tick ms).1.input = s.input ∧ (s.tick ms).1.finSent = s.finSent ∧
      (s.tick ms).1.bytesInFlight = s.bytesInFlight := by
  cases hTimer : s.timerRunning with
  | false =>
    rw [tick_idle hTimer]
    exact ⟨rfl, rfl, rfl⟩
  | true =>
    cases hOut : s.outstanding with
    | nil =>
      rw [tick, hTimer, hOut]
      exact ⟨rfl, rfl, rfl⟩
    | cons o rest =>
      rw [tick_eq hTimer hOut]
      split <;> exact ⟨rfl, rfl, rfl⟩

@[simp] theorem marked_seqStart (s : TCPSender) (o : Outstanding) :
    (s.marked o).seqStart = o.seqStart := by
  unfold marked
  split <;> rfl

@[simp] theorem marked_len (s : TCPSender) (o : Outstanding) : (s.marked o).len = o.len := by
  unfold marked
  split <;> rfl

end Minnow.TCPSender
