import Minnow.StreamCopyInvariant

/-! # How the copy ends

As long as no descriptor fails and no destination hangs up, the rules that write
stay until they have passed the end of their stream on, so the loop only exits
when both directions are complete.
-/

namespace Minnow

open EventLoop Library

namespace Pipe

/-- What one callback may do to a pipe, apart from moving bytes. -/
structure Onward (p p' : Pipe) : Prop where
  error : p'.stream.error = p.stream.error
  capacity : p'.stream.capacity = p.stream.capacity
  closed : p.stream.closed = true → p'.stream.closed = true
  shutdown : p.shutdown = true → p'.shutdown = true

section Steps

variable {p p' other : Pipe} {fd fd' : FileDescriptor}

theorem Onward.refl (p : Pipe) : Onward p p := ⟨rfl, rfl, id, id⟩

theorem fill_onward (hAccepting : Accepting p) {answer : SystemCall (List Byte)}
    (h : p.fill fd answer = .ok (fd', p') ∨ p.fill fd answer = .error (fd', p')) :
    fd'.closed = fd.closed ∧ Onward p p' := by
  obtain ⟨rfl, rfl⟩ | ⟨data, hRead, -, -, -, hShut, hError, hCapacity, hClosed⟩ :=
    fill_cases hAccepting.1 h
  · exact ⟨rfl, Onward.refl _⟩
  · refine ⟨(FileDescriptor.read_eq_some hAccepting.1 hRead).2.1, hError, hCapacity, ?_, ?_⟩
    · intro hOld
      rw [hClosed, hOld, Bool.true_or]
    · exact fun hOld => hShut.trans hOld

theorem drain_onward {answer : SystemCall Nat} (h : p.drain fd answer = some (fd', p')) :
    fd'.closed = fd.closed ∧ Onward p p' := by
  obtain ⟨-, rfl, rfl⟩ | ⟨-, rfl, n, -, rfl⟩ := drain_eq_some h
  · exact ⟨rfl, Onward.refl _⟩
  · exact ⟨rfl, rfl, rfl, id, id⟩

/-- Only the end of the stream closes a descriptor that is not closed by `finish`. -/
theorem flush_onward {answer : SystemCall Nat} {finish : FileDescriptor → Option FileDescriptor}
    (h : p.flush fd answer finish = .ok (fd', p') ∨ p.flush fd answer finish = .error (fd', p')) :
    Onward p p' ∧ (fd'.closed = fd.closed ∨ p'.shutdown = true ∧
      ∃ fd₁, finish fd₁ = some fd' ∧ fd₁.closed = fd.closed) := by
  obtain ⟨rfl, rfl⟩ | ⟨fd₁, p₁, hDrain, ⟨rfl, rfl⟩ | ⟨-, hFinish, rfl⟩⟩ := flush_cases h
  · exact ⟨Onward.refl _, .inl rfl⟩
  · obtain ⟨hClosed, hOnward⟩ := drain_onward hDrain
    exact ⟨hOnward, .inl hClosed⟩
  · obtain ⟨hClosed, hOnward⟩ := drain_onward hDrain
    exact ⟨{ hOnward with shutdown := fun _ => rfl }, .inr ⟨rfl, fd₁, hFinish, hClosed⟩⟩

theorem hasOutput_eq_false (h : p.hasOutput = false) :
    p.stream.buffer = [] ∧ (p.stream.closed = true → p.shutdown = true) := by
  have hNot := Bool.eq_false_iff.mp h
  rw [ne_eq, hasOutput_iff, not_or, not_not] at hNot
  refine ⟨hNot.1, fun hClosed => ?_⟩
  rw [← Bool.not_eq_false]
  exact fun hShut => hNot.2 ⟨hClosed, hNot.1, hShut⟩

theorem wantsInput_eq_false (h : p.wantsInput other = false) :
    p.stream.error = true ∨ other.stream.error = true ∨ p.stream.availableCapacity = 0 ∨
      p.stream.closed = true := by
  simp only [wantsInput, ByteStream.hasError, ByteStream.isClosed, Bool.and_eq_false_iff,
    Bool.not_eq_false', decide_eq_false_iff_not, Nat.not_lt, Nat.le_zero, or_assoc] at h
  exact h

theorem fill_ok (fd : FileDescriptor) (hRoom : 0 < p.stream.availableCapacity)
    {answer : SystemCall (List Byte)} (h : answer.Gives fun data => data.length ≤ p.stream.availableCapacity) :
    ∃ fd' p', p.fill fd answer = .ok (fd', p') ∧ fd'.readCount = fd.readCount + 1 := by
  obtain ⟨data, rfl, hLe⟩ := SystemCall.gives_iff.mp h
  rw [fill, FileDescriptor.read_ok hRoom hLe]
  exact ⟨_, _, rfl, rfl⟩

/-- A rule with something to do leaves its mark on the descriptor. -/
theorem flush_ok (fd : FileDescriptor) (finish : FileDescriptor → Option FileDescriptor)
    (hOutput : p.hasOutput = true) {answer : SystemCall Nat}
    (hWrite : p.stream.buffer ≠ [] → answer.Gives fun n => 0 < n ∧ n ≤ p.stream.buffer.length)
    (hFinish : ∀ fd, ∃ fd', finish fd = some fd' ∧
      (fd'.writeCount = fd.writeCount + 1 ∨ fd'.closed = true)) :
    ∃ fd' p', p.flush fd answer finish = .ok (fd', p') ∧
      (fd.writeCount = fd'.writeCount → fd'.closed = true) := by
  by_cases hEmpty : p.stream.buffer = []
  · obtain ⟨fd', hSome, hMark⟩ := hFinish fd
    have hDrain : p.drain fd answer = some (fd, p) := if_pos (List.length_eq_zero_iff.mpr hEmpty)
    have hFinished : p.stream.isFinished = true := by
      obtain hNe | ⟨hClosed, -⟩ := hasOutput_iff.mp hOutput
      · exact absurd hEmpty hNe
      · exact ByteStream.isFinished_iff.mpr ⟨hClosed, hEmpty⟩
    refine ⟨fd', { p with shutdown := true }, ?_, fun hSame => ?_⟩
    · rw [flush, hDrain]
      dsimp only
      rw [if_pos hFinished, hSome]
    · obtain hCount | hClosed := hMark
      · exact absurd (hSame.trans hCount) (FileDescriptor.count_ne _).1
      · exact hClosed
  · obtain ⟨n, rfl, hPos, hLe⟩ := SystemCall.gives_iff.mp (hWrite hEmpty)
    have hDrain : p.drain fd (.ok n) = some (fd.registerWrite, { p with
        stream := p.stream.pop n, given := p.given ++ p.stream.buffer.take n }) := by
      have hSome : p.stream.bytesBuffered ≠ 0 := fun hNil =>
        hEmpty (List.length_eq_zero_iff.mp hNil)
      have hWrote : fd.write p.stream.peek (.ok n) = some (fd.registerWrite, n) :=
        FileDescriptor.write_ok hPos hLe
      rw [drain, if_neg hSome, hWrote]
      rfl
    rw [flush, hDrain]
    dsimp only
    split
    · obtain ⟨fd', hSome, hMark⟩ := hFinish fd.registerWrite
      rw [hSome]
      refine ⟨fd', _, rfl, fun hSame => ?_⟩
      obtain hCount | hClosed := hMark
      · exact absurd (hSame.trans hCount) (FileDescriptor.count_ne _).2
      · exact hClosed
    · exact ⟨_, _, rfl, fun hSame => absurd hSame (FileDescriptor.count_ne _).1⟩

/-- Everything that has been read has been written, and the end of the stream passed on. -/
def Complete (p : Pipe) : Prop :=
  p.shutdown = true ∧ p.stream.isClosed = true ∧ p.given = p.taken

theorem Intact.complete (h : p.Intact) (hShut : p.shutdown = true) :
    Complete p := by
  refine ⟨hShut, (h.shut hShut).1, ?_⟩
  rw [h.whole, (h.shut hShut).2, List.append_nil]

end Steps

end Pipe

namespace StreamCopy

/-- No descriptor fails, and no destination hangs up. -/
def Undamaged (r : FDRule StreamCopy Answers) (ev : Revents) : Prop :=
  ev.error = false ∧ (r.direction = .output → ev.pollhup = false)

instance (r : FDRule StreamCopy Answers) (ev : Revents) : Decidable (Undamaged r ev) :=
  inferInstanceAs (Decidable (_ ∧ (_ → _)))

structure Working (s : StreamCopy) : Prop extends Intact s where
  noErrors : s.outbound.stream.error = false ∧ s.inbound.stream.error = false
  outboundCapacity : s.outbound.stream.capacity = bufferSize
  inboundCapacity : s.inbound.stream.capacity = bufferSize
  socket : s.socket.closed = false
  output : s.output.closed = true → s.inbound.shutdown = true

/-- What is true once a rule has been cancelled; the socket's writing rule never is. -/
structure Gone (r : FDRule StreamCopy Answers) (s : StreamCopy) : Prop where
  readInput : r.categoryId = 0 → s.outbound.stream.closed = true
  writeSocket : r.categoryId ≠ 1
  readSocket : r.categoryId = 2 → s.inbound.stream.closed = true
  writeOutput : r.categoryId = 3 → s.inbound.shutdown = true

theorem Gone.mono {r : FDRule StreamCopy Answers} {s s' : StreamCopy} (h : Gone r s)
    (hOutbound : s.outbound.stream.closed = true → s'.outbound.stream.closed = true)
    (hInbound : s.inbound.stream.closed = true → s'.inbound.stream.closed = true)
    (hShut : s.inbound.shutdown = true → s'.inbound.shutdown = true) : Gone r s' where
  readInput hId := hOutbound (h.readInput hId)
  writeSocket := h.writeSocket
  readSocket hId := hInbound (h.readSocket hId)
  writeOutput hId := hShut (h.writeOutput hId)

theorem Gone.cancel {r : FDRule StreamCopy Answers} {s : StreamCopy} (h : Gone r s) :
    ∀ other ∈ rules, Gone r (other.cancel s) := by
  have hOut : Gone r s.closeOutbound := h.mono (fun _ => rfl) id id
  have hIn : Gone r s.closeInbound := h.mono id (fun _ => rfl) id
  exact forall_rules hOut hOut hIn hIn

theorem Gone.error {r : FDRule StreamCopy Answers} {s : StreamCopy} (h : Gone r s) :
    ∀ other ∈ rules, Gone r (other.error s) := by
  apply forall_rules <;> exact h.mono id id id

theorem Working.closeOutbound {s : StreamCopy} (h : Working s) : Working s.closeOutbound :=
  { h with toIntact := ⟨h.outbound.close, h.inbound⟩ }

theorem Working.closeInbound {s : StreamCopy} (h : Working s) : Working s.closeInbound :=
  { h with toIntact := ⟨h.outbound, h.inbound.close⟩ }

/-- Reading rules end their stream when they are cancelled. -/
theorem gone_readInput (s : StreamCopy) : Gone (readInput 0) s.closeOutbound :=
  ⟨fun _ => rfl, nofun, nofun, nofun⟩

theorem gone_readSocket (s : StreamCopy) : Gone (readSocket 2) s.closeInbound :=
  ⟨nofun, nofun, fun _ => rfl, nofun⟩

theorem Working.defunct {s : StreamCopy} (h : Working s) :
    ∀ r ∈ rules, r.Defunct s → Working (r.cancel s) ∧ Gone r (r.cancel s) := by
  apply forall_rules
  · exact fun _ => ⟨h.closeOutbound, gone_readInput s⟩
  · rintro (⟨hInput, -⟩ | hClosed)
    · cases hInput
    · exact absurd (h.socket.symm.trans hClosed) Bool.false_ne_true
  · exact fun _ => ⟨h.closeInbound, gone_readSocket s⟩
  · rintro (⟨hInput, -⟩ | hClosed)
    · cases hInput
    · exact ⟨h.closeInbound, nofun, nofun, nofun, fun _ => h.output hClosed⟩

theorem Working.hangup {s : StreamCopy} (h : Working s) {ev : Revents}
    (hHup : ev.pollhup = true) :
    ∀ r ∈ rules, Undamaged r ev → Working (r.cancel s) ∧ Gone r (r.cancel s) := by
  have hNone : ∀ r : FDRule StreamCopy Answers, r.direction = .output → ¬ Undamaged r ev :=
    fun r hOutput hOk => Bool.false_ne_true ((hOk.2 hOutput).symm.trans hHup)
  apply forall_rules
  · exact fun _ => ⟨h.closeOutbound, gone_readInput s⟩
  · exact fun hOk => absurd hOk (hNone _ rfl)
  · exact fun _ => ⟨h.closeInbound, gone_readSocket s⟩
  · exact fun hOk => absurd hOk (hNone _ rfl)

theorem Working.step {s s' : StreamCopy} (h : Working s) (hIntact : Intact s')
    (hOutbound : Pipe.Onward s.outbound s'.outbound) (hInbound : Pipe.Onward s.inbound s'.inbound)
    (hSocket : s'.socket.closed = s.socket.closed)
    (hOutput : s'.output.closed = s.output.closed ∨ s'.inbound.shutdown = true) :
    Working s' ∧ ∀ r ∈ rules, Gone r s → Gone r s' := by
  refine ⟨{ hIntact with
    noErrors := ⟨hOutbound.error.trans h.noErrors.1, hInbound.error.trans h.noErrors.2⟩
    outboundCapacity := hOutbound.capacity.trans h.outboundCapacity
    inboundCapacity := hInbound.capacity.trans h.inboundCapacity
    socket := hSocket.trans h.socket
    output := fun hClosed => ?_ }, fun r _ hGone => ?_⟩
  · obtain hSame | hShut := hOutput
    · exact hInbound.shutdown (h.output (hSame.symm.trans hClosed))
    · exact hShut
  · exact hGone.mono hOutbound.closed hInbound.closed hInbound.shutdown

theorem Working.callback {s s' : StreamCopy} {answers : Answers} (h : Working s) :
    ∀ r ∈ rules, Armed r s → r.callback answers s = .ok s' ∨ r.callback answers s = .error s' →
      Working s' ∧ ∀ r ∈ rules, Gone r s → Gone r s' := by
  have hIntact : ∀ r ∈ rules, Armed r s → r.callback answers s = .ok s' ∨
      r.callback answers s = .error s' → Intact s' := h.toIntact.callback
  apply forall_rules
  · intro hArmed hCallback
    have hAfter := hIntact (readInput 0) (by simp [rules]) hArmed hCallback
    obtain ⟨x, hFill, rfl⟩ := eq_of_onState hCallback
    obtain ⟨-, hOnward⟩ := Pipe.fill_onward (hArmed.readInput rfl) hFill
    exact h.step hAfter hOnward (.refl _) rfl (.inl rfl)
  · intro hArmed hCallback
    have hAfter := hIntact (writeSocket 1) (by simp [rules]) hArmed hCallback
    obtain ⟨x, hFlush, rfl⟩ := eq_of_onState hCallback
    obtain ⟨hOnward, hFd⟩ := Pipe.flush_onward hFlush
    refine h.step hAfter hOnward (.refl _) ?_ (.inl rfl)
    obtain hSame | ⟨-, fd, hFinish, hSame⟩ := hFd
    · exact hSame
    · change x.1.closed = _
      rw [FileDescriptor.shutdownWrite_eq_some hFinish]
      exact hSame
  · intro hArmed hCallback
    have hAfter := hIntact (readSocket 2) (by simp [rules]) hArmed hCallback
    obtain ⟨x, hFill, rfl⟩ := eq_of_onState hCallback
    obtain ⟨hSame, hOnward⟩ := Pipe.fill_onward (hArmed.readSocket rfl) hFill
    exact h.step hAfter (.refl _) hOnward hSame (.inl rfl)
  · intro hArmed hCallback
    have hAfter := hIntact (writeOutput 3) (by simp [rules]) hArmed hCallback
    obtain ⟨x, hFlush, rfl⟩ := eq_of_onState hCallback
    obtain ⟨hOnward, hFd⟩ := Pipe.flush_onward hFlush
    refine h.step hAfter (.refl _) hOnward rfl ?_
    exact hFd.imp_right And.left

theorem keeps_working : Keeps Undamaged (fun _ _ => True) Armed Working Gone rules where
  distinct := keeps_intact.distinct
  requested := keeps_intact.requested
  defunct r hMem _ h := h.defunct r hMem
  error _ _ _ _ _ hOk hError := absurd (hOk.1.symm.trans hError) Bool.false_ne_true
  hangup r hMem _ _ h hOk hHup := h.hangup hHup r hMem hOk
  arm r hMem _ h := h.toIntact.arm r hMem
  armed_cancel := keeps_intact.armed_cancel
  armed_error := keeps_intact.armed_error
  gone_cancel _ _ other hOther _ h := h.cancel other hOther
  gone_error _ _ other hOther _ h := h.error other hOther
  answered _ _ _ _ _ := ⟨trivial, trivial⟩
  callback r hMem _ _ _ _ h hArmed hCallback := h.callback r hMem hArmed hCallback

/-- What the lack of interest of a rule means. -/
structure Idle (r : FDRule StreamCopy Answers) (s : StreamCopy) : Prop where
  readInput : r.categoryId = 0 → s.outbound.stream.error = true ∨ s.inbound.stream.error = true ∨
    s.outbound.stream.availableCapacity = 0 ∨ s.outbound.stream.closed = true
  writeSocket : r.categoryId = 1 → s.outbound.stream.buffer = [] ∧
    (s.outbound.stream.closed = true → s.outbound.shutdown = true)
  readSocket : r.categoryId = 2 → s.inbound.stream.error = true ∨ s.outbound.stream.error = true ∨
    s.inbound.stream.availableCapacity = 0 ∨ s.inbound.stream.closed = true
  writeOutput : r.categoryId = 3 → s.inbound.stream.buffer = [] ∧
    (s.inbound.stream.closed = true → s.inbound.shutdown = true)

theorem idle_of_interest {s : StreamCopy} :
    ∀ r ∈ rules, r.interest s = false → Idle r s := by
  apply forall_rules
  · exact fun h => ⟨fun _ => Pipe.wantsInput_eq_false h, nofun, nofun, nofun⟩
  · exact fun h => ⟨nofun, fun _ => Pipe.hasOutput_eq_false h, nofun, nofun⟩
  · exact fun h => ⟨nofun, nofun, fun _ => Pipe.wantsInput_eq_false h, nofun⟩
  · exact fun h => ⟨nofun, nofun, nofun, fun _ => Pipe.hasOutput_eq_false h⟩

/-- A rule that writes comes after the one whose cancellation could wake it up. -/
theorem idle_later : rules.Pairwise fun r r' => ∀ s, Idle r s → Idle r (r'.cancel s) := by
  have hOut : ∀ r : FDRule StreamCopy Answers, r.categoryId ≠ 1 → ∀ s, Idle r s →
      Idle r s.closeOutbound := fun r hId s h =>
    { h with
      readInput := fun _ => .inr (.inr (.inr rfl))
      writeSocket := fun hOne => absurd hOne hId }
  have hIn : ∀ r : FDRule StreamCopy Answers, r.categoryId ≠ 3 → ∀ s, Idle r s →
      Idle r s.closeInbound := fun r hId s h =>
    { h with
      readSocket := fun _ => .inr (.inr (.inr rfl))
      writeOutput := fun hThree => absurd hThree hId }
  refine .cons ?_ (.cons ?_ (.cons ?_ (.cons ?_ .nil)))
  all_goals
    simp only [List.mem_cons, List.not_mem_nil, or_false, forall_eq_or_imp, forall_eq,
      IsEmpty.forall_iff, implies_true]
  · exact ⟨hOut _ (by decide), hIn _ (by decide), hIn _ (by decide)⟩
  · exact ⟨hIn _ (by decide), hIn _ (by decide)⟩
  · exact hIn _ (by decide)

theorem Working.complete {s : StreamCopy} (h : Working s)
    (hAll : ∀ r ∈ rules, Idle r s ∨ Gone r s) :
    s.outbound.Complete ∧ s.inbound.Complete := by
  have hRoom : ∀ p : Pipe, p.stream.capacity = bufferSize → p.stream.buffer = [] →
      p.stream.availableCapacity ≠ 0 := by
    intro p hCapacity hEmpty
    rw [ByteStream.availableCapacity, hCapacity, hEmpty]
    decide
  have hClosed : ∀ p other : Pipe, p.stream.error = false → other.stream.error = false →
      p.stream.capacity = bufferSize → p.stream.buffer = [] →
      (p.stream.error = true ∨ other.stream.error = true ∨ p.stream.availableCapacity = 0 ∨
        p.stream.closed = true) → p.stream.closed = true := by
    rintro p other hError hOther hCapacity hEmpty (hTrue | hTrue | hFull | hClosed)
    · exact absurd (hError.symm.trans hTrue) Bool.false_ne_true
    · exact absurd (hOther.symm.trans hTrue) Bool.false_ne_true
    · exact absurd hFull (hRoom p hCapacity hEmpty)
    · exact hClosed
  constructor
  · have hIdle : Idle (writeSocket 1) s :=
      (hAll (writeSocket 1) (by simp [rules])).resolve_right fun hGone => hGone.writeSocket rfl
    obtain ⟨hEmpty, hShut⟩ := hIdle.writeSocket rfl
    refine h.outbound.complete (hShut ?_)
    obtain hInput | hGone := hAll (readInput 0) (by simp [rules])
    · exact hClosed _ _ h.noErrors.1 h.noErrors.2 h.outboundCapacity hEmpty (hInput.readInput rfl)
    · exact hGone.readInput rfl
  · obtain hIdle | hGone := hAll (writeOutput 3) (by simp [rules])
    · obtain ⟨hEmpty, hShut⟩ := hIdle.writeOutput rfl
      refine h.inbound.complete (hShut ?_)
      obtain hInput | hGone := hAll (readSocket 2) (by simp [rules])
      · exact hClosed _ _ h.noErrors.2 h.noErrors.1 h.inboundCapacity hEmpty (hInput.readSocket rfl)
      · exact hGone.readSocket rfl
    · exact h.inbound.complete (hGone.writeOutput rfl)

theorem working_new {socket : FileDescriptor} (hSocket : socket.closed = false) :
    Working (new socket) where
  outbound := Pipe.intact_new _
  inbound := Pipe.intact_new _
  noErrors := ⟨rfl, rfl⟩
  outboundCapacity := rfl
  inboundCapacity := rfl
  socket := hSocket
  output := nofun

/-- The kernel does what it has been asked for: a read returns at least the end of the file and no
more than there is room for, a write takes some of the buffer, and the other calls succeed. -/
structure Granted (s : StreamCopy) (answers : Answers) : Prop where
  readInput : 0 < s.outbound.stream.availableCapacity →
    answers.readInput.Gives fun data => data.length ≤ s.outbound.stream.availableCapacity
  writeSocket : s.outbound.stream.buffer ≠ [] →
    answers.writeSocket.Gives fun n => 0 < n ∧ n ≤ s.outbound.stream.buffer.length
  shutdownSocket : answers.shutdownSocket = .ok ()
  readSocket : 0 < s.inbound.stream.availableCapacity →
    answers.readSocket.Gives fun data => data.length ≤ s.inbound.stream.availableCapacity
  writeOutput : s.inbound.stream.buffer ≠ [] →
    answers.writeOutput.Gives fun n => 0 < n ∧ n ≤ s.inbound.stream.buffer.length
  closeOutput : answers.closeOutput = .ok ()

instance (s : StreamCopy) (answers : Answers) : Decidable (Granted s answers) :=
  decidable_of_iff ((0 < s.outbound.stream.availableCapacity →
      answers.readInput.Gives fun data => data.length ≤ s.outbound.stream.availableCapacity) ∧
    (s.outbound.stream.buffer ≠ [] →
      answers.writeSocket.Gives fun n => 0 < n ∧ n ≤ s.outbound.stream.buffer.length) ∧
    answers.shutdownSocket = .ok () ∧
    (0 < s.inbound.stream.availableCapacity →
      answers.readSocket.Gives fun data => data.length ≤ s.inbound.stream.availableCapacity) ∧
    (s.inbound.stream.buffer ≠ [] →
      answers.writeOutput.Gives fun n => 0 < n ∧ n ≤ s.inbound.stream.buffer.length) ∧
    answers.closeOutput = .ok ())
    ⟨fun ⟨h₀, h₁, h₂, h₃, h₄, h₅⟩ => ⟨h₀, h₁, h₂, h₃, h₄, h₅⟩,
      fun ⟨h₀, h₁, h₂, h₃, h₄, h₅⟩ => ⟨h₀, h₁, h₂, h₃, h₄, h₅⟩⟩

theorem accepts_granted (answers : Answers) :
    Accepts Armed Intact (fun s => Granted s answers) rules answers where
  stable := by
    apply forall_rules <;> exact fun s h => ⟨{ h with }, { h with }⟩
  served := by
    have hShutdown : ∀ fd : FileDescriptor, ∃ fd', fd.shutdownWrite (.ok ()) = some fd' ∧
        (fd'.writeCount = fd.writeCount + 1 ∨ fd'.closed = true) :=
      fun fd => ⟨fd.registerWrite, rfl, .inl rfl⟩
    have hClose : ∀ fd : FileDescriptor, ∃ fd', fd.close (.ok ()) = some fd' ∧
        (fd'.writeCount = fd.writeCount + 1 ∨ fd'.closed = true) :=
      fun fd => ⟨{ fd with eof := true, closed := true }, rfl, .inr rfl⟩
    apply forall_rules
    · intro s h hArmed hGranted
      have hRoom := (hArmed.readInput rfl).1
      obtain ⟨fd', p', hFill, hCount⟩ := Pipe.fill_ok s.input hRoom (hGranted.readInput hRoom)
      refine ⟨_, congrArg (onState _) hFill, fun hSame => ?_⟩
      exact absurd (hSame.trans hCount) (FileDescriptor.count_ne _).1
    · intro s h hArmed hGranted
      obtain ⟨fd', p', hFlush, hMark⟩ := Pipe.flush_ok s.socket
        (·.shutdownWrite answers.shutdownSocket) (hArmed.writeSocket rfl)
        hGranted.writeSocket (hGranted.shutdownSocket ▸ hShutdown)
      refine ⟨_, congrArg (onState _) hFlush, fun hSame hOpen => ?_⟩
      exact absurd (hOpen.symm.trans (hMark hSame)) Bool.false_ne_true
    · intro s h hArmed hGranted
      have hRoom := (hArmed.readSocket rfl).1
      obtain ⟨fd', p', hFill, hCount⟩ :=
        Pipe.fill_ok s.socket hRoom (hGranted.readSocket hRoom)
      refine ⟨_, congrArg (onState _) hFill, fun hSame => ?_⟩
      exact absurd (hSame.trans hCount) (FileDescriptor.count_ne _).1
    · intro s h hArmed hGranted
      obtain ⟨fd', p', hFlush, hMark⟩ := Pipe.flush_ok s.output
        (·.close answers.closeOutput) (hArmed.writeOutput rfl)
        hGranted.writeOutput (hGranted.closeOutput ▸ hClose)
      refine ⟨_, congrArg (onState _) hFlush, fun hSame hOpen => ?_⟩
      exact absurd (hOpen.symm.trans (hMark hSame)) Bool.false_ne_true

/-- `getsockopt` works on a descriptor with an error. -/
def Inspectable (_ : FDRule StreamCopy Answers) (ev : Revents) : Prop :=
  ev.error = true → ev.sockoptFails = false

instance (r : FDRule StreamCopy Answers) (ev : Revents) : Decidable (Inspectable r ev) :=
  inferInstanceAs (Decidable (_ → _))

end StreamCopy

end Minnow
