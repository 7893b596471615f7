import Minnow.EventLoopRules
import Minnow.StreamCopy

/-! # What the copy keeps of the bytes

A rule that reads is only called with room in its stream and before the
shutdown: that is what its interest leaves behind, whatever has been cancelled
in between.
-/

namespace Minnow

open EventLoop Library

namespace Pipe

/-- What has been read is what has been written and what is buffered, and all of it has been
written before the shutdown. -/
structure Intact (p : Pipe) : Prop where
  whole : p.taken = p.given ++ p.stream.buffer
  shut : p.shutdown = true → p.stream.closed = true ∧ p.stream.buffer = []

/-- There is room, and the end has not been passed on. -/
def Accepting (p : Pipe) : Prop := 0 < p.stream.availableCapacity ∧ p.shutdown = false

section Steps

variable {p p' other : Pipe} {fd fd' : FileDescriptor}

theorem intact_new (capacity : Nat) : Intact (new capacity) := ⟨rfl, nofun⟩

theorem Intact.close (h : Intact p) : Intact p.close :=
  ⟨h.whole, fun hShut => ⟨rfl, (h.shut hShut).2⟩⟩

theorem Intact.setError (h : Intact p) : Intact p.setError := ⟨h.whole, h.shut⟩

theorem Intact.accepting (h : Intact p) (hWants : p.wantsInput other = true) : Accepting p := by
  simp only [wantsInput, Bool.and_eq_true, decide_eq_true_eq, Bool.not_eq_true'] at hWants
  obtain ⟨⟨-, hRoom⟩, hOpen⟩ := hWants
  refine ⟨hRoom, ?_⟩
  cases hShut : p.shutdown with
  | false => rfl
  | true => exact absurd (hOpen.symm.trans (h.shut hShut).1) Bool.false_ne_true

theorem hasOutput_iff : p.hasOutput = true ↔
    p.stream.buffer ≠ [] ∨ p.stream.closed = true ∧ p.stream.buffer = [] ∧ p.shutdown = false := by
  simp only [hasOutput, ByteStream.bytesBuffered, Bool.or_eq_true, bne_iff_ne, ne_eq,
    List.length_eq_zero_iff, Bool.and_eq_true, Bool.not_eq_true', ByteStream.isFinished_iff,
    and_assoc]

theorem hasOutput_close (h : p.hasOutput = true) : p.close.hasOutput = true := by
  rw [hasOutput_iff] at h ⊢
  exact h.imp_right fun hEnd => ⟨rfl, hEnd.2⟩

theorem fill_cases (hRoom : 0 < p.stream.availableCapacity)
    {answer : SystemCall (List Byte)} (h : p.fill fd answer = .ok (fd', p') ∨
      p.fill fd answer = .error (fd', p')) :
    (fd' = fd ∧ p' = p) ∨
      ∃ data, fd.read p.stream.availableCapacity answer = some (fd', data) ∧
        p'.taken = p.taken ++ data ∧ p'.stream.buffer = p.stream.buffer ++ data ∧
        p'.given = p.given ∧ p'.shutdown = p.shutdown ∧ p'.stream.error = p.stream.error ∧
        p'.stream.capacity = p.stream.capacity ∧
        p'.stream.closed = (p.stream.closed || fd'.eof) := by
  rw [fill] at h
  split at h
  · obtain h | h := h <;> cases h
    exact .inl ⟨rfl, rfl⟩
  · next source data hRead =>
    right
    have hPushed : (p.stream.push data).buffer = p.stream.buffer ++ data := by
      rw [ByteStream.push_buffer,
        List.take_of_length_le (FileDescriptor.read_eq_some hRoom hRead).1]
    obtain h | h := h <;> cases h
    refine ⟨data, hRead, ?_⟩
    cases hEof : fd'.eof with
    | false => exact ⟨rfl, hPushed, rfl, rfl, rfl, rfl, (Bool.or_false _).symm⟩
    | true => exact ⟨rfl, hPushed, rfl, rfl, rfl, rfl, (Bool.or_true _).symm⟩

theorem Intact.fill (h : Intact p) (hAccepting : Accepting p) {answer : SystemCall (List Byte)}
    (hFill : p.fill fd answer = .ok (fd', p') ∨ p.fill fd answer = .error (fd', p')) :
    Intact p' := by
  obtain ⟨-, rfl⟩ | ⟨data, -, hTaken, hBuffer, hGiven, hShut, -⟩ := fill_cases hAccepting.1 hFill
  · exact h
  · constructor
    · rw [hTaken, hBuffer, hGiven, h.whole, List.append_assoc]
    · intro hTrue
      rw [hShut, hAccepting.2] at hTrue
      cases hTrue

theorem drain_eq_some {answer : SystemCall Nat} (h : p.drain fd answer = some (fd', p')) :
    (p.stream.buffer = [] ∧ fd' = fd ∧ p' = p) ∨
      (p.stream.buffer ≠ [] ∧ fd' = fd.registerWrite ∧ ∃ n, 0 < n ∧
        p' = { p with stream := p.stream.pop n, given := p.given ++ p.stream.buffer.take n }) := by
  rw [drain] at h
  split at h
  · next hEmpty =>
    cases h
    exact .inl ⟨List.length_eq_zero_iff.mp hEmpty, rfl, rfl⟩
  · next hSome =>
    have hNe : p.stream.buffer ≠ [] := fun hNil => hSome (List.length_eq_zero_iff.mpr hNil)
    split at h
    · cases h
    · next destination n hWrite =>
      cases h
      obtain ⟨-, hPos, hCount⟩ := FileDescriptor.write_eq_some hWrite
      exact .inr ⟨hNe, hCount, n, hPos hNe, rfl⟩

theorem Intact.drain (h : Intact p) {answer : SystemCall Nat}
    (hDrain : p.drain fd answer = some (fd', p')) : Intact p' := by
  obtain ⟨-, -, rfl⟩ | ⟨hNe, -, n, -, rfl⟩ := drain_eq_some hDrain
  · exact h
  · constructor
    · change p.taken = (p.given ++ p.stream.buffer.take n) ++ (p.stream.pop n).buffer
      rw [ByteStream.pop_buffer, List.append_assoc, List.take_append_drop]
      exact h.whole
    · intro hShut
      exact absurd (h.shut hShut).2 hNe

/-- A writing rule drains its stream, and then passes its end on if nothing is left. -/
theorem flush_cases {answer : SystemCall Nat} {finish : FileDescriptor → Option FileDescriptor}
    (h : p.flush fd answer finish = .ok (fd', p') ∨ p.flush fd answer finish = .error (fd', p')) :
    (fd' = fd ∧ p' = p) ∨ ∃ fd₁ p₁, p.drain fd answer = some (fd₁, p₁) ∧
      (fd' = fd₁ ∧ p' = p₁ ∨ p₁.stream.isFinished = true ∧ finish fd₁ = some fd' ∧
        p' = { p₁ with shutdown := true }) := by
  rw [flush] at h
  split at h
  · obtain h | h := h <;> cases h
    exact .inl ⟨rfl, rfl⟩
  · next fd₁ p₁ hDrain =>
    refine .inr ⟨fd₁, p₁, hDrain, ?_⟩
    split at h
    · next hFinished =>
      split at h
      · obtain h | h := h <;> cases h
        exact .inl ⟨rfl, rfl⟩
      · next fd₂ hFinish =>
        obtain h | h := h <;> cases h
        exact .inr ⟨hFinished, hFinish, rfl⟩
    · obtain h | h := h <;> cases h
      exact .inl ⟨rfl, rfl⟩

theorem Intact.flush (h : Intact p) {answer : SystemCall Nat}
    {finish : FileDescriptor → Option FileDescriptor}
    (hFlush : p.flush fd answer finish = .ok (fd', p') ∨
      p.flush fd answer finish = .error (fd', p')) : Intact p' := by
  obtain ⟨-, rfl⟩ | ⟨fd₁, p₁, hDrain, ⟨-, rfl⟩ | ⟨hFinished, -, rfl⟩⟩ := flush_cases hFlush
  · exact h
  · exact h.drain hDrain
  · exact ⟨(h.drain hDrain).whole, fun _ => ByteStream.isFinished_iff.mp hFinished⟩

end Steps

end Pipe

namespace StreamCopy

def rules : List (FDRule StreamCopy Answers) :=
  [readInput 0, writeSocket 1, readSocket 2, writeOutput 3]

theorem forall_rules {P : FDRule StreamCopy Answers → Prop} (hInput : P (readInput 0))
    (hSocket : P (writeSocket 1)) (hSocket' : P (readSocket 2)) (hOutput : P (writeOutput 3)) :
    ∀ r ∈ rules, P r := by
  intro r hMem
  simp only [rules, List.mem_cons, List.not_mem_nil, or_false] at hMem
  obtain rfl | rfl | rfl | rfl := hMem <;> assumption

structure Intact (s : StreamCopy) : Prop where
  outbound : s.outbound.Intact
  inbound : s.inbound.Intact

/-- What the interest of a rule leaves behind. -/
structure Armed (r : FDRule StreamCopy Answers) (s : StreamCopy) : Prop where
  readInput : r.categoryId = 0 → s.outbound.Accepting
  writeSocket : r.categoryId = 1 → s.outbound.hasOutput = true
  readSocket : r.categoryId = 2 → s.inbound.Accepting
  writeOutput : r.categoryId = 3 → s.inbound.hasOutput = true

theorem Intact.cancel {s : StreamCopy} (h : Intact s) :
    ∀ r ∈ rules, Intact (r.cancel s) := by
  apply forall_rules
  · exact ⟨h.outbound.close, h.inbound⟩
  · exact ⟨h.outbound.close, h.inbound⟩
  · exact ⟨h.outbound, h.inbound.close⟩
  · exact ⟨h.outbound, h.inbound.close⟩

theorem Intact.error {s : StreamCopy} (h : Intact s) : ∀ r ∈ rules, Intact (r.error s) := by
  apply forall_rules <;> exact ⟨h.outbound.setError, h.inbound.setError⟩

theorem Armed.cancel {r : FDRule StreamCopy Answers} {s : StreamCopy} (h : Armed r s) :
    ∀ other ∈ rules, Armed r (other.cancel s) := by
  have hOut : Armed r s.closeOutbound :=
    { h with writeSocket := fun hId => Pipe.hasOutput_close (h.writeSocket hId) }
  have hIn : Armed r s.closeInbound :=
    { h with writeOutput := fun hId => Pipe.hasOutput_close (h.writeOutput hId) }
  exact forall_rules hOut hOut hIn hIn

theorem Armed.error {r : FDRule StreamCopy Answers} {s : StreamCopy} (h : Armed r s) :
    ∀ other ∈ rules, Armed r (other.error s) := by
  apply forall_rules <;> exact { h with }

theorem Intact.arm {s : StreamCopy} (h : Intact s) :
    ∀ r ∈ rules, r.interest s = true → Armed r s := by
  apply forall_rules
  · exact fun hWants => ⟨fun _ => h.outbound.accepting hWants, nofun, nofun, nofun⟩
  · exact fun hOutput => ⟨nofun, fun _ => hOutput, nofun, nofun⟩
  · exact fun hWants => ⟨nofun, nofun, fun _ => h.inbound.accepting hWants, nofun⟩
  · exact fun hOutput => ⟨nofun, nofun, nofun, fun _ => hOutput⟩

theorem Intact.callback {s s' : StreamCopy} {answers : Answers} (h : Intact s) :
    ∀ r ∈ rules, Armed r s → r.callback answers s = .ok s' ∨ r.callback answers s = .error s' →
      Intact s' := by
  apply forall_rules
  · intro hArmed hCallback
    obtain ⟨x, hFill, rfl⟩ := eq_of_onState hCallback
    exact ⟨h.outbound.fill (hArmed.readInput rfl) hFill, h.inbound⟩
  · intro hArmed hCallback
    obtain ⟨x, hFlush, rfl⟩ := eq_of_onState hCallback
    exact ⟨h.outbound.flush hFlush, h.inbound⟩
  · intro hArmed hCallback
    obtain ⟨x, hFill, rfl⟩ := eq_of_onState hCallback
    exact ⟨h.outbound, h.inbound.fill (hArmed.readSocket rfl) hFill⟩
  · intro hArmed hCallback
    obtain ⟨x, hFlush, rfl⟩ := eq_of_onState hCallback
    exact ⟨h.outbound, h.inbound.flush hFlush⟩

theorem keeps_intact :
    Keeps (fun _ _ => True) (fun _ _ => True) Armed Intact (fun _ _ => True) rules where
  distinct := by decide
  requested := forall_rules rfl rfl rfl rfl
  defunct r hMem s h _ := ⟨h.cancel r hMem, trivial⟩
  error r hMem s _ h _ _ := ⟨(h.error r hMem).cancel r hMem, trivial⟩
  hangup r hMem s _ h _ _ := ⟨h.cancel r hMem, trivial⟩
  arm r hMem s h := h.arm r hMem
  armed_cancel _ _ other hOther _ _ h := h.cancel other hOther
  armed_error _ _ other hOther _ h := h.error other hOther
  gone_cancel _ _ _ _ _ h := h
  gone_error _ _ _ _ _ h := h
  answered _ _ _ _ _ := ⟨trivial, trivial⟩
  callback r hMem answers s s' _ h hArmed hCallback :=
    ⟨h.callback r hMem hArmed hCallback, fun _ _ h => h⟩

/-- A run of the copy keeps what its loop keeps, as long as `poll` answers as `E` says. -/
theorem run_live {E : FDRule StreamCopy Answers → Revents → Prop}
    {armed : FDRule StreamCopy Answers → StreamCopy → Prop} {P : StreamCopy → Prop}
    {gone : FDRule StreamCopy Answers → StreamCopy → Prop}
    (hK : Keeps E (fun _ _ => True) armed P gone rules)
    {socket : FileDescriptor} (hNew : P (new socket)) {events : List (Poll × Answers)}
    (hReports : Run.Along Running.step (fun x e => x.loop.Reports E x.state e.1) (start socket)
      events) :
    let x := Run.run Running.step (start socket) events
    x.loop.nonFdRules = [] ∧ Live P gone rules x.loop.fdRules x.state := by
  refine Run.invariant (P := fun x : Running => x.loop.nonFdRules = [] ∧
    Live P gone rules x.loop.fdRules x.state) (fun x e hOk h => ?_) hReports ⟨rfl, ?_⟩
  · rw [Running.step]
    split
    · exact h
    · exact hK.waitNextEvent trivial h.1 h.2 hOk
  · exact ⟨List.Sublist.refl _, hNew, fun r hMem => .inl hMem⟩

/-- Whatever `poll` and the kernel answer: in both directions the bytes written are the ones
read, in order, up to the ones that are still buffered, and none are buffered once the end of the
stream has been passed on. -/
theorem run_conserves (socket : FileDescriptor) (events : List (Poll × Answers)) :
    let s := (Run.run Running.step (start socket) events).state
    ∀ p ∈ [s.outbound, s.inbound], p.taken = p.given ++ p.stream.peek ∧
      (p.shutdown = true → p.stream.isClosed = true ∧ p.given = p.taken) := by
  intro s
  have hReports : Run.Along Running.step (fun x e => x.loop.Reports (fun _ _ => True) x.state e.1)
      (start socket) events := by
    refine Run.along_of_forall fun e _ x => ?_
    cases e.1 with
    | failed | timeout => trivial
    | ready revents => exact polled_true _ revents
  have h : Intact s :=
    (run_live keeps_intact ⟨Pipe.intact_new _, Pipe.intact_new _⟩ hReports).2.holds
  have hPipe : ∀ p : Pipe, p.Intact → p.taken = p.given ++ p.stream.peek ∧
      (p.shutdown = true → p.stream.isClosed = true ∧ p.given = p.taken) := by
    intro p hp
    refine ⟨hp.whole, fun hShut => ⟨(hp.shut hShut).1, ?_⟩⟩
    rw [hp.whole, (hp.shut hShut).2, List.append_nil]
  intro p hMem
  obtain rfl | hMem := List.mem_cons.mp hMem
  · exact hPipe _ h.outbound
  · obtain rfl := List.mem_singleton.mp hMem
    exact hPipe _ h.inbound

/-- Three bytes go out in two writes, one byte comes in, and both sources reach their end. -/
def transfer : List (Poll × Answers) :=
  let one : Answers := ⟨.ok [], .ok 1, .ok (), .ok [], .ok 1, .ok ()⟩
  [(.ready [{ pollin := true }], { one with readInput := .ok [97, 98, 99] }),
    (.ready [{}, { pollout := true }], { one with writeSocket := .ok 2 }),
    (.ready [{}, { pollout := true }], one),
    (.ready [{ pollin := true }], one),
    (.ready [{ pollout := true }], one),
    (.ready [{}, { pollin := true }], { one with readSocket := .ok [7] }),
    (.ready [{}, {}, { pollout := true }], one),
    (.ready [{}, { pollin := true, pollhup := true }], one),
    (.ready [{}, { pollout := true }], one),
    (.timeout, one)]

theorem run_conserves_transfer :
    let s := (Run.run Running.step (start {}) (transfer.take 3)).state
    s.outbound.taken = [97, 98, 99] ∧
      s.outbound.taken = s.outbound.given ++ s.outbound.stream.peek ∧ s.outbound.given = [97, 98, 99] := by
  have h := run_conserves {} (transfer.take 3)
  dsimp only at h ⊢
  generalize hx : (Run.run Running.step (start {}) _).state = s at h ⊢
  have hTaken : s.outbound.taken = [97, 98, 99] := by
    rw [← hx]
    decide +kernel
  have hGiven : s.outbound.given = [97, 98, 99] := by
    rw [← hx]
    decide +kernel
  exact ⟨hTaken, (h s.outbound List.mem_cons_self).1, hGiven⟩

end StreamCopy

end Minnow
