import Minnow.PeerShutdown
import Minnow.SocketPair

/-! # The end of a socket's thread

When the loop of a thread ends by itself, both owners have all that they will
ever get. A hang-up of a descriptor is excluded: it would cancel a rule, and
with it what that rule still had to do.
-/

namespace Minnow

open EventLoop Library TCPDatagramAdapter

namespace TCPPeer

variable {p : TCPPeer}

/-- The push sends the FIN that closing has made due. -/
theorem Honest.close_push (h : Honest p) : Honest ((p.step .close).step .push) where
  consistent := TCPSender.Consistent.push { h.consistent with }
  flushed _ _ hClosed _ hFlight := TCPSender.push_flushes _ hClosed hFlight

theorem active_close (h : p.active = false) : (p.step .close).active = false := by
  have hLess : (p.step .close).senderActive = true → p.senderActive = true := by
    change (p.sender.sequenceNumbersInFlight != 0 || !(true && p.outbound.buffer.isEmpty)) = true →
      (p.sender.sequenceNumbersInFlight != 0 ||
        !(p.outbound.closed && p.outbound.buffer.isEmpty)) = true
    cases p.outbound.closed <;> cases p.outbound.buffer.isEmpty <;> simp
  rw [← Bool.not_eq_true] at h ⊢
  intro hAfter
  apply h
  rw [active, Bool.and_eq_true, Bool.or_eq_true, Bool.or_eq_true] at hAfter ⊢
  exact ⟨hAfter.1, hAfter.2.imp_left (Or.imp_left hLess)⟩

/-- The clock of an active peer may go on. -/
theorem orderly_tick (h : p.active = true) (ms : Nat) : Orderly p (.tick ms) := by
  intro hErrors hSender hReceiver hLinger
  rw [active, hErrors, hSender, hReceiver, hLinger] at h
  exact absurd h (by decide)

end TCPPeer

namespace MinnowSocket

open TCPPeer

variable {A F : Type} [TCPDatagramAdapter A F]

/-- No error, and nobody has hung up. -/
def Quiet (_ : FDRule (MinnowSocket A F) (Answers F)) (ev : Revents) : Prop :=
  ev.error = false ∧ ev.pollhup = false

instance (r : FDRule (MinnowSocket A F) (Answers F)) (ev : Revents) : Decidable (Quiet r ev) :=
  inferInstanceAs (Decidable (_ ∧ _))

structure Proper (s : MinnowSocket A F) : Prop where
  honest : Honest s.tcp
  shut : s.tcp.outbound.isClosed = true → s.outboundShutdown = true
  eof : s.threadData.eof = true → s.tcp.outbound.isClosed = true
  kept : s.threadData.closed = false
  adapter : (fd s.datagramAdapter).eof = false ∧ (fd s.datagramAdapter).closed = false

section Steps

variable {s s' : MinnowSocket A F} {answers : Answers F}

/-- Another adapter whose device is as far from its end. -/
theorem Proper.withAdapter (h : Proper s) {a : A} (hSame : (fd s.datagramAdapter).SameEnd (fd a)) :
    Proper { s with datagramAdapter := a } :=
  { h with adapter := ⟨hSame.1.trans h.adapter.1, hSame.2.trans h.adapter.2⟩ }

/-- A close of what is closed already. -/
theorem Proper.close (h : Proper s) (hClosed : s.tcp.outbound.isClosed = true) :
    Proper { s.perform .close with outboundShutdown := true } :=
  { h with
    honest := h.honest.step trivial fun _ _ hOpen => absurd (hClosed.symm.trans hOpen) nofun
    shut := fun _ => rfl
    eof := fun _ => rfl }

variable [LawfulAdapter A]

theorem Proper.perform (h : Proper s) {a : Action} (hOther : a ≠ .close)
    (hWrite : NoWriteAfterClose s.tcp a) (hOrderly : Orderly s.tcp a) : Proper (s.perform a) := by
  have hClosed : (s.tcp.step a).outbound.isClosed = s.tcp.outbound.isClosed :=
    (s.tcp.closed_step a).resolve_right hOther
  have hWritten := h.withAdapter (writeAll_fd s.datagramAdapter (s.tcp.transmitted a))
  exact { hWritten with
    honest := h.honest.step hWrite hOrderly
    shut := fun hAfter => h.shut (hClosed ▸ hAfter)
    eof := fun hEof => hClosed.trans (h.eof hEof) }

theorem Proper.push (h : Proper s) : Proper (s.perform .push) := h.perform nofun trivial trivial

theorem Proper.receiveSegment (h : Proper s)
    (hCallback : receiveSegment answers s = .ok s' ∨ receiveSegment answers s = .error s') :
    Proper s' := by
  obtain rfl | ⟨adapter, seg, hRead, rfl | ⟨msg, -, rfl⟩⟩ := receiveSegment_cases hCallback
  · exact h
  · exact h.withAdapter (LawfulAdapter.read_fd s.datagramAdapter hRead)
  · exact (h.withAdapter (LawfulAdapter.read_fd s.datagramAdapter hRead)).perform
      (a := .receive msg) nofun trivial trivial

theorem Proper.pushBytes (h : Proper s) (hTakes : Takes s)
    (hCallback : pushBytes answers s = .ok s' ∨ pushBytes answers s = .error s') :
    Proper s' := by
  obtain rfl | ⟨threadData, data, hRead, hAfter⟩ := pushBytes_cases hCallback
  · exact h
  · obtain ⟨-, hKept, -⟩ := FileDescriptor.read_eq_some hTakes.1 hRead
    have hWritten := h.perform (a := .write data) nofun hTakes.2 trivial
    obtain ⟨hEof, rfl⟩ | ⟨hMore, rfl⟩ := hAfter
    · have hClosed : (((s.tcp.step (.write data)).step .close).step .push).outbound.isClosed =
          true := (TCPPeer.closed_step _ _).resolve_right nofun
      have hSame := writeAll_fd (s.written threadData data).datagramAdapter
        (((s.written threadData data).tcp.step .close).transmitted .push)
      exact ⟨hWritten.honest.close_push, fun _ => rfl, fun _ => hClosed, hKept.trans h.kept,
        hSame.1.trans hWritten.adapter.1, hSame.2.trans hWritten.adapter.2⟩
    · have hPushed := hWritten.push
      exact ⟨hPushed.honest, hPushed.shut, fun hEof => absurd (hMore.symm.trans hEof) nofun,
        hKept.trans h.kept, hPushed.adapter⟩

theorem Proper.readInbound (h : Proper s)
    (hCallback : readInbound answers s = .ok s' ∨ readInbound answers s = .error s') :
    Proper s' := by
  obtain rfl | ⟨s₁, hPass, hAfter⟩ := readInbound_cases hCallback
  · exact h
  · have hPassed : Proper s₁ := by
      obtain rfl | ⟨n, rfl⟩ := passBytes_cases hPass
      · exact h
      · have hPopped := h.perform (a := .pop n) nofun trivial trivial
        exact { hPopped with }
    obtain rfl | ⟨-, rfl⟩ := hAfter
    · exact hPassed
    · exact { hPassed with }

/-- The only rule that is ever cancelled is the one that reads from the owner, at the end of what
there is to read. -/
theorem keeps_proper :
    Keeps (σ := MinnowSocket A F) Quiet (fun _ _ => True) Armed Proper
      (fun r _ => r.categoryId = 1) rules where
  distinct := show [0, 1, 2].Nodup by decide
  requested := forall_rules rfl rfl rfl
  defunct := by
    refine forall_rules (fun s h hDefunct => ?_) (fun s h hDefunct => ?_) (fun s h hDefunct => ?_)
    · obtain ⟨-, hEof⟩ | hClosed := hDefunct
      · exact absurd (h.adapter.1.symm.trans hEof) nofun
      · exact absurd (h.adapter.2.symm.trans hClosed) nofun
    · obtain ⟨-, hEof⟩ | hClosed := hDefunct
      · exact ⟨h.close (h.eof hEof), rfl⟩
      · exact absurd (h.kept.symm.trans hClosed) nofun
    · obtain ⟨hInput, -⟩ | hClosed := hDefunct
      · exact nomatch hInput
      · exact absurd (h.kept.symm.trans hClosed) nofun
  error _ _ _ _ _ hQuiet hError := absurd (hQuiet.1.symm.trans hError) nofun
  hangup _ _ _ _ _ hQuiet hHup := absurd (hQuiet.2.symm.trans hHup) nofun
  arm r hMem s h := armed_of_interest h.shut r hMem
  armed_cancel _ _ other hOther hId _ h := h.cancel other hOther hId
  armed_error _ _ other hOther _ h := h.error other hOther
  gone_cancel _ _ _ _ _ h := h
  gone_error _ _ _ _ _ h := h
  answered _ _ _ _ _ := ⟨trivial, trivial⟩
  callback r hMem answers s s' _ h hArmed hCallback := by
    refine ⟨?_, fun _ _ h => h⟩
    revert hArmed hCallback
    refine forall_rules (P := fun r => Armed r s → r.callback answers s = .ok s' ∨
      r.callback answers s = .error s' → Proper s') ?_ ?_ ?_ r hMem
    · exact fun _ => h.receiveSegment
    · exact fun hArmed => h.pushBytes (hArmed rfl)
    · exact fun _ => h.readInbound

end Steps

/-- Nothing is left to do: the peer has stopped, and what came in has been passed on. -/
structure Done (s : MinnowSocket A F) : Prop where
  inactive : s.tcp.active = false
  empty : s.tcp.inbound.bytesBuffered = 0
  passed : s.tcp.inbound.isFinished = true → s.inboundShutdown = true

/-- What the lack of interest of a rule means. -/
structure Idle (r : FDRule (MinnowSocket A F) (Answers F)) (s : MinnowSocket A F) : Prop where
  receive : r.categoryId = 0 → s.tcp.active = false
  inbound : r.categoryId = 2 → s.tcp.inbound.bytesBuffered = 0 ∧
    (s.tcp.inbound.isFinished = true → s.inboundShutdown = true)

theorem idle_of_interest {s : MinnowSocket A F} :
    ∀ r ∈ rules, r.interest s = false → Idle r s := by
  apply forall_rules
  · exact fun hInactive => ⟨fun _ => hInactive, nofun⟩
  · exact fun _ => ⟨nofun, nofun⟩
  · intro hInterest
    refine ⟨nofun, fun _ => ?_⟩
    simp only [inboundRule, Bool.or_eq_false_iff, bne_eq_false_iff_eq, Bool.and_eq_false_iff,
      Bool.not_eq_false'] at hInterest
    refine ⟨hInterest.1, fun hFinished => hInterest.2.resolve_left fun hNone => ?_⟩
    exact absurd (hNone.1.symm.trans hFinished) nofun

theorem Idle.cancel {r : FDRule (MinnowSocket A F) (Answers F)} {s : MinnowSocket A F}
    (h : Idle r s) :
    ∀ other ∈ rules, Idle r (other.cancel s) :=
  forall_rules h ⟨fun hId => active_close (h.receive hId), h.inbound⟩ h

namespace Thread

/-- What a thread keeps as long as nobody hangs up. -/
structure Polite (x : Thread A F) : Prop where
  basic : x.loop.nonFdRules = []
  live : Live Proper (fun r _ => r.categoryId = 1) rules x.loop.fdRules x.socket
  done : x.phase = .ended .exit → Done x.socket

theorem polite_new (cfg : TCPConfig) {adapter : A} (hEof : (fd adapter).eof = false)
    (hClosed : (fd adapter).closed = false) : Polite (new cfg adapter) where
  basic := rfl
  live := ⟨List.Sublist.refl _, ⟨honest_new cfg, nofun, nofun, rfl, hEof, hClosed⟩, fun _ => .inl⟩
  done := nofun

section Turn

variable {x : Thread A F}

theorem Polite.perform (h : Polite x) {s : MinnowSocket A F} (hProper : Proper s) {phase : Phase}
    (hPhase : phase ≠ .ended .exit) : Polite { x with socket := s, phase := phase } :=
  ⟨h.basic, ⟨h.live.sublist, hProper, h.live.gone⟩, fun hEnded => absurd hEnded hPhase⟩

variable [LawfulAdapter A]

theorem Polite.event (h : Polite x) (hPhase : ∀ result, x.phase ≠ .ended result) {t : Turn F}
    (hReports : x.loop.Reports Quiet x.socket t.poll) : Polite (x.event t) := by
  have hTrue : (fun (_ : MinnowSocket A F) (_ : Answers F) => True) x.socket t.answers := trivial
  obtain ⟨hBasic, hLive⟩ := keeps_proper.waitNextEvent hTrue h.basic h.live hReports
  have hExit : (x.loop.waitNextEvent x.socket t.poll t.answers).1 = .exit → Proper _ ∧
      ∀ r ∈ rules, Idle r (x.loop.waitNextEvent x.socket t.poll t.answers).2.2 ∨
        r.categoryId = 1 :=
    keeps_proper.idle_of_exit (fun r hMem s => idle_of_interest r hMem)
      (List.pairwise_of_forall_mem_list fun r _ other hOther s hIdle => hIdle.cancel other hOther)
      h.basic h.live
  rw [Thread.event]
  dsimp only
  split
  · exact ⟨hBasic, hLive, fun hEnded => by cases hEnded⟩
  · split
    · refine ⟨hBasic, hLive, fun hEnded => ?_⟩
      dsimp only at hEnded
      split at hEnded
      · obtain ⟨-, hIdle⟩ := hExit (Phase.ended.inj hEnded)
        have hReceive := (hIdle (receiveRule 0) (by simp [rules])).resolve_right
          (show ¬ 0 = 1 by decide)
        have hInbound := (hIdle (inboundRule 2) (by simp [rules])).resolve_right
          (show ¬ 2 = 1 by decide)
        exact ⟨hReceive.receive rfl, (hInbound.inbound rfl).1, (hInbound.inbound rfl).2⟩
      · cases hEnded
    · have hAfter : Polite { x with
          loop := (x.loop.waitNextEvent x.socket t.poll t.answers).2.1
          socket := (x.loop.waitNextEvent x.socket t.poll t.answers).2.2 } :=
        ⟨hBasic, hLive, fun hEnded => absurd hEnded (hPhase _)⟩
      split
      · next hActive =>
        have hTicked := hLive.holds.perform (a := .tick t.ms) (by simp) trivial
          (orderly_tick hActive t.ms)
        exact hAfter.perform hTicked (hPhase _)
      · exact hAfter

theorem Polite.step (h : Polite x) {a : Action F} (hPolls : Polls Quiet x a) :
    Polite (x.fresh.step a) := by
  have hFresh : Polite x.fresh :=
    ⟨h.basic, ⟨h.live.sublist, { h.live.holds with }, h.live.gone⟩,
      fun hEnded => { h.done hEnded with }⟩
  have hConfigured : ∀ cfg, Proper (x.fresh.socket.configure cfg) := fun cfg =>
    hFresh.live.holds.withAdapter (LawfulAdapter.configure_fd _ cfg)
  cases a with
  | connect cfg =>
    rw [Thread.step]
    split
    · refine hFresh.perform (hConfigured cfg).push ?_
      split <;> simp
    · exact hFresh
  | listenAndAccept cfg =>
    have hListening : Proper (x.fresh.socket.configure cfg).listen :=
      (hConfigured cfg).withAdapter (LawfulAdapter.listening_fd _ true)
    rw [Thread.step]
    split
    · exact hFresh.perform hListening (by simp : Phase.accepting ≠ .ended .exit)
    · exact hFresh
  | turn t =>
    have hEvent : ∀ phase, (∀ result, phase ≠ .ended result) →
        Polite ({ x.fresh with phase := phase }.event t) := fun phase hPhase =>
      Polite.event (hFresh.perform hFresh.live.holds (hPhase _)) hPhase hPolls
    rw [Thread.step]
    split
    · exact hFresh
    · exact hFresh
    all_goals
      next hPhase =>
        split
        · refine hEvent x.phase fun result hEnded => ?_
          cases hPhase.symm.trans hEnded
        · exact hEvent .running (by simp)

end Turn

end Thread

end MinnowSocket

namespace SocketPair

open MinnowSocket Thread TCPPeer

variable {A F : Type} [TCPDatagramAdapter A F]

/-- Nobody hangs up on a thread. -/
def Quietly (self : SocketPair A F) : Step F → Prop := self.Meets machine fun _ => Polls Quiet

instance (self : SocketPair A F) (a : Step F) : Decidable (Quietly self a) :=
  inferInstanceAs (Decidable (self.Meets machine (fun _ => Polls Quiet) a))

/-- The right owner hands over nothing and closes as well. -/
def transferAndEnd : List (Step (List Byte)) :=
  transfer ++ [.act .right (.turn (fromOwner [])), .deliver .left heardDatagram 8,
    .deliver .right heardDatagram 9, .act .right (.turn (waited 1))]

end SocketPair

end Minnow
