import Minnow.PeerShutdown

/-! # RST exactly while a stream has failed

A stored segment that carries RST was sent when the outbound stream had already
failed, and streams do not recover. So a message may take its flags from the
streams as they are when it is handed to the callback, whichever way it leaves.
-/

namespace Minnow

open Library

namespace TCPSender

/-- Only a failed stream has segments in flight that carry RST. -/
def Flagged (s : TCPSender) : Prop :=
  ∀ o ∈ s.outstanding, o.msg.rst = true → s.input.error = true

section Steps

variable {s : TCPSender}

theorem Flagged.emit (h : Flagged s) (win : Nat) : Flagged (s.emit win) := by
  intro o hMem hRst
  change s.input.error = true
  obtain hMem | hMem := List.mem_append.mp hMem
  · exact h o hMem hRst
  · rw [List.mem_singleton.mp hMem] at hRst
    exact hRst

theorem Flagged.push (h : Flagged s) :
    Flagged s.push.1 ∧ ∀ m ∈ s.push.2, m.rst = s.input.error := by
  have hPush := push_rule (s := s) (P := fun t out => Flagged t ∧
    t.input.error = s.input.error ∧ ∀ m ∈ out, m.rst = s.input.error)
    (fun t out _ _ ⟨ht, hError, hOut⟩ => ⟨ht.emit _, hError, fun m hMem => ?_⟩)
    ⟨h, rfl, fun m hMem => (List.not_mem_nil hMem).elim⟩
  · exact ⟨hPush.1, hPush.2.2⟩
  · obtain hMem | hMem := List.mem_append.mp hMem
    · exact hOut m hMem
    · rw [List.mem_singleton.mp hMem]
      exact hError

/-- A stored copy picks the flag up when it is sent again. -/
theorem marked_rst {o : Outstanding} (h : o.msg.rst = true → s.input.error = true) :
    (s.marked o).msg.rst = s.input.error := by
  rw [marked]
  cases hError : s.input.error with
  | true => rw [if_pos (show s.input.hasError = true from hError)]
  | false =>
    rw [if_neg (show ¬ s.input.hasError = true from Bool.eq_false_iff.mp hError)]
    rw [hError] at h
    exact Bool.eq_false_iff.mpr fun hRst => Bool.false_ne_true (h hRst)

theorem Flagged.tick (h : Flagged s) (ms : Nat) :
    Flagged (s.tick ms).1 ∧ ∀ m ∈ (s.tick ms).2, m.rst = s.input.error := by
  have hNone : ∀ m ∈ ([] : List TCPSenderMessage), m.rst = s.input.error :=
    fun m hMem => (List.not_mem_nil hMem).elim
  cases hTimer : s.timerRunning with
  | false =>
    rw [tick_idle hTimer]
    exact ⟨h, hNone⟩
  | true =>
    cases hOut : s.outstanding with
    | nil =>
      rw [TCPSender.tick, hTimer, hOut]
      refine ⟨?_, hNone⟩
      intro o hMem
      exact (List.not_mem_nil (show o ∈ ([] : List Outstanding) from hMem)).elim
    | cons o rest =>
      have hFlagged := h
      rw [Flagged, hOut] at hFlagged
      have hMarked := marked_rst (hFlagged o List.mem_cons_self)
      rw [tick_eq hTimer hOut]
      split
      · constructor
        · intro p hMem hRst
          change s.input.error = true
          obtain rfl | hMem := List.mem_cons.mp hMem
          · exact hMarked.symm.trans hRst
          · exact hFlagged p (List.mem_cons_of_mem o hMem) hRst
        · intro m hMem
          rw [List.mem_singleton.mp hMem]
          exact hMarked
      · exact ⟨h, hNone⟩

theorem Flagged.receive (h : Flagged s) (msg : TCPReceiverMessage) : Flagged (s.receive msg) := by
  obtain ⟨-, hEq⟩ | ⟨-, -, hEq⟩ | ⟨-, -, hEq⟩ := s.receive_cases msg
  · rw [hEq]
    exact fun o hMem hRst => rfl
  · rw [hEq]
    exact h
  · rw [hEq]
    intro o hMem
    exact h o ((List.dropWhile_sublist _).subset hMem)

end Steps

end TCPSender

namespace TCPPeer

theorem send_rst (r : TCPReceiver) : r.send.rst = r.reassembler.output.error := by
  rw [TCPReceiver.send]
  cases hError : r.reassembler.output.error with
  | true => rw [if_pos (show r.reassembler.output.hasError = true from hError)]
  | false =>
    rw [if_neg (show ¬ r.reassembler.output.hasError = true from Bool.eq_false_iff.mp hError)]
    cases r.isn <;> rfl

/-- The peer at the moment an action starts to transmit: a received message has been given to
both halves by then. -/
def sending (p : TCPPeer) : Action → TCPPeer
  | .receive msg => if p.active then p.accept msg else p
  | _ => p

structure SameErrors (p q : TCPPeer) : Prop where
  outbound : q.outbound.error = p.outbound.error
  inbound : q.inbound.error = p.inbound.error

/-- The flags a message has when it leaves `p`. -/
structure Truthful (p : TCPPeer) (m : TCPMessage) : Prop where
  sender : m.sender.rst = p.outbound.error
  receiver : m.receiver.rst = p.inbound.error

section Steps

variable {p : TCPPeer}

theorem truthful_sendAll {q : TCPPeer} (hSame : SameErrors p q) {msgs : List TCPSenderMessage}
    (h : ∀ m ∈ msgs, m.rst = p.outbound.error) : ∀ m ∈ (q.sendAll msgs).2, Truthful p m := by
  intro m hMem
  obtain ⟨msg, hIn, rfl⟩ := List.mem_map.mp hMem
  exact ⟨h msg hIn, (send_rst q.receiver).trans hSame.inbound⟩

theorem push_truthful (h : p.sender.Flagged) :
    p.push.1.sender.Flagged ∧ SameErrors p p.push.1 ∧ ∀ m ∈ p.push.2, Truthful p m := by
  obtain ⟨hFlagged, hRst⟩ := h.push
  have hError : p.sender.push.1.input.error = p.sender.input.error :=
    p.sender.push_untouched.error
  have hSame : SameErrors p { p with sender := p.sender.push.1 } := ⟨hError, rfl⟩
  exact ⟨hFlagged, ⟨hError, rfl⟩, truthful_sendAll hSame hRst⟩

theorem replyIfNeeded_truthful (q : TCPPeer) (hSame : SameErrors p q) :
    q.replyIfNeeded.1.sender = q.sender ∧ SameErrors p q.replyIfNeeded.1 ∧
      ∀ m ∈ q.replyIfNeeded.2, Truthful p m := by
  rw [replyIfNeeded]
  split
  · refine ⟨rfl, ⟨hSame.outbound, hSame.inbound⟩, truthful_sendAll hSame ?_⟩
    intro m hMem
    rw [List.mem_singleton.mp hMem]
    exact hSame.outbound
  · exact ⟨rfl, hSame, fun m hMem => (List.not_mem_nil hMem).elim⟩

theorem endLinger_same (q : TCPPeer) : q.endLinger.sender = q.sender ∧ SameErrors q q.endLinger := by
  rw [endLinger]
  split <;> exact ⟨rfl, rfl, rfl⟩

/-- What any action transmits tells the truth about both streams, and stores nothing else. -/
theorem receive_truthful (h : p.sender.Flagged) (hActive : p.active = true) (msg : TCPMessage) :
    (p.receive msg).1.sender.Flagged ∧ ∀ m ∈ (p.receive msg).2, Truthful (p.accept msg) m ∧
      SameErrors (p.accept msg) (p.receive msg).1 := by
  have hFlagged : (p.accept msg).sender.Flagged := h.receive msg.receiver
  obtain ⟨hPushed, hSame, hTrue⟩ := push_truthful hFlagged
  obtain ⟨hSender, hSame', hTrue'⟩ := replyIfNeeded_truthful _ hSame
  have hLinger := endLinger_same (p.accept msg).push.1.replyIfNeeded.1
  rw [receive, if_pos hActive]
  refine ⟨?_, fun m hMem => ⟨?_, hLinger.2.outbound.trans hSame'.outbound,
    hLinger.2.inbound.trans hSame'.inbound⟩⟩
  · rw [hLinger.1, hSender]
    exact hPushed
  · obtain hMem | hMem := List.mem_append.mp hMem
    · exact hTrue m hMem
    · exact hTrue' m hMem

theorem perform_truthful (h : p.sender.Flagged) (a : Action) :
    (p.step a).sender.Flagged ∧ ∀ m ∈ p.transmitted a, Truthful (p.sending a) m ∧
      SameErrors (p.sending a) (p.step a) := by
  have hNone : ∀ m ∈ ([] : List TCPMessage), Truthful (p.sending a) m ∧
      SameErrors (p.sending a) (p.step a) := fun m hMem => (List.not_mem_nil hMem).elim
  cases a with
  | write data | close | pop len | setInboundError => exact ⟨h, hNone⟩
  | setOutboundError => exact ⟨fun o hMem hRst => rfl, hNone⟩
  | push =>
    obtain ⟨hFlagged, hSame, hTrue⟩ := push_truthful h
    exact ⟨hFlagged, fun m hMem => ⟨hTrue m hMem, hSame⟩⟩
  | tick ms =>
    obtain ⟨hFlagged, hRst⟩ := h.tick ms
    have hInput := (p.sender.tick_kept ms).1
    have hSame : SameErrors p (p.tick ms).1 := ⟨congrArg ByteStream.error hInput, rfl⟩
    refine ⟨hFlagged, fun m hMem => ⟨?_, hSame⟩⟩
    have hTicked : SameErrors p { p with
        cumulativeTime := u64 (p.cumulativeTime + ms)
        sender := (p.sender.tick ms).1 } := ⟨hSame.outbound, rfl⟩
    exact truthful_sendAll hTicked hRst m hMem
  | receive msg =>
    cases hActive : p.active with
    | false =>
      have hIdle := receive_of_inactive hActive msg
      rw [step, transmitted, perform, hIdle]
      exact ⟨h, fun m hMem => (List.not_mem_nil hMem).elim⟩
    | true =>
      have hSending : p.sending (.receive msg) = p.accept msg := if_pos hActive
      rw [hSending]
      exact receive_truthful h hActive msg

theorem receive_reset (hActive : p.active = true) {msg : TCPMessage}
    (hSender : msg.sender.rst = true) (hReceiver : msg.receiver.rst = true) :
    (p.step (.receive msg)).outbound.error = true ∧
      (p.step (.receive msg)).inbound.error = true := by
  obtain ⟨hPushed, hReceived⟩ := receive_view hActive msg
  constructor
  · rw [step, perform, outbound, hPushed, (p.accept msg).sender.push_untouched.error]
    change (p.sender.receive msg.receiver).input.error = true
    rw [TCPSender.receive, if_pos hReceiver]
    rfl
  · rw [step, perform, inbound, hReceived, TCPReceiver.receive, if_pos hSender]
    rfl

end Steps

/-- In every run each transmitted message carries RST for exactly the streams that have failed,
and a peer that has been reset in both directions has failed and stopped for good. -/
theorem run_reset (cfg : TCPConfig) (actions : List Action) :
    let p := Run.run step (new cfg) actions
    (∀ a, ∀ m ∈ p.transmitted a,
        m.sender.rst = (p.sending a).outbound.hasError ∧
        m.receiver.rst = (p.sending a).inbound.hasError ∧
        (p.step a).outbound.hasError = (p.sending a).outbound.hasError ∧
        (p.step a).inbound.hasError = (p.sending a).inbound.hasError) ∧
      ∀ msg, p.active = true → msg.sender.rst = true → msg.receiver.rst = true → ∀ later,
        let q := Run.run step (p.step (.receive msg)) later
        q.outbound.hasError = true ∧ q.inbound.hasError = true ∧ q.active = false := by
  intro p
  have hFlagged : p.sender.Flagged :=
    Run.invariant_of_step (P := fun q : TCPPeer => q.sender.Flagged)
      (fun q a h => (perform_truthful h a).1) (fun o hMem => (List.not_mem_nil hMem).elim) actions
  constructor
  · intro a m hMem
    obtain ⟨hTrue, hSame⟩ := (perform_truthful hFlagged a).2 m hMem
    exact ⟨hTrue.sender, hTrue.receiver, hSame.outbound, hSame.inbound⟩
  · intro msg hActive hSender hReceiver later q
    have hFailed : q.outbound.error = true ∧ q.inbound.error = true :=
      Run.invariant_of_step
        (P := fun r : TCPPeer => r.outbound.error = true ∧ r.inbound.error = true)
        (fun r a h => ⟨(r.error_step a).1 h.1, (r.error_step a).2 h.2⟩)
        (receive_reset hActive hSender hReceiver) later
    exact ⟨hFailed.1, hFailed.2, active_of_errors (anyErrors_iff.mpr (.inl hFailed.2))⟩

end TCPPeer

end Minnow
