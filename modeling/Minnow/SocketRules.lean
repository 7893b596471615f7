import Minnow.AdapterWire
import Minnow.EventLoopRules
import Minnow.MinnowSocket

/-! # What the rules of a socket make its peer do

Each callback is a few calls of the peer that an application could make as well.
The rule that reads from the owner is only called with room in the outbound
stream and before that stream is closed.
-/

namespace Minnow

open EventLoop Library Network TCPDatagramAdapter

/-- A datagram carries a message if an adapter has made it of the message. -/
def Carries (A : Type) {F : Type} [TCPDatagramAdapter A F] (m : TCPMessage) (f : F) : Prop :=
  ∃ a : A, f ∈ (write a m).2

namespace MinnowSocket

variable {A F : Type}

/-- What a caller in place of the socket would know. -/
def caller (self : MinnowSocket A F) : Caller where
  peer := self.tcp
  accepted := self.taken
  delivered := self.given
  told := self.inboundShutdown

variable [TCPDatagramAdapter A F]

/-- Since it has been like the caller `start` and has sent nothing, the socket has behaved like a
caller that hears messages as `H` says, unless it has taken too many bytes. -/
structure Follows (H : TCPMessage → Prop) (start : Caller) (s : MinnowSocket A F) : Prop where
  does : s.taken.length < 2 ^ 31 - 2 →
    Matches Caller.machine Caller.Fair H (Carries A) start s.caller s.sent
  shut : s.tcp.outbound.isClosed = true → s.outboundShutdown = true

section Steps

variable {H : TCPMessage → Prop} {start : Caller} {s s' : MinnowSocket A F}

/-- The datagrams that have been sent in between carry some of the messages. -/
def Sends (s s' : MinnowSocket A F) (msgs : List TCPMessage) : Prop :=
  ∀ f ∈ s'.sent, f ∈ s.sent ∨ ∃ m ∈ msgs, Carries A m f

theorem sends_perform (s : MinnowSocket A F) (a : TCPPeer.Action) :
    Sends s (s.perform a) (s.tcp.transmitted a) := by
  intro f hMem
  obtain hOld | hNew := List.mem_append.mp hMem
  · exact .inl hOld
  · exact .inr (mem_writeAll hNew)

theorem Follows.shut_perform (h : Follows H start s) {a : TCPPeer.Action} (hOther : a ≠ .close) :
    (s.tcp.step a).outbound.isClosed = true → s.outboundShutdown = true := by
  intro hClosed
  obtain hSame | rfl := s.tcp.closed_step a
  · exact h.shut (hSame ▸ hClosed)
  · exact absurd rfl hOther

theorem Follows.push (h : Follows H start s) : Follows H start (s.perform .push) where
  does hShort := (h.does hShort).act (a := .talk .push) trivial (s.sends_perform .push)
  shut := h.shut_perform nofun

theorem Follows.tick (h : Follows H start s) (ms : Nat) :
    Follows H start (s.perform (.tick ms)) where
  does hShort := (h.does hShort).act (a := .talk (.tick ms)) trivial (s.sends_perform (.tick ms))
  shut := h.shut_perform nofun

theorem Follows.close (h : Follows H start s) :
    Follows H start { s.perform .close with outboundShutdown := true } where
  does hShort := (h.does hShort).act (a := .talk .close) trivial (s.sends_perform .close)
  shut _ := rfl

theorem Follows.receive (h : Follows H start s) {msg : TCPMessage} (hHeard : H msg) :
    Follows H start (s.perform (.receive msg)) where
  does hShort := (h.does hShort).hear () hHeard (s.sends_perform (.receive msg))
  shut := h.shut_perform nofun

theorem Follows.write (h : Follows H start s) (hOpen : s.tcp.outbound.isClosed = false)
    {data : List Byte} (hRoom : data.length ≤ s.tcp.outbound.availableCapacity) :
    Follows H start ({ s with taken := s.taken ++ data }.perform (.write data)) where
  does hShort := by
    have hAll : (s.caller.toTalker.step (.write data)).accepted = s.taken ++ data :=
      congrArg (s.taken ++ ·) (List.take_of_length_le hRoom)
    have hBefore : s.taken.length < 2 ^ 31 - 2 :=
      (List.prefix_append s.taken data).length_le.trans_lt hShort
    have hAfter : (Caller.machine.perform s.caller (.talk (.write data))).1 =
        ({ s with taken := s.taken ++ data }.perform (.write data)).caller := by
      change Caller.mk ⟨_, (s.caller.toTalker.step (.write data)).accepted, _⟩ _ = _
      rw [hAll]
      rfl
    rw [← hAfter]
    exact (h.does hBefore).act (a := .talk (.write data)) ⟨hOpen, hAll ▸ hShort⟩
      (s.sends_perform (.write data))
  shut := h.shut_perform nofun

theorem Follows.pop (h : Follows H start s) (n : Nat) :
    Follows H start
      ({ s with given := s.given ++ s.tcp.inbound.peek.take n }.perform (.pop n)) where
  does hShort := (h.does hShort).act (a := .talk (.pop n)) trivial (s.sends_perform (.pop n))
  shut := h.shut_perform nofun

theorem Follows.tell (h : Follows H start s)
    (hEnd : s.tcp.inbound.isFinished = true ∨ s.tcp.inbound.hasError = true) :
    Follows H start { s with inboundShutdown := true } where
  does hShort := (h.does hShort).act (a := .tell) hEnd fun _ => .inl
  shut := h.shut

theorem Follows.descriptors (h : Follows H start s) (a : A) (threadData : FileDescriptor) :
    Follows H start { s with datagramAdapter := a, threadData := threadData } := ⟨h.does, h.shut⟩

end Steps

section Callbacks

variable {H : TCPMessage → Prop} {start : Caller} {s s' : MinnowSocket A F} {answers : Answers F}

theorem receiveSegment_cases
    (h : receiveSegment answers s = .ok s' ∨ receiveSegment answers s = .error s') :
    s' = s ∨ ∃ adapter seg, read s.datagramAdapter answers.readAdapter = some (adapter, seg) ∧
      (s' = { s with datagramAdapter := adapter } ∨
        ∃ msg ∈ seg, s' = { s with datagramAdapter := adapter }.perform (.receive msg)) := by
  unfold receiveSegment at h
  split at h
  · obtain hEq | hEq := h <;> cases hEq
    exact .inl rfl
  · next adapter seg hRead =>
    refine .inr ⟨adapter, seg, hRead, ?_⟩
    cases seg with
    | none =>
      obtain hEq | hEq := h <;> cases hEq
      exact .inl rfl
    | some msg =>
      obtain hEq | hEq := h <;> cases hEq
      exact .inr ⟨msg, rfl, rfl⟩

/-- What has been read from the owner is written to the peer. -/
def written (s : MinnowSocket A F) (threadData : FileDescriptor) (data : List Byte) :
    MinnowSocket A F :=
  { s with threadData := threadData, taken := s.taken ++ data }.perform (.write data)

theorem pushBytes_cases (h : pushBytes answers s = .ok s' ∨ pushBytes answers s = .error s') :
    s' = s ∨ ∃ threadData data,
      s.threadData.read s.tcp.outbound.availableCapacity answers.readThreadData =
        some (threadData, data) ∧
      (threadData.eof = true ∧ s' = ({ (s.written threadData data).perform .close with
        outboundShutdown := true }).perform .push ∨
      threadData.eof = false ∧ s' = (s.written threadData data).perform .push) := by
  unfold pushBytes at h
  split at h
  · obtain hEq | hEq := h <;> cases hEq
    exact .inl rfl
  · next threadData data hRead =>
    refine .inr ⟨threadData, data, hRead, ?_⟩
    dsimp only at h
    split at h
    · next hEof =>
      obtain hEq | hEq := h <;> cases hEq
      exact .inl ⟨hEof, rfl⟩
    · next hMore =>
      obtain hEq | hEq := h <;> cases hEq
      exact .inr ⟨Bool.eq_false_iff.mpr hMore, rfl⟩

theorem passBytes_cases (h : s.passBytes answers = some s') :
    s' = s ∨ ∃ n, s' = { s with
      threadData := s.threadData.registerWrite
      given := s.given ++ s.tcp.inbound.peek.take n }.perform (.pop n) := by
  unfold passBytes at h
  dsimp only at h
  split at h
  · cases h
    exact .inl rfl
  · split at h
    · cases h
    · next threadData n hWrite =>
      cases h
      obtain ⟨-, -, rfl⟩ := FileDescriptor.write_eq_some hWrite
      exact .inr ⟨n, rfl⟩

theorem readInbound_cases
    (h : readInbound answers s = .ok s' ∨ readInbound answers s = .error s') :
    s' = s ∨ ∃ s₁, s.passBytes answers = some s₁ ∧ (s' = s₁ ∨
      (s₁.tcp.inbound.isFinished = true ∨ s₁.tcp.inbound.hasError = true) ∧
        s' = { s₁ with threadData := s₁.threadData.registerWrite, inboundShutdown := true }) := by
  unfold readInbound at h
  split at h
  · obtain hEq | hEq := h <;> cases hEq
    exact .inl rfl
  · next s₁ hPass =>
    refine .inr ⟨s₁, hPass, ?_⟩
    split at h
    · next hEnd =>
      split at h
      · obtain hEq | hEq := h <;> cases hEq
        exact .inl rfl
      · next threadData hShutdown =>
        obtain hEq | hEq := h <;> cases hEq
        obtain rfl := FileDescriptor.shutdownWrite_eq_some hShutdown
        exact .inr ⟨(Bool.or_eq_true _ _).mp hEnd, rfl⟩
    · obtain hEq | hEq := h <;> cases hEq
      exact .inl rfl

/-- The adapter makes no other messages of its answer than the ones that may be heard. -/
def Brings (H : TCPMessage → Prop) (s : MinnowSocket A F) (answers : Answers F) : Prop :=
  ∀ a' msg, read s.datagramAdapter answers.readAdapter = some (a', some msg) → H msg

theorem Follows.receiveSegment (h : Follows H start s) (hBrings : Brings H s answers)
    (hCallback : receiveSegment answers s = .ok s' ∨ receiveSegment answers s = .error s') :
    Follows H start s' := by
  obtain rfl | ⟨adapter, seg, hRead, rfl | ⟨msg, rfl, rfl⟩⟩ := receiveSegment_cases hCallback
  · exact h
  · exact h.descriptors adapter s.threadData
  · exact (h.descriptors adapter s.threadData).receive (hBrings adapter msg hRead)

/-- The peer has room for more from the owner, and still takes it. -/
def Takes (s : MinnowSocket A F) : Prop :=
  0 < s.tcp.outbound.availableCapacity ∧ s.tcp.outbound.isClosed = false

theorem Follows.pushBytes (h : Follows H start s) (hTakes : Takes s)
    (hCallback : pushBytes answers s = .ok s' ∨ pushBytes answers s = .error s') :
    Follows H start s' := by
  obtain rfl | ⟨threadData, data, hRead, hAfter⟩ := pushBytes_cases hCallback
  · exact h
  · have hWritten : Follows H start (s.written threadData data) :=
      (h.descriptors s.datagramAdapter threadData).write hTakes.2
        (FileDescriptor.read_eq_some hTakes.1 hRead).1
    obtain ⟨-, rfl⟩ | ⟨-, rfl⟩ := hAfter
    · exact hWritten.close.push
    · exact hWritten.push

theorem Follows.readInbound (h : Follows H start s)
    (hCallback : readInbound answers s = .ok s' ∨ readInbound answers s = .error s') :
    Follows H start s' := by
  obtain rfl | ⟨s₁, hPass, hAfter⟩ := readInbound_cases hCallback
  · exact h
  · have hPassed : Follows H start s₁ := by
      obtain rfl | ⟨n, rfl⟩ := passBytes_cases hPass
      · exact h
      · exact (h.descriptors s.datagramAdapter s.threadData.registerWrite).pop n
    obtain rfl | ⟨hEnd, rfl⟩ := hAfter
    · exact hPassed
    · exact (hPassed.descriptors s₁.datagramAdapter s₁.threadData.registerWrite).tell hEnd

end Callbacks

def rules : List (FDRule (MinnowSocket A F) (Answers F)) :=
  [receiveRule 0, pushRule 1, inboundRule 2]

theorem forall_rules {P : FDRule (MinnowSocket A F) (Answers F) → Prop}
    (hReceive : P (receiveRule 0)) (hPush : P (pushRule 1)) (hInbound : P (inboundRule 2)) : ∀ r ∈ rules, P r := by
  intro r hMem
  simp only [rules, List.mem_cons, List.not_mem_nil, or_false] at hMem
  obtain rfl | rfl | rfl := hMem <;> assumption

/-- No error on the descriptor that the socket shares with its owner. -/
def Clean (r : FDRule (MinnowSocket A F) (Answers F)) (ev : Revents) : Prop :=
  r.categoryId ≠ 0 → ev.error = false

instance (r : FDRule (MinnowSocket A F) (Answers F)) (ev : Revents) : Decidable (Clean r ev) :=
  inferInstanceAs (Decidable (_ → _))

/-- What the interest of the rule that reads from the owner leaves behind. -/
def Armed (r : FDRule (MinnowSocket A F) (Answers F)) (s : MinnowSocket A F) : Prop :=
  r.categoryId = 1 → Takes s

section Loop

variable {H : TCPMessage → Prop} {start : Caller} {s s' : MinnowSocket A F} {answers : Answers F}

theorem Follows.cancel (h : Follows H start s) : ∀ r ∈ rules, Follows H start (r.cancel s) :=
  forall_rules h h.close h

theorem brings_stable (answers : Answers F) :
    Stable rules fun s : MinnowSocket A F => Brings H s answers :=
  forall_rules (fun _ h => ⟨h, h⟩) (fun _ h => ⟨h, h⟩) (fun _ h => ⟨h, h⟩)

theorem armed_of_interest (hShut : s.tcp.outbound.isClosed = true → s.outboundShutdown = true) :
    ∀ r ∈ rules, r.interest s = true → Armed r s := by
  apply forall_rules
  · exact fun _ hId => nomatch hId
  · intro hInterest _
    simp only [pushRule, Bool.and_eq_true, Bool.not_eq_true', decide_eq_true_eq] at hInterest
    obtain ⟨⟨-, hOpen⟩, hRoom⟩ := hInterest
    refine ⟨hRoom, Bool.eq_false_iff.mpr fun hClosed => ?_⟩
    exact Bool.false_ne_true (hOpen.symm.trans (hShut hClosed))
  · exact fun _ hId => nomatch hId

theorem Armed.cancel {r : FDRule (MinnowSocket A F) (Answers F)} (h : Armed r s) :
    ∀ other ∈ rules, other.categoryId ≠ r.categoryId → Armed r (other.cancel s) :=
  forall_rules (fun _ => h) (fun hId hPush => absurd hPush.symm hId) (fun _ => h)

theorem Armed.error {r : FDRule (MinnowSocket A F) (Answers F)} (h : Armed r s) :
    ∀ other ∈ rules, Armed r (other.error s) :=
  forall_rules h h h

theorem keeps_follows : Keeps (σ := MinnowSocket A F) Clean (Brings H) Armed (Follows H start)
    (fun _ _ => True) rules where
  distinct := show [0, 1, 2].Nodup by decide
  requested := forall_rules rfl rfl rfl
  defunct r hMem s h _ := ⟨h.cancel r hMem, trivial⟩
  error r hMem s ev h hClean hError := by
    refine ⟨?_, trivial⟩
    revert hClean
    refine forall_rules (P := fun r => Clean r ev → Follows H start (r.cancel (r.error s))) ?_ ?_ ?_
      r hMem
    · exact fun _ => h
    · exact fun hClean => absurd (hError.symm.trans (hClean nofun)) nofun
    · exact fun hClean => absurd (hError.symm.trans (hClean nofun)) nofun
  hangup r hMem s _ h _ _ := ⟨h.cancel r hMem, trivial⟩
  arm r hMem s h := armed_of_interest h.shut r hMem
  armed_cancel _ _ other hOther hId _ h := h.cancel other hOther hId
  armed_error _ _ other hOther _ h := h.error other hOther
  gone_cancel _ _ _ _ _ h := h
  gone_error _ _ _ _ _ h := h
  answered := brings_stable
  callback r hMem answers s s' hBrings h hArmed hCallback := by
    refine ⟨?_, fun _ _ h => h⟩
    revert hArmed hCallback
    refine forall_rules (P := fun r => Armed r s → r.callback answers s = .ok s' ∨
      r.callback answers s = .error s' → Follows H start s') ?_ ?_ ?_ r hMem
    · exact fun _ => h.receiveSegment hBrings
    · exact fun hArmed => h.pushBytes (hArmed rfl)
    · exact fun _ => h.readInbound

end Loop

namespace Thread

structure Ready (x : Thread A F) : Prop where
  basic : x.loop.nonFdRules = []
  left : x.loop.fdRules.Sublist rules
  shut : x.socket.tcp.outbound.isClosed = true → x.socket.outboundShutdown = true

theorem ready_new (cfg : TCPConfig) (adapter : A) : Ready (new cfg adapter) :=
  ⟨rfl, List.Sublist.refl _, nofun⟩

/-- The adapter makes no message of the answer: what comes in belongs to others. -/
def Ignores (adapter : A) (answer : SystemCall F) : Prop :=
  (read adapter answer).bind Prod.snd = none

instance (adapter : A) (answer : SystemCall F) : Decidable (Ignores adapter answer) :=
  inferInstanceAs (Decidable (_ = none))

/-- The answers are not the hearing of a message. -/
def Own (self : Thread A F) : Action F → Prop
  | .turn t => Ignores self.socket.datagramAdapter t.answers.readAdapter
  | .connect _ | .listenAndAccept _ => True

instance (self : Thread A F) (a : Action F) : Decidable (Own self a) :=
  match a with
  | .turn _ => inferInstanceAs (Decidable (Ignores _ _))
  | .connect _ | .listenAndAccept _ => instDecidableTrue

/-- `poll` is answered as `E` says. -/
def Polls (E : FDRule (MinnowSocket A F) (Answers F) → Revents → Prop) (self : Thread A F) :
    Action F → Prop
  | .turn t => self.loop.Reports E self.fresh.socket t.poll
  | .connect _ | .listenAndAccept _ => True

instance (E : FDRule (MinnowSocket A F) (Answers F) → Revents → Prop) [∀ r ev, Decidable (E r ev)]
    (self : Thread A F) (a : Action F) : Decidable (Polls E self a) :=
  match a with
  | .turn _ => inferInstanceAs (Decidable (EventLoop.Reports E _ _ _))
  | .connect _ | .listenAndAccept _ => instDecidableTrue

/-- No error on the descriptor that is shared with the owner, who hands over fewer than
`2 ^ 31 - 2` bytes. -/
def Fair (self : Thread A F) (a : Action F) : Prop :=
  Polls Clean self a ∧ (self.fresh.step a).socket.taken.length < 2 ^ 31 - 2

instance (self : Thread A F) (a : Action F) : Decidable (Fair self a) :=
  inferInstanceAs (Decidable (_ ∧ _))

section Turn

variable {H : TCPMessage → Prop} {start : Caller} {x : Thread A F}

theorem follows_fresh (h : Ready x) : Follows H x.socket.caller x.fresh.socket :=
  ⟨fun _ => .refl, h.shut⟩

/-- Ready, and the socket has followed a caller so far. -/
theorem Ready.perform (h : Ready x) {s : MinnowSocket A F} (hFollows : Follows H start s)
    (phase : Phase) :
    Ready { x with socket := s, phase := phase } ∧ Follows H start s :=
  ⟨⟨h.basic, h.left, hFollows.shut⟩, hFollows⟩

theorem Ready.event (h : Ready x) (hFollows : Follows H start x.socket) {t : Turn F}
    (hBrings : Brings H x.socket t.answers) (hReports : x.loop.Reports Clean x.socket t.poll) :
    Ready (x.event t) ∧ Follows H start (x.event t).socket := by
  have hLive : Live (Follows H start) (fun _ _ => True) rules x.loop.fdRules x.socket :=
    ⟨h.left, hFollows, fun _ _ => .inr trivial⟩
  obtain ⟨hBasic, hAfter⟩ := keeps_follows.waitNextEvent hBrings h.basic hLive hReports
  have hReady : Ready { x with
      loop := (x.loop.waitNextEvent x.socket t.poll t.answers).2.1
      socket := (x.loop.waitNextEvent x.socket t.poll t.answers).2.2 } :=
    ⟨hBasic, hAfter.sublist, hAfter.holds.shut⟩
  rw [Thread.event]
  dsimp only
  split
  · exact hReady.perform hAfter.holds _
  · split
    · exact hReady.perform hAfter.holds _
    · split
      · exact hReady.perform (hAfter.holds.tick t.ms) _
      · exact ⟨hReady, hAfter.holds⟩

/-- Whatever a thread does, its socket behaves like a caller. -/
theorem Ready.step (h : Ready x) {a : Action F} (hPolls : Polls Clean x a)
    (hBrings : ∀ t, a = .turn t → Brings H x.socket t.answers) :
    Ready (x.fresh.step a) ∧ Follows H x.socket.caller (x.fresh.step a).socket := by
  have hFresh : Ready x.fresh := ⟨h.basic, h.left, h.shut⟩
  have hFollows : Follows H x.socket.caller x.fresh.socket := follows_fresh h
  cases a with
  | connect cfg =>
    have hConfigured : Follows H x.socket.caller (x.fresh.socket.configure cfg) :=
      hFollows.descriptors _ _
    rw [Thread.step]
    split
    · exact hFresh.perform hConfigured.push _
    · exact ⟨hFresh, hFollows⟩
  | listenAndAccept cfg =>
    have hListening : Follows H x.socket.caller (x.fresh.socket.configure cfg).listen :=
      hFollows.descriptors _ _
    rw [Thread.step]
    split
    · exact hFresh.perform hListening _
    · exact ⟨hFresh, hFollows⟩
  | turn t =>
    have hEvent : ∀ phase, Ready ({ x.fresh with phase := phase }.event t) ∧
        Follows H x.socket.caller ({ x.fresh with phase := phase }.event t).socket :=
      fun phase => Ready.event (hFresh.perform hFollows phase).1 hFollows (hBrings t rfl) hPolls
    rw [Thread.step]
    split
    · exact ⟨hFresh, hFollows⟩
    · exact ⟨hFresh, hFollows⟩
    all_goals
      split
      · exact hEvent x.phase
      · exact hEvent .running

end Turn

def caller (x : Thread A F) : Caller := x.socket.caller

/-- A thread does what a caller might do. -/
theorem refines_caller [LawfulAdapter A] :
    Refines (machine (A := A)) Caller.machine caller (Carries A) TCPMessage.Plain Own
      (fun (_ : Side) => Ready) (fun _ => Fair) (fun _ => Caller.Fair) where
  act _ x a hOwn hFair h := by
    have hBrings : ∀ t, a = .turn t → Brings (fun _ => False) x.socket t.answers := by
      rintro t rfl a' msg hRead
      rw [Own, Ignores, hRead] at hOwn
      cases hOwn
    obtain ⟨hReady, hFollows⟩ := h.step hFair.1 hBrings
    exact ⟨hReady, hFollows.does hFair.2⟩
  hear _ x t datagram msg hCarries hPlain hFair h := by
    have hBrings : ∀ t', (machine (A := A)).hear t datagram = .turn t' →
        Brings (fun m => m = msg) x.socket t'.answers := by
      rintro _ ⟨⟩ a' msg' hRead
      obtain ⟨sender, hMem⟩ := hCarries
      obtain ⟨b', r, hRead', hNone | hSame⟩ :=
        LawfulAdapter.read_write sender x.socket.datagramAdapter hPlain hMem
      all_goals
        obtain ⟨-, rfl⟩ := Prod.mk.inj (Option.some.inj (hRead.symm.trans hRead'))
      · cases hNone
      · exact Option.some.inj hSame
    obtain ⟨hReady, hFollows⟩ := h.step hFair.1 hBrings
    exact ⟨hReady, hFollows.does hFair.2⟩

end Thread

end MinnowSocket

end Minnow
