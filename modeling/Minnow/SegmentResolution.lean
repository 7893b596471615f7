import Minnow.InterfaceTables
import Minnow.NetworkSegment

/-! # No datagram waits for an unreachable answer

Behind every queue stands a request that is on the segment. Three kinds of
deliveries bring the datagrams over: of the request, of its reply, and of the
frames that the reply releases.
-/

namespace Minnow.NetworkSegment

open Library NetworkInterface

variable {ι : Type*}

structure Asked (x : NetworkSegment ι) : Prop where
  timely : ∀ i h, Timely ((x.machine i).slot h)
  request : ∀ i h, ((x.machine i).slot h).queue.isSome = true →
    ∃ f, (i, f) ∈ x.sent ∧ isRequestFor h f = true

theorem asked_new (hw : ι → EthernetAddress) (ip : ι → UInt32) : Asked (new hw ip) where
  timely _ _ := coherent_empty.toTimely
  request _ _ hQueue := by cases hQueue

section Hearing

variable {hw : ι → EthernetAddress} {ip : ι → UInt32} {log : List (ι × Action)} {i : ι}
  {nic : NetworkInterface} {f : EthernetFrame}

theorem heard_of_parse {arp : ARPMessage}
    (hDst : f.header.dst = nic.hwAddress ∨ f.header.dst = ETHERNET_BROADCAST)
    (hType : f.header.type = EthernetHeader.TYPE_ARP)
    (hParse : parse ({} : ARPMessage).parse f.payload = some (some arp)) :
    nic.perform (.recvFrame f) = ((nic.recvArp arp).interface, (nic.recvArp arp).frames) := by
  have hHeard : nic.heard f = some arp := by
    rw [heard, if_pos ⟨hDst, hType⟩, hParse]
    rfl
  obtain ⟨arp', hHeard', hRecv⟩ | ⟨hNone, -⟩ := nic.recvFrame_cases f
  · obtain rfl : arp = arp' := Option.some.inj (hHeard.symm.trans hHeard')
    exact nic.perform_heard hRecv
  · rw [hHeard] at hNone
    cases hNone

/-- A flush that cannot throw sends the whole queue. -/
theorem recvArp_of_sendable {arp : ARPMessage}
    (hSendable : ∀ d ∈ (nic.pending.lookup arp.senderIpAddress).getD [], d.header.ver = 4) :
    nic.recvArp arp =
      { interface := { nic with
          arpCache := nic.arpCache.insert arp.senderIpAddress
            ⟨arp.senderEthernetAddress, ARP_TTL_MS⟩
          arpTimer := nic.arpTimer.erase arp.senderIpAddress
          pending := nic.pending.erase arp.senderIpAddress }
        frames := ((nic.pending.lookup arp.senderIpAddress).getD []).map
            (nic.carrying arp.senderEthernetAddress) ++
          if arp.opcode = ARPMessage.OPCODE_REQUEST ∧ arp.targetIpAddress = nic.ipAddress then
            [nic.arpFrame arp.senderEthernetAddress (nic.arpReply arp)]
          else []
        thrown := false } := by
  obtain ⟨hFlushed, hStuck⟩ := (nic.slot arp.senderIpAddress).flushed_of_writable hSendable
  rw [recvArp_eq]
  simp only [hFlushed, hStuck, Bool.false_eq_true, if_false, true_and]
  rfl

/-- A request that reaches the interface it asks for is answered. -/
theorem hear_request (hRequest : isRequestFor nic.ipAddress f = true)
    (hTrue : Truthful hw ip log i f)
    (hSendable : ∀ d ∈ (nic.pending.lookup (ip i)).getD [], d.header.ver = 4) :
    ∃ arp flushed, nic.perform (.recvFrame f) = ((nic.recvArp arp).interface,
        flushed ++ [nic.arpFrame (hw i) (nic.arpReply arp)]) ∧
      (nic.recvArp arp).interface.datagramsIn = nic.datagramsIn ∧
      (nic.recvArp arp).interface.hwAddress = nic.hwAddress := by
  rw [isRequestFor, Bool.and_eq_true, Bool.and_eq_true, beq_iff_eq, beq_iff_eq] at hRequest
  obtain ⟨⟨hDst, hType⟩, hParse⟩ := hRequest
  cases hTrue with
  | datagram d hop hType' =>
    rw [hType] at hType'
    cases hType'
  | arp msg _ hPayload hSupported hIp hMac =>
    have hRead : parse ({} : ARPMessage).parse f.payload = some (some msg) := by
      rw [hPayload]
      exact ARPMessage.parse_serialize hSupported
    simp only [hRead, Bool.and_eq_true, beq_iff_eq] at hParse
    rw [← hIp] at hSendable
    have hRecv := recvArp_of_sendable hSendable
    rw [if_pos hParse, hMac] at hRecv
    refine ⟨msg, ((nic.pending.lookup msg.senderIpAddress).getD []).map (nic.carrying (hw i)),
      ?_, ?_, ?_⟩
    · rw [heard_of_parse (.inr hDst) hType hRead, hRecv]
    · rw [hRecv]
    · rw [hRecv]

/-- A reply releases the queue of the interface it comes from. -/
theorem hear_reply (other : NetworkInterface) (arp : ARPMessage) {mac : EthernetAddress}
    (hDst : mac = nic.hwAddress) {queue : List InternetDatagram}
    (hQueue : nic.pending.lookup other.ipAddress = some queue)
    (hSendable : ∀ d ∈ queue, d.header.ver = 4) :
    nic.perform (.recvFrame (other.arpFrame mac (other.arpReply arp))) =
      ({ nic with
          arpCache := nic.arpCache.insert other.ipAddress ⟨other.hwAddress, ARP_TTL_MS⟩
          arpTimer := nic.arpTimer.erase other.ipAddress
          pending := nic.pending.erase other.ipAddress },
        queue.map (nic.carrying other.hwAddress)) := by
  have hSupported : (other.arpReply arp).supported = true := rfl
  have hPayload := other.arpFrame_payload mac hSupported
  have hHear := heard_of_parse (.inl hDst) rfl (hPayload ▸ ARPMessage.parse_serialize hSupported)
  have hSilent : ¬ ((other.arpReply arp).opcode = ARPMessage.OPCODE_REQUEST ∧
      (other.arpReply arp).targetIpAddress = nic.ipAddress) := by
    rintro ⟨hOpcode, -⟩
    cases hOpcode
  have hSender : (other.arpReply arp).senderIpAddress = other.ipAddress := rfl
  have hRelease : ∀ d ∈ (nic.pending.lookup (other.arpReply arp).senderIpAddress).getD [],
      d.header.ver = 4 := by
    rw [hSender, hQueue]
    exact hSendable
  rw [hHear, recvArp_of_sendable hRelease, hSender, hQueue, if_neg hSilent, List.append_nil]
  rfl

end Hearing

variable [DecidableEq ι]

section Asked

variable {x : NetworkSegment ι} {i j : ι}

/-- A queue is new only beside a request. -/
theorem queue_of_step {s : Slot} (h : Timely s) {e : Event}
    (hQueue : (s.step e).queue.isSome = true) : s.queue.isSome = true ∨ 0 < s.requests e := by
  cases e with
  | send d =>
    cases hCache : s.cache with
    | some entry => exact .inl (by simpa [Slot.step, hCache] using hQueue)
    | none =>
      cases hAsks : s.asks with
      | true =>
        right
        simp [Slot.requests, hCache, hAsks]
      | false =>
        left
        apply h.queued
        cases hTimer : s.timer with
        | none => simp [Slot.asks, hTimer] at hAsks
        | some t => rfl
  | learn mac =>
    left
    change (if s.stuck then s.queue else none).isSome = true at hQueue
    split at hQueue
    · exact hQueue
    · cases hQueue
  | tick ms =>
    left
    change (if s.retries ms then some [] else s.queue).isSome = true at hQueue
    split at hQueue
    · rename_i hRetry
      exact (Slot.retries_iff.mp hRetry).2
    · exact hQueue
  | idle => exact .inl hQueue

theorem Asked.turn (h : Asked x) (i : ι) (a : Action) (log : List (ι × Action)) :
    Asked { x.turn NetworkInterface.machine i a with log := log } := by
  have hMachine : (x.turn NetworkInterface.machine i a).machine i = (x.machine i).step a :=
    x.turn_machine NetworkInterface.machine i a
  constructor
  · intro k hop
    change Timely (((x.turn NetworkInterface.machine i a).machine k).slot hop)
    by_cases hk : k = i
    · subst hk
      rw [hMachine, slot_step]
      exact (h.timely k hop).step _
    · rw [x.turn_machine_of_ne _ _ _ hk]
      exact h.timely k hop
  · intro k hop hQueue
    change (((x.turn NetworkInterface.machine i a).machine k).slot hop).queue.isSome = true
      at hQueue
    have hOld : ((x.machine k).slot hop).queue.isSome = true →
        ∃ f, (k, f) ∈ (x.turn NetworkInterface.machine i a).sent ∧ isRequestFor hop f = true := by
      intro hSome
      obtain ⟨f, hMem, hRequest⟩ := h.request k hop hSome
      exact ⟨f, List.mem_append_left _ hMem, hRequest⟩
    by_cases hk : k = i
    · subst hk
      rw [hMachine, slot_step] at hQueue
      obtain hSome | hNew := queue_of_step (h.timely k hop) hQueue
      · exact hOld hSome
      · rw [← requests_step, List.countP_pos_iff] at hNew
        obtain ⟨f, hMem, hRequest⟩ := hNew
        exact ⟨f, List.mem_append_right _ (List.mem_map_of_mem hMem), hRequest⟩
    · rw [x.turn_machine_of_ne _ _ _ hk] at hQueue
      exact hOld hQueue

theorem Asked.step (h : Asked x) (a : Step ι) : Asked (x.step a) := by
  obtain ⟨i, b, -, hStep⟩ | ⟨i, j, port, f, -, -, hStep⟩ | hStep :=
    Network.step_cases NetworkInterface.machine x a
  · exact (congrArg Asked hStep).mpr (h.turn i b _)
  · exact (congrArg Asked hStep).mpr (h.turn i _ x.log)
  · exact (congrArg Asked hStep).mpr h

end Asked

section Deliveries

variable {x : NetworkSegment ι} {i j : ι}

/-- The frames that a machine has just sent, delivered one after another. -/
theorem deliver_datagrams (hOther : i ≠ j) {mac : EthernetAddress} {nic : NetworkInterface}
    (hMac : (x.machine j).hwAddress = mac) {ds : List InternetDatagram}
    (hWhole : ∀ d ∈ ds, d.Whole) {before : List (ι × EthernetFrame)}
    (hSent : x.sent = before ++ ds.map fun d => (i, nic.carrying mac d)) :
    ∃ deliveries received, (∀ s ∈ deliveries, ∃ k, s = .deliver j () k) ∧
      List.Forall₂ (fun d d' => d.Same d') ds received ∧
      ((Run.run step x deliveries).machine j).datagramsIn =
        (x.machine j).datagramsIn ++ received ∧
      ∀ k, k ≠ j → (Run.run step x deliveries).machine k = x.machine k := by
  induction ds generalizing x before with
  | nil => exact ⟨[], [], nofun, .nil, (List.append_nil _).symm, fun _ _ => rfl⟩
  | cons d ds ih =>
    obtain ⟨d', ⟨payload, hSerialize, hParse⟩, hSame⟩ := (hWhole d List.mem_cons_self).readAs
    have hReads : (x.machine j).Reads (nic.carrying mac d) d' := by
      rw [(IPv4Datagram.serialize_eq_some.mp hSerialize).2] at hParse
      exact ⟨.inl hMac.symm, rfl, hParse⟩
    have hGet : x.sent[before.length]? = some (i, nic.carrying mac d) := by
      rw [hSent, List.map_cons, List.getElem?_append_right le_rfl, Nat.sub_self]
      rfl
    have hPerform : (x.machine j).perform (.recvFrame (nic.carrying mac d)) =
        ({ x.machine j with datagramsIn := (x.machine j).datagramsIn ++ [d'] }, []) :=
      recvFrame_datagram hReads
    have hStep : x.step (.deliver j () before.length) =
        x.turn NetworkInterface.machine j (.recvFrame (nic.carrying mac d)) :=
      x.step_deliver NetworkInterface.machine hGet hOther
    have hMachine : (x.step (.deliver j () before.length)).machine j =
        { x.machine j with datagramsIn := (x.machine j).datagramsIn ++ [d'] } := by
      rw [hStep, Network.turn_machine]
      exact congrArg Prod.fst hPerform
    have hSent' : (x.step (.deliver j () before.length)).sent =
        (before ++ [(i, nic.carrying mac d)]) ++
          ds.map fun d => (i, nic.carrying mac d) := by
      have hOut : (NetworkInterface.machine.perform (x.machine j)
          (.recvFrame (nic.carrying mac d))).2 = [] := congrArg Prod.snd hPerform
      rw [hStep, Network.turn_sent, hOut, hSent, List.map_nil, List.append_nil]
      simp
    obtain ⟨deliveries, received, hOnly, hReceived, hIn, hRest⟩ :=
      ih (by rw [hMachine]; exact hMac) (fun d hMem => hWhole d (List.mem_cons_of_mem _ hMem))
        hSent'
    refine ⟨.deliver j () before.length :: deliveries, d' :: received, ?_, .cons hSame hReceived,
      ?_, ?_⟩
    · intro s hMem
      obtain rfl | hMem := List.mem_cons.mp hMem
      · exact ⟨_, rfl⟩
      · exact hOnly s hMem
    · rw [Run.run_cons, hIn, hMachine, List.append_assoc]
      rfl
    · intro k hk
      rw [Run.run_cons, hRest k hk, hStep, Network.turn_machine_of_ne _ _ _ _ hk]

/-- The request and its reply: the queue has left, and the address is known. -/
theorem deliver_resolution {hw : ι → EthernetAddress} {ip : ι → UInt32}
    (hSound : Network.Sound (Informed hw ip) (Truthful hw ip) x) (hAsked : Asked x)
    (hOther : i ≠ j) {queue : List InternetDatagram}
    (hWaits : (x.machine i).pending.lookup (ip j) = some queue)
    (hSendable : ∀ d ∈ queue, d.header.ver = 4)
    (hBack : ∀ d ∈ ((x.machine j).pending.lookup (ip i)).getD [], d.header.ver = 4) :
    ∃ k n before, let y := Run.run step x [.deliver j () k, .deliver i () n]
      (y.machine j).datagramsIn = (x.machine j).datagramsIn ∧ (y.machine j).hwAddress = hw j ∧
        y.sent = before ++ queue.map (fun d => (i, (x.machine i).carrying (hw j) d)) ∧
        (y.machine i).pending.lookup (ip j) = none ∧
        (y.machine i).arpCache.lookup (ip j) = some ⟨hw j, ARP_TTL_MS⟩ := by
  have hHw := (hSound.machine j).hwAddress
  have hIp := (hSound.machine j).ipAddress
  obtain ⟨f, hMem, hRequest⟩ := hAsked.request i (ip j) (by
    change ((x.machine i).pending.lookup (ip j)).isSome = true
    rw [hWaits]
    rfl)
  obtain ⟨k, hGet⟩ := List.getElem?_of_mem hMem
  rw [← hIp] at hRequest
  obtain ⟨arp, flushed, hPerform, hIn, hMac⟩ :=
    hear_request hRequest (hSound.sent _ hMem) hBack
  let reply := (x.machine j).arpFrame (hw i) ((x.machine j).arpReply arp)
  -- the request makes `j` reply
  let y := x.step (.deliver j () k)
  have hStep : y = x.turn NetworkInterface.machine j (.recvFrame f) :=
    x.step_deliver NetworkInterface.machine hGet hOther
  have hSent : y.sent = x.sent ++ flushed.map (fun f => (j, f)) ++ [(j, reply)] := by
    have hFrames : (NetworkInterface.machine.perform (x.machine j) (.recvFrame f)).2 =
        flushed ++ [reply] := congrArg Prod.snd hPerform
    rw [hStep, Network.turn_sent, hFrames, List.map_append, List.append_assoc]
    rfl
  have hMachineI : y.machine i = x.machine i := by
    rw [hStep, Network.turn_machine_of_ne _ _ _ _ hOther]
  have hMachineJ : y.machine j = ((x.machine j).recvArp arp).interface := by
    rw [hStep, Network.turn_machine]
    exact congrArg Prod.fst hPerform
  -- the reply releases the queue of `i`
  let n := (x.sent ++ flushed.map (fun f => (j, f))).length
  have hGetReply : y.sent[n]? = some (j, reply) := by
    rw [hSent, List.getElem?_append_right le_rfl, Nat.sub_self]
    rfl
  let z := y.step (.deliver i () n)
  have hStep' : z = y.turn NetworkInterface.machine i (.recvFrame reply) :=
    y.step_deliver NetworkInterface.machine hGetReply hOther.symm
  have hQueue : (y.machine i).pending.lookup (x.machine j).ipAddress = some queue := by
    rw [hMachineI, hIp]
    exact hWaits
  have hDst : hw i = (y.machine i).hwAddress := by
    rw [hMachineI]
    exact (hSound.machine i).hwAddress.symm
  have hReply : (y.machine i).perform (.recvFrame reply) = _ :=
    hear_reply (x.machine j) arp hDst hQueue hSendable
  have hMachineJ' : z.machine j = y.machine j := by
    rw [hStep', Network.turn_machine_of_ne _ _ _ _ hOther.symm]
  have hMachineI' : z.machine i = ((y.machine i).perform (.recvFrame reply)).1 := by
    rw [hStep', Network.turn_machine]
    rfl
  refine ⟨k, n, y.sent, ?_, ?_, ?_, ?_, ?_⟩
  · change (z.machine j).datagramsIn = _
    rw [hMachineJ', hMachineJ, hIn]
  · change (z.machine j).hwAddress = _
    rw [hMachineJ', hMachineJ, hMac]
    exact hHw
  · change z.sent = _
    have hFrames : (NetworkInterface.machine.perform (y.machine i) (.recvFrame reply)).2 =
        queue.map ((y.machine i).carrying (x.machine j).hwAddress) := congrArg Prod.snd hReply
    rw [hStep', Network.turn_sent, hFrames, List.map_map, hHw, hMachineI]
    rfl
  · change (z.machine i).pending.lookup _ = _
    rw [hMachineI', hReply, ← hIp]
    exact AList.lookup_erase _ _
  · change (z.machine i).arpCache.lookup _ = _
    rw [hMachineI', hReply, ← hIp, ← hHw]
    exact AList.lookup_insert _

end Deliveries

/-- Whole datagrams that wait for the address of an interface on the segment can be delivered to it
in order, by deliveries alone, when nothing that `serialize` refuses waits there for the way back.
The request may be an old one, delivered before. -/
theorem run_resolves (hw : ι → EthernetAddress) (ip : ι → UInt32) (steps : List (Step ι))
    (hOk : Run.Along step Allowed (new hw ip) steps) {i j : ι} (hOther : i ≠ j)
    {queue : List InternetDatagram}
    (hWaits : ((Run.run step (new hw ip) steps).machine i).pending.lookup (ip j) = some queue)
    (hWhole : ∀ d ∈ queue, d.Whole)
    (hBack : ∀ d ∈ (((Run.run step (new hw ip) steps).machine j).pending.lookup (ip i)).getD [],
      d.header.ver = 4) :
    let x := Run.run step (new hw ip) steps
    ∃ deliveries received, (∀ s ∈ deliveries, ∃ k n, s = .deliver k () n) ∧
      List.Forall₂ (fun d d' => d.Same d') queue received ∧
      let y := Run.run step x deliveries
      (y.machine j).datagramsIn = (x.machine j).datagramsIn ++ received ∧
        (y.machine i).pending.lookup (ip j) = none ∧
        (y.machine i).arpCache.lookup (ip j) = some ⟨hw j, ARP_TTL_MS⟩ := by
  intro x
  have hSound : Network.Sound (Informed hw ip) (Truthful hw ip) x := sound_run hw ip hOk
  have hAsked : Asked x :=
    Run.invariant_of_step (fun _ a h => h.step a) (asked_new hw ip) steps
  obtain ⟨k, n, before, hIn, hMac, hSent, hGone, hKnown⟩ :=
    deliver_resolution hSound hAsked hOther hWaits
      (fun d hMem => (hWhole d hMem).accepted.header.ver) hBack
  obtain ⟨deliveries, received, hOnly, hReceived, hIn', hRest⟩ :=
    deliver_datagrams hOther hMac hWhole hSent
  refine ⟨[.deliver j () k, .deliver i () n] ++ deliveries, received, ?_, hReceived, ?_⟩
  · intro s hMem
    obtain hMem | hMem := List.mem_append.mp hMem
    · obtain rfl | hMem := List.mem_cons.mp hMem
      · exact ⟨_, _, rfl⟩
      · exact ⟨_, _, List.mem_singleton.mp hMem⟩
    · obtain ⟨m, rfl⟩ := hOnly s hMem
      exact ⟨_, _, rfl⟩
  · intro y
    have hRun : y = Run.run step (Run.run step x [.deliver j () k, .deliver i () n]) deliveries :=
      Run.run_append step x _ deliveries
    rw [hRun, hIn', hIn, hRest i hOther]
    exact ⟨rfl, hGone, hKnown⟩

/-- A datagram submitted while the address is unknown, with its request still on the way. -/
theorem run_resolves_pair :
    let x := Run.run step (new pairHw pairIp)
      [.act false (.sendDatagram pairDatagram 2), .act false (.tick 4000)]
    ∃ deliveries received, List.Forall₂ (fun d d' => d.Same d')
        [pairDatagram] received ∧
      ((Run.run step x deliveries).machine true).datagramsIn = [] ++ received := by
  have hWhole : ∀ d ∈ [pairDatagram], d.Whole := by
    intro d hMem
    rw [List.mem_singleton.mp hMem]
    exact IPv4Datagram.Plain.whole ⟨rfl, rfl, by decide +kernel, by decide⟩ (by decide)
  have hWaits : ((Run.run step (new pairHw pairIp) [.act false (.sendDatagram pairDatagram 2),
      .act false (.tick 4000)]).machine false).pending.lookup (pairIp true) =
        some [pairDatagram] := by
    decide +kernel
  obtain ⟨deliveries, received, -, hReceived, hIn, -⟩ := run_resolves pairHw pairIp
    [.act false (.sendDatagram pairDatagram 2), .act false (.tick 4000)] (by decide +kernel)
    (by decide) hWaits hWhole (by decide +kernel)
  exact ⟨deliveries, received, hReceived, hIn⟩

end Minnow.NetworkSegment
