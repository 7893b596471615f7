import Minnow.Messages

/-! # The sender

Every method that takes a transmit callback returns the messages it hands to
it, in order. Both views of the input stream share one error flag.
-/

namespace Minnow

/-- `TCPConfig::MAX_PAYLOAD_SIZE` -/
def maxPayloadSize : Nat := 1000

structure Outstanding where
  msg : TCPSenderMessage
  seqStart : Nat
  len : Nat
deriving DecidableEq

structure TCPSender where
  input : ByteStream
  isn : Wrap32
  initialRTOms : Nat
  nextSeqno : Nat
  bytesInFlight : Nat
  outstanding : List Outstanding
  receiverAckno : Nat
  receiverWindow : Nat
  synSent : Bool
  finSent : Bool
  rto : Nat
  timerElapsedMs : Nat
  timerRunning : Bool
  consecutiveRetx : Nat
deriving DecidableEq

namespace TCPSender

def new (input : ByteStream) (isn : Wrap32) (initialRTOms : Nat) : TCPSender where
  input := input
  isn := isn
  initialRTOms := initialRTOms
  nextSeqno := 0
  bytesInFlight := 0
  outstanding := []
  receiverAckno := 0
  receiverWindow := 1
  synSent := false
  finSent := false
  rto := initialRTOms
  timerElapsedMs := 0
  timerRunning := false
  consecutiveRetx := 0

def sequenceNumbersInFlight (self : TCPSender) : Nat := self.bytesInFlight

def consecutiveRetransmissions (self : TCPSender) : Nat := self.consecutiveRetx

def startTimerIfNeeded (self : TCPSender) : TCPSender :=
  if !self.timerRunning && !self.outstanding.isEmpty then
    { self with timerRunning := true, timerElapsedMs := 0 }
  else self

def stopTimer (self : TCPSender) : TCPSender :=
  { self with timerRunning := false, timerElapsedMs := 0 }

/-- `send_segment`: the new state and the message as it is transmitted. -/
def sendSegment (self : TCPSender) (msg : TCPSenderMessage) : TCPSender × TCPSenderMessage :=
  let msg := if self.input.hasError then { msg with rst := true } else msg
  let len := msg.sequenceLength
  let self :=
    if 0 < len then
      { self with
        outstanding := self.outstanding ++ [{ msg := msg, seqStart := self.nextSeqno, len := len }]
        bytesInFlight := self.bytesInFlight + len
        nextSeqno := self.nextSeqno + len }
    else self
  (self.startTimerIfNeeded, msg)

def remainingSpace (self : TCPSender) (winAdvertised usedForFlags : Nat) : Nat :=
  if self.bytesInFlight < winAdvertised then
    let avail := winAdvertised - self.bytesInFlight
    if usedForFlags < avail then avail - usedForFlags else 0
  else 0

def draft (self : TCPSender) (winAdvertised : Nat) : TCPSender × TCPSenderMessage :=
  let syn := !self.synSent
  let toRead := min (self.remainingSpace winAdvertised syn.toNat) maxPayloadSize
  let bytes := if 0 < toRead then self.input.readBytes toRead else (self.input, [])
  ({ self with input := bytes.1, synSent := true },
    { seqno := Wrap32.wrap self.nextSeqno self.isn
      syn := syn
      payload := bytes.2
      fin := false
      rst := self.input.hasError })

def addFin (self : TCPSender) (winAdvertised : Nat) (msg : TCPSenderMessage) :
    TCPSender × TCPSenderMessage :=
  if !self.finSent && self.input.isFinished &&
      decide (self.bytesInFlight + (msg.sequenceLength + 1) ≤ winAdvertised) then
    ({ self with finSent := true }, { msg with fin := true })
  else (self, msg)

/-- The body of the loop of `fill_window` up to the test for an empty segment. -/
def nextSegment (self : TCPSender) (winAdvertised : Nat) : TCPSender × TCPSenderMessage :=
  let next := self.draft winAdvertised
  next.1.addFin winAdvertised next.2

theorem startTimerIfNeeded_bytesInFlight (s : TCPSender) :
    s.startTimerIfNeeded.bytesInFlight = s.bytesInFlight := by
  unfold startTimerIfNeeded
  split <;> rfl

theorem sendSegment_bytesInFlight (s : TCPSender) (msg : TCPSenderMessage) :
    (s.sendSegment msg).1.bytesInFlight = s.bytesInFlight + msg.sequenceLength := by
  have hLen : (if s.input.hasError then { msg with rst := true } else msg).sequenceLength =
      msg.sequenceLength := by split <;> rfl
  simp only [sendSegment, hLen, startTimerIfNeeded_bytesInFlight]
  split
  · rfl
  · omega

theorem nextSegment_bytesInFlight (s : TCPSender) (winAdvertised : Nat) :
    (s.nextSegment winAdvertised).1.bytesInFlight = s.bytesInFlight := by
  unfold nextSegment addFin
  dsimp only
  split <;> rfl

/-- The loop of `fill_window`. Each pass that does not leave it puts a sequence number in flight. -/
def fillLoop (winAdvertised : Nat) (self : TCPSender) : TCPSender × List TCPSenderMessage :=
  if _hRoom : self.bytesInFlight < winAdvertised then
    let next := self.nextSegment winAdvertised
    if _hEmpty : next.2.sequenceLength = 0 then (next.1, [])
    else
      let sent := next.1.sendSegment next.2
      let rest := fillLoop winAdvertised sent.1
      (rest.1, sent.2 :: rest.2)
  else (self, [])
termination_by winAdvertised - self.bytesInFlight
decreasing_by
  have hSent : sent.1.bytesInFlight = self.bytesInFlight + next.2.sequenceLength := by
    rw [sendSegment_bytesInFlight, nextSegment_bytesInFlight]
  change winAdvertised - sent.1.bytesInFlight < winAdvertised - self.bytesInFlight
  omega

def fillWindow (self : TCPSender) : TCPSender × List TCPSenderMessage :=
  if self.finSent then (self, [])
  else
    let winAdvertised := if self.receiverWindow = 0 then 1 else self.receiverWindow
    fillLoop winAdvertised self

def push (self : TCPSender) : TCPSender × List TCPSenderMessage := self.fillWindow

def makeEmptyMessage (self : TCPSender) : TCPSenderMessage where
  seqno := Wrap32.wrap self.nextSeqno self.isn
  syn := false
  payload := []
  fin := false
  rst := self.input.hasError

/-- The loop of `receive` that drops fully acknowledged segments. -/
def popAcked (ackno bytesInFlight : Nat) : List Outstanding → Nat × List Outstanding
  | [] => (bytesInFlight, [])
  | front :: rest =>
    if front.seqStart + front.len ≤ ackno then popAcked ackno (bytesInFlight - front.len) rest
    else (bytesInFlight, front :: rest)

def acknowledge (self : TCPSender) (absAck : Nat) : TCPSender :=
  if absAck ≤ self.nextSeqno ∧ self.receiverAckno < absAck then
    let left := popAcked absAck self.bytesInFlight self.outstanding
    let self := { self with
      receiverAckno := absAck
      bytesInFlight := left.1
      outstanding := left.2
      rto := self.initialRTOms
      consecutiveRetx := 0 }
    if self.outstanding.isEmpty then self.stopTimer
    else { self with timerRunning := true, timerElapsedMs := 0 }
  else self

def receive (self : TCPSender) (msg : TCPReceiverMessage) : TCPSender :=
  if msg.rst then { self with input := self.input.setError }
  else
    let self := match msg.ackno with
      | none => self
      | some ackno => self.acknowledge (ackno.unwrap self.isn self.receiverAckno)
    { self with receiverWindow := msg.windowSize.toNat }

def tick (self : TCPSender) (msSinceLastTick : Nat) : TCPSender × List TCPSenderMessage :=
  if !self.timerRunning then (self, [])
  else
    match self.outstanding with
    | [] => ({ self with timerRunning := false }, [])
    | earliest :: rest =>
      let self := { self with timerElapsedMs := u64 (self.timerElapsedMs + msSinceLastTick) }
      if self.rto ≤ self.timerElapsedMs then
        let earliest :=
          if self.input.hasError then { earliest with msg := { earliest.msg with rst := true } }
          else earliest
        let self := { self with outstanding := earliest :: rest }
        let self :=
          if 0 < self.receiverWindow then
            { self with consecutiveRetx := self.consecutiveRetx + 1, rto := u64 (self.rto * 2) }
          else self
        ({ self with timerElapsedMs := 0 }, [earliest.msg])
      else (self, [])

inductive Call where
  | write (data : List Byte)
  | close
  | setError
  | push
  | tick (ms : Nat)
  | receive (msg : TCPReceiverMessage)
deriving DecidableEq

def answer (self : TCPSender) : Call → TCPSender × List TCPSenderMessage
  | .write data => ({ self with input := self.input.push data }, [])
  | .close => ({ self with input := self.input.close }, [])
  | .setError => ({ self with input := self.input.setError }, [])
  | .push => self.push
  | .tick ms => self.tick ms
  | .receive msg => (self.receive msg, [])

def call (self : TCPSender) (c : Call) : TCPSender := (self.answer c).1

end TCPSender

end Minnow
