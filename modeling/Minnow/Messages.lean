import Minnow.ByteStream
import Minnow.WrappingIntegers

/-! # Messages between a sender and a receiver

A genuine segment of a connection sits at an absolute sequence number: 0 is the
SYN, the byte at stream index `i` has number `i + 1`, FIN comes last.
-/

namespace Minnow

structure TCPSenderMessage where
  seqno : Wrap32
  syn : Bool
  payload : List Byte
  fin : Bool
  rst : Bool
deriving DecidableEq, Repr

def TCPSenderMessage.sequenceLength (self : TCPSenderMessage) : Nat :=
  self.syn.toNat + self.payload.length + self.fin.toNat

/-- A segment of the connection with this initial sequence number whose first sequence
number is `start`; `start - 1` is the stream index of its payload. -/
structure Genuine (isn : Wrap32) (S : List Byte) (ended : Bool) (start : Nat)
    (m : TCPSenderMessage) : Prop where
  seqno : m.seqno = Wrap32.wrap start isn
  syn : m.syn = decide (start = 0)
  payload : m.payload <+: S.drop (start - 1)
  bound : start - 1 + m.payload.length ≤ S.length
  fin : m.fin = true → ended = true ∧ start - 1 + m.payload.length = S.length

theorem Genuine.extend {isn : Wrap32} {S S' : List Byte} {ended ended' : Bool} {start : Nat}
    {m : TCPSenderMessage} (h : Genuine isn S ended start m)
    (hExtends : Extends S ended S' ended') :
    Genuine isn S' ended' start m where
  seqno := h.seqno
  syn := h.syn
  payload := h.payload.trans (hExtends.stream.drop _)
  bound := h.bound.trans hExtends.stream.length_le
  fin hFin := by
    obtain ⟨hEnded, hEnd⟩ := h.fin hFin
    obtain ⟨hSame, hEnded'⟩ := hExtends.final hEnded
    rw [hSame]
    exact ⟨hEnded', hEnd⟩

structure TCPReceiverMessage where
  ackno : Option Wrap32
  windowSize : UInt16
  rst : Bool
deriving DecidableEq, Repr

structure TCPMessage where
  sender : TCPSenderMessage
  receiver : TCPReceiverMessage
deriving DecidableEq, Repr

end Minnow
