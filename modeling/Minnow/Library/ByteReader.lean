import Minnow.Library.BigEndian

/-! # A reader of one byte string

The reference for readers whose input comes in pieces. It takes from the front
of the string; a read that asks for too much sets the error, and while the
error is set reads take nothing and leave their outputs as they were.
-/

namespace Library

structure ByteReader where
  bytes : List UInt8
  error : Bool
deriving DecidableEq

abbrev ReadM := StateM ByteReader

namespace ByteReader

variable {α : Type} {size : Nat} {decode : List UInt8 → α} {out : α} {r : ByteReader}

def read (size : Nat) (decode : List UInt8 → α) (out : α) : ReadM α := fun r =>
  if r.error = true ∨ r.bytes.length < size then (out, { r with error := true })
  else (decode (r.bytes.take size), { r with bytes := r.bytes.drop size })

def integer (width out : Nat) : ReadM Nat := read width BigEndian.decode out

def string (out : List UInt8) : ReadM (List UInt8) := read out.length id out

def removePrefix (n : Nat) : ReadM Unit := modify fun r => { r with bytes := r.bytes.drop n }

def hasError : ReadM Bool := return (← get).error

theorem read_of_short (h : r.error = true ∨ r.bytes.length < size) :
    read size decode out r = (out, { r with error := true }) := if_pos h

theorem read_of_fits (hError : r.error = false) (hSize : size ≤ r.bytes.length) :
    read size decode out r =
      (decode (r.bytes.take size), { r with bytes := r.bytes.drop size }) := by
  apply if_neg
  rintro (hTrue | hShort)
  · rw [hError] at hTrue
    cases hTrue
  · exact Nat.not_lt.mpr hSize hShort

theorem integer_lt {width n : Nat} (h : n < 256 ^ width) (r : ByteReader) :
    (integer width n r).1 < 256 ^ width := by
  rw [integer, read]
  split
  · exact h
  · exact (BigEndian.decode_lt _).trans_le
      (Nat.pow_le_pow_right (by decide) (List.length_take_le width r.bytes))

end ByteReader

end Library
