import Minnow.Library.BigEndian
import Minnow.ByteStream

/-! # The parser and the serializer

A buffer list is read through a number of bytes to skip in its front buffer.
`none` is an exception, or the front of an empty view, which the language
leaves undefined.
-/

namespace Minnow

open Library

abbrev Buffer := List Byte

structure BufferList where
  size : Nat
  buffer : List Buffer
  skip : Nat
deriving DecidableEq

namespace BufferList

def new (buffers : List Buffer) : BufferList := ⟨(buffers.map List.length).sum, buffers, 0⟩

/-- `string_view::substr`, which throws past the end. -/
def substr (data : Buffer) (pos : Nat) : Option Buffer :=
  if pos ≤ data.length then some (data.drop pos) else none

def peek (self : BufferList) : Option Buffer :=
  match self.buffer with
  | [] => none
  | front :: _ => substr front self.skip

def removeLoop (len size skip : Nat) : List Buffer → Option BufferList
  | [] => some ⟨size, [], skip⟩
  | front :: rest =>
    if len = 0 then some ⟨size, front :: rest, skip⟩
    else do
      let view ← substr front skip
      let toPopNow := min len view.length
      if skip + toPopNow = front.length then removeLoop (len - toPopNow) (size - toPopNow) 0 rest
      -- the front buffer outlasts the loop only when all of `len` came from it
      else some ⟨size - toPopNow, front :: rest, skip + toPopNow⟩

def removePrefix (self : BufferList) (len : Nat) : Option BufferList :=
  removeLoop len self.size self.skip self.buffer

/-- The buffers of `truncate`, with `len` counted from the start of the front buffer. One that is
too long is resized, and then erased with those behind it: the iterator still points to it. -/
def cut (len : Nat) : List Buffer → List Buffer
  | [] => []
  | b :: rest =>
    if b.length < len then b :: cut (len - b.length) rest
    else if b.length = len then [b]
    else []

def truncate (self : BufferList) (len : Nat) : BufferList :=
  if self.size ≤ len then self
  else if len = 0 then { self with size := 0, buffer := [] }
  else { self with size := len, buffer := cut len self.buffer }

/-- `buffer()` copies what `dump_all` moves out. -/
def views (self : BufferList) : Option (List Buffer) :=
  if self.size = 0 then some []
  else
    match self.buffer with
    | [] => none
    | front :: rest => do return (← substr front self.skip) :: rest

end BufferList

structure Parser where
  input : BufferList
  error : Bool
deriving DecidableEq

abbrev ParseM := StateT Parser Option

namespace Parser

def new (buffers : List Buffer) : Parser := ⟨BufferList.new buffers, false⟩

def setError : ParseM Unit := modify fun p => { p with error := true }

def setErrorIf (c : Prop) [Decidable c] : ParseM Unit := if c then setError else return ()

def hasError : ParseM Bool := return (← get).error

def checkSize (size : Nat) : ParseM Unit := do setErrorIf (size > (← get).input.size)

def removePrefix (n : Nat) : ParseM Unit := fun p => do
  return ((), { p with input := ← p.input.removePrefix n })

def truncate (len : Nat) : ParseM Unit := modify fun p => { p with input := p.input.truncate len }

/-- The parser is not read again after its remaining buffers have been moved out. -/
def allRemaining : ParseM (List Buffer) := fun p => do return (← p.input.views, p)

def buffer : ParseM (List Buffer) := fun p => do return (← p.input.views, p)

def concatenateAllRemaining : ParseM Buffer := return (← allRemaining).flatten

/-- One turn of the loop of `integer`: the front byte, and past it. -/
def octet : ParseM Byte := fun p => do
  let b ← (← p.input.peek).head?
  return (b, { p with input := ← p.input.removePrefix 1 })

def readOctets : Nat → Nat → ParseM Nat
  | 0, out => return out
  | n + 1, out => do readOctets n ((out <<< 8) ||| (← octet).toNat)

/-- `integer` for a type of `width` bytes; on an error `out` keeps its value. -/
def integer (width out : Nat) : ParseM Nat := do
  checkSize width
  if ← hasError then return out
  else readOctets width 0

def integer8 (out : UInt8) : ParseM UInt8 := return UInt8.ofNat (← integer 1 out.toNat)

def integer16 (out : UInt16) : ParseM UInt16 := return UInt16.ofNat (← integer 2 out.toNat)

def integer32 (out : UInt32) : ParseM UInt32 := return UInt32.ofNat (← integer 4 out.toNat)

def integer64 (out : UInt64) : ParseM UInt64 := return UInt64.ofNat (← integer 8 out.toNat)

/-- One turn of the loop of `string`: the front view, or as much of it as there is room for. -/
def copyFront (room : Nat) : ParseM Buffer := fun p => do
  let view := (← p.input.peek).take room
  return (view, { p with input := ← p.input.removePrefix view.length })

/-- The loop of `string`, up to so many turns. A turn that copies nothing would be repeated for
ever; it uses the turns up, and the result is `none`. -/
def fill : Nat → Nat → ParseM Buffer
  | _, 0 => return []
  | 0, _ + 1 => fun _ => none
  | turns + 1, room + 1 => do
    let view ← copyFront (room + 1)
    return view ++ (← fill turns (room + 1 - view.length))

/-- `out` is what the span holds before; it has a turn for each of its bytes. -/
def string (out : Buffer) : ParseM Buffer := do
  checkSize out.length
  if ← hasError then return out
  else fill out.length out.length

end Parser

/-- `parse` of `helpers.hh`: the object unless an error was set. -/
def parse {α : Type} (parser : ParseM α) (buffers : List Buffer) : Option (Option α) := do
  let (obj, p) ← parser.run (Parser.new buffers)
  return if p.error then none else some obj

structure Serializer where
  output : List Buffer
  buffer : Buffer
deriving DecidableEq

namespace Serializer

def new : Serializer := ⟨[], []⟩

def integer (width : Nat) (val : Nat) (self : Serializer) : Serializer :=
  { self with buffer := self.buffer ++ BigEndian.encode width val }

def flush (self : Serializer) : Serializer :=
  if self.buffer.isEmpty then self else ⟨self.output ++ [self.buffer], []⟩

def append (buf : Buffer) (self : Serializer) : Serializer :=
  if buf.isEmpty then self
  else
    let self := self.flush
    { self with output := self.output ++ [buf] }

def appendAll (bufs : List Buffer) (self : Serializer) : Serializer :=
  bufs.foldl (fun s b => s.append b) self

def finish (self : Serializer) : List Buffer := self.flush.output

end Serializer

/-- `serialize` of `helpers.hh`, given what the object writes. -/
def serialize (write : Serializer → Option Serializer) : Option (List Buffer) := do
  return (← write Serializer.new).finish

end Minnow
