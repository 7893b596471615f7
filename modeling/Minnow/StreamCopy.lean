import Minnow.EventLoop
import Minnow.Library.Run

/-! # Copying a stream in both directions

Two byte streams between the standard descriptors and a socket, moved by four
rules of an event loop. The rules that read are alike, and so are the ones that
write, but for what they do at the end of the stream.
-/

namespace Minnow

open EventLoop Library

/-- A byte stream and its shutdown flag. `taken` is what has been read from the source and `given`
what has been written to the destination; the program keeps neither. -/
structure Pipe where
  stream : ByteStream
  shutdown : Bool
  taken : List Byte
  given : List Byte
deriving DecidableEq

namespace Pipe

def new (capacity : Nat) : Pipe := ⟨ByteStream.new capacity, false, [], []⟩

def close (self : Pipe) : Pipe := { self with stream := self.stream.close }

def setError (self : Pipe) : Pipe := { self with stream := self.stream.setError }

/-- Room for more, and no error in either direction. -/
def wantsInput (self other : Pipe) : Bool :=
  !self.stream.hasError && !other.stream.hasError &&
    decide (0 < self.stream.availableCapacity) && !self.stream.isClosed

/-- The callback of a rule that reads: from the source into the stream. -/
def fill (self : Pipe) (source : FileDescriptor) (answer : SystemCall (List Byte)) :
    Except (FileDescriptor × Pipe) (FileDescriptor × Pipe) :=
  match source.read self.stream.availableCapacity answer with
  | none => .error (source, self)
  | some (source, data) =>
    let pushed := { self with stream := self.stream.push data, taken := self.taken ++ data }
    .ok (source, if source.eof then pushed.close else pushed)

def hasOutput (self : Pipe) : Bool :=
  self.stream.bytesBuffered != 0 || (self.stream.isFinished && !self.shutdown)

/-- Write what is buffered to the destination, as far as it goes. -/
def drain (self : Pipe) (destination : FileDescriptor) (answer : SystemCall Nat) :
    Option (FileDescriptor × Pipe) :=
  if self.stream.bytesBuffered = 0 then some (destination, self)
  else
    match destination.write self.stream.peek answer with
    | none => none
    | some (destination, written) =>
      some (destination, { self with
        stream := self.stream.pop written
        given := self.given ++ self.stream.peek.take written })

/-- The callback of a rule that writes; `finish` passes the end of the stream on. -/
def flush (self : Pipe) (destination : FileDescriptor) (answer : SystemCall Nat)
    (finish : FileDescriptor → Option FileDescriptor) :
    Except (FileDescriptor × Pipe) (FileDescriptor × Pipe) :=
  match self.drain destination answer with
  | none => .error (destination, self)
  | some (destination, drained) =>
    if drained.stream.isFinished then
      match finish destination with
      | none => .error (destination, drained)
      | some destination => .ok (destination, { drained with shutdown := true })
    else .ok (destination, drained)

end Pipe

structure StreamCopy where
  socket : FileDescriptor
  input : FileDescriptor
  output : FileDescriptor
  outbound : Pipe
  inbound : Pipe
deriving DecidableEq

namespace StreamCopy

/-- The answers of the kernel to the callbacks. -/
structure Answers where
  readInput : SystemCall (List Byte) := .again
  writeSocket : SystemCall Nat := .again
  shutdownSocket : SystemCall Unit := .ok ()
  readSocket : SystemCall (List Byte) := .again
  writeOutput : SystemCall Nat := .again
  closeOutput : SystemCall Unit := .ok ()
deriving DecidableEq

def bufferSize : Nat := 1048576

def new (socket : FileDescriptor) : StreamCopy where
  socket := socket.setBlocking false
  input := ({} : FileDescriptor).setBlocking false
  output := ({} : FileDescriptor).setBlocking false
  outbound := .new bufferSize
  inbound := .new bufferSize

def closeOutbound (self : StreamCopy) : StreamCopy := { self with outbound := self.outbound.close }

def closeInbound (self : StreamCopy) : StreamCopy := { self with inbound := self.inbound.close }

def setErrors (self : StreamCopy) : StreamCopy :=
  { self with outbound := self.outbound.setError, inbound := self.inbound.setError }

def moveInput (answers : Answers) (self : StreamCopy) : Except StreamCopy StreamCopy :=
  onState (fun x => { self with input := x.1, outbound := x.2 })
    (self.outbound.fill self.input answers.readInput)

def moveOutbound (answers : Answers) (self : StreamCopy) : Except StreamCopy StreamCopy :=
  onState (fun x => { self with socket := x.1, outbound := x.2 })
    (self.outbound.flush self.socket answers.writeSocket (·.shutdownWrite answers.shutdownSocket))

def moveSocket (answers : Answers) (self : StreamCopy) : Except StreamCopy StreamCopy :=
  onState (fun x => { self with socket := x.1, inbound := x.2 })
    (self.inbound.fill self.socket answers.readSocket)

def moveInbound (answers : Answers) (self : StreamCopy) : Except StreamCopy StreamCopy :=
  onState (fun x => { self with output := x.1, inbound := x.2 })
    (self.inbound.flush self.output answers.writeOutput (·.close answers.closeOutput))

/-! The four rules -/

def readInput (categoryId : Nat) : FDRule StreamCopy Answers where
  categoryId := categoryId
  fd := input
  direction := .input
  callback := moveInput
  interest self := self.outbound.wantsInput self.inbound
  cancel := closeOutbound
  error := setErrors

def writeSocket (categoryId : Nat) : FDRule StreamCopy Answers where
  categoryId := categoryId
  fd := socket
  direction := .output
  callback := moveOutbound
  interest self := self.outbound.hasOutput
  cancel := closeOutbound
  error := setErrors

def readSocket (categoryId : Nat) : FDRule StreamCopy Answers where
  categoryId := categoryId
  fd := socket
  direction := .input
  callback := moveSocket
  interest self := self.inbound.wantsInput self.outbound
  cancel := closeInbound
  error := setErrors

def writeOutput (categoryId : Nat) : FDRule StreamCopy Answers where
  categoryId := categoryId
  fd := output
  direction := .output
  callback := moveInbound
  interest self := self.inbound.hasOutput
  cancel := closeInbound
  error := setErrors

def eventLoop : Option (EventLoop StreamCopy Answers) := do
  let loop ← addNamedRule {} "read from stdin into outbound byte stream" readInput
  let loop ← loop.addNamedRule "read from outbound byte stream into socket" writeSocket
  let loop ← loop.addNamedRule "read from socket into inbound byte stream" readSocket
  loop.addNamedRule "read from inbound byte stream into stdout" writeOutput

theorem eventLoop_isSome : eventLoop.isSome := rfl

/-- `bidirectional_stream_copy` between two events; `ended` says how the last one ended it. -/
structure Running where
  loop : EventLoop StreamCopy Answers
  state : StreamCopy
  ended : Option Result

def start (socket : FileDescriptor) : Running where
  loop := eventLoop.get eventLoop_isSome
  state := new socket
  ended := none

/-- One turn of the loop, which only `exit` and an exception leave. -/
def Running.step (self : Running) (event : Poll × Answers) : Running :=
  if self.ended.isSome then self
  else
    let next := self.loop.waitNextEvent self.state event.1 event.2
    { loop := next.2.1
      state := next.2.2
      ended := if next.1 = .exit ∨ next.1 = .threw then some next.1 else none }

end StreamCopy

end Minnow
