import Minnow.Library.Chunks
import Minnow.ByteStream
import Minnow.WrappingIntegers

/-! # The reassembler

`insert` in the order of the source: mark the end, trim on both sides, merge
with the pending chunks, store, flush, close. Sums that may involve the
caller's index wrap as `uint64_t`.
-/

namespace Minnow

open Library

structure Reassembler where
  output : ByteStream
  pending : ChunkMap Byte
  nextIndex : Nat
  lastIndex : Nat
  lastSeen : Bool

namespace Reassembler

def new (output : ByteStream) : Reassembler where
  output := output
  pending := SortedMap.empty
  nextIndex := 0
  lastIndex := 2 ^ 64 - 1
  lastSeen := false

/-- `data.resize(n)` pads with zero bytes when `n` is larger. -/
def resize (n : Nat) (data : List Byte) : List Byte :=
  data.take n ++ List.replicate (n - data.length) 0

def markEnd (self : Reassembler) (firstIndex : Nat) (data : List Byte) (isLastSubstring : Bool) :
    Reassembler :=
  if isLastSubstring then
    { self with lastSeen := true, lastIndex := u64 (firstIndex + data.length) }
  else self

def atEnd (self : Reassembler) : Bool := self.lastSeen && self.nextIndex == self.lastIndex

def closeOutput (self : Reassembler) : Reassembler := { self with output := self.output.close }

def leftTrim (nextIndex firstIndex : Nat) (data : List Byte) : Nat × List Byte :=
  if firstIndex < nextIndex then (nextIndex, data.drop (nextIndex - firstIndex))
  else (firstIndex, data)

def rightTrim (streamLimit firstIndex : Nat) (data : List Byte) : List Byte :=
  if streamLimit < u64 (firstIndex + data.length) then resize (streamLimit - firstIndex) data
  else data

def mergePrevious (pending : ChunkMap Byte) (firstIndex : Nat) (data : List Byte) :
    ChunkMap Byte × Nat × List Byte :=
  match pending.previous? firstIndex with
  | none => (pending, firstIndex, data)
  | some (prevIndex, prev) =>
    let prevEnd := u64 (prevIndex + prev.length)
    if firstIndex ≤ prevEnd then
      (pending.erase prevIndex, prevIndex, ChunkMap.glue prev (prevEnd - firstIndex) data)
    else (pending, firstIndex, data)

/-- The loop over the chunks from `it` on, where `it` is the lower bound taken
before `mergePrevious`; an erased entry leaves the iterator at the next one. -/
def mergeFollowing (it firstIndex : Nat) (pending : ChunkMap Byte) (data : List Byte) :
    ChunkMap Byte × List Byte :=
  match _h : pending.lowerBound? it with
  | none => (pending, data)
  | some (index, chunk) =>
    if index ≤ u64 (firstIndex + data.length) then
      let overlap := u64 (firstIndex + data.length) - index
      mergeFollowing it firstIndex (pending.erase index) (ChunkMap.glue data overlap chunk)
    else (pending, data)
termination_by pending.size
decreasing_by exact SortedMap.size_erase_lt (SortedMap.mem_of_lowerBound? _h).1

def store (pending : ChunkMap Byte) (firstIndex : Nat) (data : List Byte) : ChunkMap Byte :=
  let previous := mergePrevious pending firstIndex data
  let merged := mergeFollowing firstIndex previous.2.1 previous.1 previous.2.2
  merged.1.assign previous.2.1 merged.2

def flush (self : Reassembler) : Reassembler :=
  match _h : self.pending.find? self.nextIndex with
  | none => self
  | some chunk =>
    flush { self with
      output := self.output.push chunk
      nextIndex := self.nextIndex + chunk.length
      pending := self.pending.erase self.nextIndex }
termination_by self.pending.size
decreasing_by exact SortedMap.size_erase_lt (SortedMap.find?_eq_some.mp _h)

def closeIfAtEnd (self : Reassembler) : Reassembler :=
  if self.atEnd then self.closeOutput else self

def streamLimit (self : Reassembler) : Nat :=
  u64 (self.nextIndex + self.output.availableCapacity)

/-- `insert` once the end has been marked and not yet reached. -/
def place (self : Reassembler) (firstIndex : Nat) (data : List Byte) : Reassembler :=
  if u64 (firstIndex + data.length) ≤ self.nextIndex then self
  else
    let (firstIndex, data) := leftTrim self.nextIndex firstIndex data
    if self.streamLimit ≤ firstIndex then self
    else
      let data := rightTrim self.streamLimit firstIndex data
      if data.isEmpty then self
      else { self with pending := store self.pending firstIndex data }.flush.closeIfAtEnd

def insert (self : Reassembler) (firstIndex : Nat) (data : List Byte) (isLastSubstring : Bool) :
    Reassembler :=
  let self := self.markEnd firstIndex data isLastSubstring
  if self.atEnd then self.closeOutput else self.place firstIndex data

def pop (self : Reassembler) (len : Nat) : Reassembler :=
  { self with output := self.output.pop len }

def countBytesPending (self : Reassembler) : Nat :=
  (self.pending.entries.map fun e => e.2.length).sum

end Reassembler

end Minnow
