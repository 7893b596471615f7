import Mathlib

/-! # The byte stream

One object seen through a Writer and a Reader. The two fields that are proofs
hold from construction on and are kept by every method, so `availableCapacity`
never underflows.
-/

namespace Minnow

abbrev Byte := UInt8

/-- A sequence of bytes that is known so far goes on to another one: it may grow until its end
has been announced. -/
structure Extends (S : List Byte) (ended : Bool) (S' : List Byte) (ended' : Bool) : Prop where
  stream : S <+: S'
  final : ended = true → S' = S ∧ ended' = true

theorem Extends.refl (S : List Byte) (ended : Bool) : Extends S ended S ended :=
  ⟨List.prefix_rfl, fun h => ⟨rfl, h⟩⟩

theorem Extends.trans {S T U : List Byte} {a b c : Bool} (h : Extends S a T b)
    (h' : Extends T b U c) : Extends S a U c where
  stream := h.stream.trans h'.stream
  final hEnd := by
    obtain ⟨hT, hb⟩ := h.final hEnd
    obtain ⟨hU, hc⟩ := h'.final hb
    exact ⟨hU.trans hT, hc⟩

@[ext] structure ByteStream where
  capacity : Nat
  error : Bool
  buffer : List Byte
  totalPushed : Nat
  totalPopped : Nat
  closed : Bool
  buffer_le : buffer.length ≤ capacity
  pushed_eq : totalPushed = totalPopped + buffer.length
deriving DecidableEq

namespace ByteStream

def new (capacity : Nat) : ByteStream where
  capacity := capacity
  error := false
  buffer := []
  totalPushed := 0
  totalPopped := 0
  closed := false
  buffer_le := Nat.zero_le _
  pushed_eq := rfl

def setError (self : ByteStream) : ByteStream := { self with error := true }

def hasError (self : ByteStream) : Bool := self.error

/-! Writer -/

def availableCapacity (self : ByteStream) : Nat := self.capacity - self.buffer.length

def push (self : ByteStream) (data : List Byte) : ByteStream :=
  let n := min self.availableCapacity data.length
  { self with
    buffer := self.buffer ++ data.take n
    totalPushed := self.totalPushed + n
    buffer_le := by
      have h := self.buffer_le
      simp only [List.length_append, List.length_take, n, availableCapacity]
      omega
    pushed_eq := by
      have h := self.pushed_eq
      simp only [List.length_append, List.length_take, n]
      omega }

def close (self : ByteStream) : ByteStream := { self with closed := true }

def isClosed (self : ByteStream) : Bool := self.closed

def bytesPushed (self : ByteStream) : Nat := self.totalPushed

/-! Reader -/

def peek (self : ByteStream) : List Byte := self.buffer

def pop (self : ByteStream) (len : Nat) : ByteStream :=
  let n := min len self.buffer.length
  { self with
    buffer := self.buffer.drop n
    totalPopped := self.totalPopped + n
    buffer_le := by
      have h := self.buffer_le
      rw [List.length_drop]
      omega
    pushed_eq := by
      have h := self.pushed_eq
      rw [List.length_drop]
      omega }

def isFinished (self : ByteStream) : Bool := self.closed && self.buffer.isEmpty

def bytesBuffered (self : ByteStream) : Nat := self.buffer.length

def bytesPopped (self : ByteStream) : Nat := self.totalPopped

section Fields

variable (s : ByteStream) (data : List Byte) (len : Nat)

@[simp] theorem new_buffer (capacity : Nat) : (new capacity).buffer = [] := rfl
@[simp] theorem new_error (capacity : Nat) : (new capacity).error = false := rfl
@[simp] theorem new_closed (capacity : Nat) : (new capacity).closed = false := rfl
@[simp] theorem new_capacity (capacity : Nat) : (new capacity).capacity = capacity := rfl
@[simp] theorem new_totalPushed (capacity : Nat) : (new capacity).totalPushed = 0 := rfl
@[simp] theorem new_totalPopped (capacity : Nat) : (new capacity).totalPopped = 0 := rfl

@[simp] theorem setError_buffer : s.setError.buffer = s.buffer := rfl
@[simp] theorem setError_closed : s.setError.closed = s.closed := rfl
@[simp] theorem setError_capacity : s.setError.capacity = s.capacity := rfl
@[simp] theorem setError_totalPushed : s.setError.totalPushed = s.totalPushed := rfl
@[simp] theorem setError_totalPopped : s.setError.totalPopped = s.totalPopped := rfl

@[simp] theorem push_error : (s.push data).error = s.error := rfl
@[simp] theorem push_closed : (s.push data).closed = s.closed := rfl
@[simp] theorem push_capacity : (s.push data).capacity = s.capacity := rfl
@[simp] theorem push_totalPopped : (s.push data).totalPopped = s.totalPopped := rfl

@[simp] theorem push_buffer :
    (s.push data).buffer = s.buffer ++ data.take s.availableCapacity := by
  change s.buffer ++ data.take (min s.availableCapacity data.length) = _
  rw [← List.take_eq_take_min]

@[simp] theorem close_error : s.close.error = s.error := rfl
@[simp] theorem close_closed : s.close.closed = true := rfl
@[simp] theorem close_buffer : s.close.buffer = s.buffer := rfl
@[simp] theorem close_capacity : s.close.capacity = s.capacity := rfl
@[simp] theorem close_totalPushed : s.close.totalPushed = s.totalPushed := rfl
@[simp] theorem close_totalPopped : s.close.totalPopped = s.totalPopped := rfl

@[simp] theorem pop_error : (s.pop len).error = s.error := rfl
@[simp] theorem pop_closed : (s.pop len).closed = s.closed := rfl
@[simp] theorem pop_capacity : (s.pop len).capacity = s.capacity := rfl
@[simp] theorem pop_totalPushed : (s.pop len).totalPushed = s.totalPushed := rfl

@[simp] theorem pop_totalPopped :
    (s.pop len).totalPopped = s.totalPopped + min len s.buffer.length := rfl

@[simp] theorem pop_buffer : (s.pop len).buffer = s.buffer.drop len := by
  change s.buffer.drop (min len s.buffer.length) = _
  rw [← List.drop_eq_drop_min]

end Fields

theorem push_totalPushed_of_le {s : ByteStream} {data : List Byte}
    (h : data.length ≤ s.availableCapacity) :
    (s.push data).totalPushed = s.totalPushed + data.length := by
  change s.totalPushed + min s.availableCapacity data.length = _
  rw [min_eq_right h]

theorem pop_min (s : ByteStream) (len : Nat) : s.pop (min len s.buffer.length) = s.pop len := by
  simp only [pop, Nat.min_assoc, Nat.min_self]

theorem pop_zero (s : ByteStream) : s.pop 0 = s := by
  ext <;> simp

theorem isFinished_iff {s : ByteStream} :
    s.isFinished = true ↔ s.closed = true ∧ s.buffer = [] := by
  rw [isFinished, Bool.and_eq_true, List.isEmpty_iff]

/-- The loop of `read`; `none` is the thrown runtime error. -/
def readLoop (maxLen : Nat) (self : ByteStream) (out : List Byte) :
    Option (ByteStream × List Byte) :=
  if _h : self.bytesBuffered ≠ 0 ∧ out.length < maxLen then
    let view := self.peek
    if view.isEmpty then none
    else
      let view := view.take (maxLen - out.length)
      readLoop maxLen (self.pop view.length) (out ++ view)
  else some (self, out)
termination_by self.buffer.length
decreasing_by
  simp only [bytesBuffered] at _h
  simp only [pop, peek, List.length_drop, List.length_take]
  omega

def read (self : ByteStream) (maxLen : Nat) : Option (ByteStream × List Byte) :=
  readLoop maxLen self []

theorem readLoop_stop {maxLen : Nat} {s : ByteStream} {out : List Byte}
    (h : s.buffer = [] ∨ maxLen ≤ out.length) : readLoop maxLen s out = some (s, out) := by
  have hStop : ¬ (s.bytesBuffered ≠ 0 ∧ out.length < maxLen) := by
    obtain h | h := h
    · simp [bytesBuffered, h]
    · omega
  rw [readLoop, dif_neg hStop]

theorem read_eq (s : ByteStream) (maxLen : Nat) :
    s.read maxLen = some (s.pop maxLen, s.buffer.take maxLen) := by
  by_cases h : s.bytesBuffered ≠ 0 ∧ ([] : List Byte).length < maxLen
  · have hView : s.buffer.isEmpty = false := by
      simpa [bytesBuffered] using h.1
    rw [read, readLoop, dif_pos h]
    simp only [peek, hView, Bool.false_eq_true, if_false, List.length_nil, Nat.sub_zero,
      List.nil_append, List.length_take, pop_min]
    apply readLoop_stop
    rw [pop_buffer, List.drop_eq_nil_iff, List.length_take]
    omega
  · have hStop : s.buffer = [] ∨ maxLen = 0 := by
      simp only [bytesBuffered, List.length_nil] at h
      obtain hMax | hMax := Nat.eq_zero_or_pos maxLen
      · exact .inr hMax
      · exact .inl (List.length_eq_zero_iff.mp (by omega))
    rw [read, readLoop_stop (hStop.imp_right Nat.le_of_eq)]
    obtain hNil | rfl := hStop
    · have hPop : s.pop maxLen = s := by ext <;> simp [hNil]
      rw [hPop, hNil, List.take_nil]
    · rw [pop_zero, List.take_zero]

theorem read_isSome (s : ByteStream) (maxLen : Nat) : (s.read maxLen).isSome := by
  rw [read_eq]
  rfl

def readBytes (self : ByteStream) (maxLen : Nat) : ByteStream × List Byte :=
  (self.read maxLen).get (read_isSome self maxLen)

@[simp] theorem readBytes_eq (s : ByteStream) (maxLen : Nat) :
    s.readBytes maxLen = (s.pop maxLen, s.buffer.take maxLen) := by
  simp only [readBytes, read_eq, Option.get_some]

end ByteStream

end Minnow
