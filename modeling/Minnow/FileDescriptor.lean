import Minnow.ByteStream

/-! # File descriptors

The answer of the kernel is an argument of each call, and `none` is a thrown
exception. Of the wrapper the number is left out: the state that holds the
descriptors tells them apart.
-/

namespace Minnow

/-- What a system call returns; `again` stands for `EAGAIN` and `EINPROGRESS`. -/
inductive SystemCall (α : Type) where
  | ok (a : α)
  | again
  | failed
deriving DecidableEq

/-- It succeeds, with such a result. -/
def SystemCall.Gives {α : Type} (P : α → Prop) : SystemCall α → Prop
  | .ok a => P a
  | .again | .failed => False

instance {α : Type} (P : α → Prop) [∀ a, Decidable (P a)] (answer : SystemCall α) :
    Decidable (answer.Gives P) :=
  match answer with
  | .ok a => inferInstanceAs (Decidable (P a))
  | .again | .failed => instDecidableFalse

theorem SystemCall.gives_iff {α : Type} {P : α → Prop} {answer : SystemCall α} :
    answer.Gives P ↔ ∃ a, answer = .ok a ∧ P a := by
  cases answer with
  | ok a => simp [Gives]
  | again | failed => simp [Gives]

structure FileDescriptor where
  eof : Bool := false
  closed : Bool := false
  nonBlocking : Bool := false
  readCount : UInt32 := 0
  writeCount : UInt32 := 0
deriving DecidableEq

namespace FileDescriptor

def kReadBufferSize : Nat := 16384

def checkSystemCall {α : Type} (self : FileDescriptor) (zero : α) : SystemCall α → Option α
  | .ok a => some a
  | .again => if self.nonBlocking then some zero else none
  | .failed => none

def registerRead (self : FileDescriptor) : FileDescriptor :=
  { self with readCount := self.readCount + 1 }

def registerWrite (self : FileDescriptor) : FileDescriptor :=
  { self with writeCount := self.writeCount + 1 }

def setBlocking (self : FileDescriptor) (blocking : Bool) : FileDescriptor :=
  { self with nonBlocking := !blocking }

/-- Read into a buffer of the given size. -/
def read (self : FileDescriptor) (size : Nat) :
    SystemCall (List Byte) → Option (FileDescriptor × List Byte)
  | .ok data =>
    let size := if size = 0 then kReadBufferSize else size
    if size < data.length then none
    else some ({ self.registerRead with eof := self.eof || data.isEmpty }, data)
  | .again => if self.nonBlocking then some (self, []) else none
  | .failed => none

/-- As much of the data for each buffer as it has room for. -/
def scatter : List Nat → List Byte → List (List Byte)
  | [], _ => []
  | size :: sizes, data => data.take size :: scatter sizes (data.drop size)

/-- Read into buffers of the given sizes, but for the last one, which gets the default size. The
end of the file goes unnoticed. -/
def readBuffers (self : FileDescriptor) (sizes : List Nat) (answer : SystemCall (List Byte)) :
    Option (FileDescriptor × List (List Byte)) :=
  if sizes = [] then some (self, [])
  else
    let sizes := sizes.dropLast ++ [kReadBufferSize]
    match answer with
    | .ok data =>
      if sizes.sum < data.length then none else some (self.registerRead, scatter sizes data)
    | .again => if self.nonBlocking then some (self, []) else none
    | .failed => none

/-- Also the number of bytes written. -/
def write (self : FileDescriptor) (buffer : List Byte) (answer : SystemCall Nat) :
    Option (FileDescriptor × Nat) :=
  match self.checkSystemCall 0 answer with
  | none => none
  | some written =>
    if written = 0 ∧ buffer ≠ [] then none
    else if buffer.length < written then none
    else some (self.registerWrite, written)

def close (self : FileDescriptor) (answer : SystemCall Unit) : Option FileDescriptor :=
  (self.checkSystemCall () answer).map fun _ => { self with eof := true, closed := true }

/-- `shutdown` with `SHUT_WR`. -/
def shutdownWrite (self : FileDescriptor) (answer : SystemCall Unit) : Option FileDescriptor :=
  (self.checkSystemCall () answer).map fun _ => self.registerWrite

section Results

variable {fd fd' : FileDescriptor} {data buffer : List Byte} {size n : Nat}

/-- A read that returns takes no more than there is room for, as long as there is some. -/
theorem read_eq_some {answer : SystemCall (List Byte)} (hSize : 0 < size)
    (h : fd.read size answer = some (fd', data)) :
    data.length ≤ size ∧ fd'.closed = fd.closed ∧
      (fd'.eof = true → fd.eof = true ∨ data = []) ∧
      (answer = .again ∧ fd' = fd ∨
        answer = .ok data ∧ fd'.readCount = fd.readCount + 1 ∧
          fd'.eof = (fd.eof || data.isEmpty)) := by
  cases answer with
  | ok bytes =>
    simp only [read, if_neg (Nat.ne_of_gt hSize)] at h
    split at h
    · cases h
    · next hLe =>
      cases h
      refine ⟨Nat.le_of_not_lt hLe, rfl, fun hEof => ?_, .inr ⟨rfl, rfl, rfl⟩⟩
      obtain hOld | hNil := (Bool.or_eq_true _ _).mp hEof
      · exact .inl hOld
      · exact .inr (List.isEmpty_iff.mp hNil)
  | again =>
    rw [read] at h
    split at h
    · cases h
      exact ⟨Nat.zero_le _, rfl, fun hEof => .inl hEof, .inl ⟨rfl, rfl⟩⟩
    · cases h
  | failed => cases h

theorem write_eq_some {answer : SystemCall Nat} (h : fd.write buffer answer = some (fd', n)) :
    n ≤ buffer.length ∧ (buffer ≠ [] → 0 < n) ∧ fd' = fd.registerWrite := by
  rw [write] at h
  split at h
  · cases h
  · split at h
    · cases h
    · next hSome =>
      split at h
      · cases h
      · next hLe =>
        cases h
        refine ⟨Nat.le_of_not_lt hLe, fun hNe => ?_, rfl⟩
        exact Nat.pos_of_ne_zero fun hZero => hSome ⟨hZero, hNe⟩

theorem read_ok (hSize : 0 < size) (h : data.length ≤ size) :
    fd.read size (.ok data) =
      some ({ fd.registerRead with eof := fd.eof || data.isEmpty }, data) := by
  rw [read, if_neg (Nat.ne_of_gt hSize), if_neg (Nat.not_lt.mpr h)]

theorem write_ok (hPos : 0 < n) (hLe : n ≤ buffer.length) :
    fd.write buffer (.ok n) = some (fd.registerWrite, n) := by
  have hNot : ¬ (n = 0 ∧ buffer ≠ []) := fun h => Nat.ne_of_gt hPos h.1
  rw [write, checkSystemCall]
  dsimp only
  rw [if_neg hNot, if_neg (Nat.not_lt.mpr hLe)]

theorem count_ne (x : UInt32) : x ≠ x + 1 ∧ x ≠ x + 1 + 1 := by
  constructor <;>
  · intro h
    have hNat := congrArg UInt32.toNat h
    have hLt := x.toNat_lt
    simp only [UInt32.toNat_add, UInt32.reduceToNat] at hNat
    omega

theorem readBuffers_eq_some {sizes : List Nat} {answer : SystemCall (List Byte)}
    {bufs : List (List Byte)} (h : fd.readBuffers sizes answer = some (fd', bufs)) :
    fd' = fd ∨ fd' = fd.registerRead := by
  rw [readBuffers] at h
  split at h
  · cases h
    exact .inl rfl
  · cases answer with
    | ok data =>
      dsimp only at h
      split at h
      · cases h
      · cases h
        exact .inr rfl
    | again =>
      dsimp only at h
      split at h
      · cases h
        exact .inl rfl
      · cases h
    | failed => cases h

theorem shutdownWrite_eq_some {answer : SystemCall Unit}
    (h : fd.shutdownWrite answer = some fd') : fd' = fd.registerWrite := by
  obtain ⟨_, -, rfl⟩ := Option.map_eq_some_iff.mp h
  rfl

end Results

end FileDescriptor

end Minnow
