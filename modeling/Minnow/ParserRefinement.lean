import Minnow.Library.ByteReader
import Minnow.Library.Simulation
import Minnow.ParserReads

/-! # The parser against one string

Whatever buffers the bytes came in, a sequence of calls does to the parser what
it does to a reader of their concatenation, and leaves it the same bytes.
-/

namespace Minnow.Parser

open Library

inductive Call where
  | integer8 (out : UInt8)
  | integer16 (out : UInt16)
  | integer32 (out : UInt32)
  | integer64 (out : UInt64)
  | string (out : Buffer)
  | removePrefix (n : Nat)
deriving DecidableEq

/-- What a call leaves in its output, if it has one. -/
inductive Value where
  | number (n : Nat)
  | bytes (data : Buffer)
  | nothing
deriving DecidableEq

def call : Call → ParseM Value
  | .integer8 out => return .number (← integer8 out).toNat
  | .integer16 out => return .number (← integer16 out).toNat
  | .integer32 out => return .number (← integer32 out).toNat
  | .integer64 out => return .number (← integer64 out).toNat
  | .string out => return .bytes (← string out)
  | .removePrefix n => do
    removePrefix n
    return .nothing

/-- The same call of the reader of one string. -/
def reference : Call → ReadM Value
  | .integer8 out => return .number (← ByteReader.integer 1 out.toNat)
  | .integer16 out => return .number (← ByteReader.integer 2 out.toNat)
  | .integer32 out => return .number (← ByteReader.integer 4 out.toNat)
  | .integer64 out => return .number (← ByteReader.integer 8 out.toNat)
  | .string out => return .bytes (← ByteReader.string out)
  | .removePrefix n => do
    ByteReader.removePrefix n
    return .nothing

/-- A sequence of calls, with the error flag as it is after each. -/
def calls {m : Type → Type} [Monad m] (call : Call → m Value) (hasError : m Bool)
    (cs : List Call) : m (List (Value × Bool)) :=
  cs.mapM fun c => return (← call c, ← hasError)

/-- How many bytes a read asks for. -/
def Call.size : Call → Option Nat
  | .integer8 _ => some 1
  | .integer16 _ => some 2
  | .integer32 _ => some 4
  | .integer64 _ => some 8
  | .string out => some out.length
  | .removePrefix _ => none

/-- What the output of a call holds before. -/
def Call.held : Call → Value
  | .integer8 out => .number out.toNat
  | .integer16 out => .number out.toNat
  | .integer32 out => .number out.toNat
  | .integer64 out => .number out.toNat
  | .string out => .bytes out
  | .removePrefix _ => .nothing

/-- The call reads an integer of `width` bytes, and hands it out through a type that holds it. -/
structure Call.IsInteger (c : Call) (width out : Nat) (f : Nat → Nat) : Prop where
  call : call c = (integer width out >>= fun n => pure (.number (f n)))
  reference : reference c = (ByteReader.integer width out >>= fun n => pure (.number n))
  size : c.size = some width
  held : c.held = .number out
  fits : out < 256 ^ width
  same : ∀ n < 256 ^ width, f n = n

theorem Call.cases (c : Call) :
    (∃ width out f, c.IsInteger width out f) ∨ (∃ out, c = .string out) ∨
      ∃ n, c = .removePrefix n := by
  cases c with
  | integer8 out =>
    refine .inl ⟨1, out.toNat, fun n => (UInt8.ofNat n).toNat, ?_, rfl, rfl, rfl, out.toNat_lt, ?_⟩
    · simp only [Parser.call, Parser.integer8, bind_assoc, pure_bind]
    · exact fun n hn => UInt8.toNat_ofNat_of_lt' hn
  | integer16 out =>
    refine .inl ⟨2, out.toNat, fun n => (UInt16.ofNat n).toNat, ?_, rfl, rfl, rfl, out.toNat_lt, ?_⟩
    · simp only [Parser.call, Parser.integer16, bind_assoc, pure_bind]
    · exact fun n hn => UInt16.toNat_ofNat_of_lt' hn
  | integer32 out =>
    refine .inl ⟨4, out.toNat, fun n => (UInt32.ofNat n).toNat, ?_, rfl, rfl, rfl, out.toNat_lt, ?_⟩
    · simp only [Parser.call, Parser.integer32, bind_assoc, pure_bind]
    · exact fun n hn => UInt32.toNat_ofNat_of_lt' hn
  | integer64 out =>
    refine .inl ⟨8, out.toNat, fun n => (UInt64.ofNat n).toNat, ?_, rfl, rfl, rfl, out.toNat_lt, ?_⟩
    · simp only [Parser.call, Parser.integer64, bind_assoc, pure_bind]
    · exact fun n hn => UInt64.toNat_ofNat_of_lt' hn
  | string out => exact .inr (.inl ⟨out, rfl⟩)
  | removePrefix n => exact .inr (.inr ⟨n, rfl⟩)

/-- The parser has left the bytes and the error flag of the reader. -/
structure Shows (p : Parser) (r : ByteReader) : Prop where
  holds : p.input.Holds r.bytes
  error : p.error = r.error

section Reads

variable {α : Type} {p : Parser} {r : ByteReader} {size : Nat} {out : α}

/-- A read that may not go on leaves everything but the error flag as it was. -/
theorem read_of_short {body : ParseM α} (h : p.error = true ∨ p.input.size < size) :
    (do
      checkSize size
      if ← hasError then return out
      else body : ParseM α) p = some (out, { p with error := true }) := by
  have hCheck : checkSize size p = some ((), { p with error := true }) := by
    change (setErrorIf (size > p.input.size)) p = _
    rw [setErrorIf]
    split
    · rfl
    · rename_i hFits
      have hError : p.error = true := h.resolve_right hFits
      rw [← hError]
      rfl
  change (checkSize size p).bind _ = _
  rw [hCheck]
  rfl

theorem gives_read (out : α) {bytes : List Byte} {body : ParseM α} {Q : α → List Byte → Prop}
    (hSize : size ≤ bytes.length) (hBody : Gives body bytes Q) :
    Gives (do
      checkSize size
      if ← hasError then return out
      else body) bytes Q := by
  refine (gives_checkSize hSize).bind ?_
  rintro _ _ rfl
  refine gives_hasError.bind ?_
  rintro _ _ ⟨rfl, rfl⟩
  exact hBody

theorem read_simulates {decode : List Byte → α} {body : ParseM α}
    (hBody : ∀ bytes, size ≤ bytes.length → Gives body bytes fun a rest =>
      a = decode (bytes.take size) ∧ rest = bytes.drop size) :
    Simulates Shows (do
      checkSize size
      if ← hasError then return out
      else body) (ByteReader.read size decode out) := by
  intro p r hShows
  by_cases hShort : r.error = true ∨ r.bytes.length < size
  · rw [ByteReader.read_of_short hShort]
    rw [← hShows.error, ← hShows.holds.size] at hShort
    exact ⟨_, read_of_short hShort, hShows.holds, rfl⟩
  · obtain ⟨hTrue, hFits⟩ := not_or.mp hShort
    have hError : r.error = false := Bool.eq_false_iff.mpr hTrue
    have hSize : size ≤ r.bytes.length := Nat.not_lt.mp hFits
    obtain ⟨a, p', rest, hRun, hAt, rfl, rfl⟩ :=
      gives_read out hSize (hBody r.bytes hSize) p ⟨hShows.holds, hShows.error.trans hError⟩
    rw [ByteReader.read_of_fits hError hSize]
    exact ⟨p', hRun, hAt.holds, hAt.error.trans hError.symm⟩

end Reads

section Calls

theorem integer_simulates (width out : Nat) :
    Simulates Shows (integer width out) (ByteReader.integer width out) := by
  apply read_simulates
  intro bytes hSize
  have hTake : (bytes.take width).length = width := List.length_take_of_le hSize
  have hGives : Gives (readOctets (bytes.take width).length 0)
      (bytes.take width ++ bytes.drop width) fun v rest =>
        v = BigEndian.decode (bytes.take width) ∧ rest = bytes.drop width :=
    gives_readOctets (bytes.take width) 0
  rw [hTake, List.take_append_drop] at hGives
  exact hGives

theorem string_simulates (out : Buffer) :
    Simulates Shows (string out) (ByteReader.string out) :=
  read_simulates fun _ hSize => gives_fill le_rfl hSize

theorem removePrefix_simulates (n : Nat) :
    Simulates Shows (removePrefix n) (ByteReader.removePrefix n) := by
  intro p r hShows
  obtain ⟨l, hRemove, hHolds⟩ := hShows.holds.removePrefix n
  refine ⟨{ p with input := l }, ?_, hHolds, hShows.error⟩
  simp only [removePrefix, hRemove]
  rfl

theorem hasError_simulates : Simulates Shows hasError ByteReader.hasError := by
  intro p r hShows
  refine ⟨p, ?_, hShows⟩
  change some (p.error, p) = some (r.error, p)
  rw [hShows.error]

theorem call_simulates (c : Call) : Simulates Shows (call c) (reference c) := by
  obtain ⟨width, out, f, h⟩ | ⟨out, rfl⟩ | ⟨n, rfl⟩ := c.cases
  · rw [h.call, h.reference]
    apply (integer_simulates width out).bind_of_result (P := fun n => n < 256 ^ width)
      (ByteReader.integer_lt h.fits)
    intro n hn
    rw [h.same n hn]
    exact Simulates.pure _
  · exact (string_simulates out).bind fun data => Simulates.pure _
  · exact (removePrefix_simulates n).bind fun _ => Simulates.pure _

theorem calls_simulate {τ : Type} {R : Parser → τ → Prop} {f : Call → StateM τ Value}
    {e : StateM τ Bool} (hCall : ∀ c, Simulates R (call c) (f c)) (hError : Simulates R hasError e)
    (cs : List Call) : Simulates R (calls call hasError cs) (calls f e cs) := by
  apply Simulates.mapM
  intro c
  exact (hCall c).bind fun value => hError.bind fun error => Simulates.pure _

end Calls

section Stuck

variable {p : Parser} {n : Nat}

/-- The parser is in error; no state is needed to say what its calls return. -/
structure Stuck (p : Parser) (_ : Unit) : Prop where
  holds : ∃ bytes, p.input.Holds bytes
  error : p.error = true

theorem call_of_short {c : Call} (hSize : c.size = some n)
    (h : p.error = true ∨ p.input.size < n) :
    call c p = some (c.held, { p with error := true }) := by
  obtain ⟨width, out, f, hCall⟩ | ⟨out, rfl⟩ | ⟨k, rfl⟩ := c.cases
  · obtain rfl : width = n := Option.some.inj (hCall.size.symm.trans hSize)
    rw [hCall.call, hCall.held]
    change (integer width out p).bind _ = _
    rw [integer, read_of_short h, Option.bind_some]
    dsimp only
    rw [hCall.same out hCall.fits]
    rfl
  · cases hSize
    change (string out p).bind _ = _
    rw [string, read_of_short h]
    rfl
  · cases hSize

theorem removePrefix_stuck (n : Nat) : Simulates Stuck (removePrefix n) (pure ()) := by
  intro p _ hStuck
  obtain ⟨bytes, hHolds⟩ := hStuck.holds
  obtain ⟨l, hRemove, hHolds'⟩ := hHolds.removePrefix n
  refine ⟨{ p with input := l }, ?_, ⟨_, hHolds'⟩, hStuck.error⟩
  simp only [removePrefix, hRemove]
  rfl

theorem call_stuck (c : Call) : Simulates Stuck (call c) (pure c.held) := by
  have hRead : ∀ {n}, c.size = some n → Simulates Stuck (call c) (pure c.held) := by
    intro n hSize p _ hStuck
    exact ⟨_, call_of_short hSize (.inl hStuck.error), hStuck.holds, rfl⟩
  obtain ⟨width, out, f, hCall⟩ | ⟨out, rfl⟩ | ⟨n, rfl⟩ := c.cases
  · exact hRead hCall.size
  · exact hRead rfl
  · have hRemove := (removePrefix_stuck n).bind fun _ => Simulates.pure Value.nothing
    rw [pure_bind] at hRemove
    exact hRemove

theorem hasError_stuck : Simulates Stuck hasError (pure true) := by
  intro p _ hStuck
  refine ⟨p, ?_, hStuck⟩
  change some (p.error, p) = some (true, p)
  rw [hStuck.error]

theorem calls_stuck (hHolds : ∃ bytes, p.input.Holds bytes) (hError : p.error = true)
    (cs : List Call) :
    ∃ p', calls call hasError cs p = some (cs.map fun c => (c.held, true), p') := by
  obtain ⟨p', hRun, -⟩ := calls_simulate call_stuck hasError_stuck cs p () ⟨hHolds, hError⟩
  have hHeld : (calls (fun c => pure c.held) (pure true) cs : StateM Unit _) =
      pure (cs.map fun c => (c.held, true)) := by
    simp only [calls, pure_bind, List.mapM_pure]
  rw [hHeld] at hRun
  exact ⟨p', hRun⟩

end Stuck

/-- From any buffers, any calls return what the reader of their bytes returns, with the same error
flag after each, and leave the same bytes. A read that asks for more than those changes nothing
but the flag, and nothing is read any more. -/
theorem calls_refine {bufs : List Buffer} (hBuffers : ∀ b ∈ bufs, b ≠ []) (cs : List Call) :
    let read := calls reference ByteReader.hasError cs ⟨bufs.flatten, false⟩
    ∃ p, calls call hasError cs (Parser.new bufs) = some (read.1, p) ∧
      p.error = read.2.error ∧
      (∃ rest p', allRemaining p = some (rest, p') ∧ rest.flatten = read.2.bytes) ∧
      (∃ p', concatenateAllRemaining p = some (read.2.bytes, p')) ∧
      ∀ c n, c.size = some n → read.2.bytes.length < n →
        call c p = some (c.held, { p with error := true }) ∧
        ∀ later, ∃ p', calls call hasError later { p with error := true } =
          some (later.map fun c => (c.held, true), p') := by
  intro read
  have hShows : Shows (Parser.new bufs) ⟨bufs.flatten, false⟩ :=
    ⟨BufferList.holds_new hBuffers, rfl⟩
  obtain ⟨p, hRun, hEnd⟩ :=
    calls_simulate call_simulates hasError_simulates cs _ _ hShows
  obtain ⟨rest, hViews, hFlatten, -⟩ := hEnd.holds.views
  have hRemaining : allRemaining p = some (rest, p) := by
    simp [allRemaining, hViews]
  refine ⟨p, hRun, hEnd.error, ⟨rest, p, hRemaining, hFlatten⟩, ⟨p, ?_⟩, ?_⟩
  · change (allRemaining p).bind _ = _
    rw [hRemaining, ← hFlatten]
    rfl
  · intro c n hSize hShort
    constructor
    · apply call_of_short hSize
      rw [hEnd.holds.size]
      exact .inr hShort
    · exact calls_stuck ⟨_, hEnd.holds⟩ rfl

/-- An integer and a string across buffers, a read that asks for too much, and two that come
after it. -/
theorem calls_refine_split :
    ∃ p p', calls call hasError
        [.integer16 0, .string [0, 0], .integer64 7, .integer8 9, .removePrefix 1]
        (Parser.new [[1], [2, 3], [4, 5, 6]]) =
      some ([(.number 258, false), (.bytes [3, 4], false), (.number 7, true), (.number 9, true),
        (.nothing, true)], p) ∧ concatenateAllRemaining p = some ([6], p') := by
  have hBuffers : ∀ b ∈ ([[1], [2, 3], [4, 5, 6]] : List Buffer), b ≠ [] := by decide
  obtain ⟨p, hRun, -, -, ⟨p', hLeft⟩, -⟩ := calls_refine hBuffers
    [.integer16 0, .string [0, 0], .integer64 7, .integer8 9, .removePrefix 1]
  exact ⟨p, p', hRun, hLeft⟩

end Minnow.Parser
