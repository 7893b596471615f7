import Minnow.Parser

/-! # What the parser reads

`Holds` says which bytes a buffer list has left; none of its buffers is empty
and the front one is not used up. Reads depend on those bytes only, never on
where the buffers end.
-/

namespace Minnow

open Library

namespace BufferList

structure Holds (l : BufferList) (bytes : List Byte) : Prop where
  size : l.size = bytes.length
  bytes : l.buffer.flatten.drop l.skip = bytes
  nonempty : ∀ b ∈ l.buffer, b ≠ []
  skip_lt : ∀ front ∈ l.buffer.head?, l.skip < front.length

theorem holds_start {buffers : List Buffer} (h : ∀ b ∈ buffers, b ≠ []) {size : Nat}
    (hSize : size = buffers.flatten.length) : Holds ⟨size, buffers, 0⟩ buffers.flatten where
  size := hSize
  bytes := rfl
  nonempty := h
  skip_lt front hMem := List.length_pos_iff.mpr (h front (List.mem_of_mem_head? hMem))

theorem holds_new {buffers : List Buffer} (h : ∀ b ∈ buffers, b ≠ []) :
    Holds (new buffers) buffers.flatten := holds_start h List.length_flatten.symm

variable {l : BufferList} {bytes : List Byte} {size skip n : Nat} {front : Buffer}
  {rest : List Buffer}

theorem substr_eq {data : Buffer} {pos : Nat} (h : pos ≤ data.length) :
    substr data pos = some (data.drop pos) := if_pos h

theorem Holds.eq_nil (h : Holds ⟨size, [], skip⟩ bytes) : bytes = [] :=
  h.bytes.symm.trans List.drop_nil

/-- What is left is the unread end of the front buffer, which is not empty, and the others. -/
theorem Holds.cons (h : Holds ⟨size, front :: rest, skip⟩ bytes) :
    skip < front.length ∧ front.drop skip ++ rest.flatten = bytes := by
  have hSkip : skip < front.length := h.skip_lt front rfl
  refine ⟨hSkip, ?_⟩
  rw [← h.bytes, List.flatten_cons, List.drop_append_of_le_length hSkip.le]

theorem Holds.cons_size (h : Holds ⟨size, front :: rest, skip⟩ bytes) :
    size = front.length - skip + rest.flatten.length := by
  rw [← List.length_drop, ← List.length_append, h.cons.2]
  exact h.size

theorem Holds.cons_nonempty (h : Holds ⟨size, front :: rest, skip⟩ bytes) :
    ∀ b ∈ rest, b ≠ [] := fun b hMem => h.nonempty b (List.mem_cons_of_mem front hMem)

/-- Past the end of the front buffer the rest begins. -/
theorem Holds.pop (h : Holds ⟨size, front :: rest, skip⟩ bytes) :
    Holds ⟨size - (front.length - skip), rest, 0⟩ rest.flatten := by
  have hSize := h.cons_size
  exact holds_start h.cons_nonempty (by omega)

theorem Holds.advance (h : Holds ⟨size, front :: rest, skip⟩ bytes)
    (hLeft : skip + n < front.length) :
    Holds ⟨size - n, front :: rest, skip + n⟩ (bytes.drop n) := by
  have hSize := h.size
  refine { size := ?_, bytes := ?_, nonempty := h.nonempty, skip_lt := ?_ }
  · rw [List.length_drop, ← hSize]
  · rw [← h.bytes, List.drop_drop]
  · rintro _ ⟨⟩
    exact hLeft

theorem Holds.removePrefix (h : Holds l bytes) (n : Nat) :
    ∃ l', l.removePrefix n = some l' ∧ Holds l' (bytes.drop n) := by
  obtain ⟨size, buffer, skip⟩ := l
  unfold BufferList.removePrefix
  induction buffer generalizing n size skip bytes with
  | nil =>
    obtain rfl := h.eq_nil
    exact ⟨_, rfl, by rw [List.drop_nil]; exact h⟩
  | cons front rest ih =>
    obtain ⟨hSkip, hBytes⟩ := h.cons
    have hView : (front.drop skip).length = front.length - skip := List.length_drop
    rw [removeLoop]
    split
    · rename_i hZero
      subst hZero
      exact ⟨_, rfl, h⟩
    · simp only [substr_eq hSkip.le, hView, Option.bind_eq_bind, Option.bind_some]
      split
      · rename_i hUsed
        have hAll : min n (front.length - skip) = front.length - skip := by omega
        have hDrop : bytes.drop n = rest.flatten.drop (n - (front.length - skip)) := by
          rw [← hBytes, List.drop_append, hView, List.drop_eq_nil_of_le (by omega),
            List.nil_append]
        rw [hAll, hDrop]
        exact ih _ _ _ h.pop
      · rename_i hLeft
        have hAll : min n (front.length - skip) = n := by omega
        rw [hAll] at hLeft ⊢
        exact ⟨_, rfl, h.advance (by omega)⟩

/-- The front of what is left is never empty while anything is left. -/
theorem Holds.peek_prefix (h : Holds l bytes) (hLeft : bytes ≠ []) :
    ∃ view, l.peek = some view ∧ view ≠ [] ∧ view <+: bytes := by
  obtain ⟨size, buffer, skip⟩ := l
  cases buffer with
  | nil => exact absurd h.eq_nil hLeft
  | cons front rest =>
    obtain ⟨hSkip, hBytes⟩ := h.cons
    refine ⟨front.drop skip, substr_eq hSkip.le, ?_, rest.flatten, hBytes⟩
    exact fun hNil => absurd (List.drop_eq_nil_iff.mp hNil) (Nat.not_le.mpr hSkip)

theorem Holds.peek {b : Byte} (h : Holds l (b :: bytes)) :
    ∃ view, l.peek = some view ∧ view.head? = some b := by
  obtain ⟨view, hPeek, hNonempty, hPrefix⟩ := h.peek_prefix (List.cons_ne_nil b bytes)
  refine ⟨view, hPeek, ?_⟩
  cases view with
  | nil => exact absurd rfl hNonempty
  | cons c view => rw [List.head?_cons, (List.cons_prefix_cons.mp hPrefix).1]

theorem Holds.views (h : Holds l bytes) :
    ∃ bufs, l.views = some bufs ∧ bufs.flatten = bytes ∧ ∀ b ∈ bufs, b ≠ [] := by
  obtain ⟨size, buffer, skip⟩ := l
  rw [BufferList.views]
  split
  · rename_i hEmpty
    have hNil := List.length_eq_zero_iff.mp (h.size.symm.trans hEmpty)
    exact ⟨[], rfl, hNil.symm, fun b hMem => absurd hMem List.not_mem_nil⟩
  · rename_i hSize
    cases buffer with
    | nil =>
      have hLength := h.size
      rw [h.eq_nil] at hLength
      exact absurd hLength hSize
    | cons front rest =>
      obtain ⟨hSkip, hBytes⟩ := h.cons
      refine ⟨front.drop skip :: rest, ?_, hBytes, ?_⟩
      · simp [substr_eq hSkip.le]
      · rintro b (_ | ⟨_, hMem⟩)
        · exact fun hNil => absurd (List.drop_eq_nil_iff.mp hNil) (Nat.not_le.mpr hSkip)
        · exact h.cons_nonempty b hMem

theorem Holds.truncate (h : Holds l bytes) {len : Nat} (hLen : bytes.length ≤ len) :
    l.truncate len = l := by
  rw [BufferList.truncate, if_pos (h.size ▸ hLen)]

theorem length_cut_le (len : Nat) (bufs : List Buffer) : (cut len bufs).flatten.length ≤ len := by
  induction bufs generalizing len with
  | nil => exact Nat.zero_le len
  | cons b bufs ih =>
    rw [cut]
    split
    · have hRest := ih (len - b.length)
      rw [List.flatten_cons, List.length_append]
      omega
    · split
      · rename_i hSame
        rw [List.flatten_singleton, hSame]
      · exact Nat.zero_le len

theorem Holds.length_truncate_le (h : Holds l bytes) {len : Nat} {bufs : List Buffer}
    (hViews : (l.truncate len).views = some bufs) : bufs.flatten.length ≤ len := by
  by_cases hLen : l.size ≤ len
  · rw [BufferList.truncate, if_pos hLen] at hViews
    obtain ⟨bufs', hViews', hFlatten, -⟩ := h.views
    rw [hViews', Option.some.injEq] at hViews
    rwa [← hViews, hFlatten, ← h.size]
  · rw [BufferList.truncate, if_neg hLen, BufferList.views] at hViews
    split at hViews
    · rename_i hZero
      subst hZero
      rw [if_pos rfl, Option.some.injEq] at hViews
      rw [← hViews]
      exact Nat.le_refl 0
    · dsimp only at hViews
      cases hCut : cut len l.buffer with
      | nil => simp [hCut] at hViews
      | cons front rest =>
        have hTotal := length_cut_le len l.buffer
        simp only [hCut, Option.bind_eq_bind, Option.bind_eq_some_iff] at hViews
        obtain ⟨view, hSubstr, hBufs⟩ := hViews
        rw [substr] at hSubstr
        split at hSubstr
        · cases hSubstr
          cases hBufs
          rw [hCut] at hTotal
          simp only [List.flatten_cons, List.length_append, List.length_drop] at hTotal ⊢
          omega
        · cases hSubstr

end BufferList

namespace Parser

variable {α β : Type} {bytes : List Byte}

structure At (bytes : List Byte) (p : Parser) : Prop where
  holds : p.input.Holds bytes
  error : p.error = false

/-- From the given bytes the reader succeeds, with a result and a rest as `Q` says. -/
def Gives (m : ParseM α) (bytes : List Byte) (Q : α → List Byte → Prop) : Prop :=
  ∀ p, At bytes p → ∃ a p' rest, m p = some (a, p') ∧ At rest p' ∧ Q a rest

/-- Whatever is read, an error stays and the buffers stay as `Holds` wants them. -/
def Steady (m : ParseM α) : Prop :=
  ∀ p a p', m p = some (a, p') → (∃ bytes, p.input.Holds bytes) →
    (∃ bytes, p'.input.Holds bytes) ∧ (p.error = true → p'.error = true)

theorem Gives.pure {Q : α → List Byte → Prop} {a : α} (h : Q a bytes) :
    Gives (pure a : ParseM α) bytes Q :=
  fun p hAt => ⟨a, p, bytes, rfl, hAt, h⟩

theorem Gives.bind {m : ParseM α} {k : α → ParseM β} {R : α → List Byte → Prop}
    {Q : β → List Byte → Prop} (hm : Gives m bytes R)
    (hk : ∀ a rest, R a rest → Gives (k a) rest Q) : Gives (m >>= k) bytes Q := by
  intro p hAt
  obtain ⟨a, p', rest, hRun, hAt', hR⟩ := hm p hAt
  obtain ⟨b, p'', rest', hRun', hAt'', hQ⟩ := hk a rest hR p' hAt'
  refine ⟨b, p'', rest', ?_, hAt'', hQ⟩
  rw [← hRun']
  change (m p).bind _ = _
  rw [hRun]
  rfl

theorem Gives.ite_pos {c : Prop} [Decidable c] (hc : c) {m m' : ParseM α}
    {Q : α → List Byte → Prop} (h : Gives m bytes Q) : Gives (if c then m else m') bytes Q := by
  rw [if_pos hc]
  exact h

theorem Gives.ite_neg {c : Prop} [Decidable c] (hc : ¬ c) {m m' : ParseM α}
    {Q : α → List Byte → Prop} (h : Gives m' bytes Q) : Gives (if c then m else m') bytes Q := by
  rw [if_neg hc]
  exact h

theorem bind_eq_some {m : ParseM α} {k : α → ParseM β} {p p' : Parser} {b : β}
    (h : (m >>= k) p = some (b, p')) :
    ∃ a mid, m p = some (a, mid) ∧ k a mid = some (b, p') := by
  obtain ⟨⟨a, mid⟩, hm, hk⟩ := Option.bind_eq_some_iff.mp h
  exact ⟨a, mid, hm, hk⟩

theorem gives_octet (b : Byte) : Gives octet (b :: bytes) fun a rest => a = b ∧ rest = bytes := by
  intro p hAt
  obtain ⟨view, hPeek, hHead⟩ := hAt.holds.peek
  obtain ⟨l, hRemove, hHolds⟩ := hAt.holds.removePrefix 1
  refine ⟨b, { p with input := l }, bytes, ?_, ⟨hHolds, hAt.error⟩, rfl, rfl⟩
  simp [octet, hPeek, hHead, hRemove]

theorem gives_readOctets (xs : List Byte) (out : Nat) :
    Gives (readOctets xs.length out) (xs ++ bytes) fun v rest =>
      v = BigEndian.decodeFrom out xs ∧ rest = bytes := by
  induction xs generalizing out with
  | nil => exact Gives.pure ⟨rfl, rfl⟩
  | cons b xs ih =>
    refine (gives_octet b).bind ?_
    rintro c _ ⟨rfl, rfl⟩
    have hShift : out <<< 8 ||| c.toNat = out * 256 + c.toNat := by
      rw [← Nat.shiftLeft_add_eq_or_of_lt c.toNat_lt, Nat.shiftLeft_eq]
    rw [hShift]
    exact ih _

theorem gives_setErrorIf {c : Prop} [Decidable c] (h : ¬ c) :
    Gives (setErrorIf c) bytes fun _ rest => rest = bytes := by
  rw [setErrorIf, if_neg h]
  exact Gives.pure rfl

theorem gives_hasError : Gives hasError bytes fun a rest => a = false ∧ rest = bytes :=
  fun p hAt => ⟨p.error, p, bytes, rfl, hAt, hAt.error, rfl⟩

theorem gives_checkSize {size : Nat} (h : size ≤ bytes.length) :
    Gives (checkSize size) bytes fun _ rest => rest = bytes := by
  intro p hAt
  have hSize : ¬ size > p.input.size := by
    rw [hAt.holds.size]
    exact Nat.not_lt.mpr h
  exact gives_setErrorIf hSize p hAt

theorem gives_integer {xs : List Byte} {width : Nat} (hWidth : xs.length = width) (out : Nat) :
    Gives (integer width out) (xs ++ bytes) fun v rest =>
      v = BigEndian.decode xs ∧ rest = bytes := by
  subst hWidth
  refine (gives_checkSize (List.length_append ▸ Nat.le_add_right _ _)).bind ?_
  rintro _ _ rfl
  refine gives_hasError.bind ?_
  rintro _ _ ⟨rfl, rfl⟩
  exact gives_readOctets xs 0

theorem gives_copyFront {room : Nat} (hRoom : 0 < room) (hLeft : bytes ≠ []) :
    Gives (copyFront room) bytes fun view rest =>
      0 < view.length ∧ view.length ≤ room ∧ view = bytes.take view.length ∧
        rest = bytes.drop view.length := by
  intro p hAt
  obtain ⟨front, hPeek, hNonempty, hPrefix⟩ := hAt.holds.peek_prefix hLeft
  obtain ⟨l, hRemove, hHolds⟩ := hAt.holds.removePrefix (front.take room).length
  refine ⟨front.take room, { p with input := l }, _, ?_, ⟨hHolds, hAt.error⟩, ?_, ?_, ?_, rfl⟩
  · simp only [copyFront, hPeek, Option.bind_eq_bind, Option.bind_some, hRemove]
    rfl
  · have hFront := List.length_pos_iff.mpr hNonempty
    rw [List.length_take]
    omega
  · exact List.length_take_le room front
  · exact List.prefix_iff_eq_take.mp ((List.take_prefix room front).trans hPrefix)

/-- As many turns as there are bytes to copy are enough: each one copies at least one. -/
theorem gives_fill {turns room : Nat} (hTurns : room ≤ turns) (hRoom : room ≤ bytes.length) :
    Gives (fill turns room) bytes fun out rest =>
      out = bytes.take room ∧ rest = bytes.drop room := by
  induction turns generalizing room bytes with
  | zero =>
    obtain rfl := Nat.le_zero.mp hTurns
    exact Gives.pure ⟨rfl, rfl⟩
  | succ turns ih =>
    cases room with
    | zero => exact Gives.pure ⟨rfl, rfl⟩
    | succ room =>
      have hLeft : bytes ≠ [] := List.length_pos_iff.mp (by omega)
      refine (gives_copyFront (Nat.succ_pos room) hLeft).bind ?_
      rintro view _ ⟨hPos, hView, hTake, rfl⟩
      have hRest : room + 1 - view.length ≤ (bytes.drop view.length).length := by
        rw [List.length_drop]
        omega
      refine (ih (by omega) hRest).bind ?_
      rintro out _ ⟨rfl, rfl⟩
      have hSum : room + 1 = view.length + (room + 1 - view.length) := by omega
      apply Gives.pure
      constructor
      · rw [hSum, List.take_add, ← hTake, ← hSum]
      · rw [List.drop_drop, ← hSum]

theorem gives_integer8 (v out : UInt8) : Gives (integer8 out) (BigEndian.encode 1 v.toNat ++ bytes)
    fun a rest => a = v ∧ rest = bytes := by
  refine (gives_integer (BigEndian.length_encode 1 v.toNat) out.toNat).bind ?_
  rintro _ _ ⟨rfl, rfl⟩
  apply Gives.pure
  rw [BigEndian.decode_encode v.toNat_lt]
  exact ⟨UInt8.ofNat_toNat, rfl⟩

theorem gives_integer16 (v out : UInt16) :
    Gives (integer16 out) (BigEndian.encode 2 v.toNat ++ bytes)
      fun a rest => a = v ∧ rest = bytes := by
  refine (gives_integer (BigEndian.length_encode 2 v.toNat) out.toNat).bind ?_
  rintro _ _ ⟨rfl, rfl⟩
  apply Gives.pure
  rw [BigEndian.decode_encode v.toNat_lt]
  exact ⟨UInt16.ofNat_toNat, rfl⟩

theorem gives_integer32 (v out : UInt32) :
    Gives (integer32 out) (BigEndian.encode 4 v.toNat ++ bytes)
      fun a rest => a = v ∧ rest = bytes := by
  refine (gives_integer (BigEndian.length_encode 4 v.toNat) out.toNat).bind ?_
  rintro _ _ ⟨rfl, rfl⟩
  apply Gives.pure
  rw [BigEndian.decode_encode v.toNat_lt]
  exact ⟨UInt32.ofNat_toNat, rfl⟩

theorem gives_lift (a : α) :
    Gives (liftM (some a) : ParseM α) bytes fun b rest => b = a ∧ rest = bytes :=
  fun p hAt => ⟨a, p, bytes, rfl, hAt, rfl, rfl⟩

theorem gives_removePrefix (n : Nat) :
    Gives (removePrefix n) bytes fun _ rest => rest = bytes.drop n := by
  intro p hAt
  obtain ⟨l, hRemove, hHolds⟩ := hAt.holds.removePrefix n
  refine ⟨(), { p with input := l }, _, ?_, ⟨hHolds, hAt.error⟩, rfl⟩
  simp [removePrefix, hRemove]

theorem gives_truncate {len : Nat} (hLen : bytes.length ≤ len) :
    Gives (truncate len) bytes fun _ rest => rest = bytes := by
  intro p hAt
  refine ⟨(), p, bytes, ?_, hAt, rfl⟩
  change some ((), { p with input := p.input.truncate len }) = _
  rw [hAt.holds.truncate hLen]

theorem gives_buffer : Gives buffer bytes fun bufs rest =>
    bufs.flatten = bytes ∧ (∀ b ∈ bufs, b ≠ []) ∧ rest = bytes := by
  intro p hAt
  obtain ⟨bufs, hViews, hFlatten, hNonempty⟩ := hAt.holds.views
  refine ⟨bufs, p, bytes, ?_, hAt, hFlatten, hNonempty, rfl⟩
  simp [buffer, hViews]

theorem gives_allRemaining : Gives allRemaining bytes fun bufs _ =>
    bufs.flatten = bytes ∧ ∀ b ∈ bufs, b ≠ [] := by
  intro p hAt
  obtain ⟨bufs, p', rest, hRun, hAt', hFlatten, hNonempty, -⟩ := gives_buffer p hAt
  exact ⟨bufs, p', rest, hRun, hAt', hFlatten, hNonempty⟩

theorem gives_concatenateAllRemaining :
    Gives concatenateAllRemaining bytes fun out _ => out = bytes :=
  gives_allRemaining.bind fun _ _ h => Gives.pure h.1

end Parser

end Minnow
