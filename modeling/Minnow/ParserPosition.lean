import Minnow.ParserReads

/-! # Where a parser stands in its buffers

A buffer list that is `n` bytes on has dropped whole buffers and skips the
start of the next. `truncate` counts from the start of that buffer, and erases
the buffer that it cuts in two: it keeps what it should only where a buffer
ends at the `n`-th byte, and another one with the last byte to keep.
-/

namespace Minnow

open Library

/-- One of the buffers ends with the `n`-th byte; none has to start for the byte 0. -/
def EndsAt (bufs : List Buffer) (n : Nat) : Prop :=
  ∃ front, front <+: bufs ∧ front.flatten.length = n

instance (bufs : List Buffer) (n : Nat) : Decidable (EndsAt bufs n) :=
  decidable_of_iff (∃ front ∈ bufs.inits, front.flatten.length = n) <| by
    simp only [EndsAt, List.mem_inits]

namespace BufferList

/-- The list is `n` bytes on in the buffers `bufs`. -/
structure Past (bufs : List Buffer) (n : Nat) (l : BufferList) : Prop where
  holds : l.Holds (bufs.flatten.drop n)
  suffix : l.buffer <:+ bufs

variable {l : BufferList} {bytes : List Byte} {bufs : List Buffer} {n : Nat}

theorem past_new (h : ∀ b ∈ bufs, b ≠ []) : Past bufs 0 (new bufs) where
  holds := holds_new h
  suffix := List.suffix_rfl

theorem Holds.past (h : Holds l bytes) : Past l.buffer l.skip l where
  holds := by
    rw [h.bytes]
    exact h
  suffix := List.suffix_rfl

theorem removeLoop_suffix {len size skip : Nat} {buffer : List Buffer} {l : BufferList}
    (h : removeLoop len size skip buffer = some l) : l.buffer <:+ buffer := by
  induction buffer generalizing len size skip with
  | nil =>
    cases h
    exact List.suffix_rfl
  | cons front rest ih =>
    rw [removeLoop] at h
    split at h
    · cases h
      exact List.suffix_rfl
    · obtain ⟨view, -, h⟩ := Option.bind_eq_some_iff.mp h
      dsimp only at h
      split at h
      · exact (ih h).trans (List.suffix_cons front rest)
      · cases h
        exact List.suffix_rfl

theorem Past.removePrefix (h : Past bufs n l) {k : Nat} {l' : BufferList}
    (hRemove : l.removePrefix k = some l') : Past bufs (n + k) l' := by
  obtain ⟨l'', hRemove', hHolds⟩ := h.holds.removePrefix k
  obtain rfl : l'' = l' := Option.some.inj (hRemove'.symm.trans hRemove)
  constructor
  · rw [← List.drop_drop]
    exact hHolds
  · exact (removeLoop_suffix hRemove).trans h.suffix

theorem Holds.peek_nil (h : Holds l []) : l.peek = none := by
  obtain ⟨size, buffer, skip⟩ := l
  cases buffer with
  | nil => rfl
  | cons front rest =>
    obtain ⟨hSkip, hBytes⟩ := h.cons
    have hView := List.drop_eq_nil_iff.mp (List.append_eq_nil_iff.mp hBytes).1
    exact absurd hView (Nat.not_le.mpr hSkip)

/-- Whole buffers have been read, and some bytes of the next one. -/
theorem Past.popped (h : Past bufs n l) (hLeft : n < bufs.flatten.length) :
    ∃ popped, popped ++ l.buffer = bufs ∧ n = popped.flatten.length + l.skip := by
  obtain ⟨popped, hPopped⟩ := h.suffix
  refine ⟨popped, hPopped, ?_⟩
  have hLength := congrArg List.length h.holds.bytes
  have hTotal := congrArg (fun b => b.flatten.length) hPopped
  simp only [List.length_drop, List.flatten_append, List.length_append] at hLength hTotal
  omega

/-- Nothing of the front buffer has been read just where a buffer ends. -/
theorem Past.skip_eq_zero_iff (h : Past bufs n l) (hLeft : n < bufs.flatten.length) :
    l.skip = 0 ↔ EndsAt bufs n := by
  obtain ⟨popped, hPopped, hPosition⟩ := h.popped hLeft
  constructor
  · intro hSkip
    refine ⟨popped, ⟨l.buffer, hPopped⟩, ?_⟩
    rw [hPosition, hSkip, Nat.add_zero]
  · rintro ⟨front, ⟨back, hFront⟩, hEnd⟩
    obtain ⟨middle, hMiddle, hBuffer⟩ | ⟨middle, hMiddle, -⟩ :=
      List.append_eq_append_iff.mp (hPopped.trans hFront.symm)
    · cases middle with
      | nil =>
        rw [hMiddle, List.append_nil] at hEnd
        omega
      | cons b middle =>
        -- the front buffer would have been read to its end, and popped
        have hSkip := h.holds.skip_lt b (by rw [hBuffer]; rfl)
        rw [hMiddle, List.flatten_append, List.flatten_cons, List.length_append,
          List.length_append] at hEnd
        omega
    · rw [hMiddle, List.flatten_append, List.length_append] at hPosition
      omega

/-- Where nothing of the front buffer has been read, the buffers end where they did. -/
theorem Past.endsAt_iff (h : Past bufs n l) (hLeft : n < bufs.flatten.length) (hSkip : l.skip = 0)
    {len : Nat} (hPos : 0 < len) : EndsAt l.buffer len ↔ EndsAt bufs (n + len) := by
  obtain ⟨popped, hPopped, hPosition⟩ := h.popped hLeft
  rw [hSkip, Nat.add_zero] at hPosition
  constructor
  · rintro ⟨front, hPrefix, hEnd⟩
    refine ⟨popped ++ front, ?_, ?_⟩
    · rw [← hPopped]
      exact (List.prefix_append_right_inj popped).mpr hPrefix
    · rw [List.flatten_append, List.length_append, hEnd, hPosition]
  · rintro ⟨front, ⟨back, hFront⟩, hEnd⟩
    obtain ⟨middle, rfl, hBuffer⟩ | ⟨middle, rfl, -⟩ :=
      List.append_eq_append_iff.mp (hPopped.trans hFront.symm)
    · rw [List.flatten_append, List.length_append] at hEnd
      exact ⟨middle, ⟨back, hBuffer.symm⟩, by omega⟩
    · rw [List.flatten_append, List.length_append] at hPosition
      omega

theorem cut_prefix (len : Nat) (bufs : List Buffer) : cut len bufs <+: bufs := by
  induction bufs generalizing len with
  | nil => exact List.prefix_rfl
  | cons b bufs ih =>
    rw [cut]
    split
    · exact List.cons_prefix_cons.mpr ⟨rfl, ih (len - b.length)⟩
    · split
      · exact ⟨bufs, rfl⟩
      · exact List.nil_prefix

/-- As many bytes are kept as there should be only where a buffer ends with the last of them. -/
theorem length_cut_iff {len : Nat} (hPos : 0 < len) (bufs : List Buffer) :
    (cut len bufs).flatten.length = len ↔ EndsAt bufs len := by
  constructor
  · exact fun hLength => ⟨cut len bufs, cut_prefix len bufs, hLength⟩
  · rintro ⟨front, hPrefix, hEnd⟩
    induction bufs generalizing len front with
    | nil =>
      rw [List.prefix_nil.mp hPrefix] at hEnd
      exact absurd hEnd.symm hPos.ne'
    | cons b bufs ih =>
      cases front with
      | nil => exact absurd hEnd.symm hPos.ne'
      | cons c front =>
        obtain ⟨rfl, hRest⟩ := List.cons_prefix_cons.mp hPrefix
        rw [List.flatten_cons, List.length_append] at hEnd
        rw [cut]
        split
        · rw [List.flatten_cons, List.length_append, ih (by omega) front hRest (by omega)]
          omega
        · split
          · rw [List.flatten_singleton]
            assumption
          · omega

theorem flatten_cut {len : Nat} (hPos : 0 < len) {bufs : List Buffer} (hEnds : EndsAt bufs len) :
    (cut len bufs).flatten = bufs.flatten.take len := by
  obtain ⟨rest, hRest⟩ := cut_prefix len bufs
  have hLength := (length_cut_iff hPos bufs).mpr hEnds
  rw [← hRest, List.flatten_append, List.take_left' hLength, hRest]

section Truncate

variable {len : Nat}

/-- What is left after `truncate` has cut something off. -/
theorem Holds.flatten_views_truncate (h : Holds l bytes) (hLen : len < bytes.length)
    (hViews : (l.truncate len).views = some bufs) :
    bufs.flatten = (cut len l.buffer).flatten.drop l.skip := by
  rw [BufferList.truncate, if_neg (Nat.not_le.mpr (h.size ▸ hLen))] at hViews
  split at hViews
  · rename_i hZero
    cases hViews
    subst hZero
    have hNone := List.length_eq_zero_iff.mp (Nat.le_zero.mp (length_cut_le 0 l.buffer))
    rw [hNone, List.drop_nil, List.flatten_nil]
  · rename_i hPos
    rw [BufferList.views, if_neg hPos] at hViews
    dsimp only at hViews
    cases hCut : cut len l.buffer with
    | nil =>
      rw [hCut] at hViews
      cases hViews
    | cons front rest =>
      rw [hCut] at hViews
      obtain ⟨view, hSubstr, hBufs⟩ := Option.bind_eq_some_iff.mp hViews
      cases hBufs
      rw [substr] at hSubstr
      split at hSubstr
      · rename_i hSkip
        cases hSubstr
        rw [List.flatten_cons, List.flatten_cons, List.drop_append_of_le_length hSkip]
      · cases hSubstr

/-- All the bytes are there only if none of the front buffer has been read, and a buffer ends
with the last of them. -/
theorem Holds.length_views_truncate_iff (h : Holds l bytes) (hLen : len < bytes.length)
    (hPos : 0 < len) (hViews : (l.truncate len).views = some bufs) :
    bufs.flatten.length = len ↔ l.skip = 0 ∧ EndsAt l.buffer len := by
  have hCut := length_cut_le len l.buffer
  rw [h.flatten_views_truncate hLen hViews, List.length_drop, ← length_cut_iff hPos]
  omega

theorem Holds.views_truncate (h : Holds l bytes) (hSkip : l.skip = 0) (hPos : 0 < len)
    (hEnds : EndsAt l.buffer len) :
    ∃ bufs, (l.truncate len).views = some bufs ∧ bufs.flatten = bytes.take len := by
  rw [BufferList.truncate]
  split
  · rename_i hLen
    obtain ⟨bufs, hViews, hFlatten, -⟩ := h.views
    rw [List.take_of_length_le (h.size ▸ hLen)]
    exact ⟨bufs, hViews, hFlatten⟩
  · have hBytes : l.buffer.flatten = bytes := by
      rw [← h.bytes, hSkip, List.drop_zero]
    have hFlatten := flatten_cut hPos hEnds
    have hLength := (length_cut_iff hPos l.buffer).mpr hEnds
    rw [hBytes] at hFlatten
    rw [if_neg hPos.ne']
    cases hCut : cut len l.buffer with
    | nil =>
      rw [hCut] at hLength
      exact absurd hLength hPos.ne
    | cons front rest =>
      refine ⟨front :: rest, ?_, hCut ▸ hFlatten⟩
      simp [BufferList.views, hPos.ne', hSkip, substr]

theorem views_truncate_zero (l : BufferList) : (l.truncate 0).views = some [] := by
  rw [BufferList.truncate]
  split
  · rename_i hSize
    rw [BufferList.views, if_pos (Nat.le_zero.mp hSize)]
  · rfl

/-- `truncate` keeps the first `len` bytes that are left unless it has bytes to cut off and some to
keep: then the front buffer must be unread, and a buffer must end with the last byte to keep. -/
theorem Holds.truncate_iff (h : Holds l bytes) (len : Nat) :
    (∃ bufs, (l.truncate len).views = some bufs ∧ bufs.flatten = bytes.take len) ↔
      bytes.length ≤ len ∨ len = 0 ∨ (l.skip = 0 ∧ EndsAt l.buffer len) := by
  constructor
  · rintro ⟨bufs, hViews, hFlatten⟩
    obtain hLen | hLen := Nat.lt_or_ge len bytes.length
    · right
      rcases len.eq_zero_or_pos with hZero | hPos
      · exact .inl hZero
      · refine .inr ((h.length_views_truncate_iff hLen hPos hViews).mp ?_)
        rw [hFlatten, List.length_take_of_le hLen.le]
    · exact .inl hLen
  · rintro (hLen | rfl | ⟨hSkip, hEnds⟩)
    · obtain ⟨bufs, hViews, hFlatten, -⟩ := h.views
      rw [h.truncate hLen, List.take_of_length_le hLen]
      exact ⟨bufs, hViews, hFlatten⟩
    · exact ⟨[], l.views_truncate_zero, List.take_zero.symm⟩
    · rcases len.eq_zero_or_pos with rfl | hPos
      · exact ⟨[], l.views_truncate_zero, List.take_zero.symm⟩
      · exact h.views_truncate hSkip hPos hEnds

/-- The bytes up to `last` are all kept where there is nothing to cut off, nothing to keep, or a
buffer that ends where the list stands and another one that ends at `last`. -/
theorem Past.length_truncate_iff {buffers : List Buffer} {last : Nat} (h : Past buffers n l)
    (hLe : n ≤ last) (hBytes : last ≤ buffers.flatten.length)
    (hViews : (l.truncate (last - n)).views = some bufs) :
    bufs.flatten.length = last - n ↔ last = buffers.flatten.length ∨ last = n ∨
      (EndsAt buffers n ∧ EndsAt buffers last) := by
  have hRest : (buffers.flatten.drop n).length = buffers.flatten.length - n := List.length_drop
  rcases hBytes.eq_or_lt with rfl | hCut
  · obtain ⟨bufs', hViews', hFlatten, -⟩ := h.holds.views
    rw [h.holds.truncate hRest.le, hViews'] at hViews
    cases hViews
    rw [hFlatten, hRest]
    exact iff_of_true rfl (Or.inl rfl)
  · rcases hLe.eq_or_lt with rfl | hKeep
    · have hNone := h.holds.length_truncate_le hViews
      exact iff_of_true (by omega) (.inr (.inl rfl))
    · have hLeft : n < buffers.flatten.length := hKeep.trans hCut
      have hPos : 0 < last - n := Nat.sub_pos_of_lt hKeep
      have hKept := h.holds.length_views_truncate_iff (by omega) hPos hViews
      have hUnread : l.skip = 0 ∧ EndsAt l.buffer (last - n) ↔
          EndsAt buffers n ∧ EndsAt buffers last := by
        rw [← h.skip_eq_zero_iff hLeft]
        refine and_congr_right fun hSkip => ?_
        rw [h.endsAt_iff hLeft hSkip hPos, Nat.add_sub_cancel' hLe]
      rw [hKept, hUnread, or_iff_right hCut.ne, or_iff_right hKeep.ne']

/-- Cutting off what follows `body` leaves it, behind a `head` that has been read. -/
theorem Past.truncate_iff {buffers : List Buffer} {head body padding : List Byte}
    (h : Past buffers head.length l) (hBytes : buffers.flatten = head ++ body ++ padding) :
    (∃ kept, (l.truncate body.length).views = some kept ∧ kept.flatten = body) ↔
      padding = [] ∨ body = [] ∨
        (EndsAt buffers head.length ∧ EndsAt buffers (head.length + body.length)) := by
  have hRest : buffers.flatten.drop head.length = body ++ padding := by
    rw [hBytes, List.append_assoc, List.drop_left]
  have hKept := h.holds.truncate_iff body.length
  rw [hRest, List.take_left, List.length_append] at hKept
  rw [hKept, ← List.length_eq_zero_iff (l := padding), ← List.length_eq_zero_iff (l := body)]
  rcases body.length.eq_zero_or_pos with hNone | hSome
  · simp only [hNone, true_or, or_true]
  · have hLeft : head.length < buffers.flatten.length := by
      rw [hBytes, List.append_assoc, List.length_append, List.length_append]
      omega
    have hUnread : l.skip = 0 ∧ EndsAt l.buffer body.length ↔
        EndsAt buffers head.length ∧ EndsAt buffers (head.length + body.length) := by
      rw [← h.skip_eq_zero_iff hLeft]
      exact and_congr_right fun hSkip => h.endsAt_iff hLeft hSkip hSome
    rw [hUnread]
    exact or_congr_left (by omega)

end Truncate

end BufferList

/-- The number in the `width` bytes from the `pos`-th on. -/
def fieldAt (bytes : List Byte) (pos width : Nat) : Nat :=
  BigEndian.decode ((bytes.drop pos).take width)

theorem fieldAt_lt (bytes : List Byte) (pos width : Nat) :
    fieldAt bytes pos width < 256 ^ width :=
  (BigEndian.decode_lt _).trans_le
    (Nat.pow_le_pow_right (by decide) (List.length_take_le width _))

namespace Parser

variable {α β : Type} {bufs : List Buffer} {n : Nat}

/-- A reader at the `n`-th byte moves on in the buffers and keeps an error; unless there is one,
its result and its position are as `Q` says. -/
def Reads (bufs : List Buffer) (n : Nat) (m : ParseM α) (Q : α → Nat → Prop) : Prop :=
  ∀ p a p', p.input.Past bufs n → m p = some (a, p') →
    ∃ n', p'.input.Past bufs n' ∧ (p'.error = false → p.error = false ∧ Q a n')

theorem Reads.pure {Q : α → Nat → Prop} {a : α} (h : Q a n) :
    Reads bufs n (pure a : ParseM α) Q := by
  intro p a' p' hPast hRun
  cases hRun
  exact ⟨n, hPast, fun hError => ⟨hError, h⟩⟩

theorem Reads.imp {m : ParseM α} {Q Q' : α → Nat → Prop} (h : Reads bufs n m Q)
    (hImp : ∀ a n', Q a n' → Q' a n') : Reads bufs n m Q' := by
  intro p a p' hPast hRun
  obtain ⟨n', hPast', hOk⟩ := h p a p' hPast hRun
  exact ⟨n', hPast', fun hError => ⟨(hOk hError).1, hImp a n' (hOk hError).2⟩⟩

/-- The rest is read whether or not there is an error, so it cannot assume what `m` ensures. -/
theorem Reads.bind {m : ParseM α} {k : α → ParseM β} {R : α → Nat → Prop} {Q : β → Nat → Prop}
    (hm : Reads bufs n m R) (hk : ∀ a n', Reads bufs n' (k a) fun b n'' => R a n' → Q b n'') :
    Reads bufs n (m >>= k) Q := by
  intro p b p' hPast hRun
  obtain ⟨a, mid, hRun, hRun'⟩ := bind_eq_some hRun
  obtain ⟨n', hMid, hOk⟩ := hm p a mid hPast hRun
  obtain ⟨n'', hPast', hOk'⟩ := hk a n' mid b p' hMid hRun'
  refine ⟨n'', hPast', fun hError => ?_⟩
  obtain ⟨hError', hQ⟩ := hOk' hError
  exact ⟨(hOk hError').1, hQ (hOk hError').2⟩

theorem Reads.steady {m : ParseM α} {Q : List Buffer → Nat → α → Nat → Prop}
    (h : ∀ bufs n, Reads bufs n m (Q bufs n)) : Steady m := by
  intro p a p' hRun ⟨bytes, hHolds⟩
  obtain ⟨n', hPast, hOk⟩ := h _ _ p a p' hHolds.past hRun
  refine ⟨⟨_, hPast.holds⟩, fun hError => ?_⟩
  cases hError' : p'.error with
  | true => rfl
  | false =>
    rw [(hOk hError').1] at hError
    cases hError

theorem reads_setErrorIf (c : Prop) [Decidable c] :
    Reads bufs n (setErrorIf c) fun _ n' => ¬ c ∧ n' = n := by
  intro p a p' hPast hRun
  rw [setErrorIf] at hRun
  split at hRun
  · cases hRun
    exact ⟨n, hPast, fun hError => Bool.noConfusion hError⟩
  · rename_i hc
    cases hRun
    exact ⟨n, hPast, fun hError => ⟨hError, hc, rfl⟩⟩

theorem reads_hasError : Reads bufs n hasError fun a n' => a = false ∧ n' = n := by
  intro p a p' hPast hRun
  cases hRun
  exact ⟨n, hPast, fun hError => ⟨hError, hError, rfl⟩⟩

theorem reads_checkSize (size : Nat) :
    Reads bufs n (checkSize size) fun _ n' => size ≤ bufs.flatten.length - n ∧ n' = n := by
  intro p a p' hPast hRun
  obtain ⟨n', hPast', hOk⟩ := reads_setErrorIf (size > p.input.size) p a p' hPast hRun
  refine ⟨n', hPast', fun hError => ?_⟩
  obtain ⟨hError', hSize, hSame⟩ := hOk hError
  rw [hPast.holds.size, List.length_drop] at hSize
  exact ⟨hError', Nat.not_lt.mp hSize, hSame⟩

theorem reads_lift (o : Option α) :
    Reads bufs n (liftM o : ParseM α) fun a n' => o = some a ∧ n' = n := by
  intro p a p' hPast hRun
  cases o with
  | none => cases hRun
  | some b =>
    cases hRun
    exact ⟨n, hPast, fun hError => ⟨hError, rfl, rfl⟩⟩

theorem reads_removePrefix (k : Nat) :
    Reads bufs n (removePrefix k) fun _ n' => n' = n + k := by
  intro p a p' hPast hRun
  obtain ⟨l, hRemove, hEnd⟩ := Option.bind_eq_some_iff.mp hRun
  cases hEnd
  exact ⟨n + k, hPast.removePrefix hRemove, fun hError => ⟨hError, rfl⟩⟩

theorem reads_octet : Reads bufs n octet fun b n' =>
    bufs.flatten.drop n = b :: bufs.flatten.drop (n + 1) ∧ n' = n + 1 := by
  intro p b p' hPast hRun
  obtain ⟨view, hPeek, hRun⟩ := Option.bind_eq_some_iff.mp hRun
  obtain ⟨front, hFront, hRun⟩ := Option.bind_eq_some_iff.mp hRun
  obtain ⟨l, hRemove, hEnd⟩ := Option.bind_eq_some_iff.mp hRun
  cases hEnd
  refine ⟨n + 1, hPast.removePrefix hRemove, fun hError => ⟨hError, ?_, rfl⟩⟩
  have hHolds := hPast.holds
  cases hLeft : bufs.flatten.drop n with
  | nil =>
    rw [hLeft] at hHolds
    rw [hHolds.peek_nil] at hPeek
    cases hPeek
  | cons c rest =>
    rw [hLeft] at hHolds
    obtain ⟨view', hPeek', hHead⟩ := hHolds.peek
    obtain rfl : view = view' := Option.some.inj (hPeek.symm.trans hPeek')
    obtain rfl : b = c := Option.some.inj (hFront.symm.trans hHead)
    rw [← List.tail_drop, hLeft, List.tail_cons]

theorem reads_readOctets (width out : Nat) : Reads bufs n (readOctets width out) fun v n' =>
    v = BigEndian.decodeFrom out ((bufs.flatten.drop n).take width) ∧ n' = n + width := by
  induction width generalizing n out with
  | zero =>
    apply Reads.pure
    rw [List.take_zero]
    exact ⟨rfl, rfl⟩
  | succ width ih =>
    refine reads_octet.bind fun b n' => (ih _).imp ?_
    rintro v n'' ⟨rfl, rfl⟩ ⟨hDrop, rfl⟩
    have hShift : out <<< 8 ||| b.toNat = out * 256 + b.toNat := by
      rw [← Nat.shiftLeft_add_eq_or_of_lt b.toNat_lt, Nat.shiftLeft_eq]
    rw [hDrop, List.take_succ_cons, BigEndian.decodeFrom_cons, hShift]
    exact ⟨rfl, by omega⟩

theorem reads_integer (width out : Nat) : Reads bufs n (integer width out) fun v n' =>
    v = fieldAt bufs.flatten n width ∧ width ≤ bufs.flatten.length - n ∧ n' = n + width := by
  refine (reads_checkSize width).bind fun _ n₁ => reads_hasError.bind fun error n₂ => ?_
  cases error with
  | true =>
    apply Reads.pure
    rintro ⟨hFalse, -⟩
    cases hFalse
  | false =>
    refine (reads_readOctets width 0).imp ?_
    rintro v n' ⟨rfl, rfl⟩ ⟨-, rfl⟩ ⟨hSize, rfl⟩
    exact ⟨rfl, hSize, rfl⟩

theorem reads_integer8 (out : UInt8) : Reads bufs n (integer8 out) fun a n' =>
    a.toNat = fieldAt bufs.flatten n 1 ∧ 1 ≤ bufs.flatten.length - n ∧ n' = n + 1 := by
  refine (reads_integer 1 out.toNat).bind fun v n' => Reads.pure ?_
  rintro ⟨rfl, hSize, rfl⟩
  exact ⟨UInt8.toNat_ofNat_of_lt' (fieldAt_lt _ n 1), hSize, rfl⟩

theorem reads_integer16 (out : UInt16) : Reads bufs n (integer16 out) fun a n' =>
    a.toNat = fieldAt bufs.flatten n 2 ∧ 2 ≤ bufs.flatten.length - n ∧ n' = n + 2 := by
  refine (reads_integer 2 out.toNat).bind fun v n' => Reads.pure ?_
  rintro ⟨rfl, hSize, rfl⟩
  exact ⟨UInt16.toNat_ofNat_of_lt' (fieldAt_lt _ n 2), hSize, rfl⟩

theorem reads_integer32 (out : UInt32) : Reads bufs n (integer32 out) fun a n' =>
    a.toNat = fieldAt bufs.flatten n 4 ∧ 4 ≤ bufs.flatten.length - n ∧ n' = n + 4 := by
  refine (reads_integer 4 out.toNat).bind fun v n' => Reads.pure ?_
  rintro ⟨rfl, hSize, rfl⟩
  exact ⟨UInt32.toNat_ofNat_of_lt' (fieldAt_lt _ n 4), hSize, rfl⟩

end Parser

end Minnow
