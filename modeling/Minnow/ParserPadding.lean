import Minnow.IPv4Wire
import Minnow.TCPOverIP

/-! # Empty buffers at the end

A vectored read leaves the buffers empty that it has no bytes for. A parser that
gets through without them gets through with them, and reads the same.
-/

namespace Minnow

open Library Minnow.Parser

/-- The second list has some empty buffers more at its end. -/
def Padded (bufs bufs' : List Buffer) : Prop := ∃ k, bufs' = bufs ++ List.replicate k []

theorem Padded.flatten {bufs bufs' : List Buffer} (h : Padded bufs bufs') :
    bufs'.flatten = bufs.flatten := by
  obtain ⟨k, rfl⟩ := h
  rw [List.flatten_append, List.flatten_replicate_nil, List.append_nil]

theorem Padded.cons {bufs bufs' : List Buffer} (h : Padded bufs bufs') (front : Buffer) :
    Padded (front :: bufs) (front :: bufs') := by
  obtain ⟨k, rfl⟩ := h
  exact ⟨k, rfl⟩

namespace BufferList

/-- The lists differ in what is left of the padding only. With padding, nothing is skipped of a
list that has been read to its end. -/
inductive Pads : BufferList → BufferList → Prop
  | same (l : BufferList) : Pads l l
  | pad (size : Nat) (bufs : List Buffer) (skip k : Nat) (hStart : bufs = [] → skip = 0) :
      Pads ⟨size, bufs, skip⟩ ⟨size, bufs ++ List.replicate k [], skip⟩

variable {l l' r : BufferList} {bufs bufs' : List Buffer} {view : Buffer} {len size skip : Nat}

theorem pads_new (h : Padded bufs bufs') : Pads (new bufs) (new bufs') := by
  have hSize : (bufs'.map List.length).sum = (bufs.map List.length).sum := by
    rw [← List.length_flatten, ← List.length_flatten, h.flatten]
  obtain ⟨k, rfl⟩ := h
  rw [new, new, hSize]
  exact .pad _ bufs 0 k fun _ => rfl

theorem Pads.size_eq (h : Pads l l') : l'.size = l.size := by
  cases h <;> rfl

theorem removeLoop_replicate (len size k : Nat) :
    ∃ j, removeLoop len size 0 (List.replicate k []) = some ⟨size, List.replicate j [], 0⟩ := by
  induction k with
  | zero => exact ⟨0, rfl⟩
  | succ k ih =>
    rw [List.replicate_succ]
    by_cases hLen : len = 0
    · rw [removeLoop, if_pos hLen]
      exact ⟨k + 1, rfl⟩
    · have hPop : removeLoop len size 0 ([] :: List.replicate k []) =
          removeLoop len size 0 (List.replicate k []) := by
        simp [removeLoop, hLen, substr]
      rw [hPop]
      exact ih

theorem removeLoop_pads {k : Nat} (hStart : bufs = [] → skip = 0)
    (h : removeLoop len size skip bufs = some r) :
    ∃ r', removeLoop len size skip (bufs ++ List.replicate k []) = some r' ∧ Pads r r' := by
  induction bufs generalizing len size skip with
  | nil =>
    cases h
    obtain rfl := hStart rfl
    obtain ⟨j, hLoop⟩ := removeLoop_replicate len size k
    exact ⟨_, hLoop, .pad size [] 0 j fun _ => rfl⟩
  | cons front bufs ih =>
    rw [List.cons_append]
    rw [removeLoop] at h ⊢
    by_cases hLen : len = 0
    · rw [if_pos hLen] at h ⊢
      cases h
      exact ⟨_, rfl, .pad size (front :: bufs) skip k fun h => absurd h (List.cons_ne_nil _ _)⟩
    · rw [if_neg hLen] at h ⊢
      obtain ⟨view, hView, h⟩ := Option.bind_eq_some_iff.mp h
      rw [hView, Option.bind_eq_bind, Option.bind_some]
      dsimp only at h ⊢
      split at h
      · next hPop =>
        rw [if_pos hPop]
        exact ih (fun _ => rfl) h
      · next hStay =>
        rw [if_neg hStay]
        cases h
        exact ⟨_, rfl, .pad _ (front :: bufs) _ k fun h => absurd h (List.cons_ne_nil _ _)⟩

theorem Pads.removePrefix (h : Pads l l') (hRemove : l.removePrefix len = some r) :
    ∃ r', l'.removePrefix len = some r' ∧ Pads r r' := by
  cases h with
  | same => exact ⟨r, hRemove, .same r⟩
  | pad size bufs skip k hStart => exact removeLoop_pads hStart hRemove

theorem Pads.peek (h : Pads l l') (hPeek : l.peek = some view) : l'.peek = some view := by
  cases h with
  | same => exact hPeek
  | pad size bufs skip k hStart =>
    cases bufs with
    | nil => cases hPeek
    | cons front bufs => exact hPeek

theorem Pads.views (h : Pads l l') (hViews : l.views = some bufs) :
    ∃ bufs', l'.views = some bufs' ∧ Padded bufs bufs' := by
  cases h with
  | same => exact ⟨bufs, hViews, 0, (List.append_nil _).symm⟩
  | pad size buffer skip k hStart =>
    rw [BufferList.views] at hViews ⊢
    split at hViews
    · next hEmpty =>
      cases hViews
      rw [if_pos hEmpty]
      exact ⟨[], rfl, 0, rfl⟩
    · next hSome =>
      rw [if_neg hSome]
      cases buffer with
      | nil => cases hViews
      | cons front buffer =>
        obtain ⟨view, hView, hViews⟩ := Option.bind_eq_some_iff.mp hViews
        cases hViews
        refine ⟨view :: (buffer ++ List.replicate k []), ?_, k, rfl⟩
        change (substr front skip).bind _ = _
        rw [hView]
        rfl

/-- Where nothing is kept of some buffers, nothing is kept of the padding either. -/
theorem cut_padded (len k : Nat) (bufs : List Buffer) :
    ∃ j, cut len (bufs ++ List.replicate k []) = cut len bufs ++ List.replicate j [] ∧
      (cut len bufs = [] → bufs = [] ∨ j = 0) := by
  induction bufs generalizing len with
  | nil =>
    have hPadding : ∃ j, cut len (List.replicate k []) = List.replicate j [] := by
      induction k with
      | zero => exact ⟨0, rfl⟩
      | succ k ih =>
        obtain ⟨j, hCut⟩ := ih
        rw [List.replicate_succ, cut, List.length_nil, Nat.sub_zero, hCut]
        split
        · exact ⟨j + 1, rfl⟩
        · split
          · exact ⟨1, rfl⟩
          · exact ⟨0, rfl⟩
    obtain ⟨j, hCut⟩ := hPadding
    exact ⟨j, hCut, fun _ => .inl rfl⟩
  | cons b bufs ih =>
    rw [List.cons_append, cut, cut]
    split
    · obtain ⟨j, hCut, -⟩ := ih (len - b.length)
      exact ⟨j, congrArg (b :: ·) hCut, fun hNone => absurd hNone (List.cons_ne_nil _ _)⟩
    · exact ⟨0, (List.append_nil _).symm, fun _ => .inr rfl⟩

theorem Pads.truncate (h : Pads l l') (len : Nat) : Pads (l.truncate len) (l'.truncate len) := by
  cases h with
  | same => exact .same _
  | pad size bufs skip k hStart =>
    simp only [BufferList.truncate]
    split
    · exact .pad size bufs skip k hStart
    · split
      · exact .same _
      · obtain ⟨j, hCut, hNone⟩ := cut_padded len k bufs
        rw [hCut]
        by_cases hZero : j = 0
        · rw [hZero, List.replicate_zero, List.append_nil]
          exact .same _
        · refine .pad len (cut len bufs) skip j fun hNothing => hStart ?_
          exact (hNone hNothing).resolve_right hZero

end BufferList

namespace Parser

structure Pads (p p' : Parser) : Prop where
  input : p.input.Pads p'.input
  error : p'.error = p.error

variable {α β γ δ : Type} {R : α → β → Prop} {Q : γ → δ → Prop}

/-- The second reader gets through the padded buffers when the first one gets through the plain
ones. -/
def Tolerates (R : α → β → Prop) (m : ParseM α) (m' : ParseM β) : Prop :=
  ∀ p p' a q, Pads p p' → m p = some (a, q) → ∃ b q', m' p' = some (b, q') ∧ R a b ∧ Pads q q'

theorem Tolerates.pure {a : α} {b : β} (h : R a b) :
    Tolerates R (pure a : ParseM α) (pure b : ParseM β) := by
  intro p p' _ _ hPads hRun
  cases hRun
  exact ⟨b, p', rfl, h, hPads⟩

theorem Tolerates.bind {m : ParseM α} {m' : ParseM β} {k : α → ParseM γ} {k' : β → ParseM δ}
    (hm : Tolerates R m m') (hk : ∀ a b, R a b → Tolerates Q (k a) (k' b)) :
    Tolerates Q (m >>= k) (m' >>= k') := by
  intro p p' c q hPads hRun
  obtain ⟨a, mid, hFirst, hRest⟩ := bind_eq_some hRun
  obtain ⟨b, mid', hFirst', hR, hMid⟩ := hm p p' a mid hPads hFirst
  obtain ⟨d, q', hRest', hQ, hPads'⟩ := hk a b hR mid mid' c q hMid hRest
  refine ⟨d, q', ?_, hQ, hPads'⟩
  change (m' p').bind _ = _
  rw [hFirst']
  exact hRest'

/-- Most readers return the same. -/
abbrev Patient (m : ParseM α) : Prop := Tolerates Eq m m

theorem Patient.bind {m : ParseM α} {k : α → ParseM γ} {k' : α → ParseM δ} (hm : Patient m)
    (hk : ∀ a, Tolerates Q (k a) (k' a)) : Tolerates Q (m >>= k) (m >>= k') :=
  Tolerates.bind hm fun a _ hSame => hSame ▸ hk a

theorem patient_lift (o : Option α) : Patient (liftM o : ParseM α) := by
  intro p p' a q hPads hRun
  cases o with
  | none => cases hRun
  | some _ =>
    cases hRun
    exact ⟨a, p', rfl, rfl, hPads⟩

theorem patient_setError : Patient setError := by
  intro p p' a q hPads hRun
  cases hRun
  exact ⟨(), _, rfl, rfl, hPads.input, rfl⟩

theorem patient_setErrorIf (c : Prop) [Decidable c] : Patient (setErrorIf c) := by
  rw [setErrorIf]
  split
  · exact patient_setError
  · exact Tolerates.pure rfl

theorem patient_hasError : Patient hasError := by
  intro p p' a q hPads hRun
  cases hRun
  exact ⟨p'.error, p', rfl, hPads.error.symm, hPads⟩

theorem patient_checkSize (size : Nat) : Patient (checkSize size) := by
  intro p p' a q hPads hRun
  refine patient_setErrorIf (size > p'.input.size) p p' a q hPads ?_
  rw [hPads.input.size_eq]
  exact hRun

theorem patient_removePrefix (n : Nat) : Patient (removePrefix n) := by
  intro p p' a q hPads hRun
  obtain ⟨l, hRemove, hRun⟩ := Option.bind_eq_some_iff.mp hRun
  cases hRun
  obtain ⟨l', hRemove', hPads'⟩ := hPads.input.removePrefix hRemove
  refine ⟨(), { p' with input := l' }, ?_, rfl, hPads', hPads.error⟩
  change (p'.input.removePrefix n).bind _ = _
  rw [hRemove']
  rfl

theorem patient_truncate (len : Nat) : Patient (truncate len) := by
  intro p p' a q hPads hRun
  cases hRun
  exact ⟨(), _, rfl, rfl, hPads.input.truncate len, hPads.error⟩

theorem tolerates_allRemaining : Tolerates Padded allRemaining allRemaining := by
  intro p p' a q hPads hRun
  obtain ⟨bufs, hViews, hRun⟩ := Option.bind_eq_some_iff.mp hRun
  cases hRun
  obtain ⟨bufs', hViews', hPadded⟩ := hPads.input.views hViews
  refine ⟨bufs', p', ?_, hPadded, hPads⟩
  change p'.input.views.bind _ = _
  rw [hViews']
  rfl

theorem tolerates_buffer : Tolerates Padded buffer buffer := tolerates_allRemaining

theorem patient_concatenateAllRemaining : Patient concatenateAllRemaining :=
  tolerates_allRemaining.bind fun _ _ hPadded => Tolerates.pure hPadded.flatten.symm

theorem patient_octet : Patient octet := by
  intro p p' a q hPads hRun
  obtain ⟨view, hPeek, hRun⟩ := Option.bind_eq_some_iff.mp hRun
  obtain ⟨b, hHead, hRun⟩ := Option.bind_eq_some_iff.mp hRun
  obtain ⟨l, hRemove, hRun⟩ := Option.bind_eq_some_iff.mp hRun
  cases hRun
  obtain ⟨l', hRemove', hPads'⟩ := hPads.input.removePrefix hRemove
  refine ⟨a, { p' with input := l' }, ?_, rfl, hPads', hPads.error⟩
  simp [octet, hPads.input.peek hPeek, hHead, hRemove']

theorem patient_readOctets (width out : Nat) : Patient (readOctets width out) := by
  induction width generalizing out with
  | zero => exact Tolerates.pure rfl
  | succ width ih => exact patient_octet.bind fun b => ih _

theorem patient_integer (width out : Nat) : Patient (integer width out) := by
  refine (patient_checkSize width).bind fun _ => patient_hasError.bind fun error => ?_
  cases error with
  | true => exact Tolerates.pure rfl
  | false => exact patient_readOctets width 0

theorem patient_integer8 (out : UInt8) : Patient (integer8 out) :=
  (patient_integer 1 _).bind fun _ => Tolerates.pure rfl

theorem patient_integer16 (out : UInt16) : Patient (integer16 out) :=
  (patient_integer 2 _).bind fun _ => Tolerates.pure rfl

theorem patient_integer32 (out : UInt32) : Patient (integer32 out) :=
  (patient_integer 4 _).bind fun _ => Tolerates.pure rfl

theorem parse_padded {m : ParseM α} {m' : ParseM β} (hm : Tolerates R m m')
    {bufs bufs' : List Buffer} (hPadded : Padded bufs bufs') {a : α}
    (h : Minnow.parse m bufs = some (some a)) :
    ∃ b, Minnow.parse m' bufs' = some (some b) ∧ R a b := by
  obtain ⟨p, hRun, hError⟩ := run_of_parse h
  obtain ⟨b, p', hRun', hR, hPads⟩ := hm (Parser.new bufs) (Parser.new bufs') a p
    ⟨BufferList.pads_new hPadded, rfl⟩ hRun
  refine ⟨b, ?_, hR⟩
  have hRun' : StateT.run m' (Parser.new bufs') = some (b, p') := hRun'
  simp [Minnow.parse, hRun', hPads.error, hError]

end Parser

namespace IPv4Header

theorem patient_parseFields (self : IPv4Header) : Patient self.parseFields := by
  refine (patient_integer8 _).bind fun firstByte => ?_
  refine (patient_integer8 _).bind fun tos => ?_
  refine (patient_integer16 _).bind fun len => ?_
  refine (patient_integer16 _).bind fun id => ?_
  refine (patient_integer16 _).bind fun foVal => ?_
  refine (patient_integer8 _).bind fun ttl => ?_
  refine (patient_integer8 _).bind fun proto => ?_
  refine (patient_integer16 _).bind fun cksum => ?_
  refine (patient_integer32 _).bind fun src => ?_
  exact (patient_integer32 _).bind fun dst => Tolerates.pure rfl

theorem patient_verifyChecksum (self : IPv4Header) : Patient self.verifyChecksum :=
  (patient_lift _).bind fun _ => (patient_setErrorIf _).bind fun _ => Tolerates.pure rfl

theorem patient_parse (self : IPv4Header) : Patient self.parse := by
  refine (patient_parseFields self).bind fun fields => (patient_setErrorIf _).bind fun _ => ?_
  refine (patient_setErrorIf _).bind fun _ => patient_hasError.bind fun error => ?_
  cases error with
  | true => exact Tolerates.pure rfl
  | false => exact (patient_removePrefix _).bind fun _ => patient_verifyChecksum fields

end IPv4Header

/-- The same header, and the padding behind the payload. -/
structure IPv4Datagram.Padded (d d' : IPv4Datagram) : Prop where
  header : d'.header = d.header
  payload : Minnow.Padded d.payload d'.payload

theorem IPv4Datagram.tolerates_parse (self : IPv4Datagram) :
    Tolerates IPv4Datagram.Padded self.parse self.parse := by
  refine (IPv4Header.patient_parse _).bind fun header => (patient_truncate _).bind fun _ => ?_
  exact tolerates_allRemaining.bind fun _ _ hPadded => Tolerates.pure ⟨rfl, hPadded⟩

namespace TCPSegment

theorem patient_parseFields (self : TCPSegment) : Patient self.parseFields := by
  refine (patient_integer16 _).bind fun srcPort => ?_
  refine (patient_integer16 _).bind fun dstPort => ?_
  refine (patient_integer32 _).bind fun seqno => ?_
  refine (patient_integer32 _).bind fun ackno => ?_
  refine (patient_integer8 _).bind fun offset => ?_
  refine (patient_integer8 _).bind fun flags => ?_
  refine (patient_integer16 _).bind fun windowSize => ?_
  refine (patient_integer16 _).bind fun cksum => ?_
  refine (patient_integer16 _).bind fun _ => ?_
  dsimp only
  split
  · exact patient_setError.bind fun _ => Tolerates.pure rfl
  · exact (patient_removePrefix _).bind fun _ =>
      patient_concatenateAllRemaining.bind fun _ => Tolerates.pure rfl

theorem patient_parse (self : TCPSegment) (pseudo : Nat) : Patient (self.parse pseudo) := by
  refine tolerates_buffer.bind fun bufs bufs' hPadded => ?_
  rw [InternetChecksum.addAll_eq, InternetChecksum.addAll_eq, hPadded.flatten]
  dsimp only
  split
  · exact patient_setError.bind fun _ => Tolerates.pure rfl
  · exact patient_parseFields self

end TCPSegment

end Minnow
