import Minnow.Library.Run
import Minnow.Router

/-! # The longest matching prefix

A mask keeps the leading bits, so matching is agreement of two quotients, and
the scan with its strict comparison is the first maximum among the matching
routes. Where no two routes are the same to the scan, it has no ties.
-/

namespace Minnow

open Library

namespace RouteEntry

/-- Masking with the high bits of a word clears the low ones. -/
theorem and_high {k : Nat} (x : Nat) (hx : x < 2 ^ 32) (hk : k ≤ 32) :
    x &&& ((2 ^ 32 - 1) <<< k % 2 ^ 32) = x / 2 ^ k * 2 ^ k := by
  apply Nat.eq_of_testBit_eq
  intro i
  rw [Nat.testBit_and, Nat.testBit_mod_two_pow, Nat.testBit_shiftLeft,
    Nat.testBit_two_pow_sub_one, Nat.testBit_mul_two_pow]
  by_cases hLow : i < 32
  · by_cases hKept : k ≤ i
    · have hShift : i - k < 32 := by omega
      simp [hLow, hKept, hShift, Nat.testBit_div_two_pow]
    · simp [hKept]
  · have hZero : x.testBit i = false :=
      Nat.testBit_lt_two_pow (hx.trans_le (Nat.pow_le_pow_right (by decide) (by omega)))
    have hBack : k ≤ i → i - k + k = i := fun h => Nat.sub_add_cancel h
    simp only [hLow, decide_false, Bool.false_and, Bool.and_false, Nat.testBit_div_two_pow]
    cases hKept : decide (k ≤ i) with
    | false => rfl
    | true => rw [hBack (of_decide_eq_true hKept), hZero, Bool.and_false]

/-- The number of bits behind the prefix. -/
def hostBits (self : RouteEntry) : Nat := 32 - self.prefixLength.toNat

theorem hostBits_le (self : RouteEntry) : self.hostBits ≤ 32 := Nat.sub_le _ _

/-- The destination has the leading bits of the prefix. -/
def Matches (self : RouteEntry) (dstIp : UInt32) : Prop :=
  dstIp.toNat / 2 ^ self.hostBits = self.routePrefix.toNat / 2 ^ self.hostBits

instance (self : RouteEntry) (dstIp : UInt32) : Decidable (self.Matches dstIp) :=
  inferInstanceAs (Decidable (_ = _))

variable {self : RouteEntry}

/-- At length zero the shift would be by 32, which the source avoids. -/
theorem mask_toNat (self : RouteEntry) :
    self.mask.toNat = (2 ^ 32 - 1) <<< self.hostBits % 2 ^ 32 := by
  rw [mask, hostBits]
  split
  · rename_i hZero
    rw [hZero]
    rfl
  · rename_i hPos
    have hLe : self.prefixLength.toNat ≤ 32 := self.prefixLength_le
    have hNe : self.prefixLength.toNat ≠ 0 := fun h => hPos (UInt8.toNat_inj.mp h)
    have hShift : (32 - self.prefixLength).toUInt32.toNat = 32 - self.prefixLength.toNat := by
      rw [UInt8.toNat_toUInt32, UInt8.toNat_sub_of_le _ _ self.prefixLength_le]
      rfl
    rw [UInt32.toNat_shiftLeft, hShift, Nat.mod_eq_of_lt (a := 32 - _) (by omega)]
    rfl

theorem and_mask_toNat (self : RouteEntry) (x : UInt32) :
    (x &&& self.mask).toNat = x.toNat / 2 ^ self.hostBits * 2 ^ self.hostBits := by
  rw [UInt32.toNat_and, mask_toNat, and_high x.toNat x.toNat_lt self.hostBits_le]

theorem and_mask_eq_iff {x y : UInt32} : x &&& self.mask = y &&& self.mask ↔
    x.toNat / 2 ^ self.hostBits = y.toNat / 2 ^ self.hostBits := by
  rw [← UInt32.toNat_inj, and_mask_toNat, and_mask_toNat]
  exact Nat.mul_left_inj (Nat.two_pow_pos _).ne'

/-- Two routes that the scan cannot tell apart. -/
def Clash (a b : RouteEntry) : Prop :=
  a.prefixLength = b.prefixLength ∧ a.routePrefix &&& a.mask = b.routePrefix &&& b.mask

instance (a b : RouteEntry) : Decidable (Clash a b) := inferInstanceAs (Decidable (_ ∧ _))

instance : Std.Symm fun a b : RouteEntry => ¬ Clash a b :=
  ⟨fun _ _ h hClash => h ⟨hClash.1.symm, hClash.2.symm⟩⟩

/-- Routes of one length that match one destination have the same masked prefix. -/
theorem Matches.clash {a b : RouteEntry} {dstIp : UInt32} (ha : a.Matches dstIp)
    (hb : b.Matches dstIp) (hLength : a.prefixLength = b.prefixLength) : Clash a b := by
  have hMask : a.mask = b.mask := by rw [mask, mask, hLength]
  refine ⟨hLength, ?_⟩
  rw [← and_mask_eq_iff.mpr ha, ← and_mask_eq_iff.mpr hb, hMask]

end RouteEntry

namespace Router

open RouteEntry

/-- The route added first among the matching ones of greatest length. -/
def longestMatch (routes : List RouteEntry) (dstIp : UInt32) : Option RouteEntry :=
  (routes.filter fun r => r.Matches dstIp).argmax fun r => r.prefixLength.toNat

theorem consider_of_matches {dstIp : UInt32} {r : RouteEntry} (h : r.Matches dstIp)
    (best : Match) : consider dstIp best r =
      if best.maxPrefixLen < r.prefixLength.toNat then ⟨some r, r.prefixLength.toNat⟩
      else best :=
  if_pos (and_mask_eq_iff.mpr h)

theorem consider_of_not_matches {dstIp : UInt32} {r : RouteEntry} (h : ¬ r.Matches dstIp)
    (best : Match) : consider dstIp best r = best :=
  if_neg fun hMasked => h (and_mask_eq_iff.mp hMasked)

/-- The length beside the best route is its own, and -1 where there is none. -/
def Match.of (route : Option RouteEntry) : Match :=
  ⟨route, route.elim (-1) fun r => r.prefixLength.toNat⟩

theorem foldl_consider (dstIp : UInt32) (routes : List RouteEntry) (route : Option RouteEntry) :
    routes.foldl (consider dstIp) (Match.of route) =
      Match.of ((routes.filter fun r => r.Matches dstIp).foldl
        (List.argAux fun b c => c.prefixLength.toNat < b.prefixLength.toNat) route) := by
  induction routes generalizing route with
  | nil => rfl
  | cons r routes ih =>
    by_cases hMatches : r.Matches dstIp
    · rw [List.foldl_cons, List.filter_cons_of_pos (by simpa using hMatches), List.foldl_cons,
        consider_of_matches hMatches, ← ih]
      congr 1
      cases route with
      | none => exact if_pos (by simp [Match.of]; omega)
      | some b =>
        simp only [Match.of, Option.elim_some, Nat.cast_lt, List.argAux]
        split <;> rfl
    · rw [List.foldl_cons, List.filter_cons_of_neg (by simpa using hMatches),
        consider_of_not_matches hMatches, ih]

theorem bestRoute_eq (self : Router) (dstIp : UInt32) :
    self.bestRoute dstIp = longestMatch self.routingTable dstIp :=
  congrArg Match.route (foldl_consider dstIp self.routingTable none)

theorem longestMatch_eq_none {routes : List RouteEntry} {dstIp : UInt32} :
    longestMatch routes dstIp = none ↔ ∀ r ∈ routes, ¬ r.Matches dstIp := by
  rw [longestMatch, List.argmax_eq_none, List.filter_eq_nil_iff]
  simp only [decide_eq_true_eq]

theorem mem_of_longestMatch {routes : List RouteEntry} {dstIp : UInt32} {r : RouteEntry}
    (h : r ∈ longestMatch routes dstIp) :
    r ∈ routes ∧ r.Matches dstIp ∧ ∀ q ∈ routes, q.Matches dstIp →
      q.prefixLength.toNat ≤ r.prefixLength.toNat := by
  obtain ⟨hMem, hMatches⟩ := List.mem_filter.mp (List.argmax_mem h)
  refine ⟨hMem, of_decide_eq_true hMatches, ?_⟩
  intro q hq hMatches'
  have hIn : q ∈ routes.filter fun r => r.Matches dstIp :=
    List.mem_filter.mpr ⟨hq, decide_eq_true hMatches'⟩
  exact List.le_of_mem_argmax (f := fun r : RouteEntry => r.prefixLength.toNat) hIn h

/-- Without clashes the order of the routes does not matter. -/
theorem longestMatch_perm {routes routes' : List RouteEntry} (hPerm : routes.Perm routes')
    (hDistinct : routes.Pairwise fun a b => ¬ Clash a b) (dstIp : UInt32) :
    longestMatch routes dstIp = longestMatch routes' dstIp := by
  cases hBest : longestMatch routes dstIp with
  | none =>
    rw [longestMatch_eq_none] at hBest
    exact (longestMatch_eq_none.mpr fun r hMem => hBest r (hPerm.mem_iff.mpr hMem)).symm
  | some r =>
    obtain ⟨hMem, hMatches, hMax⟩ := mem_of_longestMatch hBest
    cases hBest' : longestMatch routes' dstIp with
    | none => exact absurd hMatches (longestMatch_eq_none.mp hBest' r (hPerm.mem_iff.mp hMem))
    | some r' =>
      obtain ⟨hMem', hMatches', hMax'⟩ := mem_of_longestMatch hBest'
      have hIn := hPerm.mem_iff.mpr hMem'
      have hLength : r.prefixLength = r'.prefixLength := UInt8.toNat_inj.mp (le_antisymm
        (hMax' r (hPerm.mem_iff.mp hMem) hMatches) (hMax r' hIn hMatches'))
      by_contra hNe
      have hApart := hDistinct.forall hMem hIn fun hEq => hNe (congrArg some hEq)
      exact hApart (hMatches.clash hMatches' hLength)

/-- `add_route` after `add_route`, from an empty table. -/
theorem run_addRoute (interfaces : List NetworkInterface) (routes : List RouteEntry) :
    Run.run addRoute ⟨interfaces, []⟩ routes = ⟨interfaces, routes⟩ := by
  have h : ∀ table, Run.run addRoute ⟨interfaces, table⟩ routes = ⟨interfaces, table ++ routes⟩ := by
    induction routes with
    | nil =>
      intro table
      rw [Run.run_nil, List.append_nil]
    | cons r routes ih =>
      intro table
      rw [Run.run_cons, addRoute, ih, List.append_assoc]
      rfl
  exact h []

end Router

end Minnow
