import Dobbscoin.Lib.Limbs
import Dobbscoin.Primitives.Transaction

/-!
# base_uint — big numbers as arrays of 32-bit digits

The operators of `base_uint`, with their loops over `pn`, and what each of them does to the number
that the digits stand for.  The rest of the development computes with `UInt256`, a bit vector; the
section at the end says that this makes no difference.
-/

namespace Dobbscoin

open Nat (ofDigits)

/-- `base_uint`: `WIDTH` digits, the lowest one first. -/
@[ext]
structure BaseUInt (width : Nat) where
  pn : List UInt32
  length_pn : pn.length = width
deriving DecidableEq

namespace BaseUInt

variable {width : Nat}

/-! ## The number -/

def digits (pn : List UInt32) : List Nat :=
  pn.map UInt32.toNat

@[simp]
theorem length_digits (pn : List UInt32) : (digits pn).length = pn.length :=
  List.length_map _

theorem digits_lt {pn : List UInt32} : ∀ p ∈ digits pn, p < 2 ^ 32 := by
  intro p hp
  rcases List.mem_map.1 hp with ⟨q, -, rfl⟩
  exact q.toNat_lt

@[simp]
theorem digits_cons (p : UInt32) (pn : List UInt32) : digits (p :: pn) = p.toNat :: digits pn :=
  rfl

def value (a : BaseUInt width) : Nat :=
  ofDigits (2 ^ 32) (digits a.pn)

theorem value_lt (a : BaseUInt width) : a.value < 2 ^ (32 * width) := by
  have hlt : ofDigits (2 ^ 32) (digits a.pn) < (2 ^ 32) ^ (digits a.pn).length :=
    Nat.ofDigits_lt_base_pow_length (by decide) digits_lt
  rw [length_digits, a.length_pn, ← pow_mul] at hlt
  exact hlt

theorem value_injective : Function.Injective (value : BaseUInt width → Nat) := by
  intro a b hab
  have hlen : (digits a.pn).length = (digits b.pn).length := by
    rw [length_digits, length_digits, a.length_pn, b.length_pn]
  have hdigits := Nat.ofDigits_inj_of_len_eq (show 1 < 2 ^ 32 by decide) hlen digits_lt digits_lt hab
  exact BaseUInt.ext (List.map_injective_iff.2 (fun _ _ => UInt32.toNat_inj.1) hdigits)

/-! ## Numbers of 64 bits -/

/-- The constructor from `uint64_t`. -/
def ofUInt64 (b : UInt64) : BaseUInt width where
  pn := (List.range width).map fun i => if i = 0 then b.toUInt32 else if i = 1 then (b >>> 32).toUInt32 else 0
  length_pn := by rw [List.length_map, List.length_range]

theorem pn_ofUInt64 (hwidth : 2 ≤ width) (b : UInt64) :
    (ofUInt64 b : BaseUInt width).pn = b.toUInt32 :: (b >>> 32).toUInt32 :: List.replicate (width - 2) 0 := by
  rcases Nat.exists_eq_add_of_le' hwidth with ⟨n, rfl⟩
  show (List.range (n + 2)).map _ = _
  rw [List.range_succ_eq_map, List.range_succ_eq_map, List.map_cons, List.map_map, List.map_cons, List.map_map]
  refine congrArg₂ List.cons rfl (congrArg₂ List.cons rfl ?_)
  exact List.map_const.trans (congrArg (List.replicate · _) List.length_range)

theorem value_ofUInt64 (hwidth : 2 ≤ width) (b : UInt64) : (ofUInt64 b : BaseUInt width).value = b.toNat := by
  have hhigh : (b >>> 32).toUInt32.toNat = b.toNat / 2 ^ 32 := by
    have hb := b.toNat_lt
    rw [UInt64.toNat_toUInt32, UInt64.toNat_shiftRight, Nat.shiftRight_eq_div_pow]
    exact Nat.mod_eq_of_lt (Nat.div_lt_of_lt_mul hb)
  have hzeros : ofDigits (2 ^ 32) (digits (List.replicate (width - 2) 0)) = 0 := by
    rw [digits, List.map_replicate]
    exact Nat.ofDigits_replicate_zero
  rw [value, pn_ofUInt64 hwidth, digits_cons, digits_cons, Nat.ofDigits_cons, Nat.ofDigits_cons, hzeros, hhigh,
    UInt64.toNat_toUInt32, Nat.mul_zero, Nat.add_zero]
  exact Nat.mod_add_div _ _

/-- Two digits or more. -/
theorem exists_pn_eq (hwidth : 2 ≤ width) (a : BaseUInt width) : ∃ p q rest, a.pn = p :: q :: rest := by
  have hlen := a.length_pn
  match h : a.pn with
  | [] | [_] =>
    rw [h] at hlen
    simp at hlen
    omega
  | p :: q :: rest => exact ⟨p, q, rest, rfl⟩

/-- `GetLow64`. -/
def getLow64 (a : BaseUInt width) : UInt64 :=
  (a.pn.getD 0 0).toUInt64 ||| (a.pn.getD 1 0).toUInt64 <<< 32

theorem toNat_getLow64 (hwidth : 2 ≤ width) (a : BaseUInt width) : a.getLow64.toNat = a.value % 2 ^ 64 := by
  rcases exists_pn_eq hwidth a with ⟨p, q, rest, hpn⟩
  have hp := p.toNat_lt
  have hq := q.toNat_lt
  have hhigh : (q.toUInt64 <<< 32).toNat = q.toNat <<< 32 := by
    have hshift : (32 : UInt64).toNat % 64 = 32 := by decide
    rw [UInt64.toNat_shiftLeft, UInt32.toNat_toUInt64, hshift, Nat.shiftLeft_eq]
    exact Nat.mod_eq_of_lt (by omega)
  have hlow : a.getLow64.toNat = p.toNat + 2 ^ 32 * q.toNat := by
    have hget : a.getLow64 = p.toUInt64 ||| q.toUInt64 <<< 32 := by rw [getLow64, hpn]; rfl
    rw [hget, UInt64.toNat_or, hhigh, UInt32.toNat_toUInt64, Nat.or_comm, ← Nat.shiftLeft_add_eq_or_of_lt hp,
      Nat.shiftLeft_eq]
    omega
  rw [hlow, value, hpn, digits_cons, digits_cons, Nat.ofDigits_cons, Nat.ofDigits_cons]
  omega

/-- `EqualTo`. -/
def equalTo (a : BaseUInt width) (b : UInt64) : Bool :=
  if (a.pn.drop 2).any (· ≠ 0) then false
  else if a.pn.getD 1 0 ≠ (b >>> 32).toUInt32 then false
  else if a.pn.getD 0 0 ≠ b.toUInt32 then false
  else true

theorem equalTo_iff (hwidth : 2 ≤ width) {a : BaseUInt width} {b : UInt64} :
    a.equalTo b = true ↔ a.value = b.toNat := by
  rcases exists_pn_eq hwidth a with ⟨p, q, rest, hpn⟩
  have hlen : rest.length = width - 2 := by
    have hlen := a.length_pn
    rw [hpn, List.length_cons, List.length_cons] at hlen
    omega
  have hof : a.value = b.toNat ↔ p = b.toUInt32 ∧ q = (b >>> 32).toUInt32 ∧ rest = List.replicate (width - 2) 0 := by
    rw [← value_ofUInt64 hwidth b, value_injective.eq_iff, BaseUInt.ext_iff, hpn, pn_ofUInt64 hwidth, List.cons.injEq,
      List.cons.injEq]
  have hany : rest = List.replicate (width - 2) 0 ↔ ¬ rest.any (· ≠ 0) = true := by
    rw [List.any_eq_true, List.eq_replicate_iff]
    simp [hlen]
  rw [hof, hany, equalTo, hpn]
  simp only [List.drop_succ_cons, List.drop_zero, List.getD_cons_succ, List.getD_cons_zero]
  split_ifs with hrest hq hp
  · exact ⟨False.elim, fun h => absurd hrest h.2.2⟩
  · exact ⟨False.elim, fun h => absurd h.2.1 hq⟩
  · exact ⟨False.elim, fun h => absurd h.1 hp⟩
  · exact ⟨fun _ => ⟨not_not.1 hp, not_not.1 hq, hrest⟩, fun _ => rfl⟩

/-! ## Addition and subtraction -/

def addLoop (carry : UInt64) : List UInt32 → List UInt32 → List UInt32
  | p :: pn, q :: qn =>
    let n := carry + p.toUInt64 + q.toUInt64
    n.toUInt32 :: addLoop (n >>> 32) pn qn
  | _, _ => []

/-- The sum of two digits and a carry fits into 64 bits, so the loop carries all there is. -/
theorem digits_addLoop {carry : UInt64} (hcarry : carry.toNat ≤ 1) (pn qn : List UInt32) :
    digits (addLoop carry pn qn) =
      Limbs.carryLoop (2 ^ 32) carry.toNat (List.zipWith (· + ·) (digits pn) (digits qn)) := by
  induction pn generalizing carry qn with
  | nil => rfl
  | cons p pn ih =>
    cases qn with
    | nil => rfl
    | cons q qn =>
      have hp := p.toNat_lt
      have hq := q.toNat_lt
      have hn : (carry + p.toUInt64 + q.toUInt64).toNat = carry.toNat + (p.toNat + q.toNat) := by
        rw [UInt64.toNat_add, UInt64.toNat_add, UInt32.toNat_toUInt64, UInt32.toNat_toUInt64]
        omega
      have hhigh : ((carry + p.toUInt64 + q.toUInt64) >>> 32).toNat =
          (carry.toNat + (p.toNat + q.toNat)) / 2 ^ 32 := by
        rw [UInt64.toNat_shiftRight, hn, Nat.shiftRight_eq_div_pow]
        rfl
      rw [addLoop, digits_cons, ih (by rw [hhigh]; omega), UInt64.toNat_toUInt32, hhigh, hn]
      rfl

def add (a b : BaseUInt width) : BaseUInt width where
  pn := addLoop 0 a.pn b.pn
  length_pn := by
    rw [← length_digits, digits_addLoop (by decide), Limbs.length_carryLoop, List.length_zipWith, length_digits,
      length_digits, a.length_pn, b.length_pn, Nat.min_self]

theorem value_add (a b : BaseUInt width) : (a.add b).value = (a.value + b.value) % 2 ^ (32 * width) := by
  have hlen : (digits a.pn).length = (digits b.pn).length := by
    rw [length_digits, length_digits, a.length_pn, b.length_pn]
  rw [value, add, digits_addLoop (by decide), Limbs.ofDigits_carryLoop, Limbs.ofDigits_zipWith_add hlen,
    List.length_zipWith, ← hlen, Nat.min_self, length_digits, a.length_pn, ← pow_mul]
  exact congrArg (· % _) (Nat.zero_add _)

/-- `operator~`. -/
def not (a : BaseUInt width) : BaseUInt width where
  pn := a.pn.map (~~~ ·)
  length_pn := by rw [List.length_map, a.length_pn]

theorem value_not (a : BaseUInt width) : a.not.value + a.value + 1 = 2 ^ (32 * width) := by
  have hdigits : digits a.not.pn = Limbs.complement (2 ^ 32) (digits a.pn) := by
    rw [not, digits, List.map_map, Limbs.complement, digits, List.map_map]
    refine List.map_congr_left fun p _ => ?_
    exact UInt32.toNat_not p
  rw [value, hdigits, value, Limbs.ofDigits_complement digits_lt, length_digits, a.length_pn, ← pow_mul]

/-- `operator++`. -/
def incrLoop : List UInt32 → List UInt32
  | [] => []
  | p :: pn => if p + 1 = 0 then (p + 1) :: incrLoop pn else (p + 1) :: pn

theorem digits_incrLoop (pn : List UInt32) : digits (incrLoop pn) = Limbs.increment (2 ^ 32) (digits pn) := by
  induction pn with
  | nil => rfl
  | cons p pn ih =>
    have hp : (p + 1).toNat = (p.toNat + 1) % 2 ^ 32 := UInt32.toNat_add p 1
    have hzero : p + 1 = 0 ↔ (p.toNat + 1) % 2 ^ 32 = 0 := by
      rw [← hp, ← UInt32.toNat_inj]
      rfl
    rw [incrLoop, digits_cons, Limbs.increment]
    by_cases hlast : p + 1 = 0
    · rw [if_pos hlast, if_pos (hzero.1 hlast), digits_cons, ih, hp]
    · rw [if_neg hlast, if_neg (mt hzero.2 hlast), digits_cons, hp]

def incr (a : BaseUInt width) : BaseUInt width where
  pn := incrLoop a.pn
  length_pn := by rw [← length_digits, digits_incrLoop, Limbs.length_increment, length_digits, a.length_pn]

theorem value_incr (a : BaseUInt width) : a.incr.value = (a.value + 1) % 2 ^ (32 * width) := by
  rw [value, incr, digits_incrLoop, Limbs.increment_eq_carryLoop (by decide) digits_lt, Limbs.ofDigits_carryLoop,
    length_digits, a.length_pn, ← pow_mul, Nat.add_comm]
  rfl

/-- The unary `operator-`. -/
def neg (a : BaseUInt width) : BaseUInt width :=
  a.not.incr

theorem value_neg (a : BaseUInt width) : a.neg.value = (2 ^ (32 * width) - a.value) % 2 ^ (32 * width) := by
  have hnot := a.value_not
  have hsum : a.not.value + 1 = 2 ^ (32 * width) - a.value := by omega
  rw [neg, value_incr, hsum]

def sub (a b : BaseUInt width) : BaseUInt width :=
  a.add b.neg

theorem value_sub {a b : BaseUInt width} (hle : b.value ≤ a.value) : (a.sub b).value = a.value - b.value := by
  have ha := a.value_lt
  have hsum : a.value + (2 ^ (32 * width) - b.value) = a.value - b.value + 2 ^ (32 * width) := by omega
  rw [sub, value_add, value_neg, Nat.add_mod_mod, hsum, Nat.add_mod_right]
  exact Nat.mod_eq_of_lt (lt_of_le_of_lt (Nat.sub_le _ _) ha)

/-! ## Multiplication by a digit -/

def mulLoop (b32 : UInt32) (carry : UInt64) : List UInt32 → List UInt32
  | [] => []
  | p :: pn =>
    let n := carry + b32.toUInt64 * p.toUInt64
    n.toUInt32 :: mulLoop b32 (n >>> 32) pn

/-- The product of two digits leaves room for the carry. -/
theorem digits_mulLoop (b32 : UInt32) {carry : UInt64} (hcarry : carry.toNat < 2 ^ 32) (pn : List UInt32) :
    digits (mulLoop b32 carry pn) =
      Limbs.carryLoop (2 ^ 32) carry.toNat ((digits pn).map (b32.toNat * ·)) := by
  induction pn generalizing carry with
  | nil => rfl
  | cons p pn ih =>
    have hprod : b32.toNat * p.toNat ≤ (2 ^ 32 - 1) * (2 ^ 32 - 1) :=
      Nat.mul_le_mul (Nat.le_sub_one_of_lt b32.toNat_lt) (Nat.le_sub_one_of_lt p.toNat_lt)
    have hn : (carry + b32.toUInt64 * p.toUInt64).toNat = carry.toNat + b32.toNat * p.toNat := by
      rw [UInt64.toNat_add, UInt64.toNat_mul, UInt32.toNat_toUInt64, UInt32.toNat_toUInt64]
      omega
    have hhigh : ((carry + b32.toUInt64 * p.toUInt64) >>> 32).toNat =
        (carry.toNat + b32.toNat * p.toNat) / 2 ^ 32 := by
      rw [UInt64.toNat_shiftRight, hn, Nat.shiftRight_eq_div_pow]
      rfl
    rw [mulLoop, digits_cons, ih (by rw [hhigh]; omega), UInt64.toNat_toUInt32, hhigh, hn]
    rfl

/-- `operator*=` on a 32-bit factor. -/
def mul32 (a : BaseUInt width) (b32 : UInt32) : BaseUInt width where
  pn := mulLoop b32 0 a.pn
  length_pn := by
    rw [← length_digits, digits_mulLoop b32 (by decide), Limbs.length_carryLoop, List.length_map, length_digits,
      a.length_pn]

theorem value_mul32 (a : BaseUInt width) (b32 : UInt32) :
    (a.mul32 b32).value = (b32.toNat * a.value) % 2 ^ (32 * width) := by
  rw [value, mul32, digits_mulLoop b32 (by decide), Limbs.ofDigits_carryLoop, Limbs.ofDigits_map_mul, List.length_map,
    length_digits, a.length_pn, ← pow_mul]
  exact congrArg (· % _) (Nat.zero_add _)

/-! ## Comparison -/

/-- The loop of `CompareTo`: the highest digit that differs decides. -/
def compareLoop : List UInt32 → List UInt32 → Ordering
  | p :: pn, q :: qn =>
    match compareLoop pn qn with
    | .eq => if p < q then .lt else if p > q then .gt else .eq
    | o => o
  | _, _ => .eq

theorem compareLoop_eq (pn qn : List UInt32) :
    compareLoop pn qn = Limbs.compareDigits (digits pn) (digits qn) := by
  induction pn generalizing qn with
  | nil => rfl
  | cons p pn ih =>
    cases qn with
    | nil => rfl
    | cons q qn =>
      rw [compareLoop, ih, digits_cons, digits_cons, Limbs.compareDigits]
      cases Limbs.compareDigits (digits pn) (digits qn) with
      | lt => rfl
      | gt => rfl
      | eq =>
        simp only [Ordering.eq_then, UInt32.lt_iff_toNat_lt, gt_iff_lt, Nat.compare_eq_ite_lt]

def compareTo (a b : BaseUInt width) : Ordering :=
  compareLoop a.pn b.pn

theorem compareTo_eq (a b : BaseUInt width) : a.compareTo b = compare a.value b.value := by
  have hlen : (digits a.pn).length = (digits b.pn).length := by
    rw [length_digits, length_digits, a.length_pn, b.length_pn]
  rw [compareTo, compareLoop_eq, Limbs.compareDigits_eq hlen digits_lt digits_lt]
  rfl

/-! ## The length in bits -/

/-- The inner loop of `bits`, on a digit that is not zero. -/
def digitBits (p : UInt32) : Nat → Nat
  | 0 => 1
  | bits + 1 => if p &&& 1 <<< UInt32.ofNat (bits + 1) ≠ 0 then bits + 2 else digitBits p bits

def bitsLoop : List UInt32 → Nat
  | [] => 0
  | p :: pn => if bitsLoop pn = 0 then if p ≠ 0 then digitBits p 31 else 0 else 32 + bitsLoop pn

theorem and_bit_ne_zero {p : UInt32} {b : Nat} (hb : b < 32) :
    p &&& 1 <<< UInt32.ofNat b ≠ 0 ↔ p.toNat.testBit b = true := by
  have hmask : (p &&& 1 <<< UInt32.ofNat b).toNat = p.toNat &&& 2 ^ b := by
    rw [UInt32.toNat_and, UInt32.toNat_shiftLeft, UInt32.toNat_ofNat', Nat.mod_eq_of_lt (show b < 2 ^ 32 by omega),
      Nat.mod_eq_of_lt hb, Nat.shiftLeft_eq]
    have hpow : 1 * 2 ^ b < 2 ^ 32 := by
      rw [Nat.one_mul]
      exact Nat.pow_lt_pow_right (by decide) hb
    exact congrArg (p.toNat &&& ·) ((Nat.mod_eq_of_lt hpow).trans (Nat.one_mul _))
  have hzero : p &&& 1 <<< UInt32.ofNat b = 0 ↔ p.toNat &&& 2 ^ b = 0 := by
    rw [← hmask, ← UInt32.toNat_inj]
    rfl
  rw [ne_eq, hzero, Nat.and_two_pow]
  cases p.toNat.testBit b with
  | false => simp
  | true => simp

theorem digitBits_eq_size {p : UInt32} {n : Nat} (hn : n < 32) (hpos : p ≠ 0) (hlt : p.toNat < 2 ^ (n + 1)) :
    digitBits p n = p.toNat.size := by
  have hne : 0 < p.toNat := by
    rw [Nat.pos_iff_ne_zero, ne_eq]
    exact fun h => hpos (UInt32.toNat_inj.1 h)
  induction n with
  | zero =>
    have hone : p.toNat = 1 := by omega
    rw [digitBits, hone, Nat.size_one]
  | succ n ih =>
    rw [digitBits]
    by_cases hbit : p.toNat.testBit (n + 1) = true
    · rw [if_pos ((and_bit_ne_zero hn).2 hbit)]
      have hlow := Nat.lt_size.2 (Nat.ge_two_pow_of_testBit hbit)
      have hhigh := Nat.size_le.2 hlt
      omega
    · rw [if_neg (mt (and_bit_ne_zero hn).1 hbit)]
      refine ih (by omega) (Nat.lt_pow_two_of_testBit _ fun i hi => ?_)
      rcases Nat.eq_or_lt_of_le hi with rfl | hi
      · exact Bool.eq_false_iff.2 hbit
      · exact Nat.testBit_lt_two_pow (lt_of_lt_of_le hlt (Nat.pow_le_pow_right (by decide) hi))

def bits (a : BaseUInt width) : Nat :=
  bitsLoop a.pn

theorem bits_eq_size (a : BaseUInt width) : a.bits = a.value.size := by
  have hloop : ∀ pn : List UInt32, bitsLoop pn = Limbs.bitLength 32 Nat.size (digits pn) := by
    intro pn
    induction pn with
    | nil => rfl
    | cons p pn ih =>
      have hp : (if p ≠ 0 then digitBits p 31 else 0) = p.toNat.size := by
        by_cases hzero : p = 0
        · rw [if_neg (not_not.2 hzero), hzero]
          rfl
        · rw [if_pos hzero, digitBits_eq_size (by decide) hzero p.toNat_lt]
      rw [bitsLoop, ih, hp, digits_cons, Limbs.bitLength]
  rw [bits, hloop, Limbs.bitLength_eq_size digits_lt fun _ _ => rfl]
  rfl

/-! ## Single bits -/

def bitAt (pn : List UInt32) (n : Nat) : Bool :=
  (pn.getD (n / 32) 0).toNat.testBit (n % 32)

theorem testBit_value (a : BaseUInt width) (n : Nat) : a.value.testBit n = bitAt a.pn n := by
  have hget : (digits a.pn).getD (n / 32) 0 = (a.pn.getD (n / 32) 0).toNat :=
    List.getD_map a.pn 0 UInt32.toNat
  rw [value, Limbs.testBit_ofDigits (by decide) digits_lt, hget, bitAt]

theorem lt_of_bitAt {pn : List UInt32} {n : Nat} (h : bitAt pn n = true) : n < 32 * pn.length := by
  by_contra hge
  have hnone : pn.getD (n / 32) 0 = 0 := List.getD_eq_default _ _ (by omega)
  rw [bitAt, hnone] at h
  exact Bool.false_ne_true ((Nat.zero_testBit _).symm.trans h)

/-- `pn[i] |= v`. -/
def orAt (pn : List UInt32) (i : Nat) (v : UInt32) : List UInt32 :=
  pn.modify i (· ||| v)

@[simp]
theorem length_orAt (pn : List UInt32) (i : Nat) (v : UInt32) : (orAt pn i v).length = pn.length :=
  List.length_modify _ _ _

theorem bitAt_orAt {pn : List UInt32} {i : Nat} (hi : i < pn.length) (v : UInt32) (n : Nat) :
    bitAt (orAt pn i v) n = true ↔ bitAt pn n = true ∨ i = n / 32 ∧ v.toNat.testBit (n % 32) = true := by
  have hget : (orAt pn i v).getD (n / 32) 0 = if i = n / 32 then pn.getD (n / 32) 0 ||| v else pn.getD (n / 32) 0 := by
    rw [orAt, List.getD_eq_getElem?_getD, List.getElem?_modify, List.getD_eq_getElem?_getD]
    split_ifs with heq
    · rw [← heq, List.getElem?_eq_getElem hi]
      rfl
    · simp
  rw [bitAt, hget, bitAt]
  split_ifs with heq
  · rw [UInt32.toNat_or, Nat.testBit_or, Bool.or_eq_true]
    simp [heq]
  · simp [heq]

theorem bitAt_orIf {pn : List UInt32} {g : Prop} [Decidable g] {i : Nat} (hi : g → i < pn.length) (v : UInt32) (n : Nat) :
    bitAt (if g then orAt pn i v else pn) n = true ↔
      bitAt pn n = true ∨ g ∧ i = n / 32 ∧ v.toNat.testBit (n % 32) = true := by
  split_ifs with hg
  · rw [bitAt_orAt (hi hg)]
    simp [hg]
  · simp [hg]

@[simp]
theorem length_orIf (pn : List UInt32) (g : Prop) [Decidable g] (i : Nat) (v : UInt32) :
    (if g then orAt pn i v else pn).length = pn.length := by
  split_ifs
  · exact length_orAt pn i v
  · rfl

/-- A loop that sets bits, pass by pass. -/
theorem bitAt_foldl {f : List UInt32 → Nat → List UInt32} {c : Nat → Nat → Prop} {w : Nat}
    (hstep : ∀ pn i, pn.length = w → i < w → (f pn i).length = w ∧
      ∀ n, bitAt (f pn i) n = true ↔ bitAt pn n = true ∨ c i n)
    (l : List Nat) (hl : ∀ i ∈ l, i < w) {pn : List UInt32} (hpn : pn.length = w) :
    (l.foldl f pn).length = w ∧
      ∀ n, bitAt (l.foldl f pn) n = true ↔ bitAt pn n = true ∨ ∃ i ∈ l, c i n := by
  induction l generalizing pn with
  | nil => exact ⟨hpn, fun n => by simp⟩
  | cons i l ih =>
    rw [List.forall_mem_cons] at hl
    rcases hstep pn i hpn hl.1 with ⟨hlen, hbit⟩
    rcases ih hl.2 hlen with ⟨hlen', hbit'⟩
    refine ⟨hlen', fun n => ?_⟩
    rw [List.foldl_cons, hbit' n, hbit n, List.exists_mem_cons_iff, or_assoc]

/-- The default constructor. -/
def zero : BaseUInt width where
  pn := List.replicate width 0
  length_pn := List.length_replicate

@[simp]
theorem value_zero : (zero : BaseUInt width).value = 0 := by
  rw [value, zero, digits, List.map_replicate]
  exact Nat.ofDigits_replicate_zero

theorem bitAt_zeros (w n : Nat) : bitAt (List.replicate w 0) n = false := by
  have hbit := testBit_value (zero : BaseUInt w) n
  rw [value_zero, Nat.zero_testBit] at hbit
  exact hbit.symm

/-! ## Shifts -/

/-- A pass of the loop of `operator<<=`, with `k` whole digits and `shift` bits to go. -/
def shlStep (a : List UInt32) (k shift : Nat) (pn : List UInt32) (i : Nat) : List UInt32 :=
  let pn :=
    if i + k + 1 < a.length ∧ shift ≠ 0 then orAt pn (i + k + 1) (a.getD i 0 >>> UInt32.ofNat (32 - shift)) else pn
  if i + k < a.length then orAt pn (i + k) (a.getD i 0 <<< UInt32.ofNat shift) else pn

def shlLoop (a : List UInt32) (shift : Nat) : List UInt32 :=
  (List.range a.length).foldl (shlStep a (shift / 32) (shift % 32)) (List.replicate a.length 0)

/-- A pass of the loop of `operator>>=`. -/
def shrStep (a : List UInt32) (k shift : Nat) (pn : List UInt32) (i : Nat) : List UInt32 :=
  let pn := if k + 1 ≤ i ∧ shift ≠ 0 then orAt pn (i - k - 1) (a.getD i 0 <<< UInt32.ofNat (32 - shift)) else pn
  if k ≤ i then orAt pn (i - k) (a.getD i 0 >>> UInt32.ofNat shift) else pn

def shrLoop (a : List UInt32) (shift : Nat) : List UInt32 :=
  (List.range a.length).foldl (shrStep a (shift / 32) (shift % 32)) (List.replicate a.length 0)

theorem testBit_shiftRight {p : UInt32} {s : Nat} (hs : s < 32) (j : Nat) :
    (p >>> UInt32.ofNat s).toNat.testBit j = p.toNat.testBit (s + j) := by
  have hofNat : (UInt32.ofNat s).toNat % 32 = s := by
    rw [UInt32.toNat_ofNat', Nat.mod_eq_of_lt (show s < 2 ^ 32 by omega), Nat.mod_eq_of_lt hs]
  rw [UInt32.toNat_shiftRight, hofNat, Nat.testBit_shiftRight]

theorem testBit_shiftLeft {p : UInt32} {s j : Nat} (hs : s < 32) (hj : j < 32) :
    (p <<< UInt32.ofNat s).toNat.testBit j = (decide (s ≤ j) && p.toNat.testBit (j - s)) := by
  have hofNat : (UInt32.ofNat s).toNat % 32 = s := by
    rw [UInt32.toNat_ofNat', Nat.mod_eq_of_lt (show s < 2 ^ 32 by omega), Nat.mod_eq_of_lt hs]
  rw [UInt32.toNat_shiftLeft, hofNat, Nat.testBit_mod_two_pow, Nat.testBit_shiftLeft, decide_eq_true hj, Bool.true_and]

theorem testBit_digit (p : UInt32) {j : Nat} (hj : p.toNat.testBit j = true) : j < 32 := by
  by_contra hge
  have hlt := lt_of_lt_of_le p.toNat_lt (Nat.pow_le_pow_right (show 0 < 2 by decide) (not_lt.1 hge))
  exact Bool.false_ne_true ((Nat.testBit_lt_two_pow hlt).symm.trans hj)

/-- The bits that digit `i` contributes to the shifted number. -/
theorem bitAt_shlStep {a : List UInt32} {k shift : Nat} (hshift : shift < 32) (pn : List UInt32) (i : Nat)
    (hpn : pn.length = a.length) :
    (shlStep a k shift pn i).length = a.length ∧
      ∀ n, bitAt (shlStep a k shift pn i) n = true ↔
        bitAt pn n = true ∨
          (n < 32 * a.length ∧ 32 * k + shift ≤ n ∧ (n - (32 * k + shift)) / 32 = i) ∧
            bitAt a (n - (32 * k + shift)) = true := by
  refine ⟨by rw [shlStep, length_orIf, length_orIf, hpn], fun n => ?_⟩
  have hmod := Nat.mod_lt n (show 0 < 32 by decide)
  rw [shlStep, bitAt_orIf (by rw [length_orIf, hpn]; exact id), bitAt_orIf (by rw [hpn]; exact And.left), or_assoc]
  refine or_congr_right ⟨?_, ?_⟩
  · rintro (⟨⟨hin, hne⟩, heq, hbit⟩ | ⟨hin, heq, hbit⟩)
    · -- The bits that cross into the next digit.
      rw [testBit_shiftRight (by omega)] at hbit
      have hlt := testBit_digit _ hbit
      have hdiv : (n - (32 * k + shift)) / 32 = i := by omega
      have hrem : (n - (32 * k + shift)) % 32 = 32 - shift + n % 32 := by omega
      refine ⟨⟨by omega, by omega, hdiv⟩, ?_⟩
      rw [bitAt, hdiv, hrem, hbit]
    · rw [testBit_shiftLeft hshift hmod, Bool.and_eq_true, decide_eq_true_iff] at hbit
      have hdiv : (n - (32 * k + shift)) / 32 = i := by omega
      have hrem : (n - (32 * k + shift)) % 32 = n % 32 - shift := by omega
      refine ⟨⟨by omega, by omega, hdiv⟩, ?_⟩
      rw [bitAt, hdiv, hrem, hbit.2]
  · rintro ⟨⟨hn, hle, hdiv⟩, hbit⟩
    rw [bitAt, hdiv] at hbit
    rcases Nat.lt_or_ge (n % 32) shift with hlt | hge
    · have hrem : (n - (32 * k + shift)) % 32 = 32 - shift + n % 32 := by omega
      rw [hrem] at hbit
      refine Or.inl ⟨⟨by omega, by omega⟩, by omega, ?_⟩
      rw [testBit_shiftRight (by omega), hbit]
    · have hrem : (n - (32 * k + shift)) % 32 = n % 32 - shift := by omega
      rw [hrem] at hbit
      refine Or.inr ⟨by omega, by omega, ?_⟩
      rw [testBit_shiftLeft hshift hmod, decide_eq_true hge, hbit, Bool.true_and]

theorem bitAt_shrStep {a : List UInt32} {k shift : Nat} (hshift : shift < 32) (pn : List UInt32) (i : Nat)
    (hpn : pn.length = a.length) (hi : i < a.length) :
    (shrStep a k shift pn i).length = a.length ∧
      ∀ n, bitAt (shrStep a k shift pn i) n = true ↔
        bitAt pn n = true ∨ (n + (32 * k + shift)) / 32 = i ∧ bitAt a (n + (32 * k + shift)) = true := by
  refine ⟨by rw [shrStep, length_orIf, length_orIf, hpn], fun n => ?_⟩
  have hmod := Nat.mod_lt n (show 0 < 32 by decide)
  rw [shrStep, bitAt_orIf (by rw [length_orIf, hpn]; intro _; omega), bitAt_orIf (by rw [hpn]; intro _; omega), or_assoc]
  refine or_congr_right ⟨?_, ?_⟩
  · rintro (⟨⟨hin, hne⟩, heq, hbit⟩ | ⟨hin, heq, hbit⟩)
    · -- The bits that cross into the digit below.
      rw [testBit_shiftLeft (by omega) hmod, Bool.and_eq_true, decide_eq_true_iff] at hbit
      have hdiv : (n + (32 * k + shift)) / 32 = i := by omega
      have hrem : (n + (32 * k + shift)) % 32 = n % 32 - (32 - shift) := by omega
      refine ⟨hdiv, ?_⟩
      rw [bitAt, hdiv, hrem, hbit.2]
    · rw [testBit_shiftRight hshift] at hbit
      have hlt := testBit_digit _ hbit
      have hdiv : (n + (32 * k + shift)) / 32 = i := by omega
      have hrem : (n + (32 * k + shift)) % 32 = shift + n % 32 := by omega
      refine ⟨hdiv, ?_⟩
      rw [bitAt, hdiv, hrem, hbit]
  · rintro ⟨hdiv, hbit⟩
    rw [bitAt, hdiv] at hbit
    rcases Nat.lt_or_ge (shift + n % 32) 32 with hlt | hge
    · have hrem : (n + (32 * k + shift)) % 32 = shift + n % 32 := by omega
      rw [hrem] at hbit
      refine Or.inr ⟨by omega, by omega, ?_⟩
      rw [testBit_shiftRight hshift, hbit]
    · have hrem : (n + (32 * k + shift)) % 32 = n % 32 - (32 - shift) := by omega
      rw [hrem] at hbit
      refine Or.inl ⟨⟨by omega, by omega⟩, by omega, ?_⟩
      rw [testBit_shiftLeft (by omega) hmod, decide_eq_true (show 32 - shift ≤ n % 32 by omega), hbit, Bool.true_and]

theorem bitAt_shlLoop (a : List UInt32) (shift : Nat) :
    (shlLoop a shift).length = a.length ∧
      ∀ n, bitAt (shlLoop a shift) n = true ↔ (n < 32 * a.length ∧ shift ≤ n) ∧ bitAt a (n - shift) = true := by
  have hshift := Nat.mod_lt shift (show 0 < 32 by decide)
  have hsplit := Nat.div_add_mod shift 32
  rcases bitAt_foldl (fun pn i hpn _ => bitAt_shlStep (k := shift / 32) hshift pn i hpn) (List.range a.length)
    (fun i hi => List.mem_range.1 hi) List.length_replicate with ⟨hlen, hbit⟩
  refine ⟨hlen, fun n => ?_⟩
  rw [shlLoop, hbit n, hsplit, bitAt_zeros]
  constructor
  · rintro (h | ⟨i, -, ⟨hn, hle, -⟩, h⟩)
    · cases h
    · exact ⟨⟨hn, hle⟩, h⟩
  · rintro ⟨⟨hn, hle⟩, h⟩
    have hlt := lt_of_bitAt h
    exact Or.inr ⟨(n - shift) / 32, List.mem_range.2 (by omega), ⟨hn, hle, rfl⟩, h⟩

theorem bitAt_shrLoop (a : List UInt32) (shift : Nat) :
    (shrLoop a shift).length = a.length ∧
      ∀ n, bitAt (shrLoop a shift) n = true ↔ bitAt a (n + shift) = true := by
  have hshift := Nat.mod_lt shift (show 0 < 32 by decide)
  have hsplit := Nat.div_add_mod shift 32
  rcases bitAt_foldl (fun pn i hpn hi => bitAt_shrStep (k := shift / 32) hshift pn i hpn hi) (List.range a.length)
    (fun i hi => List.mem_range.1 hi) List.length_replicate with ⟨hlen, hbit⟩
  refine ⟨hlen, fun n => ?_⟩
  rw [shrLoop, hbit n, hsplit, bitAt_zeros]
  constructor
  · rintro (h | ⟨i, -, -, h⟩)
    · cases h
    · exact h
  · intro h
    have hlt := lt_of_bitAt h
    exact Or.inr ⟨(n + shift) / 32, List.mem_range.2 (by omega), rfl, h⟩

def shl (a : BaseUInt width) (shift : Nat) : BaseUInt width where
  pn := shlLoop a.pn shift
  length_pn := (bitAt_shlLoop a.pn shift).1.trans a.length_pn

def shr (a : BaseUInt width) (shift : Nat) : BaseUInt width where
  pn := shrLoop a.pn shift
  length_pn := (bitAt_shrLoop a.pn shift).1.trans a.length_pn

theorem value_shl (a : BaseUInt width) (shift : Nat) :
    (a.shl shift).value = a.value * 2 ^ shift % 2 ^ (32 * width) := by
  apply Nat.eq_of_testBit_eq
  intro n
  rw [testBit_value, Nat.testBit_mod_two_pow, ← Nat.shiftLeft_eq, Nat.testBit_shiftLeft, testBit_value, Bool.eq_iff_iff,
    shl, (bitAt_shlLoop a.pn shift).2 n, a.length_pn]
  simp only [Bool.and_eq_true, decide_eq_true_iff, ge_iff_le, and_assoc]

theorem value_shr (a : BaseUInt width) (shift : Nat) : (a.shr shift).value = a.value / 2 ^ shift := by
  apply Nat.eq_of_testBit_eq
  intro n
  rw [testBit_value, ← Nat.shiftRight_eq_div_pow, Nat.testBit_shiftRight, testBit_value, Bool.eq_iff_iff, shr,
    (bitAt_shrLoop a.pn shift).2 n, Nat.add_comm]

/-! ## Division -/

/-- `pn[n / 32] |= 1 << (n & 31)`. -/
def setBit (a : BaseUInt width) (n : Nat) : BaseUInt width where
  pn := orAt a.pn (n / 32) (1 <<< UInt32.ofNat (n % 32))
  length_pn := (length_orAt _ _ _).trans a.length_pn

theorem value_setBit {a : BaseUInt width} {n : Nat} (hn : n < 32 * width) (hlow : a.value % 2 ^ (n + 1) = 0) :
    (a.setBit n).value = a.value + 2 ^ n := by
  have hin : n / 32 < a.pn.length := by
    rw [a.length_pn]
    omega
  have hor : (a.setBit n).value = a.value ||| 2 ^ n := by
    apply Nat.eq_of_testBit_eq
    intro m
    have hmod := Nat.mod_lt n (show 0 < 32 by decide)
    have hmod' := Nat.mod_lt m (show 0 < 32 by decide)
    have hone : (1 <<< UInt32.ofNat (n % 32) : UInt32).toNat.testBit (m % 32) = true ↔ n % 32 = m % 32 := by
      rw [testBit_shiftLeft hmod hmod', Bool.and_eq_true, decide_eq_true_iff, UInt32.toNat_one, Nat.testBit_one_eq_true_iff_self_eq_zero]
      omega
    rw [Nat.testBit_or, Nat.testBit_two_pow, testBit_value, testBit_value, Bool.eq_iff_iff, setBit, bitAt_orAt hin, hone,
      Bool.or_eq_true, decide_eq_true_iff]
    refine or_congr_right ?_
    omega
  have hsplit : a.value = 2 ^ (n + 1) * (a.value / 2 ^ (n + 1)) := (Nat.mul_div_cancel' (Nat.dvd_of_mod_eq_zero hlow)).symm
  rw [hor, hsplit]
  exact (Nat.two_pow_add_eq_or_of_lt (Nat.pow_lt_pow_right (by decide) (Nat.lt_succ_self n)) _).symm

/-- The loop of `operator/=`; `shift` counts down from `n - 1`. -/
def divLoop : Nat → BaseUInt width → BaseUInt width → BaseUInt width → BaseUInt width
  | 0, _, _, ret => ret
  | n + 1, num, div, ret =>
    if num.compareTo div = .lt then divLoop n num (div.shr 1) ret
    else divLoop n (num.sub div) (div.shr 1) (ret.setBit n)

/-- `operator/=`, which throws on zero. -/
def div (a b : BaseUInt width) : Except String (BaseUInt width) :=
  if b.bits = 0 then .error "Division by zero"
  else if b.bits > a.bits then .ok zero
  else .ok (divLoop (a.bits - b.bits + 1) a (b.shl (a.bits - b.bits)) zero)

theorem value_divLoop {b : Nat} (n : Nat) {num div ret : BaseUInt width} (hn : n ≤ 32 * width)
    (hdiv : 0 < n → div.value = b * 2 ^ (n - 1)) (hlow : ret.value % 2 ^ n = 0) :
    (divLoop n num div ret).value = ret.value + Limbs.quotLoop b n num.value := by
  induction n generalizing num div ret with
  | zero => rw [divLoop, Limbs.quotLoop, Nat.add_zero]
  | succ n ih =>
    have hdiv' : div.value = b * 2 ^ n := hdiv (Nat.succ_pos n)
    have hshr : 0 < n → (div.shr 1).value = b * 2 ^ (n - 1) := by
      intro hpos
      rcases Nat.exists_eq_add_of_le' hpos with ⟨m, rfl⟩
      rw [value_shr, hdiv', pow_succ, ← Nat.mul_assoc, pow_one, Nat.mul_div_cancel _ (by decide)]
      rfl
    have hlow' : ret.value % 2 ^ n = 0 :=
      Nat.mod_eq_zero_of_dvd ((pow_dvd_pow 2 (Nat.le_succ n)).trans (Nat.dvd_of_mod_eq_zero hlow))
    have hlt : num.compareTo div = .lt ↔ ¬ b * 2 ^ n ≤ num.value := by
      rw [compareTo_eq, Nat.compare_eq_lt, hdiv', not_le]
    rw [divLoop, Limbs.quotLoop]
    by_cases hle : b * 2 ^ n ≤ num.value
    · have hset := value_setBit (a := ret) (n := n) (by omega) hlow
      have hlow'' : (ret.setBit n).value % 2 ^ n = 0 := by rw [hset, Nat.add_mod_right, hlow']
      rw [if_neg (fun h => hlt.1 h hle), if_pos hle, ih (by omega) hshr hlow'', hset,
        value_sub (by rw [hdiv']; exact hle), hdiv', Nat.add_assoc]
    · rw [if_pos (hlt.2 hle), if_neg hle, ih (by omega) hshr hlow']

theorem div_spec (a : BaseUInt width) {b : BaseUInt width} (hb : b.value ≠ 0) :
    ∃ c, a.div b = .ok c ∧ c.value = a.value / b.value := by
  have hbits : b.bits ≠ 0 := by
    rw [bits_eq_size]
    exact fun h => hb (Nat.size_eq_zero.1 h)
  rw [div, if_neg hbits]
  rw [bits_eq_size] at hbits ⊢
  rw [bits_eq_size]
  have hb_lt := Nat.lt_size_self b.value
  have ha_lt := Nat.lt_size_self a.value
  have hb_le : 2 ^ (b.value.size - 1) ≤ b.value := by
    rw [← Nat.lt_size]
    omega
  split_ifs with hgt
  · -- The divisor is longer.
    refine ⟨zero, rfl, ?_⟩
    rw [value_zero, Nat.div_eq_of_lt]
    have hle : 2 ^ a.value.size ≤ 2 ^ (b.value.size - 1) := Nat.pow_le_pow_right (by decide) (by omega)
    omega
  · have hwidth : a.value.size ≤ 32 * width := Nat.size_le.2 a.value_lt
    have hshl : (b.shl (a.value.size - b.value.size)).value = b.value * 2 ^ (a.value.size - b.value.size) := by
      rw [value_shl]
      refine Nat.mod_eq_of_lt (lt_of_lt_of_le ?_ (Nat.pow_le_pow_right (by decide) hwidth))
      calc b.value * 2 ^ (a.value.size - b.value.size)
          < 2 ^ b.value.size * 2 ^ (a.value.size - b.value.size) := Nat.mul_lt_mul_of_pos_right hb_lt (Nat.two_pow_pos _)
        _ = 2 ^ a.value.size := by rw [← pow_add, Nat.add_sub_cancel' (by omega)]
    have hnum : a.value < b.value * 2 ^ (a.value.size - b.value.size + 1) := by
      calc a.value < 2 ^ a.value.size := ha_lt
        _ = 2 ^ (b.value.size - 1) * 2 ^ (a.value.size - b.value.size + 1) := by
            rw [← pow_add]
            congr 1
            omega
        _ ≤ b.value * 2 ^ (a.value.size - b.value.size + 1) := Nat.mul_le_mul_right _ hb_le
    refine ⟨_, rfl, ?_⟩
    rw [value_divLoop _ (by omega) (fun _ => hshl) (by rw [value_zero, Nat.zero_mod]), value_zero, Nat.zero_add,
      Limbs.quotLoop_eq_div (Nat.pos_of_ne_zero hb) _ hnum]

theorem div_zero (a : BaseUInt width) {b : BaseUInt width} (hb : b.value = 0) : a.div b = .error "Division by zero" := by
  rw [div, bits_eq_size, hb, if_pos Nat.size_zero]

/-! ## Multiplication -/

/-- What `const base_uint& b` refers to: the object that the operator belongs to, or another one. -/
inductive Operand (width : Nat) where
  | self
  | other (b : BaseUInt width)
deriving DecidableEq

namespace Operand

/-- The digits behind the reference, while the object holds `pn`. -/
def read : Operand width → List UInt32 → List UInt32
  | self, pn => pn
  | other b, _ => b.pn

/-- The operand when the operator is called. -/
def get : Operand width → BaseUInt width → BaseUInt width
  | self, a => a
  | other b, _ => b

end Operand

/-- The pass `i` in the row `j`, where `p` is `a.pn[j]`; digits and carry. -/
def mulStep (b : Operand width) (p : UInt32) (j : Nat) (s : List UInt32 × UInt64) (i : Nat) : List UInt32 × UInt64 :=
  let n := s.2 + (s.1.getD (i + j) 0).toUInt64 + p.toUInt64 * ((b.read s.1).getD i 0).toUInt64
  (s.1.set (i + j) n.toUInt32, n >>> 32)

/-- The inner loop before its pass `m`. -/
def mulRow (b : Operand width) (p : UInt32) (j : Nat) (pn : List UInt32) (m : Nat) : List UInt32 × UInt64 :=
  (List.range m).foldl (mulStep b p j) (pn, 0)

/-- The outer loop before its pass `m`: `*this = 0`, and the rows below. -/
def mulRows (a : BaseUInt width) (b : Operand width) (m : Nat) : List UInt32 :=
  (List.range m).foldl (fun pn j => (mulRow b (a.pn.getD j 0) j pn (width - j)).1) (List.replicate width 0)

theorem length_mulRow (b : Operand width) (p : UInt32) (j : Nat) (pn : List UInt32) (m : Nat) :
    (mulRow b p j pn m).1.length = pn.length := by
  induction m with
  | zero => rfl
  | succ m ih =>
    rw [mulRow, List.range_succ, List.foldl_append]
    exact List.length_set.trans ih

theorem length_mulRows (a : BaseUInt width) (b : Operand width) (m : Nat) : (mulRows a b m).length = width := by
  induction m with
  | zero => exact List.length_replicate
  | succ m ih =>
    rw [mulRows, List.range_succ, List.foldl_append]
    exact (length_mulRow _ _ _ _ _).trans ih

/-- `operator*=` on a `base_uint`. -/
def mul (a : BaseUInt width) (b : Operand width) : BaseUInt width where
  pn := mulRows a b width
  length_pn := length_mulRows a b width

/-- The sum of the pass `i` in the row of `p`. -/
def mulSum (b : Operand width) (p : UInt32) (j : Nat) (s : List UInt32 × UInt64) (i : Nat) : Nat :=
  s.2.toNat + (s.1.getD (i + j) 0).toNat + p.toNat * ((b.read s.1).getD i 0).toNat

section

variable {b : Operand width} {p : UInt32} {j i m : Nat} {s : List UInt32 × UInt64} {pn : List UInt32}

/-- A carry, a digit and a product of digits fit into 64 bits. -/
theorem mulSum_lt (hcarry : s.2.toNat < 2 ^ 32) : mulSum b p j s i < 2 ^ 64 := by
  have hprod : p.toNat * ((b.read s.1).getD i 0).toNat ≤ (2 ^ 32 - 1) * (2 ^ 32 - 1) :=
    Nat.mul_le_mul (Nat.le_sub_one_of_lt p.toNat_lt) (Nat.le_sub_one_of_lt (UInt32.toNat_lt _))
  have hdigit := (s.1.getD (i + j) 0).toNat_lt
  rw [mulSum]
  omega

theorem toNat_mulStep (hcarry : s.2.toNat < 2 ^ 32) :
    (mulStep b p j s i).2.toNat = mulSum b p j s i / 2 ^ 32 ∧
      digits (mulStep b p j s i).1 = (digits s.1).set (i + j) (mulSum b p j s i % 2 ^ 32) := by
  have hlt := mulSum_lt (b := b) (p := p) (j := j) (i := i) hcarry
  have hn : (s.2 + (s.1.getD (i + j) 0).toUInt64 + p.toUInt64 * ((b.read s.1).getD i 0).toUInt64).toNat =
      mulSum b p j s i := by
    rw [mulSum] at hlt ⊢
    rw [UInt64.toNat_add, UInt64.toNat_add, UInt64.toNat_mul, UInt32.toNat_toUInt64, UInt32.toNat_toUInt64,
      UInt32.toNat_toUInt64]
    omega
  constructor
  · rw [mulStep, UInt64.toNat_shiftRight, hn, Nat.shiftRight_eq_div_pow]
    rfl
  · rw [mulStep, digits, List.map_set, UInt64.toNat_toUInt32, hn]
    rfl

theorem mulRow_carry_lt (b : Operand width) (p : UInt32) (j : Nat) (pn : List UInt32) (m : Nat) :
    (mulRow b p j pn m).2.toNat < 2 ^ 32 := by
  induction m with
  | zero => exact (by decide : (0 : Nat) < 2 ^ 32)
  | succ m ih =>
    have hlt := mulSum_lt (b := b) (p := p) (j := j) (i := m) ih
    rw [mulRow, List.range_succ, List.foldl_append]
    show (mulStep b p j (mulRow b p j pn m) m).2.toNat < 2 ^ 32
    rw [(toNat_mulStep ih).1]
    omega

end

/-- **A row** adds the product with one digit; what it carries out of its last pass is worth `width` digits. -/
theorem ofDigits_mulRow (b : BaseUInt width) (p : UInt32) {j m : Nat} {pn : List UInt32} (hpn : pn.length = width)
    (hm : m + j ≤ width) :
    ofDigits (2 ^ 32) (digits (mulRow (.other b) p j pn m).1) +
        (2 ^ 32) ^ (m + j) * (mulRow (.other b) p j pn m).2.toNat =
      ofDigits (2 ^ 32) (digits pn) + (2 ^ 32) ^ j * (p.toNat * ofDigits (2 ^ 32) ((digits b.pn).take m)) := by
  induction m with
  | zero =>
    show _ + _ * (0 : UInt64).toNat = _
    simp [mulRow]
  | succ m ih =>
    have hrow := ih (by omega)
    have hcarry := mulRow_carry_lt (.other b) p j pn m
    have hstep := toNat_mulStep (b := .other b) (p := p) (j := j) (i := m) hcarry
    have hlen : m + j < (digits (mulRow (.other b) p j pn m).1).length := by
      rw [length_digits, length_mulRow, hpn]
      omega
    have hset := Limbs.ofDigits_set (B := 2 ^ 32) hlen (mulSum (.other b) p j (mulRow (.other b) p j pn m) m % 2 ^ 32)
    have hdigit : (digits (mulRow (.other b) p j pn m).1).getD (m + j) 0 =
        ((mulRow (.other b) p j pn m).1.getD (m + j) 0).toNat := List.getD_map _ 0 UInt32.toNat
    have htake := @Limbs.ofDigits_take_succ (2 ^ 32) (digits b.pn) m (by rw [length_digits, b.length_pn]; omega)
    have hb : (digits b.pn).getD m 0 = (b.pn.getD m 0).toNat := List.getD_map _ 0 UInt32.toNat
    rw [mulRow, List.range_succ, List.foldl_append]
    show ofDigits (2 ^ 32) (digits (mulStep (.other b) p j (mulRow (.other b) p j pn m) m).1) +
      (2 ^ 32) ^ (m + 1 + j) * (mulStep (.other b) p j (mulRow (.other b) p j pn m) m).2.toNat = _
    rw [hstep.1, hstep.2, htake, hb]
    rw [hdigit] at hset
    have hsum : mulSum (.other b) p j (mulRow (.other b) p j pn m) m =
        (mulRow (.other b) p j pn m).2.toNat + ((mulRow (.other b) p j pn m).1.getD (m + j) 0).toNat +
          p.toNat * (b.pn.getD m 0).toNat := rfl
    generalize mulSum (.other b) p j (mulRow (.other b) p j pn m) m = n at hset hsum ⊢
    generalize (mulRow (.other b) p j pn m).2.toNat = carry at hrow hsum ⊢
    generalize (mulRow (.other b) p j pn m).1 = row at hrow hset hsum ⊢
    generalize (row.getD (m + j) 0).toNat = old at hset hsum
    generalize (b.pn.getD m 0).toNat = q at hsum ⊢
    generalize ofDigits (2 ^ 32) (digits row) = r at hrow hset
    generalize ofDigits (2 ^ 32) ((digits row).set (m + j) (n % 2 ^ 32)) = r' at hset ⊢
    have hsplit := Nat.mod_add_div n (2 ^ 32)
    have hpow : (2 ^ 32) ^ (m + 1 + j) = (2 ^ 32) ^ (m + j) * 2 ^ 32 := by rw [Nat.add_right_comm, pow_succ]
    refine Nat.add_right_cancel (m := (2 ^ 32) ^ (m + j) * old) ?_
    calc r' + (2 ^ 32) ^ (m + 1 + j) * (n / 2 ^ 32) + (2 ^ 32) ^ (m + j) * old
        = r' + (2 ^ 32) ^ (m + j) * old + (2 ^ 32) ^ (m + j) * (2 ^ 32 * (n / 2 ^ 32)) := by
          rw [hpow]
          ring
      _ = r + (2 ^ 32) ^ (m + j) * (n % 2 ^ 32 + 2 ^ 32 * (n / 2 ^ 32)) := by
          rw [hset]
          ring
      _ = r + (2 ^ 32) ^ (m + j) * carry + (2 ^ 32) ^ (m + j) * (old + p.toNat * q) := by
          rw [hsplit, hsum]
          ring
      _ = _ := by
          rw [hrow, pow_add]
          ring

theorem pow_digits (n : Nat) : (2 ^ 32) ^ n = 2 ^ (32 * n) :=
  (pow_mul 2 32 n).symm

theorem value_mulRow (b : BaseUInt width) (p : UInt32) {j : Nat} {pn : List UInt32} (hpn : pn.length = width)
    (hj : j ≤ width) :
    ofDigits (2 ^ 32) (digits (mulRow (.other b) p j pn (width - j)).1) =
      (ofDigits (2 ^ 32) (digits pn) + (2 ^ 32) ^ j * (p.toNat * b.value)) % 2 ^ (32 * width) := by
  have hrow := ofDigits_mulRow b p hpn (show width - j + j ≤ width by omega)
  have hlt : ofDigits (2 ^ 32) (digits (mulRow (.other b) p j pn (width - j)).1) < 2 ^ (32 * width) := by
    have hlt := Nat.ofDigits_lt_base_pow_length (show 1 < 2 ^ 32 by decide)
      (@digits_lt (mulRow (.other b) p j pn (width - j)).1)
    rw [length_digits, length_mulRow, hpn, pow_digits] at hlt
    exact hlt
  -- The digits of `b` that the row does not reach.
  have hsplit : b.value = ofDigits (2 ^ 32) ((digits b.pn).take (width - j)) +
      (2 ^ 32) ^ (width - j) * ofDigits (2 ^ 32) ((digits b.pn).drop (width - j)) := by
    have hlen : ((digits b.pn).take (width - j)).length = width - j := by
      rw [List.length_take, length_digits, b.length_pn]
      omega
    have happend := @Nat.ofDigits_append (2 ^ 32) ((digits b.pn).take (width - j)) ((digits b.pn).drop (width - j))
    rw [List.take_append_drop, hlen] at happend
    exact happend
  have hpow : (2 ^ 32) ^ j * (2 ^ 32) ^ (width - j) = 2 ^ (32 * width) := by
    rw [← pow_add, Nat.add_sub_cancel' hj, pow_digits]
  have hsum : ofDigits (2 ^ 32) (digits pn) + (2 ^ 32) ^ j * (p.toNat * b.value) =
      ofDigits (2 ^ 32) (digits (mulRow (.other b) p j pn (width - j)).1) + 2 ^ (32 * width) *
        ((mulRow (.other b) p j pn (width - j)).2.toNat +
          p.toNat * ofDigits (2 ^ 32) ((digits b.pn).drop (width - j))) := by
    rw [Nat.sub_add_cancel hj, pow_digits] at hrow
    rw [hsplit, Nat.mul_add, Nat.mul_add, Nat.mul_add, ← Nat.add_assoc, ← hrow, ← hpow]
    ring
  rw [hsum, Nat.add_mul_mod_self_left, Nat.mod_eq_of_lt hlt]

theorem ofDigits_mulRows (a b : BaseUInt width) {m : Nat} (hm : m ≤ width) :
    ofDigits (2 ^ 32) (digits (mulRows a (.other b) m)) =
      ofDigits (2 ^ 32) ((digits a.pn).take m) * b.value % 2 ^ (32 * width) := by
  induction m with
  | zero =>
    rw [List.take_zero, Nat.ofDigits_nil, Nat.zero_mul, Nat.zero_mod]
    exact value_zero
  | succ m ih =>
    have htake := @Limbs.ofDigits_take_succ (2 ^ 32) (digits a.pn) m (by rw [length_digits, a.length_pn]; omega)
    have ha : (digits a.pn).getD m 0 = (a.pn.getD m 0).toNat := List.getD_map _ 0 UInt32.toNat
    rw [mulRows, List.range_succ, List.foldl_append]
    show ofDigits (2 ^ 32) (digits (mulRow (.other b) (a.pn.getD m 0) m (mulRows a (.other b) m) (width - m)).1) = _
    rw [value_mulRow b _ (length_mulRows a (.other b) m) (by omega), ih (by omega), htake, ha, Nat.mod_add_mod]
    congr 1
    ring

theorem value_mul (a b : BaseUInt width) : (a.mul (.other b)).value = a.value * b.value % 2 ^ (32 * width) := by
  have hrows := ofDigits_mulRows a b (le_refl width)
  rw [List.take_of_length_le (by rw [length_digits, a.length_pn])] at hrows
  exact hrows

/-- **The object times itself.**  `*this` is cleared before it is read through `b`, and stays so. -/
theorem mul_self (a : BaseUInt width) : a.mul .self = zero := by
  have hrow : ∀ (p : UInt32) (j m : Nat),
      mulRow (.self : Operand width) p j (List.replicate width 0) m = (List.replicate width 0, 0) := by
    intro p j m
    induction m with
    | zero => rfl
    | succ m ih =>
      have hzero : ∀ i, (List.replicate width (0 : UInt32)).getD i 0 = 0 := by
        intro i
        rw [List.getD_eq_getElem?_getD, List.getElem?_replicate]
        split_ifs <;> rfl
      have hset : (List.replicate width (0 : UInt32)).set (m + j) 0 = List.replicate width 0 := by
        apply List.ext_getElem?
        intro i
        rw [List.getElem?_set, List.length_replicate, List.getElem?_replicate]
        split_ifs <;> simp_all
      rw [mulRow, List.range_succ, List.foldl_append]
      show mulStep .self p j (mulRow .self p j (List.replicate width 0) m) m = _
      rw [ih, mulStep]
      simp only [Operand.read, hzero]
      rw [show (0 : UInt64) + UInt32.toUInt64 0 + p.toUInt64 * UInt32.toUInt64 0 = 0 by simp]
      exact Prod.ext hset rfl
  have hrows : ∀ m, mulRows a .self m = List.replicate width 0 := by
    intro m
    induction m with
    | zero => rfl
    | succ m ih =>
      rw [mulRows, List.range_succ, List.foldl_append]
      show (mulRow .self (a.pn.getD m 0) m (mulRows a .self m) (width - m)).1 = _
      rw [ih, hrow]
  exact BaseUInt.ext (hrows width)

/-! ## Addition in place -/

/-- A pass of the loop of `operator+=`; digits and carry. -/
def addStep (b : Operand width) (s : List UInt32 × UInt64) (i : Nat) : List UInt32 × UInt64 :=
  let n := s.2 + (s.1.getD i 0).toUInt64 + ((b.read s.1).getD i 0).toUInt64
  (s.1.set i n.toUInt32, n >>> 32)

/-- The loop before its pass `m`. -/
def addRow (a : BaseUInt width) (b : Operand width) (m : Nat) : List UInt32 × UInt64 :=
  (List.range m).foldl (addStep b) (a.pn, 0)

theorem length_addRow (a : BaseUInt width) (b : Operand width) (m : Nat) : (addRow a b m).1.length = width := by
  induction m with
  | zero => exact a.length_pn
  | succ m ih =>
    rw [addRow, List.range_succ, List.foldl_append]
    exact List.length_set.trans ih

/-- `operator+=`. -/
def addAssign (a : BaseUInt width) (b : Operand width) : BaseUInt width where
  pn := (addRow a b width).1
  length_pn := length_addRow a b width

/-- `operator-=`: `*this += -b`. -/
def subAssign (a : BaseUInt width) (b : Operand width) : BaseUInt width :=
  a.addAssign (.other (b.get a).neg)

/-- Each digit of `b` is read before the same digit of `*this` is written. -/
theorem foldl_addStep (b : Operand width) (done rest : List UInt32) (carry : UInt64)
    (hlen : ((b.read (done ++ rest)).drop done.length).length = rest.length) :
    ((List.range' done.length rest.length).foldl (addStep b) (done ++ rest, carry)).1 =
      done ++ addLoop carry rest ((b.read (done ++ rest)).drop done.length) := by
  induction rest generalizing done carry with
  | nil =>
    rw [List.length_nil, List.length_eq_zero_iff] at hlen
    rw [hlen]
    rfl
  | cons p rest ih =>
    cases hdrop : (b.read (done ++ p :: rest)).drop done.length with
    | nil =>
      rw [hdrop] at hlen
      cases hlen
    | cons q qn =>
      have hq : (b.read (done ++ p :: rest)).getD done.length 0 = q := by
        rw [List.getD_eq_getElem?_getD, ← List.head?_drop, hdrop]
        rfl
      have hp : (done ++ p :: rest).getD done.length 0 = p := by simp
      generalize hn : carry + p.toUInt64 + q.toUInt64 = n
      have hset : (done ++ p :: rest).set done.length n.toUInt32 = (done ++ [n.toUInt32]) ++ rest := by simp
      have hstep : addStep b (done ++ p :: rest, carry) done.length = ((done ++ [n.toUInt32]) ++ rest, n >>> 32) := by
        rw [addStep, hp, hq, hn, hset]
      -- What is left to read is the same, whichever object it belongs to.
      have hread : (b.read ((done ++ [n.toUInt32]) ++ rest)).drop (done ++ [n.toUInt32]).length = qn := by
        have htail : (b.read (done ++ p :: rest)).drop (done.length + 1) = qn := by
          rw [← List.drop_drop, hdrop]
          rfl
        rw [List.length_append, List.length_singleton, ← htail]
        cases b with
        | self => simp [Operand.read, List.drop_append]
        | other b => rfl
      have hrest := ih (done ++ [n.toUInt32]) (n >>> 32) (by
        rw [hread]
        rw [hdrop, List.length_cons, List.length_cons] at hlen
        exact Nat.succ.inj hlen)
      rw [hread, List.length_append, List.length_singleton] at hrest
      rw [List.length_cons, List.range'_succ, List.foldl_cons, hstep, hrest, addLoop, hn, List.append_assoc]
      rfl

/-- `a += a` doubles the object, as any other sum is right. -/
theorem addAssign_eq (a : BaseUInt width) (b : Operand width) : a.addAssign b = a.add (b.get a) := by
  have hread : b.read a.pn = (b.get a).pn := by
    cases b <;> rfl
  have hloop := foldl_addStep b [] a.pn 0 (by
    rw [List.nil_append, List.length_nil, List.drop_zero, hread, (b.get a).length_pn, a.length_pn])
  rw [List.nil_append, List.length_nil, List.drop_zero, hread, ← List.range_eq_range', a.length_pn] at hloop
  exact BaseUInt.ext hloop

/-- The sum of the pass `i`. -/
def addSum (b : Operand width) (s : List UInt32 × UInt64) (i : Nat) : Nat :=
  s.2.toNat + (s.1.getD i 0).toNat + ((b.read s.1).getD i 0).toNat

theorem addSum_lt {b : Operand width} {s : List UInt32 × UInt64} (hcarry : s.2.toNat ≤ 1) (i : Nat) :
    addSum b s i < 2 ^ 33 := by
  have hdigit := (s.1.getD i 0).toNat_lt
  have hother := ((b.read s.1).getD i 0).toNat_lt
  rw [addSum]
  omega

theorem addRow_carry_le (a : BaseUInt width) (b : Operand width) (m : Nat) : (addRow a b m).2.toNat ≤ 1 := by
  induction m with
  | zero => exact Nat.zero_le 1
  | succ m ih =>
    have hlt := addSum_lt (b := b) ih m
    generalize hs : addRow a b m = s at ih hlt
    have hn : (s.2 + (s.1.getD m 0).toUInt64 + ((b.read s.1).getD m 0).toUInt64).toNat = addSum b s m := by
      rw [addSum] at hlt ⊢
      rw [UInt64.toNat_add, UInt64.toNat_add, UInt32.toNat_toUInt64, UInt32.toNat_toUInt64]
      omega
    rw [addRow, List.range_succ, List.foldl_append]
    show (addStep b (addRow a b m) m).2.toNat ≤ 1
    rw [hs, addStep, UInt64.toNat_shiftRight, hn, Nat.shiftRight_eq_div_pow]
    exact Nat.le_of_lt_succ (Nat.div_lt_of_lt_mul hlt)

/-! ## Subtraction -/

theorem value_sub_mod (a b : BaseUInt width) :
    ((a.sub b).value : Int) = ((a.value : Int) - b.value) % 2 ^ (32 * width) := by
  have hb := b.value_lt
  have hdiff : (a.value : Int) - b.value + 2 ^ (32 * width) = ((a.value + (2 ^ (32 * width) - b.value) : Nat) : Int) := by
    push_cast [Nat.cast_sub hb.le]
    ring
  rw [sub, value_add, value_neg, Nat.add_mod_mod, ← Int.add_emod_right, hdiff]
  push_cast
  rfl

theorem value_neg_mod (a : BaseUInt width) : (a.neg.value : Int) = -(a.value : Int) % 2 ^ (32 * width) := by
  have ha := a.value_lt
  have hdiff : -(a.value : Int) + 2 ^ (32 * width) = ((2 ^ (32 * width) - a.value : Nat) : Int) := by
    push_cast [Nat.cast_sub ha.le]
    ring
  rw [value_neg, ← Int.add_emod_right, hdiff]
  push_cast
  rfl

/-- `operator--`. -/
def decrLoop : List UInt32 → List UInt32
  | [] => []
  | p :: pn => if p - 1 = 0xffffffff then (p - 1) :: decrLoop pn else (p - 1) :: pn

theorem length_decrLoop (pn : List UInt32) : (decrLoop pn).length = pn.length := by
  induction pn with
  | nil => rfl
  | cons p pn ih =>
    rw [decrLoop]
    split_ifs
    · rw [List.length_cons, ih, List.length_cons]
    · rfl

theorem incrLoop_decrLoop (pn : List UInt32) : incrLoop (decrLoop pn) = pn := by
  induction pn with
  | nil => rfl
  | cons p pn ih =>
    have hback : p - 1 + 1 = p := UInt32.sub_add_cancel p 1
    rw [decrLoop]
    split_ifs with hborrow
    · -- The digit was zero, and it is the one that carries on the way back.
      have hzero : p = 0 := by
        rw [← hback, hborrow]
        rfl
      rw [incrLoop, hback, if_pos hzero, ih]
    · have hne : p ≠ 0 := by
        rintro rfl
        exact hborrow rfl
      rw [incrLoop, hback, if_neg hne]

def decr (a : BaseUInt width) : BaseUInt width where
  pn := decrLoop a.pn
  length_pn := (length_decrLoop a.pn).trans a.length_pn

theorem value_decr (a : BaseUInt width) : (a.decr.value : Int) = ((a.value : Int) - 1) % 2 ^ (32 * width) := by
  have hback : a.decr.incr = a := BaseUInt.ext (incrLoop_decrLoop a.pn)
  have hvalue := value_incr a.decr
  have hlt := a.decr.value_lt
  rw [hback] at hvalue
  rw [hvalue]
  push_cast
  rw [Int.emod_sub_emod, Int.add_sub_cancel]
  refine (Int.emod_eq_of_lt (Int.natCast_nonneg _) ?_).symm
  exact_mod_cast hlt

/-! ## All of them -/

/-- The sums of the loop of `operator*=` on a 32-bit factor. -/
def mulSums (b32 : UInt32) (carry : UInt64) : List UInt32 → List Nat
  | [] => []
  | p :: pn =>
    (carry.toNat + b32.toNat * p.toNat) :: mulSums b32 ((carry + b32.toUInt64 * p.toUInt64) >>> 32) pn

theorem mulSums_lt (b32 : UInt32) {carry : UInt64} (hcarry : carry.toNat < 2 ^ 32) (pn : List UInt32) :
    ∀ n ∈ mulSums b32 carry pn, n < 2 ^ 64 := by
  induction pn generalizing carry with
  | nil => exact fun _ h => absurd h List.not_mem_nil
  | cons p pn ih =>
    have hprod : b32.toNat * p.toNat ≤ (2 ^ 32 - 1) * (2 ^ 32 - 1) :=
      Nat.mul_le_mul (Nat.le_sub_one_of_lt b32.toNat_lt) (Nat.le_sub_one_of_lt p.toNat_lt)
    have hnext : ((carry + b32.toUInt64 * p.toUInt64) >>> 32).toNat < 2 ^ 32 := by
      have hlt := (carry + b32.toUInt64 * p.toUInt64).toNat_lt
      rw [UInt64.toNat_shiftRight, Nat.shiftRight_eq_div_pow]
      exact Nat.div_lt_of_lt_mul hlt
    rw [mulSums, List.forall_mem_cons]
    exact ⟨by omega, ih hnext⟩

/-- **The operators compute like the integers**, modulo `2 ^ BITS`, and none of the 64-bit sums overflows. -/
structure ComputesLikeIntegers (a : BaseUInt width) (b : Operand width) (b64 : UInt64) (b32 : UInt32) (shift : Nat) :
    Prop where
  add : ((a.addAssign b).value : Int) = ((a.value : Int) + (b.get a).value) % 2 ^ (32 * width)
  addUInt64 : ((a.addAssign (.other (ofUInt64 b64))).value : Int) = ((a.value : Int) + b64.toNat) % 2 ^ (32 * width)
  sub : ((a.subAssign b).value : Int) = ((a.value : Int) - (b.get a).value) % 2 ^ (32 * width)
  subUInt64 : ((a.subAssign (.other (ofUInt64 b64))).value : Int) = ((a.value : Int) - b64.toNat) % 2 ^ (32 * width)
  mul32 : ((a.mul32 b32).value : Int) = ((a.value : Int) * b32.toNat) % 2 ^ (32 * width)
  mul : ((a.mul b).value : Int) = ((a.value : Int) * (b.get a).value) % 2 ^ (32 * width)
  shl : ((a.shl shift).value : Int) = ((a.value : Int) * 2 ^ shift) % 2 ^ (32 * width)
  shr : ((a.shr shift).value : Int) = (a.value : Int) / 2 ^ shift
  neg : (a.neg.value : Int) = -(a.value : Int) % 2 ^ (32 * width)
  incr : (a.incr.value : Int) = ((a.value : Int) + 1) % 2 ^ (32 * width)
  decr : (a.decr.value : Int) = ((a.value : Int) - 1) % 2 ^ (32 * width)
  div : (b.get a).value ≠ 0 → ∃ c, a.div (b.get a) = .ok c ∧ (c.value : Int) = (a.value : Int) / (b.get a).value
  div_zero : (b.get a).value = 0 → a.div (b.get a) = .error "Division by zero"
  compareTo : a.compareTo (b.get a) = compare a.value (b.get a).value
  bits : a.bits = a.value.size
  addSums : ∀ i, addSum b (a.addRow b i) i < 2 ^ 64
  mul32Sums : ∀ n ∈ mulSums b32 0 a.pn, n < 2 ^ 64
  mulRowSums : ∀ j i, mulSum b (a.pn.getD j 0) j (mulRow b (a.pn.getD j 0) j (a.mulRows b j) i) i < 2 ^ 64

theorem computesLikeIntegers_iff (hwidth : 2 ≤ width) (a : BaseUInt width) (b : Operand width) (b64 : UInt64)
    (b32 : UInt32) (shift : Nat) :
    ComputesLikeIntegers a b b64 b32 shift ↔ (b = .self → a.value ^ 2 % 2 ^ (32 * width) = 0) := by
  constructor
  · rintro h rfl
    have hmul := h.mul
    rw [mul_self, value_zero] at hmul
    have hsquare : ((a.value ^ 2 % 2 ^ (32 * width) : Nat) : Int) = 0 := by
      push_cast
      rw [sq]
      exact hmul.symm
    exact_mod_cast hsquare
  · intro hself
    have hadd : ∀ c : Operand width,
        ((a.addAssign c).value : Int) = ((a.value : Int) + (c.get a).value) % 2 ^ (32 * width) := by
      intro c
      rw [addAssign_eq, value_add]
      push_cast
      rfl
    have hsub : ∀ c : Operand width,
        ((a.subAssign c).value : Int) = ((a.value : Int) - (c.get a).value) % 2 ^ (32 * width) := by
      intro c
      have heq : a.subAssign c = a.sub (c.get a) := addAssign_eq a _
      rw [heq, value_sub_mod]
    have h64 : (ofUInt64 b64 : BaseUInt width).value = b64.toNat := value_ofUInt64 hwidth b64
    have hmul : ((a.mul b).value : Int) = ((a.value : Int) * (b.get a).value) % 2 ^ (32 * width) := by
      cases b with
      | self =>
        have hzero := hself rfl
        have hcast : ((a.value : Int) * a.value) % 2 ^ (32 * width) = 0 := by
          rw [← sq]
          exact_mod_cast hzero
        rw [mul_self, value_zero]
        exact hcast.symm
      | other b =>
        rw [value_mul]
        push_cast
        rfl
    exact {
      add := hadd b
      addUInt64 := by
        rw [hadd, ← h64]
        rfl
      sub := hsub b
      subUInt64 := by
        rw [hsub, ← h64]
        rfl
      mul32 := by
        rw [value_mul32, Nat.mul_comm]
        push_cast
        rfl
      mul := hmul
      shl := by
        rw [value_shl]
        push_cast
        rfl
      shr := by
        rw [value_shr]
        push_cast
        rfl
      neg := value_neg_mod a
      incr := by
        rw [value_incr]
        push_cast
        rfl
      decr := value_decr a
      div := by
        intro hne
        rcases div_spec a hne with ⟨c, hc, hvalue⟩
        refine ⟨c, hc, ?_⟩
        rw [hvalue]
        push_cast
        rfl
      div_zero := div_zero a
      compareTo := compareTo_eq a _
      bits := bits_eq_size a
      addSums := fun i => lt_trans (addSum_lt (addRow_carry_le a b i) i) (by decide)
      mul32Sums := mulSums_lt b32 (by decide) a.pn
      mulRowSums := fun j i => mulSum_lt (mulRow_carry_lt b _ j _ i) }

theorem computesLikeIntegers_iff_sizes :
    ComputesLikeIntegers (ofUInt64 3 : BaseUInt 5) (.other (ofUInt64 5)) 7 9 200 ∧
      ComputesLikeIntegers (ofUInt64 3 : BaseUInt 8) (.other (ofUInt64 5)) 7 9 200 :=
  ⟨(computesLikeIntegers_iff (by decide) _ _ _ _ _).2 (fun h => nomatch h),
    (computesLikeIntegers_iff (by decide) _ _ _ _ _).2 (fun h => nomatch h)⟩

/-- `x *= x` for the number three. -/
theorem mulAssign_three :
    ((ofUInt64 3 : BaseUInt 8).mul .self).value = 0 ∧ ((ofUInt64 3 : BaseUInt 8).mul (.other (ofUInt64 3))).value = 9 ∧
      ¬ ∀ (a : BaseUInt 8) (b : Operand 8) (b64 : UInt64) (b32 : UInt32) (shift : Nat),
        ComputesLikeIntegers a b b64 b32 shift := by
  have hthree : (ofUInt64 3 : BaseUInt 8).value = 3 := value_ofUInt64 (by decide) 3
  refine ⟨by rw [mul_self, value_zero], by rw [value_mul, hthree]; rfl, fun hall => ?_⟩
  have hmul := (hall (ofUInt64 3) .self 0 0 0).mul
  rw [mul_self, value_zero, Operand.get, hthree] at hmul
  revert hmul
  decide

/-! ## Bit vectors -/

/-- The `uint256` that the digits stand for. -/
def toUInt256 (a : BaseUInt 8) : UInt256 :=
  BitVec.ofNat 256 a.value

theorem toNat_toUInt256 (a : BaseUInt 8) : (toUInt256 a).toNat = a.value :=
  (BitVec.toNat_ofNat _ _).trans (Nat.mod_eq_of_lt a.value_lt)

theorem toUInt256_eq_iff {a : BaseUInt 8} {x : UInt256} : toUInt256 a = x ↔ a.value = x.toNat := by
  rw [← toNat_toUInt256, BitVec.toNat_inj]

end BaseUInt
end Dobbscoin
