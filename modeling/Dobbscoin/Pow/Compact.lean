import Dobbscoin.Primitives.Transaction
import Mathlib.Data.Nat.Bitwise

/-!
# Compact targets

`uint256::SetCompact` and `uint256::GetCompact`: the 32-bit floating point format of `nBits`, a
size byte over a 23-bit mantissa with a sign bit between them.

Encoding truncates.  `setCompact_getCompact` says exactly how: the low `8 * q` bits are dropped,
where `q = 0` or the number has between `16 + 8 * q` and `24 + 8 * q` bits.
-/

namespace Dobbscoin

/-- `base_uint::bits`: the bit length. -/
def UInt256.bits (x : UInt256) : Nat :=
  if x.toNat = 0 then 0 else x.toNat.log2 + 1

/-- `SetCompact`; the sign and overflow flags are `compactNegative` and `compactOverflow`. -/
def setCompact (nCompact : UInt32) : UInt256 :=
  let nSize := nCompact.toNat >>> 24
  let nWord := nCompact.toNat &&& 0x007fffff
  if nSize ≤ 3 then BitVec.ofNat 256 (nWord >>> (8 * (3 - nSize)))
  else BitVec.ofNat 256 nWord <<< (8 * (nSize - 3))

/-- The mantissa as `SetCompact` leaves it in `nWord`. -/
def compactWord (nCompact : UInt32) : Nat :=
  let nSize := nCompact.toNat >>> 24
  let nWord := nCompact.toNat &&& 0x007fffff
  if nSize ≤ 3 then nWord >>> (8 * (3 - nSize)) else nWord

def compactNegative (nCompact : UInt32) : Bool :=
  compactWord nCompact != 0 && nCompact.toNat &&& 0x00800000 != 0

def compactOverflow (nCompact : UInt32) : Bool :=
  let nSize := nCompact.toNat >>> 24
  compactWord nCompact != 0 &&
    (nSize > 34 || compactWord nCompact > 0xff && nSize > 33 ||
      compactWord nCompact > 0xffff && nSize > 32)

/-- The mantissa and the size byte that `GetCompact` packs. -/
def compactParts (x : UInt256) : Nat × Nat :=
  let nSize := (UInt256.bits x + 7) / 8
  let nCompact :=
    if nSize ≤ 3 then x.toNat <<< (8 * (3 - nSize)) else x.toNat >>> (8 * (nSize - 3))
  -- The 0x00800000 bit denotes the sign: move the mantissa out of its way.
  if nCompact &&& 0x00800000 ≠ 0 then (nCompact >>> 8, nSize + 1) else (nCompact, nSize)

/-- `GetCompact`, for a positive number. -/
def getCompact (x : UInt256) : UInt32 :=
  UInt32.ofNat ((compactParts x).1 ||| (compactParts x).2 <<< 24)

/-! ## Unpacking what was packed -/

theorem pack_spec {m s : Nat} (hm : m < 2 ^ 23) (hs : s < 256) :
    (UInt32.ofNat (m ||| s <<< 24)).toNat = s * 2 ^ 24 + m ∧ (s * 2 ^ 24 + m) >>> 24 = s ∧
      (s * 2 ^ 24 + m) &&& 0x007fffff = m := by
  have hor : m ||| s <<< 24 = s * 2 ^ 24 + m := by
    have hadd := Nat.shiftLeft_add_eq_or_of_lt (show m < 2 ^ 24 by omega) s
    rw [Nat.or_comm, ← hadd, Nat.shiftLeft_eq]
  have hval : (UInt32.ofNat (m ||| s <<< 24)).toNat = s * 2 ^ 24 + m := by
    rw [hor]
    simpa using Nat.mod_eq_of_lt (show s * 2 ^ 24 + m < 2 ^ 32 by omega)
  have hsize : (s * 2 ^ 24 + m) >>> 24 = s := by
    rw [Nat.shiftRight_eq_div_pow]
    omega
  have hword : (s * 2 ^ 24 + m) &&& 0x007fffff = m := by
    have hmask : (s * 2 ^ 24 + m) &&& 0x007fffff = (s * 2 ^ 24 + m) % 2 ^ 23 :=
      Nat.and_two_pow_sub_one_eq_mod _ 23
    omega
  exact ⟨hval, hsize, hword⟩

theorem setCompact_pack {m s : Nat} (hm : m < 2 ^ 23) (hs : s < 256) :
    setCompact (UInt32.ofNat (m ||| s <<< 24)) =
      if s ≤ 3 then BitVec.ofNat 256 (m >>> (8 * (3 - s)))
      else BitVec.ofNat 256 m <<< (8 * (s - 3)) := by
  rcases pack_spec hm hs with ⟨hval, hsize, hword⟩
  unfold setCompact
  simp only [hval, hsize, hword]

/-- The sign bit of a 24-bit number is its top bit. -/
theorem and_signBit {m : Nat} (hm : m < 2 ^ 24) : m &&& 0x00800000 ≠ 0 ↔ 2 ^ 23 ≤ m := by
  have hmask : m &&& 0x00800000 = (m.testBit 23).toNat * 2 ^ 23 := Nat.and_two_pow m 23
  have hbit : m.testBit 23 = decide (m / 2 ^ 23 % 2 = 1) := Nat.testBit_eq_decide_div_mod_eq
  by_cases hle : 2 ^ 23 ≤ m
  · have hdiv : m / 2 ^ 23 % 2 = 1 := by omega
    simp only [hdiv, decide_true] at hbit
    simpa [hmask, hbit] using hle
  · have hdiv : ¬ m / 2 ^ 23 % 2 = 1 := by omega
    simp only [hdiv, decide_false] at hbit
    simpa [hmask, hbit] using hle

theorem byteSize_bounds {x : UInt256} (hx : x.toNat ≠ 0) :
    let s := (UInt256.bits x + 7) / 8
    0 < s ∧ s ≤ 32 ∧ 2 ^ (8 * (s - 1)) ≤ x.toNat ∧ x.toNat < 2 ^ (8 * s) := by
  intro s
  have hbits : UInt256.bits x = x.toNat.log2 + 1 := by simp [UInt256.bits, hx]
  have hlog : x.toNat.log2 < 256 := (Nat.log2_lt hx).2 x.isLt
  have hs : s = (x.toNat.log2 + 1 + 7) / 8 := by simp only [s, hbits]
  refine ⟨by omega, by omega, ?_, ?_⟩
  · exact (Nat.le_log2 hx).1 (by omega)
  · exact (Nat.log2_lt hx).1 (by omega)

/-! ## What encoding keeps -/

/-- Dropping the low `k` bits, as a number. -/
theorem toNat_shiftRight_shiftLeft (x : UInt256) (k : Nat) :
    (BitVec.ofNat 256 (x.toNat >>> k) <<< k).toNat = x.toNat / 2 ^ k * 2 ^ k := by
  have hle : x.toNat / 2 ^ k * 2 ^ k ≤ x.toNat := Nat.div_mul_le_self _ _
  have hdiv : x.toNat / 2 ^ k ≤ x.toNat := Nat.div_le_self _ _
  have hlt : x.toNat < 2 ^ 256 := x.isLt
  rw [BitVec.toNat_shiftLeft, BitVec.toNat_ofNat, Nat.shiftRight_eq_div_pow, Nat.shiftLeft_eq,
    Nat.mod_eq_of_lt (show x.toNat / 2 ^ k < 2 ^ 256 by omega),
    Nat.mod_eq_of_lt (show x.toNat / 2 ^ k * 2 ^ k < 2 ^ 256 by omega)]

/-- The mantissa `GetCompact` starts from, before the sign bit is looked at. -/
def compactMantissa (x : UInt256) (nSize : Nat) : Nat :=
  if nSize ≤ 3 then x.toNat <<< (8 * (3 - nSize)) else x.toNat >>> (8 * (nSize - 3))

theorem compactMantissa_lt {x : UInt256} {s : Nat} (hs : x.toNat < 2 ^ (8 * s)) :
    compactMantissa x s < 2 ^ 24 := by
  unfold compactMantissa
  by_cases hle : s ≤ 3
  · have hpow : (2 : Nat) ^ (8 * s) * 2 ^ (8 * (3 - s)) = 2 ^ 24 := by
      rw [← pow_add]
      congr 1
      omega
    simp only [hle, if_true, Nat.shiftLeft_eq]
    calc x.toNat * 2 ^ (8 * (3 - s))
        < 2 ^ (8 * s) * 2 ^ (8 * (3 - s)) := Nat.mul_lt_mul_of_pos_right hs (Nat.two_pow_pos _)
      _ = 2 ^ 24 := hpow
  · have hpow : (2 : Nat) ^ (8 * s) = 2 ^ 24 * 2 ^ (8 * (s - 3)) := by
      rw [← pow_add]
      congr 1
      omega
    simp only [hle, if_false, Nat.shiftRight_eq_div_pow]
    exact Nat.div_lt_of_lt_mul (by rw [Nat.mul_comm, ← hpow]; exact hs)

theorem compactMantissa_large {x : UInt256} {s : Nat} (hs : 3 < s)
    (hge : 2 ^ 23 ≤ compactMantissa x s) : 2 ^ (23 + 8 * (s - 3)) ≤ x.toNat := by
  have hle : ¬ s ≤ 3 := by omega
  simp only [compactMantissa, hle, if_false, Nat.shiftRight_eq_div_pow] at hge
  have hmul := (Nat.le_div_iff_mul_le (Nat.two_pow_pos _)).1 hge
  simpa [pow_add] using hmul

/-- Unpacking a mantissa that did not reach the sign bit. -/
theorem setCompact_mantissa {x : UInt256} {s : Nat} (hs : s < 256)
    (hlt : compactMantissa x s < 2 ^ 23) :
    (setCompact (UInt32.ofNat (compactMantissa x s ||| s <<< 24))).toNat =
      if s ≤ 3 then x.toNat else x.toNat / 2 ^ (8 * (s - 3)) * 2 ^ (8 * (s - 3)) := by
  rw [setCompact_pack hlt hs]
  by_cases hle : s ≤ 3
  · simp [compactMantissa, hle, Nat.shiftLeft_shiftRight]
  · simp only [hle, if_false]
    have hmant : compactMantissa x s = x.toNat >>> (8 * (s - 3)) := by
      simp [compactMantissa, hle]
    rw [hmant]
    exact toNat_shiftRight_shiftLeft x _

/-- Unpacking a mantissa that was moved down a byte out of the sign bit's way. -/
theorem setCompact_mantissa_moved {x : UInt256} {s : Nat} (hs : s + 1 < 256)
    (hlt : compactMantissa x s < 2 ^ 24) :
    (setCompact (UInt32.ofNat (compactMantissa x s >>> 8 ||| (s + 1) <<< 24))).toNat =
      if s ≤ 2 then x.toNat else x.toNat / 2 ^ (8 * (s - 2)) * 2 ^ (8 * (s - 2)) := by
  have hm : compactMantissa x s >>> 8 < 2 ^ 23 := by
    rw [Nat.shiftRight_eq_div_pow]
    omega
  rw [setCompact_pack hm hs]
  by_cases hle : s ≤ 2
  · have hle' : s + 1 ≤ 3 := by omega
    have hle3 : s ≤ 3 := by omega
    have hshift : compactMantissa x s >>> 8 >>> (8 * (3 - (s + 1))) = x.toNat := by
      have hk : 8 + 8 * (3 - (s + 1)) = 8 * (3 - s) := by omega
      rw [← Nat.shiftRight_add, hk]
      simp [compactMantissa, hle3, Nat.shiftLeft_shiftRight]
    simp only [hle, hle', if_true, hshift, BitVec.ofNat_toNat, BitVec.setWidth_eq]
  · have hle' : ¬ s + 1 ≤ 3 := by omega
    have hk : s + 1 - 3 = s - 2 := by omega
    have hmant : compactMantissa x s >>> 8 = x.toNat >>> (8 * (s - 2)) := by
      -- Size 3 is the one size where the mantissa is the whole number and still too large.
      rcases Nat.lt_or_ge 3 s with hgt | hge
      · have hle3 : ¬ s ≤ 3 := by omega
        have hsum : 8 * (s - 3) + 8 = 8 * (s - 2) := by omega
        simp only [compactMantissa, hle3, if_false]
        rw [← Nat.shiftRight_add, hsum]
      · have hs3 : s = 3 := by omega
        subst hs3
        simp [compactMantissa]
    simp only [hle, hle', if_false, hk, hmant]
    exact toNat_shiftRight_shiftLeft x _

/-- **The rounding of `nBits`.**  Decoding an encoded number gives the number with its low
`8 * q` bits dropped; at most 23 bits stay, and at least 16 when any are dropped. -/
theorem setCompact_getCompact_bits (x : UInt256) :
    ∃ q, (setCompact (getCompact x)).toNat = x.toNat / 2 ^ (8 * q) * 2 ^ (8 * q) ∧
      x.toNat < 2 ^ (23 + 8 * q) ∧ (q = 0 ∨ 2 ^ (15 + 8 * q) ≤ x.toNat) := by
  by_cases hx : x.toNat = 0
  · have hzero : x = 0 := BitVec.eq_of_toNat_eq hx
    subst hzero
    exact ⟨0, by decide, by decide, Or.inl rfl⟩
  have hsize := byteSize_bounds hx
  have hpack : getCompact x = UInt32.ofNat ((compactParts x).1 ||| (compactParts x).2 <<< 24) :=
    rfl
  have hparts : compactParts x =
      if compactMantissa x ((UInt256.bits x + 7) / 8) &&& 0x00800000 ≠ 0 then
        (compactMantissa x ((UInt256.bits x + 7) / 8) >>> 8, (UInt256.bits x + 7) / 8 + 1)
      else (compactMantissa x ((UInt256.bits x + 7) / 8), (UInt256.bits x + 7) / 8) := rfl
  rw [hpack, hparts]
  generalize (UInt256.bits x + 7) / 8 = s at hsize
  rcases hsize with ⟨hpos, hs, hlo, hhi⟩
  have hlt := compactMantissa_lt hhi
  by_cases hsign : compactMantissa x s &&& 0x00800000 ≠ 0
  · have hge : 2 ^ 23 ≤ compactMantissa x s := (and_signBit hlt).1 hsign
    rw [if_pos hsign, setCompact_mantissa_moved (by omega) hlt]
    rcases Nat.lt_or_ge 2 s with hgt | hle
    · -- A byte more than the mantissa holds is dropped.
      have hnle : ¬ s ≤ 2 := by omega
      refine ⟨s - 2, by simp [hnle], ?_, Or.inr ?_⟩
      · exact lt_of_lt_of_le hhi (Nat.pow_le_pow_right (by decide) (by omega))
      · rcases Nat.lt_or_ge 3 s with hgt3 | hle3
        · have hexp : 15 + 8 * (s - 2) = 23 + 8 * (s - 3) := by omega
          rw [hexp]
          exact compactMantissa_large hgt3 hge
        · have hs3 : s = 3 := by omega
          subst hs3
          simpa [compactMantissa] using hge
    · have hwide : x.toNat < 2 ^ 23 :=
        lt_of_lt_of_le hhi (Nat.pow_le_pow_right (by decide) (by omega))
      exact ⟨0, by simp [hle], hwide, Or.inl rfl⟩
  · have hsmall : compactMantissa x s < 2 ^ 23 := by
      by_contra hge
      exact hsign ((and_signBit hlt).2 (by omega))
    rw [if_neg hsign, setCompact_mantissa (by omega) hsmall]
    rcases Nat.lt_or_ge 3 s with hgt | hle
    · have hnle : ¬ s ≤ 3 := by omega
      refine ⟨s - 3, by simp [hnle], ?_, Or.inr ?_⟩
      · simp only [compactMantissa, hnle, if_false, Nat.shiftRight_eq_div_pow] at hsmall
        rw [pow_add]
        exact (Nat.div_lt_iff_lt_mul (Nat.two_pow_pos _)).1 hsmall
      · exact le_trans (Nat.pow_le_pow_right (by decide) (by omega)) hlo
    · have hwide : x.toNat < 2 ^ 23 := by
        simp only [compactMantissa, hle, if_true, Nat.shiftLeft_eq] at hsmall
        exact lt_of_le_of_lt (Nat.le_mul_of_pos_right _ (Nat.two_pow_pos _)) hsmall
      exact ⟨0, by simp [hle], hwide, Or.inl rfl⟩

theorem setCompact_getCompact (x : UInt256) :
    ∃ q, (setCompact (getCompact x)).toNat = x.toNat / 2 ^ (8 * q) * 2 ^ (8 * q) ∧
      x.toNat < 2 ^ (24 + 8 * q) ∧ (q = 0 ∨ 2 ^ (15 + 8 * q) ≤ x.toNat) := by
  rcases setCompact_getCompact_bits x with ⟨q, hq, hwide, hlarge⟩
  exact ⟨q, hq, lt_of_lt_of_le hwide (Nat.pow_le_pow_right (by decide) (by omega)), hlarge⟩

/-- Encoding keeps the order: the bits it drops are settled by the length of the number. -/
theorem setCompact_getCompact_mono {x y : UInt256} (hxy : x.toNat ≤ y.toNat) :
    (setCompact (getCompact x)).toNat ≤ (setCompact (getCompact y)).toNat := by
  rcases setCompact_getCompact_bits x with ⟨q, hq, hwide, hlarge⟩
  rcases setCompact_getCompact_bits y with ⟨r, hr, hwide', hlarge'⟩
  rw [hq, hr]
  rcases Nat.lt_trichotomy q r with hlt | rfl | hgt
  · -- The longer number keeps a leading bit that the shorter one does not reach.
    have hexp : 2 ^ (15 + 8 * r) = 2 ^ 15 * 2 ^ (8 * r) := pow_add 2 15 (8 * r)
    have hlead : 2 ^ 15 * 2 ^ (8 * r) ≤ y.toNat := by
      rw [← hexp]
      exact hlarge'.resolve_left (by omega)
    calc x.toNat / 2 ^ (8 * q) * 2 ^ (8 * q) ≤ x.toNat := Nat.div_mul_le_self _ _
      _ ≤ 2 ^ (15 + 8 * r) := Nat.le_of_lt (lt_of_lt_of_le hwide (Nat.pow_le_pow_right (by decide) (by omega)))
      _ = 2 ^ 15 * 2 ^ (8 * r) := hexp
      _ ≤ y.toNat / 2 ^ (8 * r) * 2 ^ (8 * r) :=
        Nat.mul_le_mul_right _ ((Nat.le_div_iff_mul_le (Nat.two_pow_pos _)).2 hlead)
  · exact Nat.mul_le_mul_right _ (Nat.div_le_div_right hxy)
  · have hlead : 2 ^ (15 + 8 * q) ≤ x.toNat := hlarge.resolve_left (by omega)
    have hle : 2 ^ (23 + 8 * r) ≤ 2 ^ (15 + 8 * q) := Nat.pow_le_pow_right (by decide) (by omega)
    omega

/-- Encoding never makes a number larger. -/
theorem setCompact_getCompact_le (x : UInt256) : (setCompact (getCompact x)).toNat ≤ x.toNat := by
  rcases setCompact_getCompact x with ⟨q, hq, -⟩
  rw [hq]
  exact Nat.div_mul_le_self _ _

/-- What encoding loses is less than one part in `2 ^ 15`. -/
theorem lt_setCompact_getCompact (x : UInt256) :
    2 ^ 15 * x.toNat ≤ 2 ^ 15 * (setCompact (getCompact x)).toNat + x.toNat := by
  rcases setCompact_getCompact x with ⟨q, hq, -, hsmall⟩
  rw [hq]
  rcases hsmall with rfl | hlarge
  · simp
  · have hsplit : x.toNat = 2 ^ (8 * q) * (x.toNat / 2 ^ (8 * q)) + x.toNat % 2 ^ (8 * q) :=
      (Nat.div_add_mod _ _).symm
    have hrest : x.toNat % 2 ^ (8 * q) < 2 ^ (8 * q) := Nat.mod_lt _ (Nat.two_pow_pos _)
    have hulp : 2 ^ 15 * 2 ^ (8 * q) ≤ x.toNat := by simpa [pow_add] using hlarge
    have hcomm : x.toNat / 2 ^ (8 * q) * 2 ^ (8 * q) = 2 ^ (8 * q) * (x.toNat / 2 ^ (8 * q)) :=
      Nat.mul_comm _ _
    omega

end Dobbscoin
