import Dobbscoin.Pow.TargetLimbs
import Mathlib.Algebra.Order.Floor.Semifield
import Mathlib.Data.Rat.Floor

/-!
# The format of compact targets

What the 32 bits of `nBits` stand for, what encoding a number loses, and the second implementation of both
directions, on OpenSSL's numbers.
-/

namespace Dobbscoin

variable {nCompact : UInt32}

/-- The size byte. -/
def compactSize (nCompact : UInt32) : Nat :=
  nCompact.toNat >>> 24

/-- The low 23 bits. -/
def compactDigits (nCompact : UInt32) : Nat :=
  nCompact.toNat &&& 0x007fffff

/-- The number that a compact target without sign denotes. -/
def compactRational (nCompact : UInt32) : ℚ :=
  compactDigits nCompact * 256 ^ ((compactSize nCompact : ℤ) - 3)

theorem compactDigits_lt (nCompact : UInt32) : compactDigits nCompact < 2 ^ 23 :=
  Nat.lt_of_le_of_lt Nat.and_le_right (by decide)

/-! ## Decoding -/

theorem compactRational_of_le (hsize : 3 ≤ compactSize nCompact) :
    compactRational nCompact = (compactDigits nCompact * 2 ^ (8 * (compactSize nCompact - 3)) : ℕ) := by
  have hexp : (compactSize nCompact : ℤ) - 3 = ((compactSize nCompact - 3 : ℕ) : ℤ) := by omega
  rw [compactRational, hexp, zpow_natCast, pow_mul]
  push_cast
  norm_num

theorem compactRational_of_lt (hsize : compactSize nCompact ≤ 3) :
    compactRational nCompact = compactDigits nCompact / (2 ^ (8 * (3 - compactSize nCompact)) : ℕ) := by
  have hexp : (compactSize nCompact : ℤ) - 3 = -((3 - compactSize nCompact : ℕ) : ℤ) := by omega
  rw [compactRational, hexp, zpow_neg, zpow_natCast, pow_mul, div_eq_mul_inv]
  push_cast
  norm_num

/-- A size of at most 3 truncates the digits. -/
theorem setCompact_small (hsize : compactSize nCompact ≤ 3) :
    (setCompact nCompact).toNat = compactDigits nCompact / 2 ^ (8 * (3 - compactSize nCompact)) := by
  have hdigits := compactDigits_lt nCompact
  unfold compactSize at hsize ⊢
  unfold compactDigits at hdigits ⊢
  rw [setCompact]
  simp only [hsize, if_true]
  rw [BitVec.toNat_ofNat, Nat.shiftRight_eq_div_pow]
  apply Nat.mod_eq_of_lt
  calc (nCompact.toNat &&& 0x007fffff) / 2 ^ (8 * (3 - nCompact.toNat >>> 24))
      ≤ nCompact.toNat &&& 0x007fffff := Nat.div_le_self _ _
    _ < 2 ^ 256 := lt_trans hdigits (by decide)

/-- A larger one shifts them up, and what does not fit is lost. -/
theorem setCompact_large (hsize : 3 < compactSize nCompact) :
    (setCompact nCompact).toNat =
      compactDigits nCompact * 2 ^ (8 * (compactSize nCompact - 3)) % 2 ^ 256 := by
  have hdigits := compactDigits_lt nCompact
  have hnot := not_le.2 hsize
  unfold compactSize at hsize hnot ⊢
  unfold compactDigits at hdigits ⊢
  rw [setCompact]
  simp only [hnot, if_false]
  rw [BitVec.toNat_shiftLeft, BitVec.toNat_ofNat, Nat.mod_eq_of_lt (lt_trans hdigits (by decide)),
    Nat.shiftLeft_eq]

theorem compactWord_large (hsize : 3 < compactSize nCompact) :
    compactWord nCompact = compactDigits nCompact := by
  have hnot := not_le.2 hsize
  unfold compactSize at hnot
  simp only [compactWord, hnot, if_false]
  rfl

/-- The three cases of the overflow flag are one bound. -/
theorem compactOverflow_large (hsize : 3 < compactSize nCompact) :
    compactOverflow nCompact = true ↔
      2 ^ 256 ≤ compactDigits nCompact * 2 ^ (8 * (compactSize nCompact - 3)) := by
  have hdigits := compactDigits_lt nCompact
  have hflag : compactOverflow nCompact = true ↔ compactDigits nCompact ≠ 0 ∧
      (34 < compactSize nCompact ∨ 0xff < compactDigits nCompact ∧ 33 < compactSize nCompact ∨
        0xffff < compactDigits nCompact ∧ 32 < compactSize nCompact) := by
    simp only [compactOverflow, compactWord_large hsize, Bool.and_eq_true, Bool.or_eq_true, bne_iff_ne,
      decide_eq_true_eq, gt_iff_lt, or_assoc]
    rfl
  rw [hflag]
  generalize compactDigits nCompact = w at hdigits
  rcases Nat.lt_or_ge 34 (compactSize nCompact) with hgt | hle
  · -- A single digit is already too large.
    have hpow : 2 ^ 256 ≤ 2 ^ (8 * (compactSize nCompact - 3)) :=
      Nat.pow_le_pow_right (by decide) (by omega)
    constructor
    · rintro ⟨hpos, -⟩
      exact hpow.trans (Nat.le_mul_of_pos_left _ (Nat.pos_of_ne_zero hpos))
    · intro h
      refine ⟨?_, Or.inl hgt⟩
      rintro rfl
      rw [Nat.zero_mul] at h
      exact absurd h (by decide)
  · rcases Nat.lt_or_ge (compactSize nCompact) 32 with hlt | hge
    · have hpow : 2 ^ (8 * (compactSize nCompact - 3)) ≤ 2 ^ 224 :=
        Nat.pow_le_pow_right (by decide) (by omega)
      have hfits : w * 2 ^ (8 * (compactSize nCompact - 3)) < 2 ^ 256 :=
        calc w * 2 ^ (8 * (compactSize nCompact - 3)) ≤ w * 2 ^ 224 := Nat.mul_le_mul_left _ hpow
          _ < 2 ^ 256 := by omega
      omega
    · have hcases : compactSize nCompact = 32 ∨ compactSize nCompact = 33 ∨ compactSize nCompact = 34 := by
        omega
      rcases hcases with h | h | h <;> rw [h] <;> omega

theorem compactOverflow_small (hsize : compactSize nCompact ≤ 3) :
    compactOverflow nCompact = false := by
  have hle : nCompact.toNat >>> 24 ≤ 3 := hsize
  have h34 : ¬ nCompact.toNat >>> 24 > 34 := by omega
  have h33 : ¬ nCompact.toNat >>> 24 > 33 := by omega
  have h32 : ¬ nCompact.toNat >>> 24 > 32 := by omega
  simp [compactOverflow, h34, h33, h32]

/-- **The overflow flag** says that the number does not fit. -/
theorem compactOverflow_iff (nCompact : UInt32) :
    compactOverflow nCompact = true ↔ 2 ^ 256 ≤ compactRational nCompact := by
  rcases Nat.lt_or_ge 3 (compactSize nCompact) with hlarge | hsmall
  · rw [compactOverflow_large hlarge, compactRational_of_le (Nat.le_of_lt hlarge)]
    exact_mod_cast Iff.rfl
  · rw [compactOverflow_small hsmall, compactRational_of_lt hsmall]
    have hle : (compactDigits nCompact : ℚ) / (2 ^ (8 * (3 - compactSize nCompact)) : ℕ) ≤
        compactDigits nCompact :=
      div_le_self (Nat.cast_nonneg _) (by exact_mod_cast Nat.one_le_two_pow)
    have hdigits : (compactDigits nCompact : ℚ) < 2 ^ 23 := by exact_mod_cast compactDigits_lt nCompact
    constructor
    · intro h
      cases h
    · intro h
      have hlt : (2 : ℚ) ^ 256 < 2 ^ 23 := lt_of_le_of_lt (h.trans hle) hdigits
      norm_num at hlt

theorem fits_of_compactOverflow (h : compactOverflow nCompact = false)
    (hlarge : 3 < compactSize nCompact) :
    compactDigits nCompact * 2 ^ (8 * (compactSize nCompact - 3)) < 2 ^ 256 := by
  rw [← not_le, ← compactOverflow_large hlarge, h]
  exact Bool.false_ne_true

/-- **What is decoded** when the flag is not set. -/
theorem toNat_setCompact (h : compactOverflow nCompact = false) :
    (setCompact nCompact).toNat = ⌊compactRational nCompact⌋₊ := by
  rcases Nat.lt_or_ge 3 (compactSize nCompact) with hlarge | hsmall
  · rw [setCompact_large hlarge, compactRational_of_le (Nat.le_of_lt hlarge), Nat.floor_natCast]
    exact Nat.mod_eq_of_lt (fits_of_compactOverflow h hlarge)
  · rw [setCompact_small hsmall, compactRational_of_lt hsmall, Nat.floor_div_eq_div]

/-! ## Encoding what was decoded -/

/-- A number with few enough leading bits is encoded as it is. -/
theorem setCompact_getCompact_exact {x : UInt256} {k m : Nat} (hx : x.toNat = m * 2 ^ (8 * k))
    (hm : m < 2 ^ 23) : (setCompact (getCompact x)).toNat = x.toNat := by
  rcases setCompact_getCompact_bits x with ⟨q, hq, -, hlarge⟩
  rw [hq]
  rcases hlarge with rfl | hlarge
  · simp
  · -- The bits that are dropped are below the digits.
    have hlt : 2 ^ (15 + 8 * q) < 2 ^ (23 + 8 * k) :=
      calc 2 ^ (15 + 8 * q) ≤ m * 2 ^ (8 * k) := hx ▸ hlarge
        _ < 2 ^ 23 * 2 ^ (8 * k) := Nat.mul_lt_mul_of_pos_right hm (Nat.two_pow_pos _)
        _ = 2 ^ (23 + 8 * k) := (pow_add 2 23 (8 * k)).symm
    have hqk : q ≤ k := by
      have hexp := (Nat.pow_lt_pow_iff_right (by decide)).1 hlt
      omega
    rcases Nat.exists_eq_add_of_le hqk with ⟨r, rfl⟩
    have hdvd : 2 ^ (8 * q) ∣ x.toNat := by
      rw [hx, Nat.mul_add, pow_add]
      exact Dvd.intro_left (m * 2 ^ (8 * r)) (by ring)
    exact Nat.div_mul_cancel hdvd

/-- Encoding keeps every number that was decoded. -/
theorem getCompact_of_decoded (h : compactOverflow nCompact = false) :
    (setCompact (getCompact (setCompact nCompact))).toNat = (setCompact nCompact).toNat := by
  have hdigits := compactDigits_lt nCompact
  rcases Nat.lt_or_ge 3 (compactSize nCompact) with hlarge | hsmall
  · have hexact : (setCompact nCompact).toNat =
        compactDigits nCompact * 2 ^ (8 * (compactSize nCompact - 3)) := by
      rw [setCompact_large hlarge]
      exact Nat.mod_eq_of_lt (fits_of_compactOverflow h hlarge)
    exact setCompact_getCompact_exact hexact hdigits
  · have hexact : (setCompact nCompact).toNat =
        compactDigits nCompact / 2 ^ (8 * (3 - compactSize nCompact)) * 2 ^ (8 * 0) := by
      rw [setCompact_small hsmall, Nat.mul_zero, pow_zero, Nat.mul_one]
    exact setCompact_getCompact_exact hexact (lt_of_le_of_lt (Nat.div_le_self _ _) hdigits)

/-- **A second round trip** changes nothing. -/
theorem setCompact_getCompact_idem (x : UInt256) :
    setCompact (getCompact (setCompact (getCompact x))) = setCompact (getCompact x) := by
  apply BitVec.eq_of_toNat_eq
  rcases setCompact_getCompact_bits x with ⟨q, hq, hwide, -⟩
  refine setCompact_getCompact_exact hq ?_
  rw [Nat.div_lt_iff_lt_mul (Nat.two_pow_pos _), ← pow_add]
  exact hwide

/-! ## GetCompact asserts -/

namespace BaseUInt

/-- `nCompact` and `nSize` where `GetCompact` asserts that they fit. -/
def compactFields (a : BaseUInt 8) : UInt32 × Nat :=
  let nSize := (a.bits + 7) / 8
  let nCompact :=
    if nSize ≤ 3 then (a.getLow64 <<< UInt64.ofNat (8 * (3 - nSize))).toUInt32
    else (a.shr (8 * (nSize - 3))).getLow64.toUInt32
  if nCompact &&& 0x00800000 ≠ 0 then (nCompact >>> 8, nSize + 1) else (nCompact, nSize)

/-- **The asserts hold.** -/
theorem compactFields_fit (a : BaseUInt 8) :
    a.compactFields.1 &&& ~~~0x007fffff = 0 ∧ a.compactFields.2 < 256 := by
  have hmant := mantissa_lt a
  have hbits : a.bits ≤ 256 := by
    rw [bits_eq_size]
    exact Nat.size_le.2 a.value_lt
  have hclear : ∀ w : UInt32, w.toNat < 2 ^ 23 → w &&& ~~~0x007fffff = 0 := by
    intro w hw
    apply UInt32.toNat_inj.1
    rw [UInt32.toNat_and]
    apply Nat.eq_of_testBit_eq
    intro i
    rw [Nat.testBit_and]
    rcases Nat.lt_or_ge i 23 with hlow | hhigh
    · have hoff : (~~~(0x007fffff : UInt32)).toNat.testBit i = false := by
        interval_cases i <;> decide
      rw [hoff, Bool.and_false]
      exact (Nat.zero_testBit i).symm
    · rw [Nat.testBit_lt_two_pow (lt_of_lt_of_le hw (Nat.pow_le_pow_right (by decide) hhigh)), Bool.false_and]
      exact (Nat.zero_testBit i).symm
  have hmantissa := toNat_mantissa a
  simp only [compactFields]
  rw [hmantissa]
  generalize compactMantissa (toUInt256 a) ((a.bits + 7) / 8) = w at hmant
  have hw : (UInt32.ofNat w).toNat = w := by
    rw [UInt32.toNat_ofNat', Nat.mod_eq_of_lt (lt_trans hmant (by decide))]
  have hsign : UInt32.ofNat w &&& 0x00800000 ≠ 0 ↔ 2 ^ 23 ≤ w := by
    rw [← and_signBit hmant, ne_eq, ← UInt32.toNat_inj, UInt32.toNat_and, hw]
    rfl
  split_ifs with hbit
  · refine ⟨hclear _ ?_, by omega⟩
    have hshift : (8 : UInt32).toNat % 32 = 8 := by decide
    rw [UInt32.toNat_shiftRight, hw, hshift, Nat.shiftRight_eq_div_pow]
    omega
  · refine ⟨hclear _ ?_, by omega⟩
    rw [hw]
    exact not_le.1 (mt hsign.2 hbit)

end BaseUInt

/-! ## OpenSSL's numbers -/

/-- `CompactFromBignum` encodes what `GetCompact` encodes. -/
theorem compactFromBignum_eq (x : UInt256) : compactFromBignum x.toNat = getCompact x := by
  have hbits : UInt256.bits x = x.toNat.size := by
    rw [UInt256.bits]
    split_ifs with hzero
    · rw [hzero, Nat.size_zero]
    · refine le_antisymm ?_ (Nat.size_le.2 Nat.lt_log2_self)
      exact Nat.lt_size.2 (Nat.log2_self_le hzero)
  have hsign : ¬ ((x.toNat : Int) < 0) := by omega
  rw [compactFromBignum, getCompact, compactParts, hbits]
  simp only [Int.natAbs_natCast, hsign, if_false]
  split_ifs <;> rfl

/-- `BignumFromCompact` decodes what `SetCompact` decodes. -/
theorem bignumFromCompact_eq (hsign : compactNegative nCompact = false)
    (hoverflow : compactOverflow nCompact = false) :
    bignumFromCompact nCompact = (setCompact nCompact).toNat := by
  have habs : (if nCompact.toNat >>> 24 ≤ 3 then
        (nCompact.toNat &&& 0x007fffff) >>> (8 * (3 - nCompact.toNat >>> 24))
      else (nCompact.toNat &&& 0x007fffff) <<< (8 * (nCompact.toNat >>> 24 - 3))) =
      (setCompact nCompact).toNat := by
    rcases Nat.lt_or_ge 3 (compactSize nCompact) with hlarge | hsmall
    · have hbranch : ¬ nCompact.toNat >>> 24 ≤ 3 := not_le.2 hlarge
      rw [if_neg hbranch, setCompact_large hlarge, Nat.mod_eq_of_lt (fits_of_compactOverflow hoverflow hlarge),
        Nat.shiftLeft_eq]
      rfl
    · have hbranch : nCompact.toNat >>> 24 ≤ 3 := hsmall
      rw [if_pos hbranch, setCompact_small hsmall, Nat.shiftRight_eq_div_pow]
      rfl
  rw [bignumFromCompact]
  simp only [habs]
  split_ifs with hbit
  · -- The sign bit of a zero is not a sign.
    have hword : compactWord nCompact = 0 := by
      by_contra hne
      simp [compactNegative, hne, hbit] at hsign
    have hzero : (setCompact nCompact).toNat = 0 := by
      rw [compactWord] at hword
      rw [← habs]
      split_ifs at hword ⊢ with hsize
      · exact hword
      · rw [hword, Nat.zero_shiftLeft]
    rw [hzero]
    rfl
  · rfl

/-! ## The format -/

/-- The number that comes back from a round trip. -/
def compactRound (x : BaseUInt 8) : BaseUInt 8 :=
  BaseUInt.setCompact x.getCompact

theorem value_compactRound (x : BaseUInt 8) :
    (compactRound x).value = (setCompact (getCompact (BaseUInt.toUInt256 x))).toNat := by
  rw [compactRound, BaseUInt.value_setCompact, BaseUInt.getCompact_eq]

theorem toUInt256_compactRound (x : BaseUInt 8) :
    BaseUInt.toUInt256 (compactRound x) = setCompact (getCompact (BaseUInt.toUInt256 x)) := by
  rw [compactRound, BaseUInt.toUInt256_setCompact, BaseUInt.getCompact_eq]

/-- **Decoding is exact, encoding rounds down, and both implementations agree.** -/
theorem compact_format :
    (∀ nCompact : UInt32,
      (compactOverflow nCompact = true ↔ 2 ^ 256 ≤ compactRational nCompact) ∧
      (compactOverflow nCompact = false → compactNegative nCompact = false →
        (BaseUInt.setCompact nCompact).value = ⌊compactRational nCompact⌋₊ ∧
        bignumFromCompact nCompact = (BaseUInt.setCompact nCompact).value ∧
        compactFromBignum (bignumFromCompact nCompact) = (BaseUInt.setCompact nCompact).getCompact)) ∧
    (∀ n : BaseUInt 8,
      (compactRound n).value ≤ n.value ∧
      2 ^ 15 * (n.value - (compactRound n).value) ≤ n.value ∧
      compactRound (compactRound n) = compactRound n ∧
      (n.compactFields.1 &&& ~~~0x007fffff = 0 ∧ n.compactFields.2 < 256) ∧
      compactFromBignum n.value = n.getCompact) ∧
    ∀ m n : BaseUInt 8, m.value ≤ n.value → (compactRound m).value ≤ (compactRound n).value := by
  refine ⟨?_, ?_, ?_⟩
  · intro nCompact
    refine ⟨compactOverflow_iff nCompact, ?_⟩
    intro hoverflow hsign
    have hvalue := BaseUInt.value_setCompact nCompact
    have hread : bignumFromCompact nCompact = (setCompact nCompact).toNat :=
      bignumFromCompact_eq hsign hoverflow
    refine ⟨?_, ?_, ?_⟩
    · rw [hvalue]
      exact toNat_setCompact hoverflow
    · rw [hvalue]
      exact hread
    · rw [hread, compactFromBignum_eq, BaseUInt.getCompact_eq, BaseUInt.toUInt256_setCompact]
  · intro n
    have hle := setCompact_getCompact_le (BaseUInt.toUInt256 n)
    have hlost := lt_setCompact_getCompact (BaseUInt.toUInt256 n)
    rw [BaseUInt.toNat_toUInt256, ← value_compactRound] at hle hlost
    refine ⟨hle, ?_, ?_, n.compactFields_fit, ?_⟩
    · omega
    · apply BaseUInt.value_injective
      rw [value_compactRound, toUInt256_compactRound, setCompact_getCompact_idem, ← value_compactRound]
    · rw [BaseUInt.getCompact_eq, ← compactFromBignum_eq, BaseUInt.toNat_toUInt256]
  · intro m n hmn
    rw [value_compactRound, value_compactRound]
    apply setCompact_getCompact_mono
    rw [BaseUInt.toNat_toUInt256, BaseUInt.toNat_toUInt256]
    exact hmn

/-- The limit of the main network. -/
theorem compact_format_limit :
    (BaseUInt.setCompact 0x1e0fffff).value = ⌊compactRational 0x1e0fffff⌋₊ ∧
      bignumFromCompact 0x1e0fffff = (BaseUInt.setCompact 0x1e0fffff).value ∧
      compactFromBignum (bignumFromCompact 0x1e0fffff) = (BaseUInt.setCompact 0x1e0fffff).getCompact :=
  (compact_format.1 0x1e0fffff).2 (by decide) (by decide)

end Dobbscoin
