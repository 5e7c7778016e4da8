import Dobbscoin.Primitives.BaseUInt
import Dobbscoin.Pow.Retarget

/-!
# Targets, digit by digit

`SetCompact`, `GetCompact` and `GetBlockProof` with the operators of `base_uint` as they are written.
Each computes what its version on bit vectors computes.
-/

namespace Dobbscoin

namespace BaseUInt

/-! ## SetCompact -/

def setCompact (nCompact : UInt32) : BaseUInt 8 :=
  let nSize := nCompact.toNat >>> 24
  let nWord := nCompact &&& 0x007fffff
  if nSize ≤ 3 then ofUInt64 (nWord >>> UInt32.ofNat (8 * (3 - nSize))).toUInt64
  else (ofUInt64 nWord.toUInt64).shl (8 * (nSize - 3))

theorem toUInt256_setCompact (nCompact : UInt32) :
    toUInt256 (setCompact nCompact) = Dobbscoin.setCompact nCompact := by
  have hword : (nCompact &&& 0x007fffff).toNat = nCompact.toNat &&& 0x007fffff := UInt32.toNat_and _ _
  rw [toUInt256_eq_iff, setCompact, Dobbscoin.setCompact]
  split_ifs with hsize
  · have hshift : 8 * (3 - nCompact.toNat >>> 24) < 32 := by omega
    have hlt : (nCompact &&& 0x007fffff).toNat >>> (8 * (3 - nCompact.toNat >>> 24)) < 2 ^ 256 := by
      rw [Nat.shiftRight_eq_div_pow]
      exact lt_of_le_of_lt (Nat.div_le_self _ _) (lt_trans (UInt32.toNat_lt _) (by decide))
    rw [value_ofUInt64 (by decide), UInt32.toNat_toUInt64, UInt32.toNat_shiftRight, UInt32.toNat_ofNat',
      Nat.mod_eq_of_lt (show 8 * (3 - nCompact.toNat >>> 24) < 2 ^ 32 by omega), Nat.mod_eq_of_lt hshift, ← hword,
      BitVec.toNat_ofNat, Nat.mod_eq_of_lt hlt]
  · have hlt : (nCompact &&& 0x007fffff).toNat < 2 ^ 256 := lt_trans (UInt32.toNat_lt _) (by decide)
    rw [value_shl, value_ofUInt64 (by decide), UInt32.toNat_toUInt64, BitVec.toNat_shiftLeft, BitVec.toNat_ofNat, ← hword,
      Nat.mod_eq_of_lt hlt, Nat.shiftLeft_eq]

theorem value_setCompact (nCompact : UInt32) : (setCompact nCompact).value = (Dobbscoin.setCompact nCompact).toNat :=
  toUInt256_eq_iff.1 (toUInt256_setCompact nCompact)

/-! ## GetCompact -/

def getCompact (a : BaseUInt 8) : UInt32 :=
  let nSize := (a.bits + 7) / 8
  let nCompact :=
    if nSize ≤ 3 then (a.getLow64 <<< UInt64.ofNat (8 * (3 - nSize))).toUInt32
    else (a.shr (8 * (nSize - 3))).getLow64.toUInt32
  if nCompact &&& 0x00800000 ≠ 0 then nCompact >>> 8 ||| UInt32.ofNat (nSize + 1) <<< 24
  else nCompact ||| UInt32.ofNat nSize <<< 24

theorem bits_toUInt256 (a : BaseUInt 8) : UInt256.bits (toUInt256 a) = a.bits := by
  rw [UInt256.bits, toNat_toUInt256, bits_eq_size]
  split_ifs with hzero
  · rw [hzero, Nat.size_zero]
  · refine le_antisymm ?_ (Nat.size_le.2 Nat.lt_log2_self)
    have hlow := Nat.lt_size.2 (Nat.log2_self_le hzero)
    exact hlow

theorem value_lt_bytes (a : BaseUInt 8) : a.value < 2 ^ (8 * ((a.bits + 7) / 8)) := by
  refine lt_of_lt_of_le (Nat.lt_size_self a.value) (Nat.pow_le_pow_right (by decide) ?_)
  rw [← bits_eq_size]
  omega

theorem mantissa_lt (a : BaseUInt 8) : compactMantissa (toUInt256 a) ((a.bits + 7) / 8) < 2 ^ 24 :=
  compactMantissa_lt (by rw [toNat_toUInt256]; exact value_lt_bytes a)

/-- The mantissa before the sign bit is looked at. -/
theorem toNat_mantissa (a : BaseUInt 8) :
    (if (a.bits + 7) / 8 ≤ 3 then (a.getLow64 <<< UInt64.ofNat (8 * (3 - (a.bits + 7) / 8))).toUInt32
      else (a.shr (8 * ((a.bits + 7) / 8 - 3))).getLow64.toUInt32) =
      UInt32.ofNat (compactMantissa (toUInt256 a) ((a.bits + 7) / 8)) := by
  have hlt := value_lt_bytes a
  have hmant := mantissa_lt a
  generalize (a.bits + 7) / 8 = s at hlt hmant ⊢
  rw [← UInt32.toNat_inj, UInt32.toNat_ofNat', Nat.mod_eq_of_lt (lt_trans hmant (by decide))]
  rw [compactMantissa, toNat_toUInt256] at hmant ⊢
  split_ifs at hmant ⊢ with hsize
  · have hshift : (UInt64.ofNat (8 * (3 - s))).toNat % 64 = 8 * (3 - s) := by
      rw [UInt64.toNat_ofNat']
      omega
    have hsmall : a.value < 2 ^ 24 := lt_of_lt_of_le hlt (Nat.pow_le_pow_right (by decide) (by omega))
    rw [UInt64.toNat_toUInt32, UInt64.toNat_shiftLeft, hshift, toNat_getLow64 (by decide),
      Nat.mod_eq_of_lt (lt_trans hsmall (by decide)), Nat.mod_eq_of_lt (lt_trans hmant (by decide)),
      Nat.mod_eq_of_lt (lt_trans hmant (by decide))]
  · rw [Nat.shiftRight_eq_div_pow] at hmant ⊢
    rw [UInt64.toNat_toUInt32, toNat_getLow64 (by decide), value_shr, Nat.mod_eq_of_lt (lt_trans hmant (by decide)),
      Nat.mod_eq_of_lt (lt_trans hmant (by decide))]

theorem getCompact_eq (a : BaseUInt 8) : a.getCompact = Dobbscoin.getCompact (toUInt256 a) := by
  have hparts : compactParts (toUInt256 a) =
      if compactMantissa (toUInt256 a) ((a.bits + 7) / 8) &&& 0x00800000 ≠ 0 then
        (compactMantissa (toUInt256 a) ((a.bits + 7) / 8) >>> 8, (a.bits + 7) / 8 + 1)
      else (compactMantissa (toUInt256 a) ((a.bits + 7) / 8), (a.bits + 7) / 8) := by
    rw [← bits_toUInt256]
    rfl
  have hmant := mantissa_lt a
  have hsize : (a.bits + 7) / 8 ≤ 32 := by
    have hbits : a.bits ≤ 256 := by
      rw [bits_eq_size]
      exact Nat.size_le.2 a.value_lt
    omega
  rw [Dobbscoin.getCompact, hparts, getCompact, toNat_mantissa]
  generalize compactMantissa (toUInt256 a) ((a.bits + 7) / 8) = w at hmant
  generalize (a.bits + 7) / 8 = s at hsize
  have hw : (UInt32.ofNat w).toNat = w := by
    rw [UInt32.toNat_ofNat', Nat.mod_eq_of_lt (lt_trans hmant (by decide))]
  have hsign : UInt32.ofNat w &&& 0x00800000 ≠ 0 ↔ w &&& 0x00800000 ≠ 0 := by
    have hand : (UInt32.ofNat w &&& 0x00800000).toNat = w &&& 0x00800000 :=
      (UInt32.toNat_and _ _).trans (congrArg (· &&& 0x00800000) hw)
    rw [ne_eq, ← UInt32.toNat_inj, hand]
    rfl
  have hpack : ∀ t ≤ 33, (UInt32.ofNat t <<< 24).toNat = t <<< 24 := by
    intro t ht
    have htwo : (UInt32.ofNat t).toNat = t := by
      rw [UInt32.toNat_ofNat', Nat.mod_eq_of_lt (by omega)]
    have hshift : (24 : UInt32).toNat % 32 = 24 := by decide
    rw [UInt32.toNat_shiftLeft, htwo, hshift, Nat.shiftLeft_eq]
    exact Nat.mod_eq_of_lt (by omega)
  have hor : ∀ v < 2 ^ 24, ∀ t ≤ 33, (v ||| t <<< 24) % 2 ^ 32 = v ||| t <<< 24 := by
    intro v hv t ht
    refine Nat.mod_eq_of_lt (Nat.or_lt_two_pow (lt_trans hv (by decide)) ?_)
    rw [Nat.shiftLeft_eq]
    omega
  have hdown : (UInt32.ofNat w >>> 8).toNat = w >>> 8 := by
    have hshift : (8 : UInt32).toNat % 32 = 8 := by decide
    rw [UInt32.toNat_shiftRight, hw, hshift]
  have hdown_lt : w >>> 8 < 2 ^ 24 := by
    rw [Nat.shiftRight_eq_div_pow]
    omega
  rw [← UInt32.toNat_inj, UInt32.toNat_ofNat']
  by_cases hbit : w &&& 0x00800000 ≠ 0
  · rw [if_pos hbit, if_pos (hsign.2 hbit), UInt32.toNat_or, hdown, hpack _ (by omega), hor _ hdown_lt _ (by omega)]
  · rw [if_neg hbit, if_neg (mt hsign.1 hbit), UInt32.toNat_or, hw, hpack _ (by omega), hor _ hmant _ (by omega)]

/-! ## GetBlockProof -/

def getBlockProof (nBits : UInt32) : Except String (BaseUInt 8) :=
  let bnTarget := setCompact nBits
  if compactNegative nBits || compactOverflow nBits || bnTarget.equalTo 0 then .ok zero
  else do
    let quotient ← bnTarget.not.div (bnTarget.add (ofUInt64 1))
    .ok (quotient.add (ofUInt64 1))

end BaseUInt

/-- What is decoded is short or even, so it is never the largest number there is. -/
theorem setCompact_lt_max (nBits : UInt32) : (setCompact nBits).toNat + 1 < 2 ^ 256 := by
  have hword : nBits.toNat &&& 0x007fffff < 2 ^ 32 := lt_of_le_of_lt Nat.and_le_left nBits.toNat_lt
  rw [setCompact]
  split_ifs with hsize
  · have hle : (nBits.toNat &&& 0x007fffff) >>> (8 * (3 - nBits.toNat >>> 24)) < 2 ^ 32 := by
      rw [Nat.shiftRight_eq_div_pow]
      exact lt_of_le_of_lt (Nat.div_le_self _ _) hword
    rw [BitVec.toNat_ofNat, Nat.mod_eq_of_lt (lt_trans hle (by decide))]
    omega
  · rcases Nat.exists_eq_add_of_le' (show 1 ≤ 8 * (nBits.toNat >>> 24 - 3) by omega) with ⟨k, hk⟩
    rw [BitVec.toNat_shiftLeft, Nat.shiftLeft_eq, hk, pow_succ, ← Nat.mul_assoc]
    generalize (BitVec.ofNat 256 (nBits.toNat &&& 0x007fffff)).toNat * 2 ^ k = half
    omega

/-- What `CheckProofOfWork` asks of `nBits`. -/
structure AcceptableBits (P : CChainParams) (nBits : UInt32) : Prop where
  nonneg : compactNegative nBits = false
  fits : compactOverflow nBits = false
  pos : 0 < (setCompact nBits).toNat
  le : (setCompact nBits).toNat ≤ P.bnProofOfWorkLimit.toNat

/-- The work a target stands for, as an integer. -/
def exactProof (nBits : UInt32) : Nat :=
  2 ^ 256 / ((setCompact nBits).toNat + 1)

/-- The complement divided, and one added: that is the quotient of a number which 256 bits do not hold. -/
theorem toNat_getBlockProof {P : CChainParams} {nBits : UInt32} (h : AcceptableBits P nBits) :
    (getBlockProof nBits).toNat = exactProof nBits := by
  have hmax := setCompact_lt_max nBits
  have hpos := h.pos
  have hzero : setCompact nBits ≠ 0 := fun heq => by simp [heq] at hpos
  rw [getBlockProof, h.nonneg, h.fits, exactProof]
  simp only [Bool.false_or, decide_eq_true_iff, hzero, if_false]
  generalize setCompact nBits = t at *
  have hsucc : (t + 1).toNat = t.toNat + 1 := by
    rw [BitVec.toNat_add]
    exact Nat.mod_eq_of_lt hmax
  have hquot : 2 ^ 256 / (t.toNat + 1) = (2 ^ 256 - 1 - t.toNat) / (t.toNat + 1) + 1 := by
    rw [← Nat.add_div_right _ (Nat.succ_pos _)]
    congr 1
    omega
  have hlt : 2 ^ 256 / (t.toNat + 1) < 2 ^ 256 := Nat.div_lt_self (by decide) (by omega)
  rw [BitVec.toNat_add, BitVec.toNat_udiv, BitVec.toNat_not, hsucc, hquot]
  exact Nat.mod_eq_of_lt (hquot ▸ hlt)

theorem exactProof_pos (nBits : UInt32) : 0 < exactProof nBits := by
  have hmax := setCompact_lt_max nBits
  exact Nat.div_pos (by omega) (Nat.succ_pos _)

namespace BaseUInt

/-- The loops never divide by zero, and they compute what `getBlockProof` says. -/
theorem getBlockProof_eq (nBits : UInt32) :
    ∃ proof, getBlockProof nBits = .ok proof ∧ toUInt256 proof = Dobbscoin.getBlockProof nBits := by
  have hmax := setCompact_lt_max nBits
  have hone : (ofUInt64 1 : BaseUInt 8).value = 1 := value_ofUInt64 (by decide) 1
  have htarget := value_setCompact nBits
  have hequal : (setCompact nBits).equalTo 0 = decide (Dobbscoin.setCompact nBits = 0) := by
    rw [Bool.eq_iff_iff, equalTo_iff (by decide), htarget, decide_eq_true_iff]
    exact ⟨fun h => BitVec.eq_of_toNat_eq h, fun h => by rw [h]; rfl⟩
  rw [getBlockProof, Dobbscoin.getBlockProof, hequal]
  split_ifs with hzero
  · exact ⟨zero, rfl, toUInt256_eq_iff.2 value_zero⟩
  · have hsucc : ((setCompact nBits).add (ofUInt64 1)).value = (Dobbscoin.setCompact nBits + 1).toNat := by
      rw [value_add, hone, htarget, BitVec.toNat_add]
      rfl
    have hnot : (setCompact nBits).not.value = (~~~(Dobbscoin.setCompact nBits)).toNat := by
      have hsum := value_not (setCompact nBits)
      rw [BitVec.toNat_not, ← htarget]
      omega
    have hne : ((setCompact nBits).add (ofUInt64 1)).value ≠ 0 := by
      rw [value_add, hone, htarget, Nat.mod_eq_of_lt hmax]
      exact Nat.succ_ne_zero _
    rcases div_spec (setCompact nBits).not hne with ⟨quotient, hdiv, hvalue⟩
    refine ⟨quotient.add (ofUInt64 1), ?_, ?_⟩
    · rw [hdiv]
      rfl
    · rw [toUInt256_eq_iff, value_add, hone, hvalue, hnot, hsucc, ← BitVec.toNat_udiv, BitVec.toNat_add (_ / _)]
      rfl

end BaseUInt
end Dobbscoin
