import Dobbscoin.Pow.CompactFormat
import Dobbscoin.Pow.EmergencyRetarget

/-!
# The rules before LWMA-3

`GetNextWorkRequired_V1`, `_V3` and `_V4` against the product over the integers.  The limit of this chain
leaves 20 free bits above a target, and the first rule multiplies by up to eight weeks in seconds.
-/

namespace Dobbscoin

/-! ## The rules over the integers -/

/-- `min(limit, old * timespan / targetTimespan)`, in compact form. -/
def exactTarget (powLimit : UInt256) (nBits : UInt32) (nActualTimespan nTargetTimespan : Int) : UInt32 :=
  getCompact (BitVec.ofNat 256 (min powLimit.toNat
    ((setCompact nBits).toNat * nActualTimespan.toNat / nTargetTimespan.toNat)))

/-- Two weeks, kept between a quarter and four times of them. -/
def timespanV1 (P : CChainParams) (actual : Int) : Int :=
  min (P.nTargetTimespan * 4) (max (P.nTargetTimespan.tdiv 4) actual)

/-- The time of one block, damped and kept between three quarters and three halves of it. -/
def timespanShield (nTargetSpacing actual : Int) : Int :=
  min (nTargetSpacing + nTargetSpacing.tdiv 2)
    (max (nTargetSpacing - nTargetSpacing.tdiv 4) (nTargetSpacing + (actual - nTargetSpacing).tdiv 8))

/-- The time that the last `n` blocks took. -/
def timeSince (n : Nat) (last : CBlockIndex) (ancestors : List CBlockIndex) : Int :=
  last.getBlockTime - ((last :: ancestors).getD n last).getBlockTime

/-- The blocks that DigiShield looks back. -/
def blocksToGoBack (last : CBlockIndex) : Nat :=
  if last.nHeight + 1 ≠ 1 then 1 else 0

/-- The next block starts an interval of the first rule. -/
def Retargets (P : CChainParams) (last : CBlockIndex) : Prop :=
  ((last.nHeight : Int) + 1) % P.interval = 0

/-- What the rules promise of the block after `last`. -/
structure RetargetsExactly (P : CChainParams) (last : CBlockIndex) (ancestors : List CBlockIndex) : Prop where
  v1 : Retargets P last → ∀ block, getNextWorkRequiredV1 P (last :: ancestors) block =
    exactTarget P.bnProofOfWorkLimit last.nBits
      (timespanV1 P (timeSince (P.interval - 1).toNat last ancestors)) P.nTargetTimespan
  v3 : getNextWorkRequiredV3 P (last :: ancestors) =
    exactTarget P.bnProofOfWorkLimit last.nBits
      (timespanShield 600 (timeSince (blocksToGoBack last) last ancestors)) 600
  v4 : getNextWorkRequiredV4 P (last :: ancestors) =
    exactTarget P.bnProofOfWorkLimit last.nBits
      (timespanShield 120 (timeSince (blocksToGoBack last) last ancestors)) 120
  slowV1 : Retargets P last → P.nTargetTimespan ≤ timeSince (P.interval - 1).toNat last ancestors →
    ∀ block, (setCompact last.nBits).toNat ≤
      (setCompact (getNextWorkRequiredV1 P (last :: ancestors) block)).toNat
  slowV3 : 600 ≤ timeSince (blocksToGoBack last) last ancestors →
    (setCompact last.nBits).toNat ≤ (setCompact (getNextWorkRequiredV3 P (last :: ancestors))).toNat
  slowV4 : 120 ≤ timeSince (blocksToGoBack last) last ancestors →
    (setCompact last.nBits).toNat ≤ (setCompact (getNextWorkRequiredV4 P (last :: ancestors))).toNat

/-! ## One retarget -/

/-- What the code computes, with the product where it wraps around. -/
theorem scaleTarget_wraps {powLimit : UInt256} {nBits : UInt32} {t T : Int} (ht : 0 ≤ t) (ht' : t < 2 ^ 32)
    (hT : T < 2 ^ 32) :
    scaleTarget powLimit nBits t T =
      getCompact (BitVec.ofNat 256 (min powLimit.toNat
        ((setCompact nBits).toNat * t.toNat % 2 ^ 256 / T.toNat))) := by
  have hmod : t % 2 ^ 32 = t := Int.emod_eq_of_lt ht ht'
  have hquot : (setCompact nBits * BitVec.ofNat 256 t.toNat / BitVec.ofNat 256 T.toNat).toNat =
      (setCompact nBits).toNat * t.toNat % 2 ^ 256 / T.toNat := by
    rw [BitVec.toNat_udiv, BitVec.toNat_mul, BitVec.toNat_ofNat, BitVec.toNat_ofNat,
      Nat.mod_eq_of_lt (show t.toNat < 2 ^ 256 by omega), Nat.mod_eq_of_lt (show T.toNat < 2 ^ 256 by omega)]
  rw [scaleTarget, hmod, ← hquot]
  generalize setCompact nBits * BitVec.ofNat 256 t.toNat / BitVec.ofNat 256 T.toNat = bnNew
  congr 1
  apply BitVec.eq_of_toNat_eq
  rw [BitVec.toNat_ofNat, Nat.mod_eq_of_lt (lt_of_le_of_lt (Nat.min_le_right _ _) bnNew.isLt)]
  split_ifs with hcap
  · exact (Nat.min_eq_left (Nat.le_of_lt hcap)).symm
  · exact (Nat.min_eq_right (not_lt.1 hcap)).symm

/-- **A product that fits** gives the exact target. -/
theorem scaleTarget_exact {powLimit : UInt256} {nBits : UInt32} {t T : Int} (ht : 0 ≤ t) (ht' : t < 2 ^ 32)
    (hT : T < 2 ^ 32) (hfits : (setCompact nBits).toNat * t.toNat < 2 ^ 256) :
    scaleTarget powLimit nBits t T = exactTarget powLimit nBits t T := by
  rw [scaleTarget_wraps ht ht' hT, Nat.mod_eq_of_lt hfits, exactTarget]

/-- **A slow period** does not make the exact target smaller. -/
theorem le_exactTarget {powLimit : UInt256} {nBits : UInt32} {t T : Int} (hT : 0 < T) (htT : T ≤ t)
    (hoverflow : compactOverflow nBits = false) (hlimit : (setCompact nBits).toNat ≤ powLimit.toNat) :
    (setCompact nBits).toNat ≤ (setCompact (exactTarget powLimit nBits t T)).toNat := by
  have hquot : (setCompact nBits).toNat ≤ (setCompact nBits).toNat * t.toNat / T.toNat := by
    rw [Nat.le_div_iff_mul_le (by omega)]
    exact Nat.mul_le_mul_left _ (by omega)
  have hmin : (setCompact nBits).toNat ≤
      (BitVec.ofNat 256 (min powLimit.toNat
        ((setCompact nBits).toNat * t.toNat / T.toNat))).toNat := by
    rw [BitVec.toNat_ofNat, Nat.mod_eq_of_lt (lt_of_le_of_lt (Nat.min_le_left _ _) powLimit.isLt)]
    exact Nat.le_min.2 ⟨hlimit, hquot⟩
  calc (setCompact nBits).toNat = (setCompact (getCompact (setCompact nBits))).toNat :=
        (getCompact_of_decoded hoverflow).symm
    _ ≤ (setCompact (exactTarget powLimit nBits t T)).toNat := setCompact_getCompact_mono hmin

/-! ## The products -/

theorem timespanShield_bounds {T actual : Int} (hT : T = 600 ∨ T = 120) :
    0 ≤ timespanShield T actual ∧ timespanShield T actual ≤ 900 := by
  unfold timespanShield
  rcases hT with rfl | rfl
  · have hlow : (600 : Int).tdiv 4 = 150 := by decide
    have hhigh : (600 : Int).tdiv 2 = 300 := by decide
    omega
  · have hlow : (120 : Int).tdiv 4 = 30 := by decide
    have hhigh : (120 : Int).tdiv 2 = 60 := by decide
    omega

/-- The damping keeps a slow period slow. -/
theorem le_timespanShield {T actual : Int} (hT : T = 600 ∨ T = 120) (hslow : T ≤ actual) :
    T ≤ timespanShield T actual := by
  have hdamped : 0 ≤ (actual - T).tdiv 8 := Int.tdiv_nonneg (by omega) (by decide)
  unfold timespanShield
  rcases hT with rfl | rfl
  · have hhigh : (600 : Int).tdiv 2 = 300 := by decide
    omega
  · have hhigh : (120 : Int).tdiv 2 = 60 := by decide
    omega

section

variable {P : CChainParams} {last : CBlockIndex} {ancestors : List CBlockIndex}

/-- The two comparisons of a clamp. -/
theorem clamp_eq {low high t : Int} (hle : low ≤ high) :
    (if (if t < low then low else t) > high then high else if t < low then low else t) =
      min high (max low t) := by
  omega

theorem digiShield_eq {T : Int} (hT : T = 600 ∨ T = 120) :
    digiShield P T (last :: ancestors) =
      scaleTarget P.bnProofOfWorkLimit last.nBits
        (timespanShield T (timeSince (blocksToGoBack last) last ancestors)) T := by
  have hle : T - T.tdiv 4 ≤ T + T.tdiv 2 := by
    rcases hT with rfl | rfl <;> decide
  rw [timespanShield, ← clamp_eq hle]
  rfl

theorem getNextWorkRequiredV1_eq (hretarget : Retargets P last) (hpos : 0 ≤ P.nTargetTimespan)
    (block : CBlockHeader) :
    getNextWorkRequiredV1 P (last :: ancestors) block =
      scaleTarget P.bnProofOfWorkLimit last.nBits
        (timespanV1 P (timeSince (P.interval - 1).toNat last ancestors)) P.nTargetTimespan := by
  have hquarter : P.nTargetTimespan.tdiv 4 ≤ P.nTargetTimespan := Int.tdiv_le_self _ hpos
  have hle : P.nTargetTimespan.tdiv 4 ≤ P.nTargetTimespan * 4 := by omega
  have hnot : ¬ ((last.nHeight : Int) + 1) % P.interval ≠ 0 := not_not_intro hretarget
  rw [getNextWorkRequiredV1, timespanV1, ← clamp_eq hle]
  simp only [hnot, if_false]
  rfl

/-! ## The first rule wraps around -/

/-- **A product that does not fit** leaves too small a target: what is lost is more than encoding rounds. -/
theorem scaleTarget_of_wrap {nBits : UInt32} {t : Int} (ht : 0 ≤ t) (ht' : t ≤ 4838400)
    (hwraps : 2 ^ 256 ≤ (setCompact nBits).toNat * t.toNat) :
    scaleTarget mainParams.bnProofOfWorkLimit nBits t 1209600 ≠
      exactTarget mainParams.bnProofOfWorkLimit nBits t 1209600 := by
  rw [scaleTarget_wraps ht (by omega) (by decide), exactTarget, powLimit_toNat]
  have hT : (1209600 : Int).toNat = 1209600 := rfl
  rw [hT]
  generalize (setCompact nBits).toNat * t.toNat = p at hwraps
  intro heq
  have hsame := congrArg (fun c => (setCompact c).toNat) heq
  have hsmall := setCompact_getCompact_le (BitVec.ofNat 256 (min (2 ^ 236 - 1) (p % 2 ^ 256 / 1209600)))
  have hlarge := lt_setCompact_getCompact (BitVec.ofNat 256 (min (2 ^ 236 - 1) (p / 1209600)))
  rw [hsame] at hsmall
  generalize (setCompact (getCompact (BitVec.ofNat 256 (min (2 ^ 236 - 1) (p / 1209600))))).toNat = next
    at hsmall hlarge
  rw [BitVec.toNat_ofNat, Nat.mod_eq_of_lt (by omega)] at hsmall hlarge
  rcases Nat.lt_or_ge (p / 1209600) (2 ^ 236) with hlt | hge
  · -- Below the limit the product is less than two times 2^256.
    omega
  · omega

/-! ## All three -/

theorem timespanV1_bounds (hP : P.nTargetTimespan = 1209600) (actual : Int) :
    0 ≤ timespanV1 P actual ∧ timespanV1 P actual ≤ 4838400 := by
  have hquarter : (1209600 : Int).tdiv 4 = 302400 := by decide
  rw [timespanV1, hP, hquarter]
  omega

/-- **The earlier rules are exact where the first one does not wrap around**, and nowhere else. -/
theorem retargetsExactly_iff (hP : P = mainParams ∨ P = testNetParams) (hbits : AcceptableBits P last.nBits) :
    RetargetsExactly P last ancestors ↔
      (Retargets P last → (setCompact last.nBits).toNat *
        (timespanV1 P (timeSince (P.interval - 1).toNat last ancestors)).toNat < 2 ^ 256) := by
  have hlimit : P.bnProofOfWorkLimit = mainParams.bnProofOfWorkLimit := by
    rcases hP with rfl | rfl <;> rfl
  have htimespan : P.nTargetTimespan = 1209600 := by
    rcases hP with rfl | rfl <;> rfl
  have hold : (setCompact last.nBits).toNat ≤ 2 ^ 236 - 1 := by
    have hle := hbits.le
    rwa [hlimit, powLimit_toNat] at hle
  have hshield : ∀ T : Int, T = 600 ∨ T = 120 → digiShield P T (last :: ancestors) =
      exactTarget P.bnProofOfWorkLimit last.nBits
        (timespanShield T (timeSince (blocksToGoBack last) last ancestors)) T := by
    intro T hT
    rcases @timespanShield_bounds T (timeSince (blocksToGoBack last) last ancestors) hT with ⟨hnonneg, hle⟩
    rw [digiShield_eq hT]
    refine scaleTarget_exact hnonneg (by omega) (by omega) ?_
    calc (setCompact last.nBits).toNat *
          (timespanShield T (timeSince (blocksToGoBack last) last ancestors)).toNat
        ≤ (2 ^ 236 - 1) * 900 := Nat.mul_le_mul hold (by omega)
      _ < 2 ^ 256 := by decide
  have hslow : ∀ T : Int, T = 600 ∨ T = 120 → T ≤ timeSince (blocksToGoBack last) last ancestors →
      (setCompact last.nBits).toNat ≤ (setCompact (digiShield P T (last :: ancestors))).toNat := by
    intro T hT hle
    rw [hshield T hT]
    exact le_exactTarget (by omega) (le_timespanShield hT hle) hbits.fits hbits.le
  have hbounds := timespanV1_bounds htimespan (timeSince (P.interval - 1).toNat last ancestors)
  constructor
  · intro h hretarget
    by_contra hwraps
    have hexact := h.v1 hretarget last.getBlockHeader
    rw [getNextWorkRequiredV1_eq hretarget (by omega), hlimit, htimespan] at hexact
    exact scaleTarget_of_wrap hbounds.1 hbounds.2 (not_lt.1 hwraps) hexact
  · intro hfits
    have hv1 : Retargets P last → ∀ block, getNextWorkRequiredV1 P (last :: ancestors) block =
        exactTarget P.bnProofOfWorkLimit last.nBits
          (timespanV1 P (timeSince (P.interval - 1).toNat last ancestors)) P.nTargetTimespan := by
      intro hretarget block
      rw [getNextWorkRequiredV1_eq hretarget (by omega)]
      exact scaleTarget_exact hbounds.1 (by omega) (by omega) (hfits hretarget)
    refine ⟨hv1, hshield 600 (Or.inl rfl), hshield 120 (Or.inr rfl), ?_, hslow 600 (Or.inl rfl),
      hslow 120 (Or.inr rfl)⟩
    intro hretarget hle block
    rw [hv1 hretarget block]
    refine le_exactTarget (by omega) ?_ hbits.fits hbits.le
    have hquarter : (1209600 : Int).tdiv 4 = 302400 := by decide
    rw [timespanV1, htimespan, hquarter]
    omega

end

/-! ## A slow interval -/

/-- The first interval of the chain took eight weeks. -/
def slowChain (nBits : UInt32) : CBlockIndex × List CBlockIndex :=
  ({ CBlockIndex.null with nHeight := 2015, nTime := 4838400, nBits := nBits },
    (List.range 2015).map fun j =>
      { CBlockIndex.null with nHeight := 2014 - j, nTime := UInt32.ofNat (2014 - j), nBits := nBits })

theorem slowChain_timeSince (nBits : UInt32) :
    timeSince (mainParams.interval - 1).toNat (slowChain nBits).1 (slowChain nBits).2 = 4838400 := by
  have hlast : (mainParams.interval - 1).toNat = 2014 + 1 := by decide
  rw [timeSince, hlast, List.getD_cons_succ, slowChain]
  simp only [List.getD_eq_getElem?_getD, List.getElem?_map]
  rw [List.getElem?_range (by decide)]
  rfl

theorem retargetsExactly_slowChain :
    RetargetsExactly mainParams (slowChain 0x1d00ffff).1 (slowChain 0x1d00ffff).2 := by
  have hbits : AcceptableBits mainParams 0x1d00ffff :=
    ⟨by decide, by decide, by decide, by decide⟩
  refine (retargetsExactly_iff (Or.inl rfl) hbits).2 ?_
  intro _
  rw [slowChain_timeSince]
  decide

/-- At the limit the product wraps around four times, and eight weeks make the target smaller. -/
theorem slowChain_not_exact :
    AcceptableBits mainParams 0x1e0fffff ∧ Retargets mainParams (slowChain 0x1e0fffff).1 ∧
      mainParams.nTargetTimespan < timeSince (mainParams.interval - 1).toNat (slowChain 0x1e0fffff).1
        (slowChain 0x1e0fffff).2 ∧
      (setCompact (getNextWorkRequiredV1 mainParams
        ((slowChain 0x1e0fffff).1 :: (slowChain 0x1e0fffff).2)
        (slowChain 0x1e0fffff).1.getBlockHeader)).toNat <
          (setCompact 0x1e0fffff).toNat ∧
      ¬ RetargetsExactly mainParams (slowChain 0x1e0fffff).1 (slowChain 0x1e0fffff).2 := by
  have hbits : AcceptableBits mainParams 0x1e0fffff :=
    ⟨by decide, by decide, by decide, by decide⟩
  have hretarget : Retargets mainParams (slowChain 0x1e0fffff).1 := by
    unfold Retargets
    decide
  have htime := slowChain_timeSince 0x1e0fffff
  have hsmaller : (setCompact (getNextWorkRequiredV1 mainParams
      ((slowChain 0x1e0fffff).1 :: (slowChain 0x1e0fffff).2)
        (slowChain 0x1e0fffff).1.getBlockHeader)).toNat <
        (setCompact 0x1e0fffff).toNat := by
    rw [getNextWorkRequiredV1_eq hretarget (by decide), htime]
    decide
  refine ⟨hbits, hretarget, ?_, hsmaller, ?_⟩
  · rw [htime]
    decide
  · intro h
    have hle := h.slowV1 hretarget (by rw [htime]; decide) (slowChain 0x1e0fffff).1.getBlockHeader
    exact absurd hle (not_le.2 hsmaller)

end Dobbscoin
