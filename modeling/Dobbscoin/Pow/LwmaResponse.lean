import Dobbscoin.Pow.LwmaWindow

/-!
# How LWMA-3 responds

The average of the targets, times the weighted solvetimes over what they are expected to be: that is
what the formula is about.  Scaling and packing take less than one part in 128 away from it, and
packing keeps the order.
-/

namespace Dobbscoin

open Finset

/-- `A`: the average of the targets of the window. -/
def averageTarget (chain : List CBlockIndex) : ℚ :=
  (∑ i ∈ Icc 1 lwmaWindow, (windowTarget chain i : ℚ)) / lwmaWindow

/-- The weighted solvetimes over what they are expected to be, a third at least. -/
def timeRatio (chain : List CBlockIndex) : ℚ :=
  max (1 / 3) ((weightedSum chain lwmaWindow : ℚ) / (lwmaNorm : ℚ))

/-- The response before any rounding. -/
def exactResponse (powLimit : Nat) (chain : List CBlockIndex) : ℚ :=
  min powLimit (averageTarget chain * timeRatio chain)

/-- The target of the next block. -/
def nextWorkTarget (P : CChainParams) (chain : List CBlockIndex) : Nat :=
  (setCompact (getNextWorkRequiredLWMA3 P chain)).toNat

theorem averageTarget_pos {P : CChainParams} {chain : List CBlockIndex} (h : LwmaChain P chain) :
    0 < averageTarget chain := by
  refine div_pos (sum_pos (fun i hi => ?_) ⟨1, by decide⟩) (by norm_num [lwmaWindow])
  exact_mod_cast h.pos i hi

theorem averageTarget_le {P : CChainParams} {chain : List CBlockIndex} (h : LwmaChain P chain) :
    averageTarget chain ≤ P.bnProofOfWorkLimit.toNat := by
  have hsum : ∑ i ∈ Icc 1 lwmaWindow, (windowTarget chain i : ℚ) ≤
      ∑ i ∈ Icc 1 lwmaWindow, (P.bnProofOfWorkLimit.toNat : ℚ) :=
    sum_le_sum fun i hi => by exact_mod_cast h.le i hi
  rw [sum_const, Nat.card_Icc, Nat.add_sub_cancel, nsmul_eq_mul] at hsum
  rw [averageTarget, div_le_iff₀ (by norm_num [lwmaWindow]), mul_comm]
  exact hsum

theorem LwmaChain.limit_pos {P : CChainParams} {chain : List CBlockIndex} (h : LwmaChain P chain) :
    (0 : ℚ) < P.bnProofOfWorkLimit.toNat :=
  lt_of_lt_of_le (averageTarget_pos h) (averageTarget_le h)

theorem timeRatio_pos (chain : List CBlockIndex) : 0 < timeRatio chain :=
  lt_max_of_lt_left (by norm_num)

/-! ## Scaling -/

theorem cast_lwmaFactor (chain : List CBlockIndex) :
    (lwmaFactor chain : ℚ) = lwmaNorm * timeRatio chain := by
  have hnorm : lwmaNorm = 219600 := by decide
  have hfloor : lwmaNorm / 3 = 73200 := by decide
  have hcast : ((lwmaFactor chain : Nat) : Int) = max 73200 (weightedSum chain lwmaWindow) := by
    rw [lwmaFactor, hfloor]
    omega
  have hrat : (lwmaFactor chain : ℚ) = max 73200 (weightedSum chain lwmaWindow : ℚ) := by
    have hboth := congrArg (Int.cast (R := ℚ)) hcast
    push_cast at hboth
    exact hboth
  rw [hrat, timeRatio, hnorm, mul_max_of_nonneg _ _ (by norm_num)]
  congr 1
  · norm_num
  · push_cast
    rw [mul_div_cancel₀ _ (by norm_num)]

/-- The divisor takes one target in 325 at most, when targets are `2 ^ 32` or more. -/
theorem scaledSum_bounds {chain : List CBlockIndex}
    (hlarge : ∀ i ∈ Icc 1 lwmaWindow, 2 ^ 32 ≤ windowTarget chain i) :
    lwmaDivisor * scaledSum chain lwmaWindow ≤ ∑ i ∈ Icc 1 lwmaWindow, windowTarget chain i ∧
      (2 ^ 32 - lwmaDivisor) * ∑ i ∈ Icc 1 lwmaWindow, windowTarget chain i ≤
        2 ^ 32 * (lwmaDivisor * scaledSum chain lwmaWindow) := by
  rw [scaledSum, mul_sum, mul_sum, mul_sum]
  refine ⟨sum_le_sum fun i _ => Nat.mul_div_le _ _, sum_le_sum fun i hi => ?_⟩
  have ht := hlarge i hi
  have hsplit := Nat.div_add_mod (windowTarget chain i) lwmaDivisor
  have hmod : windowTarget chain i % lwmaDivisor < lwmaDivisor := Nat.mod_lt _ (by decide)
  generalize windowTarget chain i = t at *
  simp only [lwmaDivisor] at *
  omega

/-- The product before the cap, against the average. -/
theorem product_bounds {chain : List CBlockIndex}
    (hlarge : ∀ i ∈ Icc 1 lwmaWindow, 2 ^ 32 ≤ windowTarget chain i) :
    ((scaledSum chain lwmaWindow * lwmaFactor chain : Nat) : ℚ) ≤
        averageTarget chain * timeRatio chain ∧
      (1 - 1 / 2 ^ 8) * (averageTarget chain * timeRatio chain) ≤
        ((scaledSum chain lwmaWindow * lwmaFactor chain : Nat) : ℚ) := by
  rcases scaledSum_bounds hlarge with ⟨hupper, hlower⟩
  have hfactor := cast_lwmaFactor chain
  have hpos := (timeRatio_pos chain).le
  have hnorm : (lwmaNorm : ℚ) = 219600 := by
    have hint : lwmaNorm = 219600 := by decide
    rw [hint]
    norm_num
  rw [averageTarget, ← Nat.cast_sum]
  generalize timeRatio chain = ratio at hfactor hpos ⊢
  generalize ∑ i ∈ Icc 1 lwmaWindow, windowTarget chain i = total at hupper hlower ⊢
  generalize scaledSum chain lwmaWindow = scaled at hupper hlower ⊢
  have hupper' : (13176000 : ℚ) * scaled ≤ total := by exact_mod_cast hupper
  have hlower' : (2 ^ 32 - 13176000 : ℚ) * total ≤ 2 ^ 32 * (13176000 * scaled) := by
    have hsub : ((2 ^ 32 - lwmaDivisor : Nat) : ℚ) = 2 ^ 32 - 13176000 := by norm_num [lwmaDivisor]
    rw [← hsub]
    exact_mod_cast hlower
  have htotal : (0 : ℚ) ≤ total := Nat.cast_nonneg _
  rw [Nat.cast_mul, hfactor, hnorm]
  have hwindow : ((lwmaWindow : Nat) : ℚ) = 60 := by norm_num [lwmaWindow]
  rw [hwindow]
  constructor
  · have hstep := mul_le_mul_of_nonneg_right hupper' hpos
    linarith
  · have hstep := mul_le_mul_of_nonneg_right hlower' hpos
    have hprod : 0 ≤ (total : ℚ) * ratio := mul_nonneg htotal hpos
    linarith

/-! ## The response -/

variable {P : CChainParams} {chain chain' : List CBlockIndex}

/-- What packing takes away, as a fraction. -/
theorem pack_bounds (x : UInt256) :
    (((setCompact (getCompact x)).toNat : Nat) : ℚ) ≤ (x.toNat : ℚ) ∧
      (1 - 1 / 2 ^ 15) * (x.toNat : ℚ) ≤ (((setCompact (getCompact x)).toNat : Nat) : ℚ) := by
  have hloss : ((2 ^ 15 * x.toNat : Nat) : ℚ) ≤ ((2 ^ 15 * (setCompact (getCompact x)).toNat + x.toNat : Nat) : ℚ) := by
    exact_mod_cast lt_setCompact_getCompact x
  refine ⟨by exact_mod_cast setCompact_getCompact_le x, ?_⟩
  push_cast at hloss
  linarith

/-- All the rounding there is takes less than one part in 128. -/
theorem nextWorkTarget_bounds (h : LwmaChain P chain)
    (hlarge : ∀ i ∈ Icc 1 lwmaWindow, 2 ^ 32 ≤ windowTarget chain i) :
    (nextWorkTarget P chain : ℚ) ≤ exactResponse P.bnProofOfWorkLimit.toNat chain ∧
      (1 - 1 / 2 ^ 7) * exactResponse P.bnProofOfWorkLimit.toNat chain < nextWorkTarget P chain := by
  rcases getNextWorkRequiredLWMA3_formula h with ⟨next, hnext, hformula⟩
  rcases product_bounds hlarge with ⟨hupper, hlower⟩
  rcases pack_bounds next with ⟨hpack, hloss⟩
  have hexact := mul_pos (averageTarget_pos h) (timeRatio_pos chain)
  have hlimit := h.limit_pos
  rw [nextWorkTarget, hnext, exactResponse]
  rw [hformula, lwmaFormula, Nat.cast_min] at hpack hloss
  generalize ((scaledSum chain lwmaWindow * lwmaFactor chain : Nat) : ℚ) = product at hupper hlower hpack hloss
  generalize averageTarget chain * timeRatio chain = exact at hupper hlower hexact ⊢
  generalize (P.bnProofOfWorkLimit.toNat : ℚ) = limit at hpack hloss hlimit ⊢
  refine ⟨hpack.trans (min_le_min_left _ hupper), ?_⟩
  have hcap : (1 - 1 / 2 ^ 8) * min limit exact ≤ min limit product := by
    refine le_min ?_ ?_
    · have hle := min_le_left limit exact
      linarith
    · have hle := min_le_right limit exact
      linarith
  have hpos : 0 < min limit exact := lt_min hlimit hexact
  linarith

/-- The solvetimes are at most six times what is expected. -/
theorem timeRatio_le (chain : List CBlockIndex) : timeRatio chain ≤ 6 := by
  have hle : (weightedSum chain lwmaWindow : ℚ) ≤ ((6 * lwmaNorm : Int) : ℚ) := by
    exact_mod_cast weightedSum_le chain
  have hnorm : (0 : ℚ) < (lwmaNorm : ℚ) := by
    have hint : (0 : Int) < lwmaNorm := by decide
    exact_mod_cast hint
  rw [timeRatio, max_le_iff, div_le_iff₀ hnorm]
  refine ⟨by norm_num, ?_⟩
  push_cast at hle
  exact hle

/-- With the same targets, more time between blocks never makes the next target smaller. -/
theorem nextWorkTarget_mono (h : LwmaChain P chain) (h' : LwmaChain P chain')
    (htargets : ∀ i ∈ Icc 1 lwmaWindow, windowTarget chain' i = windowTarget chain i)
    (htime : weightedSum chain lwmaWindow ≤ weightedSum chain' lwmaWindow) :
    nextWorkTarget P chain ≤ nextWorkTarget P chain' := by
  rcases getNextWorkRequiredLWMA3_formula h with ⟨next, hnext, hformula⟩
  rcases getNextWorkRequiredLWMA3_formula h' with ⟨next', hnext', hformula'⟩
  have hscaled : scaledSum chain lwmaWindow = scaledSum chain' lwmaWindow :=
    sum_congr rfl fun i hi => by rw [htargets i hi]
  have hfactor : lwmaFactor chain ≤ lwmaFactor chain' := Int.toNat_le_toNat (max_le_max_left _ htime)
  rw [nextWorkTarget, nextWorkTarget, hnext, hnext']
  refine setCompact_getCompact_mono ?_
  rw [hformula, hformula', lwmaFormula, lwmaFormula, hscaled]
  exact min_le_min_left _ (Nat.mul_le_mul_left _ hfactor)

/-- **The response law.** -/
theorem lwma3_response (P : CChainParams) (chain : List CBlockIndex) (h : LwmaChain P chain)
    (hlarge : ∀ i ∈ Icc 1 lwmaWindow, 2 ^ 32 ≤ windowTarget chain i) :
    ((1 - 1 / 2 ^ 7) * (averageTarget chain / 3) < nextWorkTarget P chain ∧
      (nextWorkTarget P chain : ℚ) ≤ 6 * averageTarget chain ∧
      nextWorkTarget P chain ≤ P.bnProofOfWorkLimit.toNat) ∧
    (weightedSum chain lwmaWindow = lwmaNorm →
      (1 - 1 / 2 ^ 7) * min (averageTarget chain) P.bnProofOfWorkLimit.toNat < nextWorkTarget P chain ∧
        (nextWorkTarget P chain : ℚ) ≤ min (averageTarget chain) P.bnProofOfWorkLimit.toNat) ∧
    ∀ chain', LwmaChain P chain' →
      (∀ i ∈ Icc 1 lwmaWindow, windowTarget chain' i = windowTarget chain i) →
      weightedSum chain lwmaWindow ≤ weightedSum chain' lwmaWindow →
      nextWorkTarget P chain ≤ nextWorkTarget P chain' := by
  rcases nextWorkTarget_bounds h hlarge with ⟨hupper, hlower⟩
  have haverage := (averageTarget_pos h).le
  have hlimit := averageTarget_le h
  refine ⟨⟨?_, ?_, ?_⟩, fun hk => ?_, fun chain' h' htargets htime => nextWorkTarget_mono h h' htargets htime⟩
  · -- A third of the average is below the limit and below the product.
    refine lt_of_le_of_lt (mul_le_mul_of_nonneg_left (le_min ?_ ?_) (by norm_num)) hlower
    · linarith
    · have hratio : 1 / 3 ≤ timeRatio chain := le_max_left _ _
      have hstep := mul_le_mul_of_nonneg_left hratio haverage
      linarith
  · have hstep := mul_le_mul_of_nonneg_left (timeRatio_le chain) haverage
    have hle := hupper.trans (min_le_right _ _)
    linarith
  · exact_mod_cast hupper.trans (min_le_left _ _)
  · have hratio : timeRatio chain = 1 := by
      have hnorm : (lwmaNorm : ℚ) ≠ 0 := by
        have hint : lwmaNorm ≠ 0 := by decide
        exact_mod_cast hint
      rw [timeRatio, hk, div_self hnorm]
      norm_num
    rw [exactResponse, hratio, mul_one, min_comm] at hupper hlower
    exact ⟨hlower, hupper⟩

theorem lwma3_response_spacedChain :
    (nextWorkTarget testNetParams (spacedChain 120) : ℚ) ≤ averageTarget (spacedChain 120) ∧
      nextWorkTarget testNetParams (spacedChain 120) ≤ nextWorkTarget testNetParams (spacedChain 240) := by
  have hlarge : ∀ i ∈ Icc 1 lwmaWindow, 2 ^ 32 ≤ windowTarget (spacedChain 120) i := fun i hi => by
    rw [windowTarget_spacedChain 120 hi]
    decide
  rcases lwma3_response testNetParams (spacedChain 120) (lwmaChain_spacedChain 120) hlarge with ⟨-, hsteady, hmono⟩
  refine ⟨(hsteady ?_).2.trans (min_le_left _ _), hmono (spacedChain 240) (lwmaChain_spacedChain 240) (fun i hi => ?_) ?_⟩
  · rw [weightedSum_spacedChain (by decide)]
    decide
  · rw [windowTarget_spacedChain 240 hi, windowTarget_spacedChain 120 hi]
  · rw [weightedSum_spacedChain (by decide), weightedSum_spacedChain (by decide)]
    decide

end Dobbscoin
