import Dobbscoin.Lib.Int64Bounds
import Dobbscoin.Pow.LwmaWindow
import Dobbscoin.Pow.TargetLimbs

/-!
# LWMA-3, digit by digit

`GetNextWorkRequired_LWMA3` with the types the code has: digits of 32 bits under the target, `int64_t`
for the times, and a factor that is converted to `uint32_t`.  `lwma3_exact` says that none of these
loses anything.
-/

namespace Dobbscoin

variable {chain : List CBlockIndex} {P : CChainParams} {st : State}

namespace BaseUInt

/-- The digits of a bit vector. -/
def ofUInt256 (x : UInt256) : BaseUInt 8 where
  pn := (List.range 8).map fun i => UInt32.ofNat (x.toNat >>> (32 * i))
  length_pn := rfl

theorem value_ofUInt256 (x : UInt256) : (ofUInt256 x).value = x.toNat := by
  apply Nat.eq_of_testBit_eq
  intro n
  rw [testBit_value, bitAt, ofUInt256]
  by_cases hn : n / 32 < 8
  · have hsplit : 32 * (n / 32) + n % 32 = n := Nat.div_add_mod n 32
    have hmod := Nat.mod_lt n (show 0 < 32 by decide)
    rw [List.getD_eq_getElem?_getD, List.getElem?_map, List.getElem?_range hn, Option.map_some, Option.getD_some,
      UInt32.toNat_ofNat', Nat.testBit_mod_two_pow, decide_eq_true hmod, Bool.true_and, Nat.testBit_shiftRight, hsplit]
  · have hlarge : x.toNat < 2 ^ n := lt_of_lt_of_le x.isLt (Nat.pow_le_pow_right (by decide) (by omega))
    rw [List.getD_eq_default _ _ (by simpa using hn), Nat.testBit_lt_two_pow hlarge]
    exact Nat.zero_testBit _

end BaseUInt

namespace LwmaLimbs

/-- The variables of the loop. -/
structure State where
  sumTarget : BaseUInt 8
  weightedTime : Int64
  previousTime : Int64

/-- `T`. -/
def spacing : Int64 := 2 * 60

/-- `k`. -/
def norm : Int64 := (60 * (60 + 1) * spacing) / 2

/-- `(uint64_t)(N * k)`. -/
def divisor : UInt64 := (60 * norm).toUInt64

/-- `GetBlockTime`. -/
def getBlockTime (block : CBlockIndex) : Int64 :=
  block.nTime.toUInt64.toInt64

def clamp (solvetime : Int64) : Int64 :=
  let solvetime := if solvetime > 6 * spacing then 6 * spacing else solvetime
  if solvetime < -6 * spacing then -6 * spacing else solvetime

/-- One pass of the loop; the division throws on a divisor of zero. -/
def step (st : State) (i : Int64) (block : CBlockIndex) : Except String State := do
  let thisTime := getBlockTime block
  let solvetime := clamp (thisTime - st.previousTime)
  let quotient ← (BaseUInt.setCompact block.nBits).div (BaseUInt.ofUInt64 divisor)
  .ok {
    sumTarget := st.sumTarget.add quotient
    weightedTime := st.weightedTime + solvetime * i
    previousTime := thisTime }

def loop (st : State) (i : Nat) : List CBlockIndex → Except String State
  | [] => .ok st
  | block :: blocks => do
    let st ← step st (Int64.ofNat i) block
    loop st (i + 1) blocks

/-- The weighted sum after the floor, as `operator*` takes it: of its overloads, the one for `uint32_t`
needs no user-defined conversion. -/
def factor (st : State) : UInt32 :=
  (if st.weightedTime < norm / 3 then norm / 3 else st.weightedTime).toUInt64.toUInt32

def product (st : State) : BaseUInt 8 :=
  st.sumTarget.mul32 (factor st)

def nextTarget (powLimit : BaseUInt 8) (st : State) : BaseUInt 8 :=
  if (product st).compareTo powLimit = .gt then powLimit else product st

/-- The variables before the loop. -/
def start (oldest : CBlockIndex) : State where
  sumTarget := BaseUInt.zero
  weightedTime := 0
  previousTime := getBlockTime oldest

def getNextWorkRequired (P : CChainParams) (pindexLast : List CBlockIndex) : Except String UInt32 :=
  let powLimit := BaseUInt.ofUInt256 P.bnProofOfWorkLimit
  match pindexLast with
  | [] => .ok powLimit.getCompact
  | last :: _ =>
    if last.nHeight + 1 < lwma3ForkHeight P + lwmaWindow then .ok last.nBits
    else
      match (pindexLast.take (lwmaWindow + 1)).reverse with
      | [] => .ok powLimit.getCompact
      | oldest :: blocks => do
        let st ← loop (start oldest) 1 blocks
        .ok (nextTarget powLimit st).getCompact

/-! ## One pass -/

theorem toInt_getBlockTime (block : CBlockIndex) : (getBlockTime block).toInt = block.getBlockTime := by
  have hlt := block.nTime.toNat_lt
  have hnat : (getBlockTime block).toBitVec.toNat = block.nTime.toNat := UInt32.toNat_toUInt64 _
  exact (BitVec.toInt_eq_toNat_of_lt (by rw [hnat]; omega)).trans (congrArg Nat.cast hnat)

theorem toInt_clamp (s : Int64) : (clamp s).toInt = clampSolvetime s.toInt := by
  have hhigh : (6 * spacing).toInt = 6 * lwmaSpacing := by decide
  have hlow : (-6 * spacing).toInt = -6 * lwmaSpacing := by decide
  simp only [clamp, clampSolvetime, gt_iff_lt, Int64.lt_iff_toInt_lt, hhigh, hlow, apply_ite Int64.toInt]

/-- What the variables hold after `n` passes. -/
structure State.Exact (chain : List CBlockIndex) (n : Nat) (st : State) : Prop where
  sumTarget : st.sumTarget.value = scaledSum chain n
  weightedTime : st.weightedTime.toInt = weightedSum chain n
  previousTime : st.previousTime.toInt = (windowBlock chain n).getBlockTime

theorem State.Exact.step (h : LwmaChain P chain) {n : Nat}
    (hn : n + 1 ≤ lwmaWindow) (hst : st.Exact chain n) :
    ∃ st', LwmaLimbs.step st (Int64.ofNat (n + 1)) (windowBlock chain (n + 1)) = .ok st' ∧ st'.Exact chain (n + 1) := by
  have hdivisor : (BaseUInt.ofUInt64 divisor : BaseUInt 8).value = lwmaDivisor :=
    (BaseUInt.value_ofUInt64 (by decide) divisor).trans (by decide)
  rcases BaseUInt.div_spec (BaseUInt.setCompact (windowBlock chain (n + 1)).nBits)
    (b := BaseUInt.ofUInt64 divisor) (by rw [hdivisor]; decide) with ⟨quotient, hdiv, hquot⟩
  rw [hdivisor, BaseUInt.value_setCompact] at hquot
  refine ⟨_, by rw [LwmaLimbs.step, hdiv]; rfl, ?_, ?_, toInt_getBlockTime _⟩
  · have hfits := scaledSum_lt h hn
    rw [scaledSum, sum_Icc_succ, ← scaledSum] at hfits ⊢
    rw [BaseUInt.value_add, hst.sumTarget, hquot]
    exact Nat.mod_eq_of_lt (lt_trans hfits (by decide))
  · have hthis := (windowBlock chain (n + 1)).nTime.toNat_lt
    have hprevious := (windowBlock chain n).nTime.toNat_lt
    have hsub : (getBlockTime (windowBlock chain (n + 1)) - st.previousTime).toInt =
        (windowBlock chain (n + 1)).getBlockTime - (windowBlock chain n).getBlockTime := by
      have hvalue := toInt_getBlockTime (windowBlock chain (n + 1))
      rw [Int64Bounds.toInt_sub, hvalue, hst.previousTime]
      all_goals
        rw [hvalue, hst.previousTime, CBlockIndex.getBlockTime, CBlockIndex.getBlockTime]
        omega
    have hclamp : (clamp (getBlockTime (windowBlock chain (n + 1)) - st.previousTime)).toInt =
        windowSolvetime chain (n + 1) := by
      rw [toInt_clamp, hsub, windowSolvetime, Nat.add_sub_cancel]
    have hbounds := clampSolvetime_bounds
      ((windowBlock chain (n + 1)).getBlockTime - (windowBlock chain (n + 1 - 1)).getBlockTime)
    rw [← windowSolvetime] at hbounds
    have hweight : ((n + 1 : Nat) : Int) ≤ 60 := by
      simp only [lwmaWindow] at hn
      omega
    have hi : (Int64.ofNat (n + 1)).toInt = ((n + 1 : Nat) : Int) := Int64.toInt_ofNat_of_lt (by omega)
    have hlow := mul_le_mul_of_nonneg_left hbounds.1 (Int.natCast_nonneg (n + 1))
    have hhigh := mul_le_mul_of_nonneg_left hbounds.2 (Int.natCast_nonneg (n + 1))
    have hmul : (clamp (getBlockTime (windowBlock chain (n + 1)) - st.previousTime) * Int64.ofNat (n + 1)).toInt =
        ((n + 1 : Nat) : Int) * windowSolvetime chain (n + 1) := by
      rw [Int64Bounds.toInt_mul, hclamp, hi, mul_comm]
      all_goals
        rw [hclamp, hi, mul_comm]
        omega
    have hsum := weightedSum_bounds chain (show n ≤ lwmaWindow by omega)
    rw [weightedSum, sum_Icc_succ, ← weightedSum]
    show (st.weightedTime + _ * _).toInt = _
    rw [Int64Bounds.toInt_add, hst.weightedTime, hmul]
    all_goals
      rw [hst.weightedTime, hmul]
      omega

/-! ## The whole loop -/

theorem loop_append (st : State) (i : Nat) (blocks : List CBlockIndex) (block : CBlockIndex) :
    loop st i (blocks ++ [block]) =
      (loop st i blocks).bind fun st => step st (Int64.ofNat (i + blocks.length)) block := by
  induction blocks generalizing st i with
  | nil =>
    show (step st (Int64.ofNat i) block).bind .ok = step st (Int64.ofNat (i + 0)) block
    cases step st (Int64.ofNat i) block <;> rfl
  | cons b blocks ih =>
    rw [List.cons_append, loop, loop, List.length_cons]
    cases step st (Int64.ofNat i) b with
    | error e => rfl
    | ok st' =>
      have hidx : i + (blocks.length + 1) = i + 1 + blocks.length := by omega
      rw [hidx]
      exact ih st' (i + 1)

/-- Every pass is exact. -/
theorem exact_loop (h : LwmaChain P chain) {n : Nat}
    (hn : n ≤ lwmaWindow) :
    ∃ st, loop (start (windowBlock chain 0)) 1 ((lwmaBlocks chain).take n) = .ok st ∧ st.Exact chain n := by
  induction n with
  | zero =>
    exact ⟨_, rfl, BaseUInt.value_zero, rfl, toInt_getBlockTime _⟩
  | succ n ih =>
    rcases ih (by omega) with ⟨st, hloop, hst⟩
    rcases hst.step h hn with ⟨st', hstep, hst'⟩
    have hlen : ((lwmaBlocks chain).take n).length = n := by
      rw [List.length_take, lwmaBlocks_length h.full]
      omega
    refine ⟨st', ?_, hst'⟩
    rw [lwmaBlocks_take_succ h.full (by omega), loop_append, hloop, hlen, Nat.add_comm 1 n]
    exact hstep

theorem toNat_factor (hst : st.Exact chain lwmaWindow) :
    (factor st).toNat = lwmaFactor chain := by
  have hnorm : (norm / 3).toInt = lwmaNorm / 3 := by decide
  have hfloor : lwmaNorm / 3 = 73200 := by decide
  have hsix : 6 * lwmaNorm = 1317600 := by decide
  have hle := weightedSum_le chain
  have hmax : (if st.weightedTime < norm / 3 then norm / 3 else st.weightedTime).toInt =
      max (lwmaNorm / 3) (weightedSum chain lwmaWindow) := by
    have hlt : st.weightedTime < norm / 3 ↔ weightedSum chain lwmaWindow < lwmaNorm / 3 := by
      rw [Int64.lt_iff_toInt_lt, hnorm, hst.weightedTime]
    rw [apply_ite Int64.toInt, hnorm, hst.weightedTime]
    split_ifs with hsmall
    · exact (max_eq_left (Int.le_of_lt (hlt.1 hsmall))).symm
    · exact (max_eq_right (not_lt.1 (mt hlt.2 hsmall))).symm
  rw [factor, Int64Bounds.toNat_toUInt32, hmax, lwmaFactor]
  all_goals
    rw [hmax]
    omega

theorem value_product (h : LwmaChain P chain)
    (hst : st.Exact chain lwmaWindow) : (product st).value = scaledSum chain lwmaWindow * lwmaFactor chain := by
  rw [product, BaseUInt.value_mul32, toNat_factor hst, hst.sumTarget, Nat.mul_comm]
  exact Nat.mod_eq_of_lt (lt_trans (product_lt h) (by decide))

theorem value_nextTarget (h : LwmaChain P chain)
    (hst : st.Exact chain lwmaWindow) :
    (nextTarget (BaseUInt.ofUInt256 P.bnProofOfWorkLimit) st).value = lwmaFormula P.bnProofOfWorkLimit.toNat chain := by
  rw [nextTarget, lwmaFormula, BaseUInt.compareTo_eq, BaseUInt.value_ofUInt256, ← value_product h hst]
  split_ifs with hcap
  · rw [BaseUInt.value_ofUInt256, Nat.min_eq_left (Nat.le_of_lt (Nat.compare_eq_gt.1 hcap))]
  · rw [Nat.min_eq_right]
    exact not_lt.1 fun hlt => hcap (Nat.compare_eq_gt.2 hlt)

theorem getNextWorkRequired_window (h : LwmaChain P chain)
    (hloop : loop (start (windowBlock chain 0)) 1 (lwmaBlocks chain) = .ok st) :
    getNextWorkRequired P chain = .ok (nextTarget (BaseUInt.ofUInt256 P.bnProofOfWorkLimit) st).getCompact := by
  have hrev : (chain.take (lwmaWindow + 1)).reverse = windowBlock chain 0 :: lwmaBlocks chain := by
    have holdest : windowBlock chain 0 = chain.get ⟨lwmaWindow, h.full⟩ := by
      rw [windowBlock, List.getD_eq_getElem?_getD, Nat.sub_zero, List.getElem?_eq_getElem h.full]
      rfl
    rw [holdest, List.take_succ_eq_append_getElem h.full, List.reverse_append, List.reverse_singleton,
      List.singleton_append]
    rfl
  have hfull := h.full
  cases chain with
  | nil => cases hfull
  | cons tip ancestors =>
    have hnot : ¬ tip.nHeight + 1 < lwma3ForkHeight P + lwmaWindow := not_lt_of_ge (h.past tip rfl)
    simp only [getNextWorkRequired, hnot, if_false, hrev]
    rw [hloop]
    rfl

/-- **LWMA-3 computes its formula.** -/
theorem lwma3_exact (P : CChainParams) (chain : List CBlockIndex) (h : LwmaChain P chain) :
    (∀ n ≤ lwmaWindow, ∃ st, loop (start (windowBlock chain 0)) 1 ((lwmaBlocks chain).take n) = .ok st ∧
      st.sumTarget.value = scaledSum chain n ∧ st.weightedTime.toInt = weightedSum chain n) ∧
    ∃ st, loop (start (windowBlock chain 0)) 1 (lwmaBlocks chain) = .ok st ∧
      ((factor st).toNat : Int) = max (lwmaNorm / 3) (weightedSum chain lwmaWindow) ∧
      (product st).value = scaledSum chain lwmaWindow * (factor st).toNat ∧
      (nextTarget (BaseUInt.ofUInt256 P.bnProofOfWorkLimit) st).value =
        min P.bnProofOfWorkLimit.toNat
          (scaledSum chain lwmaWindow * (max (lwmaNorm / 3) (weightedSum chain lwmaWindow)).toNat) ∧
      getNextWorkRequired P chain = .ok (getNextWorkRequiredLWMA3 P chain) ∧
      getNextWorkRequiredLWMA3 P chain = (nextTarget (BaseUInt.ofUInt256 P.bnProofOfWorkLimit) st).getCompact ∧
      compactNegative (getNextWorkRequiredLWMA3 P chain) = false ∧
      compactOverflow (getNextWorkRequiredLWMA3 P chain) = false ∧
      (setCompact (getNextWorkRequiredLWMA3 P chain)).toNat ≤ P.bnProofOfWorkLimit.toNat ∧
      ((∀ i ∈ Finset.Icc 1 lwmaWindow, lwmaDivisor ≤ windowTarget chain i) →
        setCompact (getNextWorkRequiredLWMA3 P chain) ≠ 0) := by
  refine ⟨fun n hn => ?_, ?_⟩
  · rcases exact_loop h hn with ⟨st, hloop, hst⟩
    exact ⟨st, hloop, hst.sumTarget, hst.weightedTime⟩
  rcases exact_loop h (le_refl lwmaWindow) with ⟨st, hloop, hst⟩
  rw [lwmaBlocks_take_all h.full] at hloop
  rcases getNextWorkRequiredLWMA3_formula h with ⟨next, hnext, hformula⟩
  have hvalue := value_nextTarget h hst
  have hsame : BaseUInt.toUInt256 (nextTarget (BaseUInt.ofUInt256 P.bnProofOfWorkLimit) st) = next :=
    BaseUInt.toUInt256_eq_iff.2 (hvalue.trans hformula.symm)
  have hcompact : getNextWorkRequiredLWMA3 P chain =
      (nextTarget (BaseUInt.ofUInt256 P.bnProofOfWorkLimit) st).getCompact := by
    rw [BaseUInt.getCompact_eq, hsame, hnext]
  have hflags := compactFlags_getCompact next
  have hle := setCompact_getCompact_le next
  refine ⟨st, hloop, ?_, ?_, hvalue, ?_, hcompact, ?_, ?_, ?_, fun htargets hzero => ?_⟩
  · have hfloor : lwmaNorm / 3 = 73200 := by decide
    rw [toNat_factor hst, lwmaFactor]
    omega
  · rw [value_product h hst, toNat_factor hst]
  · rw [getNextWorkRequired_window h hloop, hcompact]
  · rw [hnext]
    exact hflags.1
  · rw [hnext]
    exact hflags.2
  · rw [hnext]
    exact hle.trans (hformula ▸ Nat.min_le_left _ _)
  · -- Each of the 60 quotients is one at least.
    have hone : ∀ i ∈ Finset.Icc 1 lwmaWindow, 1 ≤ windowTarget chain i / lwmaDivisor := fun i hi =>
      (Nat.one_le_div_iff (by decide)).2 (htargets i hi)
    have hsum : 0 < scaledSum chain lwmaWindow :=
      Finset.sum_pos (fun i hi => hone i hi) ⟨1, by decide⟩
    have hfactor := (lwmaFactor_bounds chain).1
    have hlimit : 0 < P.bnProofOfWorkLimit.toNat :=
      lt_of_lt_of_le (h.pos 1 (by decide)) (h.le 1 (by decide))
    have hpos : 0 < next.toNat := by
      rw [hformula, lwmaFormula, Nat.lt_min]
      exact ⟨hlimit, Nat.mul_pos hsum (by omega)⟩
    have hloss := lt_setCompact_getCompact next
    rw [← hnext, hzero] at hloss
    simp only [BitVec.ofNat_eq_ofNat, BitVec.toNat_ofNat, Nat.zero_mod, Nat.mul_zero, Nat.zero_add] at hloss
    omega

theorem lwma3_exact_spacedChain :
    (∃ st, loop (start (windowBlock (spacedChain 120) 0)) 1 (lwmaBlocks (spacedChain 120)) = .ok st ∧
      (product st).value = scaledSum (spacedChain 120) lwmaWindow * (factor st).toNat) ∧
      getNextWorkRequired testNetParams (spacedChain 120) =
        .ok (getNextWorkRequiredLWMA3 testNetParams (spacedChain 120)) ∧
      setCompact (getNextWorkRequiredLWMA3 testNetParams (spacedChain 120)) ≠ 0 := by
  rcases lwma3_exact testNetParams (spacedChain 120) (lwmaChain_spacedChain 120) with
    ⟨-, st, hloop, -, hprod, -, hget, -, -, -, -, hne⟩
  refine ⟨⟨st, hloop, hprod⟩, hget, hne fun i hi => ?_⟩
  rw [windowTarget_spacedChain 120 hi]
  decide

end LwmaLimbs

end Dobbscoin
