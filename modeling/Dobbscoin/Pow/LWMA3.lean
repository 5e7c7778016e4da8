import Dobbscoin.Pow.Emergency
import Mathlib.Algebra.Order.BigOperators.Group.List

/-!
# The LWMA-3 retarget

`GetNextWorkRequired_LWMA3`, its loop as a fold over the window, and what the loop computes: the sum
of the scaled targets (`toNat_sumTarget`) and the weighted solvetimes (`weightedTime_of_slow`).
-/

namespace Dobbscoin

/-- `N`: the window, in blocks. -/
def lwmaWindow : Nat := 60

/-- `T`: the target spacing, in seconds. -/
def lwmaSpacing : Int := 2 * 60

/-- `k`: the expected value of the weighted sum of solvetimes. -/
def lwmaNorm : Int := (60 * (60 + 1) * lwmaSpacing) / 2

/-- `N * k`, the divisor applied to every target. -/
def lwmaDivisor : Nat := 13176000

/-- The variables of the loop. -/
structure LwmaState where
  sumTarget : UInt256
  weightedTime : Int
  previousTime : Int

/-- Solvetimes are clamped to `[-6T, +6T]`. -/
def clampSolvetime (solvetime : Int) : Int :=
  let upper := if solvetime > 6 * lwmaSpacing then 6 * lwmaSpacing else solvetime
  if upper < -6 * lwmaSpacing then -6 * lwmaSpacing else upper

/-- One pass of the loop, for the block of weight `i`. -/
def lwmaStep (st : LwmaState) (i : Nat) (block : CBlockIndex) : LwmaState where
  sumTarget := st.sumTarget + setCompact block.nBits / BitVec.ofNat 256 lwmaDivisor
  weightedTime := st.weightedTime + clampSolvetime (block.getBlockTime - st.previousTime) * i
  previousTime := block.getBlockTime

def lwmaLoop (st : LwmaState) (i : Nat) : List CBlockIndex → LwmaState
  | [] => st
  | block :: blocks => lwmaLoop (lwmaStep st i block) (i + 1) blocks

/-- What follows the loop: the floor at `k / 3`, the product, whose second factor is converted to
`uint32_t`, and the cap at the limit. -/
def lwmaNextTarget (powLimit : UInt256) (st : LwmaState) : UInt256 :=
  let weightedTime := if st.weightedTime < lwmaNorm / 3 then lwmaNorm / 3 else st.weightedTime
  let nextTarget := st.sumTarget * BitVec.ofNat 256 (weightedTime.toNat % 2 ^ 32)
  if nextTarget > powLimit then powLimit else nextTarget

/-- `GetNextWorkRequired_LWMA3`.  Past the bootstrap window the height of `pindexLast` guarantees
the `N + 1` blocks the loop reads. -/
def getNextWorkRequiredLWMA3 (P : CChainParams) (pindexLast : List CBlockIndex) : UInt32 :=
  let powLimit := P.bnProofOfWorkLimit
  match pindexLast with
  | [] => getCompact powLimit
  | last :: _ =>
    if last.nHeight + 1 < lwma3ForkHeight P + lwmaWindow then last.nBits
    else
      match (pindexLast.take (lwmaWindow + 1)).reverse with
      | [] => getCompact powLimit
      | oldest :: blocks =>
        getCompact (lwmaNextTarget powLimit (lwmaLoop ⟨0, 0, oldest.getBlockTime⟩ 1 blocks))

/-- Past the bootstrap window the result is what the loop makes of the last `N` blocks. -/
theorem getNextWorkRequiredLWMA3_window {P : CChainParams} {chain : List CBlockIndex}
    (hfull : lwmaWindow < chain.length)
    (hpast : ∀ tip ∈ chain.head?, lwma3ForkHeight P + lwmaWindow ≤ tip.nHeight + 1) :
    getNextWorkRequiredLWMA3 P chain =
      getCompact (lwmaNextTarget P.bnProofOfWorkLimit
        (lwmaLoop ⟨0, 0, chain[lwmaWindow].getBlockTime⟩ 1 (chain.take lwmaWindow).reverse)) := by
  have hrev : (chain.take (lwmaWindow + 1)).reverse =
      chain[lwmaWindow] :: (chain.take lwmaWindow).reverse := by
    rw [List.take_succ_eq_append_getElem hfull, List.reverse_append, List.reverse_singleton,
      List.singleton_append]
  cases chain with
  | nil => simp at hfull
  | cons tip ancestors =>
    have hnot : ¬ tip.nHeight + 1 < lwma3ForkHeight P + lwmaWindow :=
      not_lt_of_ge (hpast tip rfl)
    simp only [getNextWorkRequiredLWMA3, hnot, if_false, hrev]

/-! ## The two sums -/

/-- What a block adds to `sumTarget`. -/
def scaledTarget (block : CBlockIndex) : Nat :=
  (setCompact block.nBits).toNat / lwmaDivisor

theorem toNat_scaledTarget (block : CBlockIndex) :
    (setCompact block.nBits / BitVec.ofNat 256 lwmaDivisor).toNat = scaledTarget block := by
  have hmod : lwmaDivisor % 2 ^ 256 = lwmaDivisor := by decide
  simp only [BitVec.toNat_udiv, BitVec.toNat_ofNat, hmod, scaledTarget]

/-- `sumTarget` is the sum of the scaled targets, as long as that sum fits. -/
theorem toNat_sumTarget (blocks : List CBlockIndex) (st : LwmaState) (i : Nat)
    (hfits : st.sumTarget.toNat + (blocks.map scaledTarget).sum < 2 ^ 256) :
    (lwmaLoop st i blocks).sumTarget.toNat =
      st.sumTarget.toNat + (blocks.map scaledTarget).sum := by
  induction blocks generalizing st i with
  | nil => simp [lwmaLoop]
  | cons block blocks ih =>
    simp only [List.map_cons, List.sum_cons] at hfits ⊢
    have hstep : (lwmaStep st i block).sumTarget.toNat =
        st.sumTarget.toNat + scaledTarget block := by
      have hadd : (lwmaStep st i block).sumTarget.toNat =
          (st.sumTarget.toNat + scaledTarget block) % 2 ^ 256 := by
        simp only [lwmaStep, BitVec.toNat_add, toNat_scaledTarget]
      rw [hadd]
      exact Nat.mod_eq_of_lt (by omega)
    rw [lwmaLoop, ih (lwmaStep st i block) (i + 1) (by omega), hstep]
    omega

/-- Scaling loses less than the divisor on each block. -/
theorem scaledTarget_bounds (blocks : List CBlockIndex) :
    lwmaDivisor * (blocks.map scaledTarget).sum ≤
        (blocks.map fun b => (setCompact b.nBits).toNat).sum ∧
      (blocks.map fun b => (setCompact b.nBits).toNat).sum ≤
        lwmaDivisor * (blocks.map scaledTarget).sum + lwmaDivisor * blocks.length := by
  induction blocks with
  | nil => simp
  | cons block blocks ih =>
    have hdiv := Nat.div_add_mod (setCompact block.nBits).toNat lwmaDivisor
    have hmod : (setCompact block.nBits).toNat % lwmaDivisor < lwmaDivisor :=
      Nat.mod_lt _ (by decide)
    simp only [List.map_cons, List.sum_cons, List.length_cons, scaledTarget, lwmaDivisor] at *
    omega

theorem clampSolvetime_of_slow {s : Int} (hs : 6 * lwmaSpacing ≤ s) :
    clampSolvetime s = 6 * lwmaSpacing := by
  simp only [clampSolvetime, lwmaSpacing] at hs ⊢
  split_ifs <;> omega

/-- When every block took at least `6T`, each one counts as exactly `6T`. -/
theorem weightedTime_of_slow (blocks : List CBlockIndex) (st : LwmaState) (i : Nat)
    (hslow : List.IsChain (fun s t => s + 6 * lwmaSpacing ≤ t)
      (st.previousTime :: blocks.map CBlockIndex.getBlockTime)) :
    (lwmaLoop st i blocks).weightedTime =
      st.weightedTime + 6 * lwmaSpacing * ((List.range' i blocks.length).sum : Nat) := by
  induction blocks generalizing st i with
  | nil => simp [lwmaLoop]
  | cons block blocks ih =>
    simp only [List.map_cons, List.isChain_cons_cons] at hslow
    have hclamp : clampSolvetime (block.getBlockTime - st.previousTime) = 6 * lwmaSpacing :=
      clampSolvetime_of_slow (by omega)
    have htail := ih (lwmaStep st i block) (i + 1) hslow.2
    have hsum : (List.range' i (block :: blocks).length).sum =
        i + (List.range' (i + 1) blocks.length).sum := by
      simp [List.range'_succ]
    rw [lwmaLoop, htail, hsum]
    simp only [lwmaStep, hclamp]
    push_cast
    ring

end Dobbscoin
