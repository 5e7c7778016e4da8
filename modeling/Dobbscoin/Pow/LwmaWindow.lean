import Dobbscoin.Pow.EmergencyRetarget
import Mathlib.Algebra.BigOperators.Intervals
import Mathlib.Algebra.BigOperators.Ring.Finset
import Mathlib.Algebra.Order.BigOperators.Group.Finset
import Mathlib.Tactic.Linarith

/-!
# The LWMA-3 formula

The sums of `GetNextWorkRequired_LWMA3` over a full window, as sums over the positions `1 .. 60`,
and the target they make.  `toNat_lwmaNextTarget` says that the code's 256 bits hold all of it.
-/

namespace Dobbscoin

open Finset

variable {P : CChainParams} {n : Nat}

/-! ## Packed flags -/

theorem compactParts_spec (x : UInt256) :
    (compactParts x).1 < 2 ^ 23 ∧ (compactParts x).2 ≤ 33 ∧
      ((compactParts x).2 = 33 → (compactParts x).1 < 2 ^ 16) := by
  by_cases hx : x.toNat = 0
  · have hzero : x = 0 := BitVec.eq_of_toNat_eq hx
    subst hzero
    decide
  rcases byteSize_bounds hx with ⟨-, hs, -, hhi⟩
  have hlt := compactMantissa_lt hhi
  have hparts : compactParts x =
      if compactMantissa x ((UInt256.bits x + 7) / 8) &&& 0x00800000 ≠ 0 then
        (compactMantissa x ((UInt256.bits x + 7) / 8) >>> 8, (UInt256.bits x + 7) / 8 + 1)
      else (compactMantissa x ((UInt256.bits x + 7) / 8), (UInt256.bits x + 7) / 8) := rfl
  rw [hparts]
  split_ifs with hsign
  · have hmoved : compactMantissa x ((UInt256.bits x + 7) / 8) >>> 8 < 2 ^ 16 := by
      rw [Nat.shiftRight_eq_div_pow]
      omega
    exact ⟨lt_trans hmoved (by decide), by omega, fun _ => hmoved⟩
  · refine ⟨?_, by omega, fun h => ?_⟩
    · by_contra hge
      exact hsign ((and_signBit hlt).2 (by omega))
    · have hsize : (UInt256.bits x + 7) / 8 = 33 := h
      omega

/-- What `GetCompact` packs, `SetCompact` takes for a number that is neither negative nor too large. -/
theorem compactFlags_getCompact (x : UInt256) :
    compactNegative (getCompact x) = false ∧ compactOverflow (getCompact x) = false := by
  rcases compactParts_spec x with ⟨hm, hs, hbig⟩
  have hpack : getCompact x = UInt32.ofNat ((compactParts x).1 ||| (compactParts x).2 <<< 24) := rfl
  rw [hpack]
  generalize (compactParts x).1 = m at *
  generalize (compactParts x).2 = s at *
  rcases pack_spec hm (show s < 256 by omega) with ⟨hval, hsize, hmask⟩
  have hsign : (s * 2 ^ 24 + m) &&& 0x00800000 = 0 := by
    have hbit : (s * 2 ^ 24 + m).testBit 23 = false := by
      rw [Nat.testBit_eq_decide_div_mod_eq, decide_eq_false_iff_not]
      omega
    have hand : (s * 2 ^ 24 + m) &&& 0x00800000 = ((s * 2 ^ 24 + m).testBit 23).toNat * 2 ^ 23 :=
      Nat.and_two_pow _ 23
    rw [hand, hbit]
    rfl
  have hword : compactWord (UInt32.ofNat (m ||| s <<< 24)) ≤ m := by
    rw [compactWord, hval, hsize, hmask]
    split_ifs
    · rw [Nat.shiftRight_eq_div_pow]
      exact Nat.div_le_self _ _
    · exact Nat.le_refl _
  refine ⟨?_, ?_⟩
  · rw [compactNegative, hval, hsign]
    simp
  · rw [compactOverflow, hval, hsize]
    simp only [Bool.and_eq_false_iff, Bool.or_eq_false_iff, decide_eq_false_iff_not]
    omega

/-! ## The window -/

/-- `blocks[i]`. -/
def windowBlock (chain : List CBlockIndex) (i : Nat) : CBlockIndex :=
  chain.getD (lwmaWindow - i) CBlockIndex.null

/-- The target of the block at position `i`. -/
def windowTarget (chain : List CBlockIndex) (i : Nat) : Nat :=
  (setCompact (windowBlock chain i).nBits).toNat

/-- The clamped solvetime of the block at position `i`. -/
def windowSolvetime (chain : List CBlockIndex) (i : Nat) : Int :=
  clampSolvetime ((windowBlock chain i).getBlockTime - (windowBlock chain (i - 1)).getBlockTime)

/-- The scaled targets of the positions `1 .. n`. -/
def scaledSum (chain : List CBlockIndex) (n : Nat) : Nat :=
  ∑ i ∈ Icc 1 n, windowTarget chain i / lwmaDivisor

/-- The weighted solvetimes of the positions `1 .. n`. -/
def weightedSum (chain : List CBlockIndex) (n : Nat) : Int :=
  ∑ i ∈ Icc 1 n, (i : Int) * windowSolvetime chain i

/-- The factor: the weighted sum, or a third of what it is expected to be. -/
def lwmaFactor (chain : List CBlockIndex) : Nat :=
  (max (lwmaNorm / 3) (weightedSum chain lwmaWindow)).toNat

/-- The target, over the integers. -/
def lwmaFormula (powLimit : Nat) (chain : List CBlockIndex) : Nat :=
  min powLimit (scaledSum chain lwmaWindow * lwmaFactor chain)

/-- A chain past the bootstrap window whose last targets the limit bounds. -/
structure LwmaChain (P : CChainParams) (chain : List CBlockIndex) : Prop where
  full : lwmaWindow < chain.length
  past : ∀ tip ∈ chain.head?, lwma3ForkHeight P + lwmaWindow ≤ tip.nHeight + 1
  limit : P.bnProofOfWorkLimit.toNat < 2 ^ 236
  pos : ∀ i ∈ Icc 1 lwmaWindow, 0 < windowTarget chain i
  le : ∀ i ∈ Icc 1 lwmaWindow, windowTarget chain i ≤ P.bnProofOfWorkLimit.toNat

theorem clampSolvetime_bounds (s : Int) : -720 ≤ clampSolvetime s ∧ clampSolvetime s ≤ 720 := by
  simp only [clampSolvetime, lwmaSpacing]
  split_ifs <;> omega

theorem sum_Icc_succ {M : Type} [AddCommMonoid M] (f : Nat → M) (n : Nat) :
    ∑ i ∈ Icc 1 (n + 1), f i = ∑ i ∈ Icc 1 n, f i + f (n + 1) :=
  Finset.sum_Icc_succ_top (by omega) f

theorem weightedSum_bounds (chain : List CBlockIndex) (hn : n ≤ lwmaWindow) :
    -43200 * (n : Int) ≤ weightedSum chain n ∧ weightedSum chain n ≤ 43200 * (n : Int) := by
  induction n with
  | zero => simp [weightedSum]
  | succ n ih =>
    have hih := ih (by omega)
    have hclamp := clampSolvetime_bounds
      ((windowBlock chain (n + 1)).getBlockTime - (windowBlock chain (n + 1 - 1)).getBlockTime)
    have hle : (n : Int) + 1 ≤ 60 := by
      simp only [lwmaWindow] at hn
      omega
    have hweight : (0 : Int) ≤ (n + 1 : Nat) := Int.natCast_nonneg _
    have hlow := mul_le_mul_of_nonneg_left hclamp.1 hweight
    have hhigh := mul_le_mul_of_nonneg_left hclamp.2 hweight
    rw [weightedSum, sum_Icc_succ, ← weightedSum, windowSolvetime]
    generalize ((n + 1 : Nat) : Int) * clampSolvetime _ = term at hlow hhigh ⊢
    push_cast at hlow hhigh ⊢
    constructor <;> omega

theorem sum_weights : ∑ i ∈ Icc 1 lwmaWindow, (i : Int) = 1830 := by
  decide

/-- The weighted sum of a full window stays within six times what is expected. -/
theorem weightedSum_le (chain : List CBlockIndex) : weightedSum chain lwmaWindow ≤ 6 * lwmaNorm := by
  have hterm : ∀ i ∈ Icc 1 lwmaWindow, (i : Int) * windowSolvetime chain i ≤ (i : Int) * 720 := by
    intro i _
    exact mul_le_mul_of_nonneg_left (clampSolvetime_bounds _).2 (Int.natCast_nonneg i)
  have hsum := Finset.sum_le_sum hterm
  rw [← Finset.sum_mul, sum_weights] at hsum
  exact hsum

theorem lwmaFactor_bounds (chain : List CBlockIndex) : 73200 ≤ lwmaFactor chain ∧ lwmaFactor chain ≤ 1317600 := by
  have hle := weightedSum_le chain
  simp only [lwmaFactor, lwmaNorm, lwmaSpacing] at hle ⊢
  omega

theorem scaledSum_le {chain : List CBlockIndex} (h : LwmaChain P chain)
    (hn : n ≤ lwmaWindow) : scaledSum chain n ≤ n * (P.bnProofOfWorkLimit.toNat / lwmaDivisor) := by
  have hterm : ∀ i ∈ Icc 1 n, windowTarget chain i / lwmaDivisor ≤ P.bnProofOfWorkLimit.toNat / lwmaDivisor := by
    intro i hi
    rw [mem_Icc] at hi
    exact Nat.div_le_div_right (h.le i (mem_Icc.2 ⟨hi.1, by omega⟩))
  have hsum := Finset.sum_le_card_nsmul _ _ _ hterm
  rw [Nat.card_Icc, Nat.add_sub_cancel] at hsum
  exact hsum

/-- The product never comes near 256 bits. -/
theorem product_lt {chain : List CBlockIndex} (h : LwmaChain P chain) :
    scaledSum chain lwmaWindow * lwmaFactor chain < 2 ^ 240 := by
  have hsum := scaledSum_le h (le_refl _)
  have hfactor := (lwmaFactor_bounds chain).2
  have hlimit := h.limit
  have hdiv : P.bnProofOfWorkLimit.toNat / lwmaDivisor ≤ 2 ^ 236 / lwmaDivisor :=
    Nat.div_le_div_right (Nat.le_of_lt hlimit)
  calc scaledSum chain lwmaWindow * lwmaFactor chain
      ≤ lwmaWindow * (2 ^ 236 / lwmaDivisor) * 1317600 :=
        Nat.mul_le_mul (hsum.trans (Nat.mul_le_mul_left _ hdiv)) hfactor
    _ < 2 ^ 240 := by decide

/-! ## The loop -/

/-- Block by block, the loop makes the sums. -/
structure LwmaState.Exact (chain : List CBlockIndex) (n : Nat) (st : LwmaState) : Prop where
  sumTarget : st.sumTarget.toNat = scaledSum chain n
  weightedTime : st.weightedTime = weightedSum chain n
  previousTime : st.previousTime = (windowBlock chain n).getBlockTime

theorem lwmaLoop_append (st : LwmaState) (i : Nat) (blocks : List CBlockIndex) (block : CBlockIndex) :
    lwmaLoop st i (blocks ++ [block]) = lwmaStep (lwmaLoop st i blocks) (i + blocks.length) block := by
  induction blocks generalizing st i with
  | nil => rfl
  | cons b blocks ih =>
    rw [List.cons_append, lwmaLoop, ih, lwmaLoop, List.length_cons]
    congr 1
    omega

/-- The blocks the loop reads, oldest first. -/
def lwmaBlocks (chain : List CBlockIndex) : List CBlockIndex :=
  (chain.take lwmaWindow).reverse

theorem lwmaBlocks_length {chain : List CBlockIndex} (hfull : lwmaWindow < chain.length) :
    (lwmaBlocks chain).length = lwmaWindow := by
  rw [lwmaBlocks, List.length_reverse, List.length_take]
  omega

theorem lwmaBlocks_take_succ {chain : List CBlockIndex} (hfull : lwmaWindow < chain.length)
    (hn : n < lwmaWindow) :
    (lwmaBlocks chain).take (n + 1) = (lwmaBlocks chain).take n ++ [windowBlock chain (n + 1)] := by
  have hlen := lwmaBlocks_length hfull
  have hget : (lwmaBlocks chain)[n]? = some (windowBlock chain (n + 1)) := by
    have hlen' : (chain.take lwmaWindow).length = lwmaWindow := by
      rw [List.length_take]
      omega
    have hidx : lwmaWindow - 1 - n = lwmaWindow - (n + 1) := by omega
    rw [lwmaBlocks, List.getElem?_reverse (by omega), hlen', List.getElem?_take, if_pos (by omega), hidx, windowBlock,
      List.getD_eq_getElem?_getD, List.getElem?_eq_getElem (by omega)]
    rfl
  rw [List.take_add_one, hget]
  rfl

theorem scaledSum_lt {chain : List CBlockIndex} (h : LwmaChain P chain)
    (hn : n ≤ lwmaWindow) : scaledSum chain n < 2 ^ 219 := by
  have hsum := scaledSum_le h hn
  have hdiv : P.bnProofOfWorkLimit.toNat / lwmaDivisor ≤ 2 ^ 236 / lwmaDivisor :=
    Nat.div_le_div_right (Nat.le_of_lt h.limit)
  calc scaledSum chain n ≤ lwmaWindow * (2 ^ 236 / lwmaDivisor) := hsum.trans (Nat.mul_le_mul hn hdiv)
    _ < 2 ^ 219 := by decide

theorem exact_lwmaLoop {chain : List CBlockIndex} (h : LwmaChain P chain)
    (hn : n ≤ lwmaWindow) :
    (lwmaLoop ⟨0, 0, (windowBlock chain 0).getBlockTime⟩ 1 ((lwmaBlocks chain).take n)).Exact chain n := by
  induction n with
  | zero => exact ⟨rfl, rfl, rfl⟩
  | succ n ih =>
    rcases ih (by omega) with ⟨hsum, hweighted, hprevious⟩
    have hlen : ((lwmaBlocks chain).take n).length = n := by
      rw [List.length_take, lwmaBlocks_length h.full]
      omega
    rw [lwmaBlocks_take_succ h.full (by omega), lwmaLoop_append, hlen]
    generalize lwmaLoop _ 1 ((lwmaBlocks chain).take n) = st at hsum hweighted hprevious
    refine ⟨?_, ?_, rfl⟩
    · have hfits := scaledSum_lt h hn
      rw [scaledSum, sum_Icc_succ, ← scaledSum] at hfits ⊢
      rw [lwmaStep, BitVec.toNat_add, toNat_scaledTarget, hsum]
      exact Nat.mod_eq_of_lt (lt_trans hfits (by decide))
    · rw [weightedSum, sum_Icc_succ, ← weightedSum]
      simp only [lwmaStep, hweighted, hprevious, windowSolvetime, Nat.add_sub_cancel]
      push_cast
      ring

theorem lwmaBlocks_take_all {chain : List CBlockIndex} (hfull : lwmaWindow < chain.length) :
    (lwmaBlocks chain).take lwmaWindow = lwmaBlocks chain :=
  List.take_of_length_le (Nat.le_of_eq (lwmaBlocks_length hfull))

/-- **The target is the formula.** -/
theorem toNat_lwmaNextTarget {chain : List CBlockIndex} (h : LwmaChain P chain) {st : LwmaState}
    (hst : st.Exact chain lwmaWindow) :
    (lwmaNextTarget P.bnProofOfWorkLimit st).toNat = lwmaFormula P.bnProofOfWorkLimit.toNat chain := by
  have hprod := product_lt h
  have hfactor := (lwmaFactor_bounds chain).2
  have hweighted : (if st.weightedTime < lwmaNorm / 3 then lwmaNorm / 3 else st.weightedTime).toNat = lwmaFactor chain := by
    rw [lwmaFactor, hst.weightedTime]
    congr 1
    split_ifs <;> omega
  have hmul : (st.sumTarget * BitVec.ofNat 256 (lwmaFactor chain % 2 ^ 32)).toNat =
      scaledSum chain lwmaWindow * lwmaFactor chain := by
    rw [BitVec.toNat_mul, hst.sumTarget, BitVec.toNat_ofNat, Nat.mod_eq_of_lt (show lwmaFactor chain < 2 ^ 32 by omega),
      Nat.mod_eq_of_lt (show lwmaFactor chain < 2 ^ 256 by omega)]
    exact Nat.mod_eq_of_lt (lt_trans hprod (by decide))
  rw [lwmaNextTarget, lwmaFormula, hweighted]
  simp only [gt_iff_lt, BitVec.lt_def, hmul]
  split_ifs with hcap
  · exact (Nat.min_eq_left (Nat.le_of_lt hcap)).symm
  · rw [hmul, Nat.min_eq_right (not_lt.1 hcap)]

theorem getNextWorkRequiredLWMA3_formula {chain : List CBlockIndex} (h : LwmaChain P chain) :
    ∃ next : UInt256, getNextWorkRequiredLWMA3 P chain = getCompact next ∧
      next.toNat = lwmaFormula P.bnProofOfWorkLimit.toNat chain := by
  have hexact := exact_lwmaLoop h (le_refl lwmaWindow)
  rw [lwmaBlocks_take_all h.full] at hexact
  have holdest : windowBlock chain 0 = chain.get ⟨lwmaWindow, h.full⟩ := by
    rw [windowBlock, List.getD_eq_getElem?_getD, Nat.sub_zero, List.getElem?_eq_getElem h.full]
    rfl
  rw [holdest] at hexact
  exact ⟨_, getNextWorkRequiredLWMA3_window h.full h.past, toNat_lwmaNextTarget h hexact⟩

/-! ## Evenly spaced blocks -/

/-- A block of the test network at half the limit. -/
def spacedBlock (nTime : Nat) : CBlockIndex :=
  { CBlockIndex.null with nHeight := 300, nTime := UInt32.ofNat nTime, nBits := 0x1e07ffff }

def spacedChain (spacing : Nat) : List CBlockIndex :=
  (List.range 61).map fun j => spacedBlock (spacing * (60 - j))

theorem windowBlock_spacedChain (spacing : Nat) {i : Nat} (hi : i ≤ lwmaWindow) :
    windowBlock (spacedChain spacing) i = spacedBlock (spacing * i) := by
  simp only [lwmaWindow] at hi
  have hlt : lwmaWindow - i < 61 := by
    simp only [lwmaWindow]
    omega
  have hback : 60 - (lwmaWindow - i) = i := by
    simp only [lwmaWindow]
    omega
  rw [windowBlock, spacedChain, List.getD_eq_getElem?_getD, List.getElem?_map, List.getElem?_range hlt, Option.map_some,
    Option.getD_some, hback]

theorem windowTarget_spacedChain (spacing : Nat) {i : Nat} (hi : i ∈ Icc 1 lwmaWindow) :
    windowTarget (spacedChain spacing) i = 0x07ffff * 2 ^ 216 := by
  have hbits : (windowBlock (spacedChain spacing) i).nBits = 0x1e07ffff := by
    rw [windowBlock_spacedChain spacing (mem_Icc.1 hi).2]
    rfl
  rw [windowTarget, hbits]
  decide

theorem lwmaChain_spacedChain (spacing : Nat) : LwmaChain testNetParams (spacedChain spacing) where
  full := by
    rw [spacedChain, List.length_map, List.length_range]
    decide
  past := by
    intro tip htip
    obtain rfl : spacedBlock (spacing * 60) = tip := Option.some.inj htip
    show lwma3ForkHeight testNetParams + lwmaWindow ≤ 300 + 1
    decide
  limit := by decide
  pos i hi := by
    rw [windowTarget_spacedChain spacing hi]
    decide
  le i hi := by
    rw [windowTarget_spacedChain spacing hi]
    decide

theorem weightedSum_spacedChain {spacing : Nat} (hspacing : spacing ≤ 720) :
    weightedSum (spacedChain spacing) lwmaWindow = 1830 * spacing := by
  have htime : ∀ i ≤ lwmaWindow, (windowBlock (spacedChain spacing) i).getBlockTime = (spacing * i : Nat) := by
    intro i hi
    rw [windowBlock_spacedChain spacing hi]
    simp only [lwmaWindow] at hi
    have hlt : spacing * i ≤ 720 * 60 := Nat.mul_le_mul hspacing hi
    show ((UInt32.ofNat (spacing * i)).toNat : Int) = _
    rw [UInt32.toNat_ofNat', Nat.mod_eq_of_lt (by omega)]
  have hterm : ∀ i ∈ Icc 1 lwmaWindow, (i : Int) * windowSolvetime (spacedChain spacing) i = (i : Int) * spacing := by
    intro i hi
    rcases mem_Icc.1 hi with ⟨hone, hle⟩
    rcases Nat.exists_eq_add_of_le' hone with ⟨j, rfl⟩
    have hdiff : ((spacing * (j + 1) : Nat) : Int) - (spacing * j : Nat) = spacing := by
      push_cast
      ring
    have hclamp : clampSolvetime spacing = spacing := by
      simp only [clampSolvetime, lwmaSpacing]
      split_ifs <;> omega
    rw [windowSolvetime, htime _ hle, Nat.add_sub_cancel, htime _ (by omega), hdiff, hclamp]
  rw [weightedSum, sum_congr rfl hterm, ← sum_mul, sum_weights]

end Dobbscoin

/-!
# The order of timestamps

Without the clamp, the weighted sum of a window is at most 60 times the span of its timestamps.  The clamp shortens large
steps back; `weightedSum_le_span` adds what it leaves out.
-/

namespace Dobbscoin

open Finset

variable {chain : List CBlockIndex}

/-- `t_i`. -/
def windowTime (chain : List CBlockIndex) (i : Nat) : Int :=
  (windowBlock chain i).getBlockTime

/-- The largest timestamp of the window minus the smallest. -/
def timeSpan (chain : List CBlockIndex) : Int :=
  (range (lwmaWindow + 1)).sup' nonempty_range_add_one (windowTime chain) -
    (range (lwmaWindow + 1)).inf' nonempty_range_add_one (windowTime chain)

/-- What the clamp leaves out of the steps back, weighted, at the positions `1 .. n`. -/
def clampedBack (chain : List CBlockIndex) (n : Nat) : Int :=
  ∑ i ∈ Icc 1 n, (i : Int) * max 0 (windowTime chain (i - 1) - windowTime chain i - 6 * lwmaSpacing)

/-- Every block of the window is above the median of the eleven blocks before it, and there are
eleven. -/
structure WindowAboveMedian (chain : List CBlockIndex) : Prop where
  full : lwmaWindow + medianTimeSpan < chain.length
  above : ∀ i ≤ lwmaWindow, getMedianTimePast (chain.drop (lwmaWindow - i + 1)) < windowTime chain i

theorem clampSolvetime_le (s : Int) : clampSolvetime s ≤ s + max 0 (-s - 6 * lwmaSpacing) := by
  simp only [clampSolvetime, lwmaSpacing]
  split_ifs <;> omega

/-- Summation by parts, position by position: an earlier timestamp never counts for less than `lo`. -/
theorem weightedSum_le_of_le {lo : Int} (hlo : ∀ i ≤ n, lo ≤ windowTime chain i) :
    weightedSum chain n ≤ n * (windowTime chain n - lo) + clampedBack chain n := by
  induction n with
  | zero => simp [weightedSum, clampedBack]
  | succ n ih =>
    have hih := ih fun i hi => hlo i (Nat.le_succ_of_le hi)
    have hbefore := hlo n (Nat.le_succ n)
    have hclamp := clampSolvetime_le (windowTime chain (n + 1) - windowTime chain n)
    rw [neg_sub] at hclamp
    have hweight := mul_le_mul_of_nonneg_left hclamp (Int.natCast_nonneg (n + 1))
    have hsolve : windowSolvetime chain (n + 1) =
        clampSolvetime (windowTime chain (n + 1) - windowTime chain n) := rfl
    rw [weightedSum, sum_Icc_succ, ← weightedSum, clampedBack, sum_Icc_succ, ← clampedBack, hsolve, Nat.add_sub_cancel]
    generalize windowTime chain (n + 1) = t' at *
    generalize windowTime chain n = t at *
    push_cast at hweight ⊢
    calc weightedSum chain n + (n + 1) * clampSolvetime (t' - t)
        ≤ n * (t - lo) + clampedBack chain n + (n + 1) * (t' - t + max 0 (t - t' - 6 * lwmaSpacing)) := add_le_add hih hweight
      _ = (n + 1) * (t' - lo) - (t - lo) + (clampedBack chain n + (n + 1) * max 0 (t - t' - 6 * lwmaSpacing)) := by ring
      _ ≤ (n + 1) * (t' - lo) + (clampedBack chain n + (n + 1) * max 0 (t - t' - 6 * lwmaSpacing)) := by linarith

/-- **How much time the sum reads.**  At most 60 times the span of the timestamps, and what the clamp
leaves out of steps back by more than `6T`. -/
theorem weightedSum_le_span (chain : List CBlockIndex) :
    weightedSum chain lwmaWindow ≤ 60 * timeSpan chain + clampedBack chain lwmaWindow ∧
      ((∀ i ∈ Icc 1 lwmaWindow, windowTime chain (i - 1) - windowTime chain i ≤ 6 * lwmaSpacing) →
        weightedSum chain lwmaWindow ≤ 60 * timeSpan chain) := by
  have hbound : weightedSum chain lwmaWindow ≤ 60 * timeSpan chain + clampedBack chain lwmaWindow := by
    have hlo : ∀ i ≤ lwmaWindow, (range (lwmaWindow + 1)).inf' nonempty_range_add_one (windowTime chain) ≤ windowTime chain i :=
      fun i hi => inf'_le _ (mem_range.2 (Nat.lt_succ_of_le hi))
    have hhi := le_sup' (windowTime chain) (mem_range.2 (Nat.lt_succ_self lwmaWindow))
    have hsum := weightedSum_le_of_le hlo
    rw [timeSpan]
    have hcast : ((lwmaWindow : Nat) : Int) = 60 := rfl
    rw [hcast] at hsum
    linarith
  refine ⟨hbound, fun hback => ?_⟩
  have hzero : clampedBack chain lwmaWindow = 0 := by
    refine sum_eq_zero fun i hi => ?_
    rw [max_eq_left (by linarith [hback i hi]), mul_zero]
  rwa [hzero, add_zero] at hbound

theorem weightedSum_le_span_spacedChain :
    weightedSum (spacedChain 120) lwmaWindow ≤ 60 * timeSpan (spacedChain 120) := by
  refine (weightedSum_le_span (spacedChain 120)).2 fun i hi => ?_
  rcases mem_Icc.1 hi with ⟨hone, hle⟩
  rw [windowTime, windowTime, windowBlock_spacedChain 120 hle, windowBlock_spacedChain 120 (by omega)]
  simp only [lwmaWindow] at hle
  show ((UInt32.ofNat (120 * (i - 1))).toNat : Int) - (UInt32.ofNat (120 * i)).toNat ≤ 6 * lwmaSpacing
  rw [UInt32.toNat_ofNat', UInt32.toNat_ofNat', Nat.mod_eq_of_lt (by omega), Nat.mod_eq_of_lt (by omega)]
  simp only [lwmaSpacing]
  omega

/-! ## Climbing in an hour -/

/-- Six low timestamps that creep up by a second, then five that climb by `6T`. -/
def climbingTime (n : Nat) : Nat :=
  if n % 11 < 6 then 1000 + 6 * (n / 11) + n % 11 else 1005 + 6 * (n / 11) + 720 * (n % 11 - 5)

/-- 72 blocks within 61 minutes. -/
def climbingChain : List CBlockIndex :=
  ((List.range 72).map fun n => spacedBlock (climbingTime n)).reverse

theorem lwmaChain_climbingChain : LwmaChain testNetParams climbingChain where
  full := by decide
  past := by
    intro tip htip
    obtain rfl : spacedBlock (climbingTime 71) = tip := Option.some.inj htip
    decide
  limit := by decide
  pos := by decide
  le := by decide

set_option maxRecDepth 20000 in
/-- The median rule does not keep the sum below 60 times the span. -/
theorem climbingChain_exceeds :
    ¬ ∀ chain, LwmaChain testNetParams chain → WindowAboveMedian chain →
      weightedSum chain lwmaWindow ≤ 60 * timeSpan chain := by
  intro hclaim
  have hwindow : WindowAboveMedian climbingChain := ⟨by decide, by decide⟩
  have hle := hclaim climbingChain lwmaChain_climbingChain hwindow
  have hgt : 60 * timeSpan climbingChain < weightedSum climbingChain lwmaWindow := by decide
  omega

end Dobbscoin
