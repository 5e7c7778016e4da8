import Dobbscoin.Lib.Int64Bounds
import Dobbscoin.Wallet.Amounts

/-!
# Coin selection

`SelectCoinsMinConf` and `ApproximateBestSubset` of `wallet.cpp`.
-/

namespace Dobbscoin

open Marked

/-- `CENT`. -/
def cent : CAmount := 1000000

/-- `numeric_limits<CAmount>::max()`. -/
def maxAmount : CAmount := 9223372036854775807

/-- The pointer to the wallet transaction is taken as its key in `mapWallet`. -/
structure COutput where
  tx : UInt256
  i : UInt32
  nDepth : Int
  fSpendable : Bool

namespace COutput

/-- The pair that is put into `setCoinsRet`. -/
def coin (output : COutput) : COutPoint :=
  ⟨output.tx, output.i⟩

end COutput

/-- A value with the coin that has it. -/
abbrev ValuedCoin := CAmount × COutPoint

/-- What the selection reads of the wallet transactions. -/
structure CoinView where
  /-- `tx->vout[i].nValue`. -/
  nValue : COutPoint → CAmount
  /-- `tx->IsFromMe(ISMINE_ALL)`. -/
  isFromMe : UInt256 → Bool

/-- The coin of an output, with its value. -/
def CoinView.valued (V : CoinView) (output : COutput) : ValuedCoin :=
  (V.nValue output.coin, output.coin)

/-- What a call of `SelectCoinsMinConf` leaves to chance. -/
structure SelectDraws where
  /-- `random_shuffle`. -/
  shuffle : List COutput → List COutput
  shuffle_perm : ∀ vCoins, (shuffle vCoins).Perm vCoins
  /-- `sort`, from the largest value to the smallest; equal values come in any order. -/
  sort : List ValuedCoin → List ValuedCoin
  sort_perm : ∀ vValue, (sort vValue).Perm vValue
  sort_sorted : ∀ vValue, (sort vValue).Pairwise fun a b => b.1 ≤ a.1
  /-- The numbers of `insecure_rand` in the first search and in the second; each starts with `seed_insecure_rand`. -/
  insecureRand : Nat → UInt32
  insecureRand' : Nat → UInt32

/-! ## The search for a subset -/

/-- The best subset so far. -/
structure BestSubset where
  vfBest : List Bool
  nBest : CAmount

/-- One repetition of the search. -/
structure SubsetPass where
  best : BestSubset
  vfIncluded : List Bool
  nTotal : CAmount
  fReachedTarget : Bool
  /-- How many numbers have been drawn. -/
  nDrawn : Nat

section Search

variable (rand : Nat → UInt32) (nTargetValue : CAmount)

/-- A coin is included, and taken out again when the target is reached. -/
def includeCoin (s : SubsetPass) (i : Nat) (n : CAmount) : SubsetPass :=
  let nTotal := s.nTotal + n
  let vfIncluded := s.vfIncluded.set i true
  if nTotal ≥ nTargetValue then
    { s with
      best := if nTotal < s.best.nBest then ⟨vfIncluded, nTotal⟩ else s.best
      vfIncluded := vfIncluded.set i false
      nTotal := nTotal - n
      fReachedTarget := true }
  else { s with vfIncluded := vfIncluded, nTotal := nTotal }

/-- Whether a coin is tried, and the state after the number that this takes. -/
def chooses (nPass : Nat) (s : SubsetPass) (i : Nat) : Bool × SubsetPass :=
  if nPass = 0 then (rand s.nDrawn &&& 1 ≠ 0, { s with nDrawn := s.nDrawn + 1 })
  else (!(s.vfIncluded[i]?).getD false, s)

def tryCoin (nPass : Nat) (s : SubsetPass) (coin : ValuedCoin × Nat) : SubsetPass :=
  let choice := chooses rand nPass s coin.2
  if choice.1 then includeCoin nTargetValue choice.2 coin.2 coin.1.1 else choice.2

/-- The loop over the coins. -/
def subsetPass (vValue : List ValuedCoin) (nPass : Nat) (s : SubsetPass) : SubsetPass :=
  vValue.zipIdx.foldl (tryCoin rand nTargetValue nPass) s

/-- One repetition: the second pass is left out when the first has reached the target. -/
def repetition (vValue : List ValuedCoin) (best : BestSubset) (nDrawn : Nat) : SubsetPass :=
  let first := subsetPass rand nTargetValue vValue 0 ⟨best, List.replicate vValue.length false, 0, false, nDrawn⟩
  if first.fReachedTarget then first else subsetPass rand nTargetValue vValue 1 first

/-- The loop over the repetitions. -/
def repeatSearch (vValue : List ValuedCoin) : Nat → BestSubset → Nat → BestSubset
  | 0, best, _ => best
  | iterations + 1, best, nDrawn =>
    if best.nBest = nTargetValue then best
    else
      let s := repetition rand nTargetValue vValue best nDrawn
      repeatSearch vValue iterations s.best s.nDrawn

def approximateBestSubset (vValue : List ValuedCoin) (nTotalLower : CAmount) (iterations : Nat) : BestSubset :=
  repeatSearch rand nTargetValue vValue iterations ⟨List.replicate vValue.length true, nTotalLower⟩ 0

end Search

/-! ## The selection -/

/-- `setCoinsRet` and `nValueRet`; the coins of the set are in the order in which they were put into it. -/
structure CoinSet where
  setCoinsRet : List COutPoint
  nValueRet : CAmount
  deriving DecidableEq

namespace CoinSet

def empty : CoinSet :=
  ⟨[], 0⟩

def add (ret : CoinSet) (coin : ValuedCoin) : CoinSet :=
  ⟨ret.setCoinsRet.insert coin.2, ret.nValueRet + coin.1⟩

def addAll (ret : CoinSet) (coins : List ValuedCoin) : CoinSet :=
  coins.foldl add ret

end CoinSet

/-- What the loop over the outputs has collected. -/
structure Gathered where
  /-- The coin is `none` as long as the pointer is `NULL`. -/
  coinLowestLarger : CAmount × Option COutPoint
  vValue : List ValuedCoin
  nTotalLower : CAmount

section Select

variable (V : CoinView) (D : SelectDraws) (nTargetValue : CAmount) (nConfMine nConfTheirs : Int)

/-- The outputs that the loop does not skip. -/
def isEligible (output : COutput) : Bool :=
  output.fSpendable && !decide (output.nDepth < if V.isFromMe output.tx then nConfMine else nConfTheirs)

/-- The loop over the outputs; it ends with a coin that has the value that is asked for. -/
def gather : List COutput → Gathered → ValuedCoin ⊕ Gathered
  | [], g => .inr g
  | output :: vCoins, g =>
    if isEligible V nConfMine nConfTheirs output = false then gather vCoins g
    else
      let n := V.nValue output.coin
      if n = nTargetValue then .inl (n, output.coin)
      else if n < nTargetValue + cent then
        gather vCoins { g with vValue := g.vValue ++ [(n, output.coin)], nTotalLower := g.nTotalLower + n }
      else if n < g.coinLowestLarger.1 then gather vCoins { g with coinLowestLarger := (n, some output.coin) }
      else gather vCoins g

/-- The one or two searches, with the target of the last one. -/
def searchSubset (vValue : List ValuedCoin) (nTotalLower : CAmount) : BestSubset × CAmount :=
  let best := approximateBestSubset D.insecureRand nTargetValue vValue nTotalLower 1000
  if best.nBest ≠ nTargetValue ∧ nTotalLower ≥ nTargetValue + cent then
    (approximateBestSubset D.insecureRand' (nTargetValue + cent) vValue nTotalLower 1000, nTargetValue + cent)
  else (best, nTargetValue)

/-- What is chosen of the coins that the loop has collected. -/
def chooseCoins (g : Gathered) : Bool × CoinSet :=
  if g.nTotalLower = nTargetValue then (true, CoinSet.empty.addAll g.vValue)
  else if g.nTotalLower < nTargetValue then
    match g.coinLowestLarger with
    | (_, none) => (false, CoinSet.empty)
    | (n, some coin) => (true, CoinSet.empty.add (n, coin))
  else
    let vValue := D.sort g.vValue
    let best := (searchSubset D nTargetValue vValue g.nTotalLower).1
    let subset := CoinSet.empty.addAll (marked best.vfBest vValue)
    match g.coinLowestLarger with
    | (_, none) => (true, subset)
    | (n, some coin) =>
      -- Either the search has not found a good solution, or the larger coin is closer.
      if (best.nBest ≠ nTargetValue ∧ best.nBest < nTargetValue + cent) ∨ n ≤ best.nBest then
        (true, CoinSet.empty.add (n, coin))
      else (true, subset)

def selectCoinsMinConf (vCoins : List COutput) : Bool × CoinSet :=
  match gather V nTargetValue nConfMine nConfTheirs (D.shuffle vCoins) ⟨(maxAmount, none), [], 0⟩ with
  | .inl coin => (true, CoinSet.empty.add coin)
  | .inr g => chooseCoins D nTargetValue g

end Select

end Dobbscoin
