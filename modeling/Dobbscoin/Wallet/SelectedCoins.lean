import Dobbscoin.Wallet.CoinSelection

/-!
# What coin selection chooses

Whatever the random numbers are, the subset that the search reports has the total that it reports; so the coins that
are chosen are worth what `nValueRet` says.
-/

namespace Dobbscoin

open Marked

variable {coin : ValuedCoin} {nTotalLower : CAmount}

namespace ValuedCoin

def amount (coin : ValuedCoin) : Int :=
  coin.1.toInt

/-- The exact total of some coins. -/
def total (coins : List ValuedCoin) : Int :=
  (coins.map amount).sum

end ValuedCoin

open ValuedCoin

/-- No coin has a negative value, and all of them together fit in 64 bits. -/
structure CoinsFit (vValue : List ValuedCoin) : Prop where
  nonneg : ∀ coin ∈ vValue, 0 ≤ coin.amount
  total : total vValue < 2 ^ 63

section Fits

variable {vValue coins : List ValuedCoin}

theorem CoinsFit.total_le (h : CoinsFit vValue) (hsub : coins.Sublist vValue) : ValuedCoin.total coins ≤ ValuedCoin.total vValue := by
  apply (hsub.map amount).sum_le_sum
  intro n hn
  rcases List.mem_map.1 hn with ⟨coin, hcoin, rfl⟩
  exact h.nonneg coin hcoin

theorem CoinsFit.total_nonneg (h : CoinsFit vValue) : 0 ≤ ValuedCoin.total vValue :=
  h.total_le (List.nil_sublist vValue)

theorem CoinsFit.sublist (h : CoinsFit vValue) (hsub : coins.Sublist vValue) : CoinsFit coins :=
  ⟨fun coin hcoin => h.nonneg coin (hsub.subset hcoin), (h.total_le hsub).trans_lt h.total⟩

theorem ValuedCoin.total_perm (h : coins.Perm vValue) : ValuedCoin.total coins = ValuedCoin.total vValue :=
  (h.map amount).sum_eq

theorem CoinsFit.perm (h : CoinsFit vValue) (hperm : coins.Perm vValue) : CoinsFit coins :=
  ⟨fun coin hcoin => h.nonneg coin (hperm.subset hcoin), (total_perm hperm).trans_lt h.total⟩

theorem CoinsFit.subperm (h : CoinsFit vValue) (hsub : coins.Subperm vValue) : CoinsFit coins := by
  rcases hsub with ⟨coins', hperm, hsub'⟩
  exact (h.sublist hsub').perm hperm.symm

end Fits

/-! ## The search -/

section Search

variable {vValue : List ValuedCoin} {nTargetValue : CAmount}

/-- The subset has the total that is reported, which reaches the target or is the total of all coins. -/
structure BestSubset.Sound (vValue : List ValuedCoin) (nTargetValue : CAmount) (best : BestSubset) : Prop where
  sum : best.nBest.toInt = total (marked best.vfBest vValue)
  reaches : nTargetValue ≤ best.nBest ∨ best.nBest.toInt = total vValue

/-- Between two coins the running total is the one of the coins that are included. -/
structure SubsetPass.Sound (vValue : List ValuedCoin) (nTargetValue : CAmount) (s : SubsetPass) : Prop where
  best : s.best.Sound vValue nTargetValue
  sum : s.nTotal.toInt = total (marked s.vfIncluded vValue)

/-- A coin that is not included can be: what is taken out again is what has been put in. -/
theorem includeCoin_sound (hfit : CoinsFit vValue) {s : SubsetPass} (h : s.Sound vValue nTargetValue) {i : Nat}
    (hcoin : vValue[i]? = some coin) (hfree : s.vfIncluded[i]? = some false) :
    (includeCoin nTargetValue s i coin.1).Sound vValue nTargetValue ∧
      ∀ j, i < j → (includeCoin nTargetValue s i coin.1).vfIncluded[j]? = s.vfIncluded[j]? := by
  have hmarked : total (marked (s.vfIncluded.set i true) vValue) = s.nTotal.toInt + coin.1.toInt := by
    rw [h.sum]
    exact sum_marked_set amount hfree hcoin
  have hle := hfit.total_le (marked_sublist (s.vfIncluded.set i true) vValue)
  have hnonneg := (hfit.sublist (marked_sublist (s.vfIncluded.set i true) vValue)).total_nonneg
  have hsum : (s.nTotal + coin.1).toInt = total (marked (s.vfIncluded.set i true) vValue) := by
    rw [hmarked] at hle hnonneg ⊢
    exact Int64Bounds.toInt_add ((by decide : (-2 ^ 63 : Int) ≤ 0).trans hnonneg) (hle.trans_lt hfit.total)
  have hundo : (s.vfIncluded.set i true).set i false = s.vfIncluded := by
    rcases List.getElem?_eq_some_iff.1 hfree with ⟨hi, hvalue⟩
    rw [List.set_set, ← hvalue, List.set_getElem_self]
  rw [includeCoin]
  by_cases hreached : s.nTotal + coin.1 ≥ nTargetValue
  · rw [if_pos hreached, hundo, Int64.add_sub_cancel]
    refine ⟨⟨?_, h.sum⟩, fun _ _ => rfl⟩
    dsimp only
    split_ifs
    · exact ⟨hsum, Or.inl hreached⟩
    · exact h.best
  · rw [if_neg hreached]
    exact ⟨⟨h.best, hsum⟩, fun j hj => List.getElem?_set_ne hj.ne⟩

theorem length_includeCoin (s : SubsetPass) (i : Nat) (n : CAmount) :
    (includeCoin nTargetValue s i n).vfIncluded.length = s.vfIncluded.length := by
  rw [includeCoin]
  by_cases hreached : s.nTotal + n ≥ nTargetValue
  · rw [if_pos hreached]
    exact List.length_set.trans List.length_set
  · rw [if_neg hreached]
    exact List.length_set

/-- **Step.** In the first pass the coins that are still to come are not included. -/
theorem tryCoin_sound (hfit : CoinsFit vValue) (rand : Nat → UInt32) {nPass : Nat} {s : SubsetPass}
    (h : s.Sound vValue nTargetValue) (hlength : s.vfIncluded.length = vValue.length) {i : Nat}
    (hcoin : vValue[i]? = some coin) (hfree : nPass = 0 → s.vfIncluded[i]? = some false) :
    (tryCoin rand nTargetValue nPass s (coin, i)).Sound vValue nTargetValue ∧
      (tryCoin rand nTargetValue nPass s (coin, i)).vfIncluded.length = vValue.length ∧
      ∀ j, i < j → (tryCoin rand nTargetValue nPass s (coin, i)).vfIncluded[j]? = s.vfIncluded[j]? := by
  rw [tryCoin, chooses]
  by_cases hfirst : nPass = 0
  · rw [if_pos hfirst]
    dsimp only
    have hdrawn : SubsetPass.Sound vValue nTargetValue { s with nDrawn := s.nDrawn + 1 } := ⟨h.best, h.sum⟩
    split_ifs
    · rcases includeCoin_sound hfit hdrawn hcoin (hfree hfirst) with ⟨hsound, hafter⟩
      exact ⟨hsound, (length_includeCoin _ i coin.1).trans hlength, hafter⟩
    · exact ⟨hdrawn, hlength, fun _ _ => rfl⟩
  · rw [if_neg hfirst]
    dsimp only
    split_ifs with hnot
    · have hlt : i < s.vfIncluded.length := by
        rw [hlength]
        exact (List.getElem?_eq_some_iff.1 hcoin).choose
      have hfree' : s.vfIncluded[i]? = some false := by
        rw [List.getElem?_eq_getElem hlt, Option.getD_some, Bool.not_eq_true'] at hnot
        rw [List.getElem?_eq_getElem hlt, hnot]
      rcases includeCoin_sound hfit h hcoin hfree' with ⟨hsound, hafter⟩
      exact ⟨hsound, (length_includeCoin _ i coin.1).trans hlength, hafter⟩
    · exact ⟨h, hlength, fun _ _ => rfl⟩

/-- **Run.** A pass over the coins from the `k`-th on. -/
theorem foldl_tryCoin_sound (hfit : CoinsFit vValue) (rand : Nat → UInt32) (nPass : Nat) (coins : List ValuedCoin) {k : Nat}
    (hcoins : vValue.drop k = coins) {s : SubsetPass} (h : s.Sound vValue nTargetValue)
    (hlength : s.vfIncluded.length = vValue.length)
    (hfree : nPass = 0 → ∀ j, k ≤ j → j < vValue.length → s.vfIncluded[j]? = some false) :
    ((coins.zipIdx k).foldl (tryCoin rand nTargetValue nPass) s).Sound vValue nTargetValue ∧
      ((coins.zipIdx k).foldl (tryCoin rand nTargetValue nPass) s).vfIncluded.length = vValue.length := by
  induction coins generalizing k s with
  | nil => exact ⟨h, hlength⟩
  | cons coin coins ih =>
    have hcoin : vValue[k]? = some coin := by
      rw [← List.head?_drop, hcoins, List.head?_cons]
    have hlt : k < vValue.length := (List.getElem?_eq_some_iff.1 hcoin).choose
    have hrest : vValue.drop (k + 1) = coins := by
      rw [← List.tail_drop, hcoins, List.tail_cons]
    rcases tryCoin_sound hfit rand h hlength hcoin (fun hfirst => hfree hfirst k le_rfl hlt) with
      ⟨hsound, hlength', hafter⟩
    rw [List.zipIdx_cons, List.foldl_cons]
    apply ih hrest hsound hlength'
    intro hfirst j hj hlen
    rw [hafter j hj]
    exact hfree hfirst j ((Nat.le_succ k).trans hj) hlen

theorem repetition_sound (hfit : CoinsFit vValue) (rand : Nat → UInt32) {best : BestSubset}
    (h : best.Sound vValue nTargetValue) (nDrawn : Nat) :
    (repetition rand nTargetValue vValue best nDrawn).best.Sound vValue nTargetValue := by
  have hstart : SubsetPass.Sound vValue nTargetValue
      ⟨best, List.replicate vValue.length false, 0, false, nDrawn⟩ := by
    refine ⟨h, ?_⟩
    rw [marked_none]
    rfl
  have hfirst := foldl_tryCoin_sound hfit rand 0 vValue List.drop_zero hstart List.length_replicate
    fun _ j _ hj => by rw [List.getElem?_replicate, if_pos hj]
  rw [repetition]
  split_ifs
  · exact hfirst.1.best
  · exact (foldl_tryCoin_sound hfit rand 1 vValue List.drop_zero hfirst.1 hfirst.2
      fun habsurd => absurd habsurd one_ne_zero).1.best

theorem repeatSearch_sound (hfit : CoinsFit vValue) (rand : Nat → UInt32) (iterations : Nat) {best : BestSubset}
    (h : best.Sound vValue nTargetValue) (nDrawn : Nat) :
    (repeatSearch rand nTargetValue vValue iterations best nDrawn).Sound vValue nTargetValue := by
  induction iterations generalizing best nDrawn with
  | zero => exact h
  | succ iterations ih =>
    rw [repeatSearch]
    split_ifs
    · exact h
    · exact ih (repetition_sound hfit rand h nDrawn) _

/-- What the search reports, for all random numbers. -/
theorem approximateBestSubset_sound (hfit : CoinsFit vValue) (rand : Nat → UInt32) (nTargetValue : CAmount)
    (htotal : nTotalLower.toInt = total vValue) (iterations : Nat) :
    (approximateBestSubset rand nTargetValue vValue nTotalLower iterations).Sound vValue nTargetValue := by
  apply repeatSearch_sound hfit
  refine ⟨?_, Or.inr htotal⟩
  rw [marked_all]
  exact htotal

end Search

/-! ## The coins that are chosen -/

section Select

variable {V : CoinView} {nTargetValue : CAmount} {nConfMine nConfTheirs : Int}

/-- The coins that may be chosen. -/
def eligibleCoins (V : CoinView) (nConfMine nConfTheirs : Int) (vCoins : List COutput) : List ValuedCoin :=
  (vCoins.filter (isEligible V nConfMine nConfTheirs)).map V.valued

/-- A coin that goes into `vValue`. -/
def isLower (nTargetValue : CAmount) (coin : ValuedCoin) : Bool :=
  coin.1 < nTargetValue + cent

theorem eligibleCoins_cons_of_pos {output : COutput} (h : isEligible V nConfMine nConfTheirs output = true)
    (vCoins : List COutput) :
    eligibleCoins V nConfMine nConfTheirs (output :: vCoins) =
      V.valued output :: eligibleCoins V nConfMine nConfTheirs vCoins := by
  rw [eligibleCoins, List.filter_cons_of_pos h]
  rfl

theorem eligibleCoins_cons_of_neg {output : COutput} (h : isEligible V nConfMine nConfTheirs output = false)
    (vCoins : List COutput) :
    eligibleCoins V nConfMine nConfTheirs (output :: vCoins) = eligibleCoins V nConfMine nConfTheirs vCoins := by
  rw [eligibleCoins, List.filter_cons_of_neg (Bool.not_eq_true _ ▸ h)]
  rfl

variable (V nConfMine nConfTheirs) in
theorem eligibleCoins_perm {vCoins vCoins' : List COutput} (h : vCoins.Perm vCoins') :
    (eligibleCoins V nConfMine nConfTheirs vCoins).Perm (eligibleCoins V nConfMine nConfTheirs vCoins') :=
  (h.filter _).map _

/-- What some coins add to what has been collected, when none of them has the value that is asked for. -/
structure Gathered.Collects (nTargetValue : CAmount) (g g' : Gathered) (coins : List ValuedCoin) : Prop where
  vValue : g'.vValue = g.vValue ++ coins.filter (isLower nTargetValue)
  total : g.nTotalLower.toInt = total g.vValue → CoinsFit g'.vValue → g'.nTotalLower.toInt = total g'.vValue
  larger : (g'.coinLowestLarger = g.coinLowestLarger ∧
      ∀ coin ∈ coins, isLower nTargetValue coin = false → g.coinLowestLarger.1 ≤ coin.1) ∨
    ∃ coin ∈ coins, isLower nTargetValue coin = false ∧ g'.coinLowestLarger = (coin.1, some coin.2)

theorem Gathered.Collects.lower {g g' : Gathered} {coins : List ValuedCoin} (coin : ValuedCoin)
    (hlower : isLower nTargetValue coin = true)
    (h : Collects nTargetValue
      { g with vValue := g.vValue ++ [coin], nTotalLower := g.nTotalLower + coin.1 } g' coins) :
    Collects nTargetValue g g' (coin :: coins) := by
  have hvalue : g'.vValue = g.vValue ++ (coin :: coins).filter (isLower nTargetValue) := by
    rw [h.vValue, List.filter_cons_of_pos hlower, List.append_assoc, List.singleton_append]
  refine ⟨hvalue, fun htotal hfit => h.total ?_ hfit, ?_⟩
  · have hbegin : CoinsFit (g.vValue ++ [coin]) := by
      apply hfit.sublist
      rw [h.vValue]
      exact List.sublist_append_left _ _
    have hsum : ValuedCoin.total (g.vValue ++ [coin]) = g.nTotalLower.toInt + coin.1.toInt := by
      rw [htotal, ValuedCoin.total, List.map_append, List.sum_append, List.map_singleton, List.sum_singleton]
      rfl
    have hnonneg := hbegin.total_nonneg
    have hlt := hbegin.total
    rw [hsum] at hnonneg hlt ⊢
    exact Int64Bounds.toInt_add ((by decide : (-2 ^ 63 : Int) ≤ 0).trans hnonneg) hlt
  · rcases h.larger with ⟨hsame, hall⟩ | ⟨c, hc, hlarge, heq⟩
    · refine Or.inl ⟨hsame, fun c hc hlarge => ?_⟩
      rcases List.mem_cons.1 hc with rfl | hc
      · rw [hlower] at hlarge
        cases hlarge
      · exact hall c hc hlarge
    · exact Or.inr ⟨c, List.mem_cons_of_mem _ hc, hlarge, heq⟩

theorem Gathered.Collects.replace {g g' : Gathered} {coins : List ValuedCoin}
    (hlarge : isLower nTargetValue coin = false)
    (h : Collects nTargetValue { g with coinLowestLarger := (coin.1, some coin.2) } g' coins) :
    Collects nTargetValue g g' (coin :: coins) := by
  refine ⟨?_, h.total, Or.inr ?_⟩
  · rw [h.vValue, List.filter_cons_of_neg (Bool.not_eq_true _ ▸ hlarge)]
  · rcases h.larger with ⟨hsame, -⟩ | ⟨c, hc, hlarge', heq⟩
    · exact ⟨coin, List.mem_cons_self, hlarge, hsame⟩
    · exact ⟨c, List.mem_cons_of_mem _ hc, hlarge', heq⟩

theorem Gathered.Collects.skip {g g' : Gathered} {coins : List ValuedCoin}
    (hlarge : isLower nTargetValue coin = false) (hle : g.coinLowestLarger.1 ≤ coin.1)
    (h : Collects nTargetValue g g' coins) : Collects nTargetValue g g' (coin :: coins) := by
  refine ⟨?_, h.total, ?_⟩
  · rw [h.vValue, List.filter_cons_of_neg (Bool.not_eq_true _ ▸ hlarge)]
  · rcases h.larger with ⟨hsame, hall⟩ | ⟨c, hc, hlarge', heq⟩
    · refine Or.inl ⟨hsame, fun c hc hlarge' => ?_⟩
      rcases List.mem_cons.1 hc with rfl | hc
      · exact hle
      · exact hall c hc hlarge'
    · exact Or.inr ⟨c, List.mem_cons_of_mem _ hc, hlarge', heq⟩

variable (V nTargetValue nConfMine nConfTheirs) in
/-- **Run.** The loop over the outputs ends with a coin that has the value, or has seen that there is none. -/
theorem gather_cases (vCoins : List COutput) (g : Gathered) :
    (∃ coin ∈ eligibleCoins V nConfMine nConfTheirs vCoins, coin.1 = nTargetValue ∧
      gather V nTargetValue nConfMine nConfTheirs vCoins g = .inl coin) ∨
    ((∀ coin ∈ eligibleCoins V nConfMine nConfTheirs vCoins, coin.1 ≠ nTargetValue) ∧
      ∃ g', gather V nTargetValue nConfMine nConfTheirs vCoins g = .inr g' ∧
        g.Collects nTargetValue g' (eligibleCoins V nConfMine nConfTheirs vCoins)) := by
  induction vCoins generalizing g with
  | nil =>
    refine Or.inr ⟨fun coin hcoin => absurd hcoin List.not_mem_nil, g, rfl, (List.append_nil _).symm, fun h _ => h, ?_⟩
    exact Or.inl ⟨rfl, fun coin hcoin => absurd hcoin List.not_mem_nil⟩
  | cons output vCoins ih =>
    rw [gather]
    by_cases heligible : isEligible V nConfMine nConfTheirs output = false
    · rw [if_pos heligible, eligibleCoins_cons_of_neg heligible]
      exact ih g
    rw [if_neg heligible, eligibleCoins_cons_of_pos (Bool.not_eq_false _ ▸ heligible)]
    dsimp only
    by_cases hexact : V.nValue output.coin = nTargetValue
    · exact Or.inl ⟨V.valued output, List.mem_cons_self, hexact, if_pos hexact⟩
    rw [if_neg hexact]
    -- The three branches hand on what holds of the outputs that are still to come.
    have hlift : ∀ g₁ : Gathered, (∀ g', g₁.Collects nTargetValue g' (eligibleCoins V nConfMine nConfTheirs vCoins) →
        g.Collects nTargetValue g' (V.valued output :: eligibleCoins V nConfMine nConfTheirs vCoins)) →
        (∃ coin ∈ V.valued output :: eligibleCoins V nConfMine nConfTheirs vCoins, coin.1 = nTargetValue ∧
          gather V nTargetValue nConfMine nConfTheirs vCoins g₁ = .inl coin) ∨
        ((∀ coin ∈ V.valued output :: eligibleCoins V nConfMine nConfTheirs vCoins, coin.1 ≠ nTargetValue) ∧
          ∃ g', gather V nTargetValue nConfMine nConfTheirs vCoins g₁ = .inr g' ∧
            g.Collects nTargetValue g' (V.valued output :: eligibleCoins V nConfMine nConfTheirs vCoins)) := by
      intro g₁ hcollects
      rcases ih g₁ with ⟨coin, hcoin, hvalue, hgather⟩ | ⟨hne, g', hgather, hrest⟩
      · exact Or.inl ⟨coin, List.mem_cons_of_mem _ hcoin, hvalue, hgather⟩
      · refine Or.inr ⟨fun coin hcoin => ?_, g', hgather, hcollects g' hrest⟩
        rcases List.mem_cons.1 hcoin with rfl | hcoin
        · exact hexact
        · exact hne coin hcoin
    by_cases hlower : V.nValue output.coin < nTargetValue + cent
    · rw [if_pos hlower]
      exact hlift _ fun g' => Gathered.Collects.lower (V.valued output) (decide_eq_true hlower)
    have hlarge : isLower nTargetValue (V.valued output) = false := decide_eq_false hlower
    rw [if_neg hlower]
    by_cases hless : V.nValue output.coin < g.coinLowestLarger.1
    · rw [if_pos hless]
      exact hlift _ fun g' hrest => hrest.replace hlarge
    · rw [if_neg hless]
      exact hlift _ fun g' hrest => hrest.skip hlarge (Int64.not_lt.1 hless)

/-! ## The set -/

theorem CoinSet.addAll_perm (coins : List ValuedCoin) (ret : CoinSet)
    (hdistinct : (ret.setCoinsRet ++ coins.map Prod.snd).Nodup) :
    (ret.addAll coins).setCoinsRet.Perm (ret.setCoinsRet ++ coins.map Prod.snd) := by
  induction coins generalizing ret with
  | nil =>
    rw [List.map_nil, List.append_nil]
    exact List.Perm.refl _
  | cons coin coins ih =>
    have hnew : coin.2 ∉ ret.setCoinsRet := by
      intro hmem
      exact List.disjoint_of_nodup_append hdistinct hmem List.mem_cons_self
    have hset : (ret.add coin).setCoinsRet = coin.2 :: ret.setCoinsRet := List.insert_of_not_mem hnew
    have hperm : ((ret.add coin).setCoinsRet ++ coins.map Prod.snd).Perm
        (ret.setCoinsRet ++ (coin :: coins).map Prod.snd) := by
      rw [hset]
      exact List.perm_middle.symm
    exact (ih (ret.add coin) (hperm.nodup_iff.2 hdistinct)).trans hperm

theorem CoinSet.addAll_value (coins : List ValuedCoin) (ret : CoinSet) (hfit : CoinsFit coins)
    (hnonneg : 0 ≤ ret.nValueRet.toInt) (hlt : ret.nValueRet.toInt + ValuedCoin.total coins < 2 ^ 63) :
    (ret.addAll coins).nValueRet.toInt = ret.nValueRet.toInt + ValuedCoin.total coins := by
  induction coins generalizing ret with
  | nil => exact (add_zero _).symm
  | cons coin coins ih =>
    have hhead : 0 ≤ coin.1.toInt := hfit.nonneg coin List.mem_cons_self
    have htail : CoinsFit coins := hfit.sublist (List.sublist_cons_self coin coins)
    have hsum : ValuedCoin.total (coin :: coins) = coin.1.toInt + ValuedCoin.total coins := rfl
    have hrest := htail.total_nonneg
    rw [hsum] at hlt
    have hvalue : (ret.add coin).nValueRet.toInt = ret.nValueRet.toInt + coin.1.toInt :=
      Int64Bounds.toInt_add (by omega) (by omega)
    calc (ret.addAll (coin :: coins)).nValueRet.toInt
        = (ret.add coin).nValueRet.toInt + ValuedCoin.total coins := ih (ret.add coin) htail (by omega) (by omega)
      _ = ret.nValueRet.toInt + ValuedCoin.total (coin :: coins) := by rw [hvalue, hsum, add_assoc]

theorem CoinSet.addAll_total {coins : List ValuedCoin} (hfit : CoinsFit coins) :
    (CoinSet.empty.addAll coins).nValueRet.toInt = ValuedCoin.total coins := by
  have hlt : (0 : Int) + ValuedCoin.total coins < 2 ^ 63 := by
    rw [zero_add]
    exact hfit.total
  exact (CoinSet.addAll_value coins CoinSet.empty hfit le_rfl hlt).trans (zero_add _)

section Outputs

variable {outputs : List COutput} {coins : List ValuedCoin}

theorem addAll_perm_of_subperm (hdistinct : (outputs.map COutput.coin).Nodup)
    (hsub : coins.Subperm (outputs.map V.valued)) :
    (coins.map Prod.snd).Nodup ∧ (CoinSet.empty.addAll coins).setCoinsRet.Perm (coins.map Prod.snd) := by
  have hnodup : (coins.map Prod.snd).Nodup := by
    rcases hsub with ⟨coins', hperm, hsub'⟩
    have hmap : (outputs.map V.valued).map Prod.snd = outputs.map COutput.coin := List.map_map
    exact ((hperm.map _).nodup_iff).1 ((hmap ▸ hdistinct).sublist (hsub'.map _))
  exact ⟨hnodup, CoinSet.addAll_perm coins CoinSet.empty hnodup⟩

/-- The coins of outputs that differ are put into the set one by one. -/
theorem addAll_distinct (hdistinct : (outputs.map COutput.coin).Nodup) (hsub : coins.Subperm (outputs.map V.valued)) :
    (CoinSet.empty.addAll coins).setCoinsRet.Nodup ∧
      ∀ coin ∈ (CoinSet.empty.addAll coins).setCoinsRet, ∃ output ∈ outputs, output.coin = coin := by
  rcases addAll_perm_of_subperm hdistinct hsub with ⟨hnodup, hperm⟩
  refine ⟨hperm.nodup_iff.2 hnodup, fun coin hcoin => ?_⟩
  rcases List.mem_map.1 (hperm.subset hcoin) with ⟨c, hc, rfl⟩
  rcases List.mem_map.1 (hsub.subset hc) with ⟨output, houtput, rfl⟩
  exact ⟨output, houtput, rfl⟩

/-- What the coins of the set are worth, exactly. -/
theorem addAll_sum (hdistinct : (outputs.map COutput.coin).Nodup) (hsub : coins.Subperm (outputs.map V.valued)) :
    ((CoinSet.empty.addAll coins).setCoinsRet.map fun coin => (V.nValue coin).toInt).sum = total coins := by
  rcases addAll_perm_of_subperm hdistinct hsub with ⟨-, hperm⟩
  rw [(hperm.map _).sum_eq, List.map_map]
  refine congrArg List.sum (List.map_congr_left fun c hc => ?_)
  rcases List.mem_map.1 (hsub.subset hc) with ⟨output, -, rfl⟩
  rfl

end Outputs

/-- Different eligible outputs whose exact total is reported, and is not less than the target. -/
structure CoinSet.Sound (V : CoinView) (nTargetValue : CAmount) (nConfMine nConfTheirs : Int) (vCoins : List COutput)
    (ret : CoinSet) : Prop where
  distinct : ret.setCoinsRet.Nodup
  eligible : ∀ coin ∈ ret.setCoinsRet, ∃ output ∈ vCoins,
    isEligible V nConfMine nConfTheirs output = true ∧ output.coin = coin
  total : ret.nValueRet.toInt = (ret.setCoinsRet.map fun coin => (V.nValue coin).toInt).sum
  reaches : nTargetValue ≤ ret.nValueRet

/-! ## The selection -/

variable {D : SelectDraws}

/-- The search that is done last, with its own target. -/
theorem searchSubset_sound {vValue : List ValuedCoin} (hfit : CoinsFit vValue)
    (htotal : nTotalLower.toInt = total vValue) :
    (searchSubset D nTargetValue vValue nTotalLower).1.Sound vValue
      (searchSubset D nTargetValue vValue nTotalLower).2 := by
  rw [searchSubset]
  split_ifs
  · exact approximateBestSubset_sound hfit _ _ htotal _
  · exact approximateBestSubset_sound hfit _ _ htotal _

theorem le_add_cent (hcent : nTargetValue.toInt + cent.toInt < 2 ^ 63) :
    nTargetValue.toInt ≤ (nTargetValue + cent).toInt := by
  have hvalue : cent.toInt = 1000000 := rfl
  have hlow := Int64.le_toInt nTargetValue
  rw [Int64Bounds.toInt_add (by omega) hcent]
  omega

theorem searchSubset_reaches (hcent : nTargetValue.toInt + cent.toInt < 2 ^ 63) {vValue : List ValuedCoin}
    (hfit : CoinsFit vValue) (htotal : nTotalLower.toInt = total vValue)
    (hreach : nTargetValue.toInt ≤ nTotalLower.toInt) :
    nTargetValue.toInt ≤ (searchSubset D nTargetValue vValue nTotalLower).1.nBest.toInt := by
  have htarget : nTargetValue.toInt ≤ (searchSubset D nTargetValue vValue nTotalLower).2.toInt := by
    rw [searchSubset]
    split_ifs
    · exact le_add_cent hcent
    · exact le_rfl
  rcases (searchSubset_sound (D := D) hfit htotal).reaches with hle | heq
  · exact htarget.trans (Int64.le_iff_toInt_le.1 hle)
  · rw [heq, ← htotal]
    exact hreach

/-- The eligible coins that go into `vValue`. -/
def lowerCoins (V : CoinView) (nTargetValue : CAmount) (nConfMine nConfTheirs : Int) (vCoins : List COutput) :
    List ValuedCoin :=
  (eligibleCoins V nConfMine nConfTheirs vCoins).filter (isLower nTargetValue)

/-- What the loop has collected, seen from the outputs. -/
structure Gathered.From (V : CoinView) (nTargetValue : CAmount) (nConfMine nConfTheirs : Int) (vCoins : List COutput)
    (g : Gathered) : Prop where
  lower : g.vValue.Perm (lowerCoins V nTargetValue nConfMine nConfTheirs vCoins)
  total : CoinsFit g.vValue → g.nTotalLower.toInt = total g.vValue
  larger : ∀ n coin, g.coinLowestLarger = (n, some coin) →
    (n, coin) ∈ eligibleCoins V nConfMine nConfTheirs vCoins ∧ (nTargetValue + cent).toInt ≤ n.toInt

theorem Gathered.Collects.from {vCoins vCoins' : List COutput} (hperm : vCoins'.Perm vCoins) {g : Gathered}
    (h : Collects nTargetValue ⟨(maxAmount, none), [], 0⟩ g (eligibleCoins V nConfMine nConfTheirs vCoins')) :
    g.From V nTargetValue nConfMine nConfTheirs vCoins := by
  have hcoins := eligibleCoins_perm V nConfMine nConfTheirs hperm
  have hlower : g.vValue.Perm (lowerCoins V nTargetValue nConfMine nConfTheirs vCoins) := by
    rw [h.vValue, List.nil_append]
    exact hcoins.filter _
  refine ⟨hlower, h.total rfl, fun n coin hlarger => ?_⟩
  rcases h.larger with ⟨hsame, -⟩ | ⟨c, hc, hlarge, heq⟩
  · rw [hsame] at hlarger
    cases hlarger
  · rw [heq] at hlarger
    obtain ⟨rfl, rfl⟩ : c.1 = n ∧ c.2 = coin := by
      injection hlarger with hfst hsnd
      exact ⟨hfst, Option.some.inj hsnd⟩
    exact ⟨hcoins.subset hc, Int64.le_iff_toInt_le.1 (Int64.not_lt.1 (of_decide_eq_false hlarge))⟩

/-- The set is one eligible coin, or consists of lower ones; these suffice when no sum leaves its range. -/
structure Chosen (V : CoinView) (nTargetValue : CAmount) (nConfMine nConfTheirs : Int) (vCoins : List COutput)
    (ret : CoinSet) (coins : List ValuedCoin) : Prop where
  set : ret = CoinSet.empty.addAll coins
  origin : (∃ coin ∈ eligibleCoins V nConfMine nConfTheirs vCoins, coins = [coin]) ∨
    coins.Subperm (lowerCoins V nTargetValue nConfMine nConfTheirs vCoins)
  reaches : CoinsFit (lowerCoins V nTargetValue nConfMine nConfTheirs vCoins) →
    nTargetValue.toInt + cent.toInt < 2 ^ 63 → nTargetValue.toInt ≤ total coins

theorem total_singleton (coin : ValuedCoin) : total [coin] = coin.1.toInt := by
  rw [total, List.map_singleton, List.sum_singleton]
  rfl

/-- The larger coin, when the selection takes it. -/
theorem Gathered.From.chosen_larger {vCoins : List COutput} {g : Gathered}
    (h : g.From V nTargetValue nConfMine nConfTheirs vCoins) {n : CAmount} {coin : COutPoint}
    (hlarger : g.coinLowestLarger = (n, some coin)) :
    Chosen V nTargetValue nConfMine nConfTheirs vCoins (CoinSet.empty.add (n, coin)) [(n, coin)] := by
  rcases h.larger n coin hlarger with ⟨hmem, hle⟩
  refine ⟨rfl, Or.inl ⟨(n, coin), hmem, rfl⟩, fun _ hcent => ?_⟩
  rw [total_singleton]
  exact (le_add_cent hcent).trans hle

variable (D) in
theorem chooseCoins_chosen {vCoins : List COutput} {g : Gathered}
    (h : g.From V nTargetValue nConfMine nConfTheirs vCoins) (htrue : (chooseCoins D nTargetValue g).1 = true) :
    ∃ coins, Chosen V nTargetValue nConfMine nConfTheirs vCoins (chooseCoins D nTargetValue g).2 coins := by
  rw [chooseCoins] at htrue ⊢
  by_cases hall : g.nTotalLower = nTargetValue
  · rw [if_pos hall]
    refine ⟨g.vValue, rfl, Or.inr h.lower.subperm, fun hfit _ => ?_⟩
    rw [← h.total (hfit.perm h.lower), hall]
  rw [if_neg hall] at htrue ⊢
  by_cases hfew : g.nTotalLower < nTargetValue
  · rw [if_pos hfew] at htrue ⊢
    rcases hlarger : g.coinLowestLarger with ⟨n, none | coin⟩
    · rw [hlarger] at htrue
      cases htrue
    · exact ⟨_, h.chosen_larger hlarger⟩
  rw [if_neg hfew]
  dsimp only
  -- The search is about the coins in the order of their values.
  have hsorted := D.sort_perm g.vValue
  have hsubset : Chosen V nTargetValue nConfMine nConfTheirs vCoins
      (CoinSet.empty.addAll (marked (searchSubset D nTargetValue (D.sort g.vValue) g.nTotalLower).1.vfBest
        (D.sort g.vValue)))
      (marked (searchSubset D nTargetValue (D.sort g.vValue) g.nTotalLower).1.vfBest (D.sort g.vValue)) := by
    refine ⟨rfl, Or.inr ((marked_sublist _ _).subperm.trans (hsorted.trans h.lower).subperm), fun hlower hcent => ?_⟩
    have hfit : CoinsFit g.vValue := hlower.perm h.lower
    have htotal : g.nTotalLower.toInt = ValuedCoin.total (D.sort g.vValue) :=
      (h.total hfit).trans (total_perm hsorted).symm
    rw [← (searchSubset_sound (hfit.perm hsorted) htotal).sum]
    exact searchSubset_reaches hcent (hfit.perm hsorted) htotal (Int64.le_iff_toInt_le.1 (Int64.not_lt.1 hfew))
  rcases hlarger : g.coinLowestLarger with ⟨n, none | coin⟩
  · exact ⟨_, hsubset⟩
  · dsimp only
    split_ifs
    · exact ⟨_, h.chosen_larger hlarger⟩
    · exact ⟨_, hsubset⟩

/-- What is chosen, whether or not a sum leaves its range. -/
theorem selectCoinsMinConf_chosen {vCoins : List COutput}
    (htrue : (selectCoinsMinConf V D nTargetValue nConfMine nConfTheirs vCoins).1 = true) :
    ∃ coins, Chosen V nTargetValue nConfMine nConfTheirs vCoins
      (selectCoinsMinConf V D nTargetValue nConfMine nConfTheirs vCoins).2 coins := by
  have hperm := D.shuffle_perm vCoins
  rw [selectCoinsMinConf] at htrue ⊢
  rcases gather_cases V nTargetValue nConfMine nConfTheirs (D.shuffle vCoins)
    ⟨(maxAmount, none), [], 0⟩ with ⟨coin, hcoin, hvalue, hgather⟩ | ⟨-, g, hgather, hcollects⟩
  · rw [hgather]
    have hmem := (eligibleCoins_perm V nConfMine nConfTheirs hperm).subset hcoin
    refine ⟨[coin], rfl, Or.inl ⟨coin, hmem, rfl⟩, fun _ _ => ?_⟩
    rw [total_singleton, hvalue]
  · rw [hgather] at htrue ⊢
    exact chooseCoins_chosen D (hcollects.from hperm) htrue

section Chosen

variable {vCoins : List COutput} {ret : CoinSet} {coins : List ValuedCoin}

theorem Chosen.subperm (h : Chosen V nTargetValue nConfMine nConfTheirs vCoins ret coins) :
    coins.Subperm (eligibleCoins V nConfMine nConfTheirs vCoins) := by
  rcases h.origin with ⟨coin, hcoin, rfl⟩ | hlower
  · exact (List.singleton_sublist.2 hcoin).subperm
  · exact hlower.trans List.filter_sublist.subperm

theorem Chosen.fit (h : Chosen V nTargetValue nConfMine nConfTheirs vCoins ret coins)
    (hnonneg : ∀ output ∈ vCoins, 0 ≤ (V.nValue output.coin).toInt)
    (hlower : CoinsFit (lowerCoins V nTargetValue nConfMine nConfTheirs vCoins)) : CoinsFit coins := by
  rcases h.origin with ⟨coin, hcoin, rfl⟩ | hsub
  · rcases List.mem_map.1 hcoin with ⟨output, houtput, rfl⟩
    refine ⟨fun c hc => ?_, ?_⟩
    · rw [List.mem_singleton.1 hc]
      exact hnonneg output (List.mem_filter.1 houtput).1
    · rw [total_singleton]
      exact Int64.toInt_lt _
  · exact hlower.subperm hsub

theorem Chosen.sound (h : Chosen V nTargetValue nConfMine nConfTheirs vCoins ret coins)
    (hdistinct : (vCoins.map COutput.coin).Nodup) (hnonneg : ∀ output ∈ vCoins, 0 ≤ (V.nValue output.coin).toInt)
    (hlower : CoinsFit (lowerCoins V nTargetValue nConfMine nConfTheirs vCoins))
    (hcent : nTargetValue.toInt + cent.toInt < 2 ^ 63) :
    ret.Sound V nTargetValue nConfMine nConfTheirs vCoins := by
  have hdistinct' : ((vCoins.filter (isEligible V nConfMine nConfTheirs)).map COutput.coin).Nodup :=
    hdistinct.sublist (List.filter_sublist.map _)
  have htotal : ret.nValueRet.toInt = total coins := by
    rw [h.set]
    exact CoinSet.addAll_total (h.fit hnonneg hlower)
  rcases addAll_distinct hdistinct' h.subperm with ⟨hnodup, hmem⟩
  rw [← h.set] at hnodup hmem
  refine ⟨hnodup, fun coin hcoin => ?_, ?_, ?_⟩
  · rcases hmem coin hcoin with ⟨output, houtput, hcoin'⟩
    rcases List.mem_filter.1 houtput with ⟨houtput', heligible⟩
    exact ⟨output, houtput', heligible, hcoin'⟩
  · rw [htotal, h.set]
    exact (addAll_sum hdistinct' h.subperm).symm
  · rw [Int64.le_iff_toInt_le, htotal]
    exact h.reaches hlower hcent

end Chosen

/-- The outputs that are offered: different coins whose values are not negative and fit in 64 bits together. -/
structure Offered (V : CoinView) (vCoins : List COutput) : Prop where
  distinct : (vCoins.map COutput.coin).Nodup
  fit : CoinsFit (vCoins.map V.valued)

theorem Offered.nonneg {vCoins : List COutput} (h : Offered V vCoins) :
    ∀ output ∈ vCoins, 0 ≤ (V.nValue output.coin).toInt :=
  fun output houtput => h.fit.nonneg (V.valued output) (List.mem_map_of_mem houtput)

theorem Offered.eligibleCoins_fit {vCoins : List COutput} (h : Offered V vCoins) :
    CoinsFit (eligibleCoins V nConfMine nConfTheirs vCoins) :=
  h.fit.sublist (List.filter_sublist.map _)

/-- Whatever is chosen, is chosen from the eligible outputs and suffices. -/
theorem selectCoinsMinConf_sound {vCoins : List COutput} (hoffered : Offered V vCoins)
    (hcent : nTargetValue.toInt + cent.toInt < 2 ^ 63)
    (htrue : (selectCoinsMinConf V D nTargetValue nConfMine nConfTheirs vCoins).1 = true) :
    (selectCoinsMinConf V D nTargetValue nConfMine nConfTheirs vCoins).2.Sound V nTargetValue nConfMine nConfTheirs
      vCoins := by
  rcases selectCoinsMinConf_chosen htrue with ⟨coins, hchosen⟩
  exact hchosen.sound hoffered.distinct hoffered.nonneg (hoffered.eligibleCoins_fit.sublist List.filter_sublist) hcent

theorem CoinSet.Sound.le_total {vCoins : List COutput} (hoffered : Offered V vCoins) {ret : CoinSet}
    (h : ret.Sound V nTargetValue nConfMine nConfTheirs vCoins) :
    nTargetValue.toInt ≤ ValuedCoin.total (eligibleCoins V nConfMine nConfTheirs vCoins) := by
  have hsub : ret.setCoinsRet.Subperm ((eligibleCoins V nConfMine nConfTheirs vCoins).map Prod.snd) := by
    apply List.subperm_of_subset h.distinct
    intro coin hcoin
    rcases h.eligible coin hcoin with ⟨output, hmem, heligible, rfl⟩
    exact List.mem_map_of_mem (List.mem_map_of_mem (List.mem_filter.2 ⟨hmem, heligible⟩))
  have hvalues : ∀ coin ∈ eligibleCoins V nConfMine nConfTheirs vCoins, (V.nValue coin.2).toInt = coin.amount := by
    intro coin hcoin
    rcases List.mem_map.1 hcoin with ⟨output, -, rfl⟩
    rfl
  have htotal : (((eligibleCoins V nConfMine nConfTheirs vCoins).map Prod.snd).map fun coin =>
      (V.nValue coin).toInt).sum = ValuedCoin.total (eligibleCoins V nConfMine nConfTheirs vCoins) := by
    rw [List.map_map]
    exact congrArg List.sum (List.map_congr_left hvalues)
  rcases hsub with ⟨coins, hperm, hsub⟩
  calc nTargetValue.toInt
      ≤ ret.nValueRet.toInt := Int64.le_iff_toInt_le.1 h.reaches
    _ = (coins.map fun coin => (V.nValue coin).toInt).sum := by rw [h.total, ((hperm.symm).map _).sum_eq]
    _ ≤ (((eligibleCoins V nConfMine nConfTheirs vCoins).map Prod.snd).map fun coin => (V.nValue coin).toInt).sum := by
        apply (hsub.map _).sum_le_sum
        intro n hn
        rw [List.map_map] at hn
        rcases List.mem_map.1 hn with ⟨coin, hcoin, rfl⟩
        exact (hoffered.eligibleCoins_fit.nonneg coin hcoin).trans_eq (hvalues coin hcoin).symm
    _ = ValuedCoin.total (eligibleCoins V nConfMine nConfTheirs vCoins) := htotal

/-- When nothing is chosen, all of the eligible coins are not enough. -/
theorem total_lt_of_false {vCoins : List COutput} (hoffered : Offered V vCoins)
    (hmax : ∀ output ∈ vCoins, V.nValue output.coin < maxAmount)
    (hfalse : (selectCoinsMinConf V D nTargetValue nConfMine nConfTheirs vCoins).1 = false) :
    total (eligibleCoins V nConfMine nConfTheirs vCoins) < nTargetValue.toInt := by
  have hperm := D.shuffle_perm vCoins
  have hcoins := eligibleCoins_perm V nConfMine nConfTheirs hperm
  rw [selectCoinsMinConf] at hfalse
  rcases gather_cases V nTargetValue nConfMine nConfTheirs (D.shuffle vCoins) ⟨(maxAmount, none), [], 0⟩ with
    ⟨coin, -, -, hgather⟩ | ⟨-, g, hgather, hcollects⟩
  · rw [hgather] at hfalse
    cases hfalse
  rw [hgather] at hfalse
  have hfrom := hcollects.from hperm
  -- Only one of the ways through the function returns false.
  obtain ⟨hfew, n, hnone⟩ : g.nTotalLower < nTargetValue ∧ ∃ n, g.coinLowestLarger = (n, none) := by
    simp only [chooseCoins] at hfalse
    split_ifs at hfalse with hall hfew
    · rcases hlarger : g.coinLowestLarger with ⟨n, none | coin⟩
      · exact ⟨hfew, n, rfl⟩
      · rw [hlarger] at hfalse
        cases hfalse
    · rcases hlarger : g.coinLowestLarger with ⟨n, none | coin⟩
      · rw [hlarger] at hfalse
        cases hfalse
      · rw [hlarger] at hfalse
        dsimp only at hfalse
        split_ifs at hfalse
  have hall : (eligibleCoins V nConfMine nConfTheirs (D.shuffle vCoins)).filter (isLower nTargetValue) =
      eligibleCoins V nConfMine nConfTheirs (D.shuffle vCoins) := by
    apply List.filter_eq_self.2
    intro coin hcoin
    by_contra hlarge
    rcases hcollects.larger with ⟨-, hmaximal⟩ | ⟨c, -, -, heq⟩
    · have hle := hmaximal coin hcoin (Bool.not_eq_true _ ▸ hlarge)
      rcases List.mem_map.1 hcoin with ⟨output, houtput, rfl⟩
      have hlt := hmax output (hperm.subset (List.mem_filter.1 houtput).1)
      exact absurd (Int64.lt_iff_toInt_lt.1 hlt) (Int64.le_iff_toInt_le.1 hle).not_gt
    · rw [heq] at hnone
      cases hnone
  have hfit : CoinsFit g.vValue :=
    (hoffered.eligibleCoins_fit.sublist List.filter_sublist).perm hfrom.lower
  calc total (eligibleCoins V nConfMine nConfTheirs vCoins)
      = total (eligibleCoins V nConfMine nConfTheirs (D.shuffle vCoins)) := (total_perm hcoins).symm
    _ = total g.vValue := by rw [hcollects.vValue, hall, List.nil_append]
    _ = g.nTotalLower.toInt := (hfrom.total hfit).symm
    _ < nTargetValue.toInt := Int64.lt_iff_toInt_lt.1 hfew

theorem selectCoinsMinConf_exact {vCoins : List COutput}
    (h : ∃ output ∈ vCoins, isEligible V nConfMine nConfTheirs output = true ∧ V.nValue output.coin = nTargetValue) :
    ∃ output ∈ vCoins, isEligible V nConfMine nConfTheirs output = true ∧ V.nValue output.coin = nTargetValue ∧
      selectCoinsMinConf V D nTargetValue nConfMine nConfTheirs vCoins = (true, ⟨[output.coin], nTargetValue⟩) := by
  have hperm := D.shuffle_perm vCoins
  rcases h with ⟨output, hmem, heligible, hexact⟩
  rcases gather_cases V nTargetValue nConfMine nConfTheirs (D.shuffle vCoins) ⟨(maxAmount, none), [], 0⟩ with
    ⟨coin, hcoin, hvalue, hgather⟩ | ⟨hne, -⟩
  · rcases List.mem_map.1 hcoin with ⟨chosen, hchosen, rfl⟩
    rcases List.mem_filter.1 hchosen with ⟨hmem', heligible'⟩
    refine ⟨chosen, hperm.subset hmem', heligible', hvalue, ?_⟩
    rw [selectCoinsMinConf, hgather]
    dsimp only
    rw [CoinSet.add, hvalue]
    exact congrArg (fun n => (true, CoinSet.mk [chosen.coin] n)) (Int64.zero_add nTargetValue)
  · have hmem' : V.valued output ∈ eligibleCoins V nConfMine nConfTheirs (D.shuffle vCoins) :=
      List.mem_map_of_mem (List.mem_filter.2 ⟨hperm.symm.subset hmem, heligible⟩)
    exact absurd hexact (hne _ hmem')

variable (V D nTargetValue nConfMine nConfTheirs) in
/-- Coin selection is sound, and it is complete for coins that are worth less than the largest number there is. -/
theorem selectCoinsMinConf_iff {vCoins : List COutput} (hdistinct : (vCoins.map COutput.coin).Nodup)
    (hvalues : ∀ output ∈ vCoins, 0 < V.nValue output.coin ∧ V.nValue output.coin < maxAmount)
    (hfits : total (vCoins.map V.valued) < 2 ^ 63) (hcent : nTargetValue.toInt + cent.toInt < 2 ^ 63) :
    ((selectCoinsMinConf V D nTargetValue nConfMine nConfTheirs vCoins).1 = true ↔
        nTargetValue.toInt ≤ total (eligibleCoins V nConfMine nConfTheirs vCoins)) ∧
      ((selectCoinsMinConf V D nTargetValue nConfMine nConfTheirs vCoins).1 = true →
        (selectCoinsMinConf V D nTargetValue nConfMine nConfTheirs vCoins).2.Sound V nTargetValue nConfMine nConfTheirs
          vCoins) ∧
      (∀ rand target vValue nTotalLower iterations, CoinsFit vValue → nTotalLower.toInt = total vValue →
        (approximateBestSubset rand target vValue nTotalLower iterations).Sound vValue target) ∧
      (∀ vValue nTotalLower, CoinsFit vValue → nTotalLower.toInt = total vValue →
        (searchSubset D nTargetValue vValue nTotalLower).1.Sound vValue
          (searchSubset D nTargetValue vValue nTotalLower).2) ∧
      ((∃ output ∈ vCoins, isEligible V nConfMine nConfTheirs output = true ∧ V.nValue output.coin = nTargetValue) →
        ∃ output ∈ vCoins, isEligible V nConfMine nConfTheirs output = true ∧ V.nValue output.coin = nTargetValue ∧
          selectCoinsMinConf V D nTargetValue nConfMine nConfTheirs vCoins =
            (true, ⟨[output.coin], nTargetValue⟩)) := by
  have hoffered : Offered V vCoins := by
    refine ⟨hdistinct, fun coin hcoin => ?_, hfits⟩
    rcases List.mem_map.1 hcoin with ⟨output, houtput, rfl⟩
    exact (Int64.lt_iff_toInt_lt.1 (hvalues output houtput).1).le
  refine ⟨⟨fun htrue => ?_, fun hle => ?_⟩, selectCoinsMinConf_sound hoffered hcent, ?_, ?_, selectCoinsMinConf_exact⟩
  · exact (selectCoinsMinConf_sound hoffered hcent htrue).le_total hoffered
  · by_contra hfalse
    have hlt := total_lt_of_false hoffered (fun output houtput => (hvalues output houtput).2)
      (Bool.not_eq_true _ ▸ hfalse)
    exact absurd hle hlt.not_ge
  · exact fun rand target vValue nTotalLower iterations hfit htotal =>
      approximateBestSubset_sound hfit rand target htotal iterations
  · exact fun vValue nTotalLower hfit htotal => searchSubset_sound hfit htotal

end Select

/-! ## A coin of the largest value -/

/-- Draws that leave the outputs in their order. -/
def plainDraws : SelectDraws where
  shuffle := id
  shuffle_perm := List.Perm.refl
  sort := List.insertionSort fun a b => b.1 ≤ a.1
  sort_perm := List.perm_insertionSort _
  sort_sorted := List.pairwise_insertionSort _
  insecureRand := fun _ => 0
  insecureRand' := fun _ => 0

/-- Coins of one value, from others. -/
def oneValue (n : CAmount) : CoinView where
  nValue := fun _ => n
  isFromMe := fun _ => false

/-- Two outputs of one transaction that have six confirmations. -/
def equalOutputs : List COutput :=
  [⟨1, 0, 6, true⟩, ⟨1, 1, 6, true⟩]

theorem equalOutputs_selected :
    ((equalOutputs.map COutput.coin).Nodup ∧ (∀ output ∈ equalOutputs, 0 < (5 : CAmount) ∧ (5 : CAmount) < maxAmount) ∧
      total (equalOutputs.map (oneValue 5).valued) < 2 ^ 63 ∧ (7 : CAmount).toInt + cent.toInt < 2 ^ 63) ∧
    ((selectCoinsMinConf (oneValue 5) plainDraws 7 1 6 equalOutputs).1 = true ↔
      (7 : CAmount).toInt ≤ total (eligibleCoins (oneValue 5) 1 6 equalOutputs)) :=
  ⟨by decide, (selectCoinsMinConf_iff (oneValue 5) 7 1 6 plainDraws (by decide) (by decide) (by decide) (by decide)).1⟩

/-- A coin of the largest value is not seen: it is not less than what `coinLowestLarger` starts with. -/
theorem selectCoinsMinConf_largest :
    (([⟨1, 0, 6, true⟩] : List COutput).map COutput.coin).Nodup ∧
      (∀ output ∈ ([⟨1, 0, 6, true⟩] : List COutput), 0 < (oneValue maxAmount).nValue output.coin) ∧
      total (([⟨1, 0, 6, true⟩] : List COutput).map (oneValue maxAmount).valued) < 2 ^ 63 ∧
      (1 : CAmount).toInt + cent.toInt < 2 ^ 63 ∧
      (1 : CAmount).toInt ≤ total (eligibleCoins (oneValue maxAmount) 1 6 [⟨1, 0, 6, true⟩]) ∧
      (selectCoinsMinConf (oneValue maxAmount) plainDraws 1 1 6 [⟨1, 0, 6, true⟩]).1 = false := by
  decide

end Dobbscoin
