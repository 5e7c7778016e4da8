import Dobbscoin.Wallet.BalanceFlow
import Dobbscoin.Wallet.SelectedCoins
import Dobbscoin.Wallet.SendRuns

/-!
# What CreateTransaction pays

The inputs of the transaction are worth its outputs and the fee, exactly, as long as the amount, the fee and `CENT`
together stay below `2^63`.
-/

namespace Dobbscoin

open Marked ValuedCoin

namespace SendWallet

open WalletNode

variable {E : SendEnv} {w : SendWallet} {R : SendRequest}

/-! ## The coins of the wallet -/

/-- What the wallet keeps true, and what the checks ensure for the transactions in the chain or in the pool. -/
structure Kept (E : SendEnv) (w : SendWallet) : Prop where
  keyed : Keyed E.toWalletEnv w.toWalletNode
  sizes : ∀ hash wtx, w.mapWallet.lookup hash = some wtx → wtx.tx.vout.length ≤ maxSize
  checked : ∀ hash wtx, w.mapWallet.lookup hash = some wtx → isLive E.toWalletEnv w.toWalletNode hash = true →
    wtx.tx.Checked

theorem Kept.withKeys (h : Kept E w) (keys : CWallet) : Kept E (w.withKeys keys) :=
  ⟨h.keyed, h.sizes, h.checked⟩

/-- An output of the wallet that `AvailableCoins` does not skip. -/
structure Available (E : SendEnv) (w : SendWallet) (coinControl : Option CCoinControl) (coin : COutPoint)
    (wtx : CWalletTx) (txout : CTxOut) : Prop where
  held : w.mapWallet.lookup coin.hash = some wtx
  output : wtx.tx.vout[coin.n.toNat]? = some txout
  unspent : isSpent E.toWalletEnv w.toWalletNode coin = false
  unlocked : coin ∉ w.setLockedCoins
  positive : 0 < txout.nValue.toInt
  final : isFinal E.toBalanceEnv w.toWalletNode wtx.tx = true
  trusted : isTrusted E.toBalanceEnv w.toWalletNode wtx = some true
  mature : wtx.tx.isCoinBase = true → getBlocksToMaturity E.toWalletEnv w.toWalletNode wtx ≤ 0
  depth : 0 ≤ getDepthInMainChain E.toWalletEnv w.toWalletNode wtx
  selected : ∀ control, coinControl = some control → control.hasSelected = true → coin ∈ control.setSelected

theorem Available.nValue {coinControl : Option CCoinControl} {coin : COutPoint} {wtx : CWalletTx} {txout : CTxOut}
    (h : Available E w coinControl coin wtx txout) : (coinView E w).nValue coin = txout.nValue := by
  have hprev : w.prevOut ⟨coin, [], 0⟩ = some txout := by
    rw [prevOut, h.held]
    exact h.output
  rw [coinView]
  dsimp only
  rw [hprev]
  rfl

/-- In the chain or in the pool, an output is an amount. -/
theorem Available.le_maxMoney {coinControl : Option CCoinControl} {coin : COutPoint} {wtx : CWalletTx} {txout : CTxOut}
    (hw : Kept E w) (h : Available E w coinControl coin wtx txout) : txout.nValue.toInt ≤ maxMoney := by
  have hlive : isLive E.toWalletEnv w.toWalletNode coin.hash = true := by
    rw [isLive, h.held]
    exact decide_eq_true h.depth
  exact ((hw.checked coin.hash wtx h.held hlive).values txout (List.mem_of_getElem? h.output)).2

/-- The index of an output is not cut off. -/
theorem toNat_index {tx : CTransaction} (hsize : tx.vout.length ≤ maxSize) {o : CTxOut × Nat} (h : o ∈ tx.vout.zipIdx) :
    (UInt32.ofNat o.2).toNat = o.2 := by
  have hlt := (List.mem_zipIdx' h).1
  have hmax : maxSize < 2 ^ 32 := by decide
  exact UInt32.toNat_ofNat_of_lt' (hlt.trans (hsize.trans_lt hmax))

theorem availableOf_spec (hw : Kept E w) {coinControl : Option CCoinControl} {wtxid : UInt256}
    {outputs : List COutput} (h : availableOf E w true coinControl wtxid = some outputs) :
    (outputs.map COutput.coin).Nodup ∧
      ∀ output ∈ outputs, output.tx = wtxid ∧ ∃ wtx txout, Available E w coinControl output.coin wtx txout ∧
        output.fSpendable = mine E.toWalletEnv w.toWalletNode txout ismineSpendable := by
  have hnil : (([] : List COutput).map COutput.coin).Nodup ∧
      ∀ output ∈ ([] : List COutput), output.tx = wtxid ∧ ∃ wtx txout,
        Available E w coinControl output.coin wtx txout ∧
          output.fSpendable = mine E.toWalletEnv w.toWalletNode txout ismineSpendable :=
    ⟨List.nodup_nil, fun _ habsurd => absurd habsurd List.not_mem_nil⟩
  rw [availableOf] at h
  rcases hlookup : w.mapWallet.lookup wtxid with _ | wtx
  · rw [hlookup] at h
    rw [← Option.some.inj h]
    exact hnil
  rw [hlookup] at h
  dsimp only at h
  by_cases hfinal : isFinal E.toBalanceEnv w.toWalletNode wtx.tx = false
  · rw [if_pos hfinal] at h
    rw [← Option.some.inj h]
    exact hnil
  rw [if_neg hfinal] at h
  rcases Option.map_eq_some_iff.1 h with ⟨fTrusted, htrusted, rfl⟩
  rw [if_pos rfl] at htrusted
  by_cases hnot : fTrusted = false
  · rw [if_pos hnot]
    exact hnil
  rw [if_neg hnot]
  by_cases himmature : wtx.tx.isCoinBase = true ∧ getBlocksToMaturity E.toWalletEnv w.toWalletNode wtx > 0
  · rw [if_pos himmature]
    exact hnil
  rw [if_neg himmature]
  by_cases hdepth : getDepthInMainChain E.toWalletEnv w.toWalletNode wtx < 0
  · rw [if_pos hdepth]
    exact hnil
  rw [if_neg hdepth, availableOutputs]
  have hsize := hw.sizes wtxid wtx hlookup
  constructor
  · rw [List.map_map]
    -- Two outputs of one transaction differ in their index.
    refine List.Nodup.map_on ?_ (List.Nodup.filter _ (List.Nodup.of_map Prod.snd ?_))
    · intro o ho o' ho' heq
      have hindex : UInt32.ofNat o.2 = UInt32.ofNat o'.2 := (COutPoint.mk.inj heq).2
      have hsame : o.2 = o'.2 := by
        rw [← toNat_index hsize (List.mem_of_mem_filter ho), ← toNat_index hsize (List.mem_of_mem_filter ho'), hindex]
      have hget := (List.mem_zipIdx' (List.mem_of_mem_filter ho)).2
      have hget' := (List.mem_zipIdx' (List.mem_of_mem_filter ho')).2
      refine Prod.ext ?_ hsame
      rw [hget, hget']
      congr 1
    · rw [List.zipIdx_map_snd]
      exact List.nodup_range'
  · intro output houtput
    rcases List.mem_map.1 houtput with ⟨o, ho, rfl⟩
    rcases List.mem_filter.1 ho with ⟨hmem, havailable⟩
    simp only [isAvailable, Bool.and_eq_true, Bool.not_eq_true', decide_eq_true_eq] at havailable
    rcases havailable with ⟨⟨⟨⟨hunspent, -⟩, hunlocked⟩, hpositive⟩, hcontrol⟩
    refine ⟨rfl, wtx, o.1, ⟨hlookup, ?_, hunspent, ?_, Int64.lt_iff_toInt_lt.1 hpositive, Bool.not_eq_false _ ▸ hfinal,
      ?_, fun hcoinbase => not_lt.1 fun hpos => himmature ⟨hcoinbase, hpos⟩, not_lt.1 hdepth, ?_⟩, rfl⟩
    · have hindex : (COutput.coin ⟨wtxid, UInt32.ofNat o.2, getDepthInMainChain E.toWalletEnv w.toWalletNode wtx,
          mine E.toWalletEnv w.toWalletNode o.1 ismineSpendable⟩).n.toNat = o.2 := toNat_index hsize hmem
      rw [hindex]
      exact List.mem_zipIdx_iff_getElem?.1 hmem
    · intro hlocked
      rw [List.contains_eq_mem, decide_eq_false_iff_not] at hunlocked
      exact hunlocked hlocked
    · rw [htrusted, Bool.eq_true_of_not_eq_false hnot]
    · intro control hcoin hselected
      rw [hcoin] at hcontrol
      dsimp only at hcontrol
      rw [hselected, Bool.not_true, Bool.false_or, List.contains_eq_mem, decide_eq_true_eq] at hcontrol
      exact hcontrol

/-- **Run.** The transactions one after another. -/
theorem mapM_availableOf_spec (hw : Kept E w) {coinControl : Option CCoinControl} {hashes : List UInt256}
    (hnodup : hashes.Nodup) {groups : List (List COutput)}
    (h : hashes.mapM (availableOf E w true coinControl) = some groups) :
    (groups.flatten.map COutput.coin).Nodup ∧
      ∀ output ∈ groups.flatten, output.tx ∈ hashes ∧ ∃ wtx txout, Available E w coinControl output.coin wtx txout ∧
        output.fSpendable = mine E.toWalletEnv w.toWalletNode txout ismineSpendable := by
  induction hashes generalizing groups with
  | nil =>
    rw [List.mapM_nil] at h
    rw [← Option.some.inj h]
    exact ⟨List.nodup_nil, fun _ habsurd => absurd habsurd List.not_mem_nil⟩
  | cons wtxid hashes ih =>
    rw [List.mapM_cons] at h
    rcases Option.bind_eq_some_iff.1 h with ⟨outputs, hof, h⟩
    rcases Option.bind_eq_some_iff.1 h with ⟨rest, hrest, h⟩
    obtain rfl : outputs :: rest = groups := Option.some.inj h
    rcases List.nodup_cons.1 hnodup with ⟨hnew, hnodup'⟩
    rcases availableOf_spec hw hof with ⟨hdistinct, houtputs⟩
    rcases ih hnodup' hrest with ⟨hdistinct', hothers⟩
    constructor
    · rw [List.flatten_cons, List.map_append]
      refine hdistinct.append hdistinct' fun coin hcoin hcoin' => ?_
      rcases List.mem_map.1 hcoin with ⟨output, houtput, rfl⟩
      rcases List.mem_map.1 hcoin' with ⟨output', houtput', heq⟩
      have hsame : output'.tx = output.tx := (COutPoint.mk.inj heq).1
      apply hnew
      rw [← (houtputs output houtput).1, ← hsame]
      exact (hothers output' houtput').1
    · intro output houtput
      rw [List.flatten_cons, List.mem_append] at houtput
      rcases houtput with houtput | houtput
      · rcases houtputs output houtput with ⟨htx, hspec⟩
        exact ⟨htx ▸ List.mem_cons_self, hspec⟩
      · rcases hothers output houtput with ⟨hmem, hspec⟩
        exact ⟨List.mem_cons_of_mem _ hmem, hspec⟩

theorem availableCoins_spec (hw : Kept E w) {coinControl : Option CCoinControl} {vCoins : List COutput}
    (h : availableCoins E w true coinControl = some vCoins) :
    (vCoins.map COutput.coin).Nodup ∧ ∀ output ∈ vCoins, ∃ wtx txout,
      Available E w coinControl output.coin wtx txout ∧
        output.fSpendable = mine E.toWalletEnv w.toWalletNode txout ismineSpendable := by
  rcases Option.map_eq_some_iff.1 h with ⟨groups, hgroups, rfl⟩
  rcases mapM_availableOf_spec hw w.mapWallet.keys_nodup hgroups with ⟨hdistinct, hspec⟩
  exact ⟨hdistinct, fun output houtput => (hspec output houtput).2⟩

/-! ## The selection -/

/-- The spendable coins, with their values. -/
def spendableCoins (E : SendEnv) (w : SendWallet) (vCoins : List COutput) : List ValuedCoin :=
  (vCoins.filter COutput.fSpendable).map (coinView E w).valued

/-- The coins whose values are added up: those that are selected by hand, or those below the target and `CENT`. -/
def addedCoins (E : SendEnv) (w : SendWallet) (coinControl : Option CCoinControl) (nTargetValue : CAmount)
    (vCoins : List COutput) : List ValuedCoin :=
  if byHand coinControl then spendableCoins E w vCoins
  else (spendableCoins E w vCoins).filter (isLower nTargetValue)

/-- What the selection compares stays in its range. -/
def TargetFits (coinControl : Option CCoinControl) (nTarget : Int) : Prop :=
  if byHand coinControl then nTarget < 2 ^ 63 else nTarget + cent.toInt < 2 ^ 63

/-- The coins that are selected for a target: different ones that can be spent; and they suffice if and only if the
target fits, when the coins that are added up do. -/
structure Selects (E : SendEnv) (w : SendWallet) (coinControl : Option CCoinControl) (nTarget : Int)
    (nTargetValue : CAmount) (vCoins : List COutput) (ret : CoinSet) (coins : List ValuedCoin) : Prop where
  set : ret = CoinSet.empty.addAll coins
  spendable : coins.Subperm (spendableCoins E w vCoins)
  fit : total (addedCoins E w coinControl nTargetValue vCoins) < 2 ^ 63 → CoinsFit coins
  enough : total (addedCoins E w coinControl nTargetValue vCoins) < 2 ^ 63 → TargetFits coinControl nTarget →
    nTarget ≤ total coins
  short : total (addedCoins E w coinControl nTargetValue vCoins) < 2 ^ 63 → ¬TargetFits coinControl nTarget →
    total coins < nTarget

section Selects

variable {coinControl : Option CCoinControl} {vCoins : List COutput} {nTargetValue : CAmount} {nTarget : Int}

/-- The values of the coins that are offered are positive amounts. -/
def Valued (E : SendEnv) (w : SendWallet) (vCoins : List COutput) : Prop :=
  ∀ output ∈ vCoins, 0 ≤ ((coinView E w).nValue output.coin).toInt ∧
    ((coinView E w).nValue output.coin).toInt ≤ maxMoney

theorem availableCoins_valued (hw : Kept E w) (h : availableCoins E w true coinControl = some vCoins) :
    Valued E w vCoins := by
  intro output houtput
  rcases (availableCoins_spec hw h).2 output houtput with ⟨wtx, txout, havailable, -⟩
  rw [havailable.nValue]
  exact ⟨havailable.positive.le, havailable.le_maxMoney hw⟩

theorem Valued.nonneg (h : Valued E w vCoins) {coins : List ValuedCoin}
    (hsub : coins.Subperm (spendableCoins E w vCoins)) : ∀ coin ∈ coins, 0 ≤ coin.amount := by
  intro coin hcoin
  rcases List.mem_map.1 (hsub.subset hcoin) with ⟨output, houtput, rfl⟩
  exact (h output (List.mem_of_mem_filter houtput)).1

theorem Valued.added_fit (h : Valued E w vCoins)
    (hfits : total (addedCoins E w coinControl nTargetValue vCoins) < 2 ^ 63) :
    CoinsFit (addedCoins E w coinControl nTargetValue vCoins) := by
  refine ⟨h.nonneg (List.Sublist.subperm ?_), hfits⟩
  rw [addedCoins]
  split_ifs
  · exact List.Sublist.refl _
  · exact List.filter_sublist

/-- The coins that are selected by hand. -/
theorem selects_byHand (hvalued : Valued E w vCoins) (hhand : byHand coinControl = true)
    (hexact : nTarget < 2 ^ 63 → nTargetValue.toInt = nTarget)
    (htrue : (selectAll E w nTargetValue vCoins).1 = true) :
    Selects E w coinControl nTarget nTargetValue vCoins (selectAll E w nTargetValue vCoins).2
      (spendableCoins E w vCoins) := by
  have hadded : addedCoins E w coinControl nTargetValue vCoins = spendableCoins E w vCoins := if_pos hhand
  have htarget : TargetFits coinControl nTarget ↔ nTarget < 2 ^ 63 := by rw [TargetFits, if_pos hhand]
  have hfit : total (addedCoins E w coinControl nTargetValue vCoins) < 2 ^ 63 →
      CoinsFit (spendableCoins E w vCoins) := by
    intro hfits
    rw [← hadded]
    exact hvalued.added_fit hfits
  refine ⟨rfl, List.Subperm.refl _, hfit, fun hfits hlt => ?_, fun hfits hnot => ?_⟩
  · rw [← hexact (htarget.1 hlt), ← CoinSet.addAll_total (hfit hfits)]
    exact Int64.le_iff_toInt_le.1 (of_decide_eq_true htrue)
  · exact (hfit hfits).total.trans_le (not_lt.1 fun hlt => hnot (htarget.2 hlt))

theorem eligibleCoins_sublist (nConfMine nConfTheirs : Int) :
    (eligibleCoins (coinView E w) nConfMine nConfTheirs vCoins).Sublist (spendableCoins E w vCoins) := by
  apply List.Sublist.map
  apply List.monotone_filter_right
  intro output heligible
  rw [isEligible, Bool.and_eq_true] at heligible
  exact heligible.1

/-- A target that does not fit makes every coin a larger one. -/
theorem lowerCoins_eq_nil (hvalued : Valued E w vCoins) {nConfMine nConfTheirs : Int}
    (hwrap : (nTargetValue + cent).toInt ≤ 0) :
    lowerCoins (coinView E w) nTargetValue nConfMine nConfTheirs vCoins = [] := by
  apply List.filter_eq_nil_iff.2
  intro coin hcoin hlower
  have hnonneg := hvalued.nonneg (eligibleCoins_sublist nConfMine nConfTheirs).subperm coin hcoin
  have hlt := Int64.lt_iff_toInt_lt.1 (of_decide_eq_true hlower)
  exact absurd (hnonneg.trans_lt hlt) hwrap.not_gt

/-- What `SelectCoinsMinConf` chooses. -/
theorem selects_of_chosen (hvalued : Valued E w vCoins) (hhand : byHand coinControl = false) (hnonneg : 0 ≤ nTarget)
    (hexact : nTarget < 2 ^ 63 → nTargetValue.toInt = nTarget) {nConfMine nConfTheirs : Int} {ret : CoinSet}
    {coins : List ValuedCoin} (h : Chosen (coinView E w) nTargetValue nConfMine nConfTheirs vCoins ret coins) :
    Selects E w coinControl nTarget nTargetValue vCoins ret coins := by
  have hcent : cent.toInt = 1000000 := rfl
  have hmoney : maxMoney = 1000000000000000000 := rfl
  have hno : ¬byHand coinControl = true := by rw [hhand]; exact Bool.false_ne_true
  have htarget : TargetFits coinControl nTarget ↔ nTarget + cent.toInt < 2 ^ 63 := by rw [TargetFits, if_neg hno]
  have hlower : total (addedCoins E w coinControl nTargetValue vCoins) < 2 ^ 63 →
      CoinsFit (lowerCoins (coinView E w) nTargetValue nConfMine nConfTheirs vCoins) := by
    intro hfits
    apply (hvalued.added_fit hfits).sublist
    rw [addedCoins, if_neg hno]
    exact (eligibleCoins_sublist nConfMine nConfTheirs).filter _
  have hfit : total (addedCoins E w coinControl nTargetValue vCoins) < 2 ^ 63 → CoinsFit coins :=
    fun hfits => h.fit (fun output houtput => (hvalued output houtput).1) (hlower hfits)
  refine ⟨h.set, h.subperm.trans (eligibleCoins_sublist nConfMine nConfTheirs).subperm, hfit, fun hfits hin => ?_,
    fun hfits hnot => ?_⟩
  · have hlt := htarget.1 hin
    have hvalue := hexact (by omega)
    rw [← hvalue] at hlt ⊢
    exact h.reaches (hlower hfits) hlt
  · have hge : 2 ^ 63 ≤ nTarget + cent.toInt := not_lt.1 fun hlt => hnot (htarget.2 hlt)
    by_cases hlarge : nTarget < 2 ^ 63
    · -- The sum with `CENT` is negative, so at most one coin is taken, and one coin is not enough.
      have hvalue := hexact hlarge
      have hsum : (nTargetValue + cent).toInt = (nTargetValue.toInt + cent.toInt).bmod (2 ^ 64) :=
        Int64.toInt_add nTargetValue cent
      have hwrap : (nTargetValue + cent).toInt ≤ 0 := by
        rw [hsum, hvalue, Int.bmod_def]
        split_ifs <;> omega
      rcases h.origin with ⟨coin, hcoin, rfl⟩ | hsub
      · rcases List.mem_map.1 hcoin with ⟨output, houtput, rfl⟩
        have hle := (hvalued output (List.mem_of_mem_filter houtput)).2
        have hamount : ((coinView E w).valued output).1.toInt ≤ maxMoney := hle
        rw [total_singleton]
        omega
      · rw [lowerCoins_eq_nil hvalued hwrap, List.subperm_nil] at hsub
        have hzero : total coins = 0 := by rw [hsub]; rfl
        omega
    · exact (hfit hfits).total.trans_le (not_lt.1 hlarge)

/-- `SelectCoins`, when it finds coins. -/
theorem selectCoins_spec (hw : Kept E w) (hnonneg : 0 ≤ nTarget)
    (hexact : nTarget < 2 ^ 63 → nTargetValue.toInt = nTarget) {draws : PassDraws} {ret : CoinSet}
    (h : selectCoins E w draws nTargetValue coinControl = some (true, ret)) :
    ∃ vCoins coins, availableCoins E w true coinControl = some vCoins ∧
      Selects E w coinControl nTarget nTargetValue vCoins ret coins := by
  rcases Option.map_eq_some_iff.1 h with ⟨vCoins, havailable, hselect⟩
  have hvalued := availableCoins_valued hw havailable
  by_cases hhand : byHand coinControl = true
  · rw [if_pos hhand] at hselect
    have hselects := selects_byHand hvalued hhand hexact (congrArg Prod.fst hselect)
    rw [hselect] at hselects
    exact ⟨vCoins, _, havailable, hselects⟩
  rw [if_neg hhand] at hselect
  have hhand' : byHand coinControl = false := Bool.not_eq_true _ ▸ hhand
  -- One of the three calls has returned true.
  have hcall : ∀ k nConfMine nConfTheirs,
      selectCoinsMinConf (coinView E w) (draws.select k) nTargetValue nConfMine nConfTheirs vCoins = (true, ret) →
      ∃ vCoins coins, availableCoins E w true coinControl = some vCoins ∧
        Selects E w coinControl nTarget nTargetValue vCoins ret coins := by
    intro k nConfMine nConfTheirs hcall
    rcases selectCoinsMinConf_chosen (congrArg Prod.fst hcall) with ⟨coins, hchosen⟩
    rw [hcall] at hchosen
    exact ⟨vCoins, coins, havailable, selects_of_chosen hvalued hhand' hnonneg hexact hchosen⟩
  rw [selectConfirmed] at hselect
  dsimp only at hselect
  split_ifs at hselect with hfirst hsecond hzeroConf
  · exact hcall 0 1 6 hselect
  · exact hcall 1 1 1 hselect
  · exact hcall 2 0 1 hselect
  · rw [hselect] at hsecond
    exact absurd rfl hsecond

end Selects

/-! ## The balance -/

/-- What the recipients are to get. -/
def sent (R : SendRequest) : Int :=
  (R.outputs.map fun txout => txout.nValue.toInt).sum

def valueOut (vout : List CTxOut) : Int :=
  (vout.map fun txout => txout.nValue.toInt).sum

section Balance

variable {nChange : CAmount} {s s' : PassState} {vout : List CTxOut}

theorem valueOut_insertIdx {nPos : Nat} (hle : nPos ≤ R.outputs.length) (change : CTxOut) :
    valueOut (R.outputs.insertIdx nPos change) = change.nValue.toInt + sent R := by
  have hperm := List.perm_insertIdx change R.outputs hle
  rw [valueOut, (hperm.map _).sum_eq, List.map_cons, List.sum_cons]
  rfl

/-- All of the change is in the outputs or in the fee. -/
theorem Changed.balance (h : Changed E R nChange s vout s') (hnonneg : 0 ≤ nChange.toInt) (hfee : 0 ≤ s.nFeeRet.toInt)
    (hlt : s.nFeeRet.toInt + nChange.toInt < 2 ^ 63) :
    valueOut vout + s'.nFeeRet.toInt = sent R + s.nFeeRet.toInt + nChange.toInt := by
  cases h with
  | none _ hle hsame _ =>
    have hzero : nChange.toInt = 0 := le_antisymm hle hnonneg
    rw [hsame, hzero, add_zero]
    rfl
  | toFee _ _ _ hadd _ =>
    rw [hadd, Int64Bounds.toInt_add (by omega) hlt, ← add_assoc]
    rfl
  | output _ _ _ _ _ hsame hle =>
    rw [valueOut_insertIdx hle, hsame]
    ring

/-- With or without change, the recipients get what they are to get, and the fee does not fall. -/
theorem Changed.le_balance (h : Changed E R nChange s vout s') (hs : Ready E w R s) :
    sent R + s.nFeeRet.toInt ≤ valueOut vout + s'.nFeeRet.toInt := by
  have hfee := h.fee_le hs.nonneg hs.max
  cases h with
  | none _ _ _ _ => exact Int.add_le_add_left hfee _
  | toFee _ _ _ _ _ => exact Int.add_le_add_left hfee _
  | output _ _ _ hpos _ _ hle =>
    rw [valueOut_insertIdx hle]
    dsimp only
    omega

/-- The recipients' outputs stand in their order, with at most one more. -/
theorem Changed.outputs (h : Changed E R nChange s vout s') :
    (vout = R.outputs ∧ s'.reservekey.nIndex = -1) ∨ ∃ nPos change, nPos ≤ R.outputs.length ∧
      change.isDust E.fees.minRelayTxFee = false ∧ vout = R.outputs.insertIdx nPos change := by
  cases h with
  | none _ _ _ hback => exact Or.inl ⟨rfl, hback⟩
  | toFee _ _ _ _ hback => exact Or.inl ⟨rfl, hback⟩
  | output _ scriptPubKey nPos _ hdust _ hle => exact Or.inr ⟨nPos, ⟨nChange, scriptPubKey⟩, hle, hdust, rfl⟩

end Balance

/-- The inputs are worth the outputs and the fee. -/
def Conserves (w : SendWallet) (created : Created) : Prop :=
  (created.tx.vin.map w.prevValue).sum = valueOut created.tx.vout + created.nFeeRet.toInt

/-- What the transaction is apart from that; `s` is the state before the last repetition. -/
structure Proper (E : SendEnv) (w : SendWallet) (R : SendRequest) (s : PassState) (created : Created) : Prop where
  distinct : (created.tx.vin.map CTxIn.prevout).Nodup
  inputs : ∀ txin ∈ created.tx.vin, ∃ wtx txout, Available E (w.withKeys s.keys) R.coinControl txin.prevout wtx txout ∧
    mine E.toWalletEnv (w.withKeys s.keys).toWalletNode txout ismineSpendable = true
  fee : 0 ≤ created.nFeeRet.toInt
  outputs : created.tx.vout = R.outputs ∨
    ∃ nPos change, nPos ≤ R.outputs.length ∧ created.tx.vout = R.outputs.insertIdx nPos change
  dust : ∀ txout ∈ created.tx.vout, txout.isDust E.fees.minRelayTxFee = false
  size : created.tx.serializeSize < maxStandardTxSize
  pays : sendsFree E (created.tx.vin.map CTxIn.prevout) created.tx = true ∨
    E.fees.getMinimumFee E.estimateFee created.tx.serializeSize ≤ created.nFeeRet
  reserved : created.tx.vout = R.outputs → created.reservekey.nIndex = -1 ∧
    ∀ nIndex, nIndex ≠ -1 → HasKey w.keys R.reservekey nIndex → nIndex ∈ created.keys.setKeyPool

/-- The coins that are added up fit in 64 bits. -/
def SumsFit (E : SendEnv) (w : SendWallet) (R : SendRequest) (nValue : CAmount) (s : PassState) : Prop :=
  ∀ vCoins, availableCoins E (w.withKeys s.keys) true R.coinControl = some vCoins →
    total (addedCoins E (w.withKeys s.keys) R.coinControl (nValue + s.nFeeRet) vCoins) < 2 ^ 63

section Done

variable {nValue : CAmount} {s s' : PassState} {ret : CoinSet} {tx : CTransaction} {vCoins : List COutput}
  {coins : List ValuedCoin} {nTarget : Int}

/-- The inputs are the coins of the set, in some order. -/
theorem Pass.prevouts_eq (hw : Kept E w) (hpass : Pass E w R nValue s ret tx s')
    (havailable : availableCoins E (w.withKeys s.keys) true R.coinControl = some vCoins)
    (hselects : Selects E (w.withKeys s.keys) R.coinControl nTarget (nValue + s.nFeeRet) vCoins ret coins) :
    tx.vin.map CTxIn.prevout = (E.draws s.nPass).order ret.setCoinsRet ∧ ret.setCoinsRet.Nodup ∧
      (∀ coin ∈ ret.setCoinsRet, ∃ wtx txout, Available E (w.withKeys s.keys) R.coinControl coin wtx txout ∧
        mine E.toWalletEnv (w.withKeys s.keys).toWalletNode txout ismineSpendable = true) := by
  rcases availableCoins_spec (hw.withKeys s.keys) havailable with ⟨hdistinct, hspec⟩
  rcases addAll_distinct (hdistinct.sublist (List.filter_sublist.map _)) hselects.spendable with ⟨hnodup, hmem⟩
  rw [← hselects.set] at hnodup hmem
  have hcoins : ∀ coin ∈ ret.setCoinsRet, ∃ wtx txout,
      Available E (w.withKeys s.keys) R.coinControl coin wtx txout ∧
        mine E.toWalletEnv (w.withKeys s.keys).toWalletNode txout ismineSpendable = true := by
    intro coin hcoin
    rcases hmem coin hcoin with ⟨output, houtput, rfl⟩
    rcases List.mem_filter.1 houtput with ⟨houtput', hspendable⟩
    rcases hspec output houtput' with ⟨wtx, txout, hof, hmine⟩
    exact ⟨wtx, txout, hof, hmine ▸ hspendable⟩
  refine ⟨?_, hnodup, hcoins⟩
  calc tx.vin.map CTxIn.prevout
      = ((E.draws s.nPass).order ret.setCoinsRet).map fun coin => ⟨coinHash E w coin, coin.n⟩ := hpass.prevouts
    _ = ((E.draws s.nPass).order ret.setCoinsRet).map id := by
        apply List.map_congr_left
        intro coin hcoin
        rcases hcoins coin (((E.draws s.nPass).order_perm ret.setCoinsRet).subset hcoin) with ⟨wtx, txout, hof, -⟩
        have hheld : w.mapWallet.lookup coin.hash = some wtx := hof.held
        have hhash : coinHash E w coin = coin.hash := by
          rw [coinHash, hheld]
          exact hw.keyed coin.hash wtx hheld
        rw [hhash]
        rfl
    _ = (E.draws s.nPass).order ret.setCoinsRet := List.map_id _

/-- What an input is worth, by the coin that it spends. -/
theorem prevValue_eq (keys : CWallet) (txin : CTxIn) :
    w.prevValue txin = ((coinView E (w.withKeys keys)).nValue txin.prevout).toInt := by
  have hprev : (w.withKeys keys).prevOut ⟨txin.prevout, [], 0⟩ = w.prevOut txin := rfl
  rw [prevValue, coinView]
  dsimp only
  rw [hprev]
  rcases w.prevOut txin with _ | txout
  · rfl
  · rfl

/-- The inputs are worth as much as the coins that have been selected. -/
theorem Pass.valueIn (hw : Kept E w) (hpass : Pass E w R nValue s ret tx s')
    (havailable : availableCoins E (w.withKeys s.keys) true R.coinControl = some vCoins)
    (hselects : Selects E (w.withKeys s.keys) R.coinControl nTarget (nValue + s.nFeeRet) vCoins ret coins) :
    (tx.vin.map w.prevValue).sum = total coins := by
  have hdistinct := (availableCoins_spec (hw.withKeys s.keys) havailable).1
  have hsum := addAll_sum (hdistinct.sublist (List.filter_sublist.map _)) hselects.spendable
  rw [← hselects.set] at hsum
  have hprevouts := (hpass.prevouts_eq hw havailable hselects).1
  have hvalues : tx.vin.map w.prevValue =
      (tx.vin.map CTxIn.prevout).map fun coin => ((coinView E (w.withKeys s.keys)).nValue coin).toInt := by
    rw [List.map_map]
    exact List.map_congr_left fun txin _ => prevValue_eq s.keys txin
  rw [hvalues, hprevouts, (((E.draws s.nPass).order_perm ret.setCoinsRet).map _).sum_eq, hsum]

/-- The value is conserved if and only if the target fits. -/
theorem Pass.conserves_iff (hw : Kept E w) (hs : Ready E w R s) (hpass : Pass E w R nValue s ret tx s')
    (hvalue : 0 ≤ nValue.toInt) (hsent : nValue.toInt = sent R) (hfits : SumsFit E w R nValue s)
    (havailable : availableCoins E (w.withKeys s.keys) true R.coinControl = some vCoins)
    (hselects : Selects E (w.withKeys s.keys) R.coinControl (sent R + s.nFeeRet.toInt) (nValue + s.nFeeRet) vCoins ret
      coins) :
    (tx.vin.map w.prevValue).sum = valueOut tx.vout + s'.nFeeRet.toInt ↔
      TargetFits R.coinControl (sent R + s.nFeeRet.toInt) := by
  rw [hpass.valueIn hw havailable hselects]
  have hadded := hfits vCoins havailable
  have hfee := hs.nonneg
  constructor
  · intro heq
    by_contra hnot
    have hshort := hselects.short hadded hnot
    have hle := hpass.changed.le_balance hs
    omega
  · intro hin
    have hcoins := hselects.fit hadded
    have hlt := hcoins.total
    have henough := hselects.enough hadded hin
    have hret : ret.nValueRet.toInt = total coins := by
      rw [hselects.set]
      exact CoinSet.addAll_total hcoins
    have hless : (ret.nValueRet - nValue).toInt = total coins - sent R := by
      rw [Int64Bounds.toInt_sub (by omega) (by omega), hret, hsent]
    have hchange : (ret.nValueRet - nValue - s.nFeeRet).toInt = total coins - sent R - s.nFeeRet.toInt := by
      rw [Int64Bounds.toInt_sub (by omega) (by omega), hless]
    have hbalance := hpass.changed.balance (by omega) hfee (by omega)
    omega

end Done

/-- Everything that holds when `CreateTransaction` returns true. -/
theorem createPass_done (hw : Kept E w) (hrange : ∀ r ∈ R.vecSend, moneyRange r.2.toInt) {nValue : CAmount}
    (hvalue : R.nValue = some nValue) {s : PassState} (hs : Ready E w R s) {created : Created}
    (h : createPass E w R nValue s = .done created) :
    Proper E w R s created ∧ (SumsFit E w R nValue s →
      (Conserves w created ↔ TargetFits R.coinControl (sent R + s.nFeeRet.toInt))) := by
  rcases SendRequest.nValue_eq hrange hvalue with ⟨hpos, hsent⟩
  rcases createPass_cases (E := E) (w := w) (R := R) nValue s with ⟨error, hstop⟩ | ⟨ret, tx, s', hpass, hcheck⟩
  · rw [hstop] at h
    cases h
  rcases checkFee_cases (E := E) ((E.draws s.nPass).order ret.setCoinsRet) tx s' with
    ⟨error, hstop⟩ | ⟨hdone, hsize, hpays⟩ | ⟨hagain, -⟩
  · rw [hcheck, hstop] at h
    cases h
  · rw [hcheck, hdone] at h
    obtain rfl := PassOutcome.done.inj h
    have hfee := hs.nonneg
    have hexact : sent R + s.nFeeRet.toInt < 2 ^ 63 → (nValue + s.nFeeRet).toInt = sent R + s.nFeeRet.toInt := by
      intro hlt
      rw [Int64Bounds.toInt_add, hsent]
      · rfl
      · omega
      · rw [hsent]
        exact hlt
    have hnonneg : 0 ≤ sent R + s.nFeeRet.toInt := by
      have hsent' : nValue.toInt = sent R := hsent
      omega
    rcases selectCoins_spec (hw.withKeys s.keys) hnonneg hexact hpass.selected with
      ⟨vCoins, coins, havailable, hselects⟩
    rcases hpass.prevouts_eq hw havailable hselects with ⟨hprevouts, hnodup, hcoins⟩
    have horder := (E.draws s.nPass).order_perm ret.setCoinsRet
    refine ⟨⟨?_, fun txin htxin => ?_, hfee.trans (hpass.changed.fee_le hs.nonneg hs.max), ?_, ?_, hsize, ?_, ?_⟩,
      fun hfits => hpass.conserves_iff hw hs hpos hsent hfits havailable hselects⟩
    · rw [hprevouts]
      exact horder.nodup_iff.2 hnodup
    · have hmem : txin.prevout ∈ (E.draws s.nPass).order ret.setCoinsRet := by
        rw [← hprevouts]
        exact List.mem_map_of_mem htxin
      exact hcoins txin.prevout (horder.subset hmem)
    · rcases hpass.changed.outputs with ⟨hsame, -⟩ | ⟨nPos, change, hle, -, hinsert⟩
      · exact Or.inl hsame
      · exact Or.inr ⟨nPos, change, hle, hinsert⟩
    · intro txout htxout
      rcases hpass.changed.outputs with ⟨hsame, -⟩ | ⟨nPos, change, hle, hdust, hinsert⟩
      · exact hpass.outputs txout (hsame ▸ htxout)
      · have htxout' : txout ∈ R.outputs.insertIdx nPos change := hinsert ▸ htxout
        rcases (List.mem_insertIdx hle).1 htxout' with rfl | hmem
        · exact hdust
        · exact hpass.outputs txout hmem
    · dsimp only
      rw [hprevouts]
      exact hpays
    · intro hsame
      rcases hpass.changed.outputs with ⟨-, hback⟩ | ⟨nPos, change, hle, -, hinsert⟩
      · refine ⟨hback, fun nIndex hne hkey => ?_⟩
        rcases hpass.keys nIndex hne (hs.keys nIndex hne hkey) with hpool | hreserved
        · exact hpool
        · exact absurd (hreserved.symm.trans hback) hne
      · -- One more output is one more.
        have hlength := congrArg List.length (hsame.symm.trans hinsert)
        rw [List.length_insertIdx_of_le_length hle] at hlength
        exact absurd hlength (Nat.lt_succ_self _).ne
  · rw [hcheck, hagain] at h
    cases h

/-- `CreateTransaction` returns, after repetitions whose fees rise; and what it returns is right, apart from the
balance, which is right if and only if the target of the last repetition fits. -/
theorem createTransaction_conserves_iff (hw : Kept E w) (hrange : ∀ r ∈ R.vecSend, moneyRange r.2.toInt) :
    (∃ result, createTransaction E w R = some result) ∧
      (∀ nValue s s', Passes E w R nValue s → createPass E w R nValue s = .again s' →
        s.nFeeRet.toInt < s'.nFeeRet.toInt ∧ s'.nFeeRet.toInt ≤ E.fees.maxTxFee.toInt) ∧
      ∀ created, createTransaction E w R = some (.ok created) →
        ∃ nValue s, R.nValue = some nValue ∧ Passes E w R nValue s ∧ createPass E w R nValue s = .done created ∧
          Proper E w R s created ∧ (SumsFit E w R nValue s →
            (Conserves w created ↔ TargetFits R.coinControl (sent R + s.nFeeRet.toInt))) := by
  refine ⟨createTransaction_returns E w R, fun nValue s s' hpasses hagain => ?_, fun created hok => ?_⟩
  · rcases createPass_again hpasses.ready hagain with ⟨hready, hlt⟩
    exact ⟨hlt, hready.max⟩
  · rcases createTransaction_ok hok with ⟨nValue, s, hvalue, hpasses, hdone⟩
    exact ⟨nValue, s, hvalue, hpasses, hdone, createPass_done hw hrange hvalue hpasses.ready hdone⟩

/-! ## A wallet with one coin -/

/-- The smallest fee that is not zero. -/
def lowFees : FeeSettings where
  payTxFee := ⟨0⟩
  fPayAtLeastCustomFee := true
  minTxFee := ⟨1⟩
  minRelayTxFee := ⟨1⟩
  maxTxFee := 10000000
  fSendFreeTransactions := false
  relay_range := by decide
  max_range := by decide

def sendEnv : SendEnv where
  toBalanceEnv := AccountWallet.balanceEnv
  fees := lowFees
  estimateFee := ⟨0⟩
  enoughPriority _ _ := false
  signSignature _ _ _ _ := some []
  topUpKeyPool _ keys := some keys
  topUpKeyPool_keeps := fun _ _ _ h _ hmem => Option.some.inj h ▸ hmem
  draws _ :=
    { select := fun _ => plainDraws
      order := id
      order_perm := List.Perm.refl
      getRandInt := fun _ => 0
      getRandInt_lt := fun _ h => h }

/-- The wallet has one coin of `40` that is not spent. -/
def oneCoin : SendWallet where
  toWalletNode := selfPaid
  setLockedCoins := []

theorem oneCoin_kept : Kept sendEnv oneCoin :=
  ⟨selfPaid_wellKept.keyed, selfPaid_wellKept.sizes, selfPaid_wellKept.checked⟩

/-- The coin is selected by hand; `30` is paid and the rest is change. -/
def payThirty : SendRequest where
  vecSend := [([0x51], 30)]
  reservekey := ⟨-1, []⟩
  coinControl := some ⟨.keyID 5, [⟨6, 0⟩]⟩

/-- Ten amounts that are almost `2^63` together. -/
def payTen : SendRequest where
  vecSend := ([0x51], 223372036854770807) :: List.replicate 9 ([0x51], 1000000000000000000)
  reservekey := ⟨-1, []⟩
  coinControl := none

/-- What is created, when something is. -/
def createdWith (p : Created → Bool) : Option (Except SendError Created) → Bool
  | some (.ok created) => p created
  | _ => false

theorem exists_of_createdWith {p : Created → Bool} {result : Option (Except SendError Created)}
    (h : createdWith p result = true) : ∃ created, result = some (.ok created) ∧ p created = true := by
  rcases result with _ | error | created
  · cases h
  · cases h
  · exact ⟨created, rfl, h⟩

theorem createTransaction_conserves_iff_payThirty : ∃ created nValue s,
    createTransaction sendEnv oneCoin payThirty = some (.ok created) ∧
      Passes sendEnv oneCoin payThirty nValue s ∧ Proper sendEnv oneCoin payThirty s created ∧
      (SumsFit sendEnv oneCoin payThirty nValue s →
        (Conserves oneCoin created ↔ TargetFits payThirty.coinControl (sent payThirty + s.nFeeRet.toInt))) := by
  have hany : createdWith (fun _ => true) (createTransaction sendEnv oneCoin payThirty) = true := by decide
  rcases exists_of_createdWith hany with ⟨created, hok, -⟩
  rcases (createTransaction_conserves_iff oneCoin_kept (by decide)).2.2 created hok with
    ⟨nValue, s, -, hpasses, -, hproper, hconserves⟩
  exact ⟨created, nValue, s, hok, hpasses, hproper, hconserves⟩

set_option maxRecDepth 20000 in
/-- The amount and `CENT` are more than `2^63`: the one coin of `40` is taken for all of it. -/
theorem createTransaction_overspends :
    Kept sendEnv oneCoin ∧ (∀ r ∈ payTen.vecSend, moneyRange r.2.toInt) ∧
      ∃ created, createTransaction sendEnv oneCoin payTen = some (.ok created) ∧
        (created.tx.vin.map oneCoin.prevValue).sum = 40 ∧ valueOut created.tx.vout = 9223372036854770807 ∧
        ¬Conserves oneCoin created := by
  have hany : createdWith (fun created => decide ((created.tx.vin.map oneCoin.prevValue).sum = 40 ∧
      valueOut created.tx.vout = 9223372036854770807 ∧ 0 ≤ created.nFeeRet.toInt))
      (createTransaction sendEnv oneCoin payTen) = true := by decide
  rcases exists_of_createdWith hany with ⟨created, hok, hvalues⟩
  rcases of_decide_eq_true hvalues with ⟨hin, hout, hfee⟩
  refine ⟨oneCoin_kept, by decide, created, hok, hin, hout, fun hconserves => ?_⟩
  rw [Conserves, hin, hout] at hconserves
  omega

end SendWallet

end Dobbscoin
