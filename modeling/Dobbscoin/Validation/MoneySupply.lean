import Dobbscoin.Validation.TxMoney
import Dobbscoin.Validation.Undo

/-!
# No money from nothing

`supply + nFees` does not grow while the transactions of a block are connected, apart from what the
coinbase pays, and the coinbase pays no more than the fees and the subsidy.
-/

namespace Dobbscoin

open Guard

variable {V : ValidationEnv} {m : BlockMap} {rules : ConnectRules}

/-- What the loop over the transactions keeps. -/
structure MoneyInv (total : Int) (s : ConnectState) : Prop where
  inRange : s.view.InRange
  fees : 0 ≤ s.nFees
  total : s.view.supply + s.nFees ≤ total

namespace MoneyInv

variable {total : Int} {s s' : ConnectState} {tx : CTransaction}

theorem supply_le (h : MoneyInv total s) : s.view.supply ≤ total := by
  have := h.fees
  have := h.total
  omega

theorem fees_le (h : MoneyInv total s) : s.nFees ≤ total := by
  have := h.inRange.supply_nonneg
  have := h.total
  omega

theorem coinbase {undo : CTxUndo} (h : MoneyInv total s) (hcb : tx.isCoinBase = true)
    (htx : tx.Checked) (hok : connectTx V m rules s tx = .ok (s', undo)) :
    MoneyInv (total + tx.valueOut) s' := by
  have hstep := connectTx_ok hok
  have hfees : s'.nFees = s.nFees := by simpa [hcb] using hstep.fees
  rcases updateCoins_supply h.inRange htx hstep.inputs hstep.updated with ⟨hrange, hsupply⟩
  have htotal := h.total
  simp only [hcb, if_true] at hsupply
  refine ⟨hrange, hfees ▸ h.fees, ?_⟩
  rw [hfees]
  omega

/-- `connectTx` makes the checks of `CheckInputs`. -/
theorem pays {undo : CTxUndo} (hcb : tx.isCoinBase = false)
    (hok : connectTx V m rules s tx = .ok (s', undo)) : tx.valueOut ≤ s.view.valueIn tx.vin := by
  simp only [connectTx, hcb, Bool.false_eq_true, if_false, bind_eq_ok, exists_unit] at hok
  rcases hok with ⟨-, -, nP2SH, -, -, nValueIn, -, nValueOut, -, nFee, -, nFees, -, checks, hchecks, -⟩
  exact checkInputs_pays hcb hchecks

theorem getValueIn_eq (h : MoneyInv total s) (hcb : tx.isCoinBase = false)
    (hinputs : s.view.haveInputs tx = true) (htx : tx.Checked) (hfit : total < 2 ^ 63) :
    s.view.getValueIn tx = .ok (s.view.valueIn tx.vin) ∧ s.view.valueIn tx.vin ≤ s.view.supply := by
  have havail := s.view.available_of_haveInputs hcb hinputs
  have hle := h.inRange.valueIn_le havail htx.nodup
  have hsupply := h.supply_le
  refine ⟨?_, hle⟩
  simp only [CoinsView.getValueIn, hcb, Bool.false_eq_true, if_false]
  rw [addValuesIn_eq h.inRange havail (le_refl 0) (by omega), zero_add]

/-- **Step.** What a transaction takes out of the coins it puts into the coins or the fees. -/
theorem other {undo : CTxUndo} (h : MoneyInv total s) (hcb : tx.isCoinBase = false)
    (htx : tx.Checked) (hok : connectTx V m rules s tx = .ok (s', undo)) : MoneyInv total s' := by
  have hstep := connectTx_ok hok
  have hpays := pays hcb hok
  have hfees := hstep.fees
  simp only [hcb, Bool.false_eq_true, if_false] at hfees
  rcases hfees with ⟨nValueIn, nValueOut, hin, hout, hfees⟩
  rw [getValueIn_ok hcb hin, getValueOut_ok hout] at hfees
  rcases updateCoins_supply h.inRange htx hstep.inputs hstep.updated with ⟨hrange, hsupply⟩
  simp only [hcb, Bool.false_eq_true, if_false] at hsupply
  have hfees0 := h.fees
  have htotal := h.total
  exact ⟨hrange, by omega, by omega⟩

/-- No sum of a transaction overflows; the fee is added before `CheckInputs` has looked at it. -/
theorem connectTx_ne_overflow (h : MoneyInv total s) (htx : tx.Checked) (hfit : total < 2 ^ 63) :
    connectTx V m rules s tx ≠ .error .overflow := by
  unfold connectTx
  apply bind_ne_error (rejectIf_ne_error (by simp))
  intro _ _
  by_cases hcb : tx.isCoinBase = true
  · rw [if_pos hcb]
    apply bind_ne_error (updateCoins_ne_overflow tx s.view)
    exact fun _ _ hc => by cases hc
  rw [if_neg hcb]
  have hcb' : tx.isCoinBase = false := by simpa using hcb
  apply bind_ne_error (rejectIf_ne_error (by simp))
  intro _ hinputs
  rcases h.getValueIn_eq hcb' (by simpa using hinputs) htx hfit with ⟨hin, hle⟩
  apply bind_ne_error
  · split_ifs
    · exact getP2SHSigOpCount_ne_overflow tx s.view
    · exact fun hc => by cases hc
  intro nP2SH _
  apply bind_ne_error (rejectIf_ne_error (by simp))
  intro _ _
  rw [hin]
  apply bind_ne_error (by simp)
  intro nValueIn hnValueIn
  obtain rfl := Except.ok.inj hnValueIn
  apply bind_ne_error htx.getValueOut_ne_overflow
  intro nValueOut hout
  obtain rfl := getValueOut_ok hout
  -- A fee that turns out negative is still far from the lower end of the range.
  have hmax : maxMoney = 1000000000000000000 := rfl
  have hout0 := htx.valueOut.1
  have houtMax := htx.valueOut.2
  have hin0 := h.inRange.valueIn_nonneg tx.vin
  have hfees0 := h.fees
  have htotal := h.total
  have hsupply0 := h.inRange.supply_nonneg
  apply bind_ne_error
  · rw [fits64, if_pos ⟨by omega, by omega⟩]
    simp
  intro nFee hFee
  obtain ⟨-, rfl⟩ := fits64_eq_ok.1 hFee
  apply bind_ne_error
  · rw [fits64, if_pos ⟨by omega, by omega⟩]
    simp
  intro nFees _
  apply bind_ne_error (checkInputs_ne_overflow h.inRange htx (by omega))
  intro vChecks _
  apply bind_ne_error (updateCoins_ne_overflow tx s.view)
  exact fun _ _ hc => by cases hc

/-- The record that is kept does not matter. -/
theorem record (h : MoneyInv total s) (undos : List CTxUndo) :
    MoneyInv total { s with vtxundo := undos } :=
  ⟨h.inRange, h.fees, h.total⟩

/-- **Run.** The transactions after the coinbase. -/
theorem others {txs : List CTransaction} (h : MoneyInv total s)
    (hcb : ∀ t ∈ txs, t.isCoinBase = false) (htx : ∀ t ∈ txs, t.Checked)
    (hok : connectTxs V m rules s txs = .ok s') : MoneyInv total s' := by
  induction txs generalizing s with
  | nil =>
    obtain rfl := Except.ok.inj hok
    exact h
  | cons tx rest ih =>
    simp only [connectTxs, bind_eq_ok, Prod.exists] at hok
    rcases hok with ⟨s₁, undo, hstep, hrun⟩
    have hnext := h.other (hcb tx List.mem_cons_self) (htx tx List.mem_cons_self) hstep
    exact ih (hnext.record _) (fun t ht => hcb t (List.mem_cons_of_mem _ ht))
      (fun t ht => htx t (List.mem_cons_of_mem _ ht)) hrun

theorem others_ne_overflow {txs : List CTransaction} (h : MoneyInv total s)
    (hcb : ∀ t ∈ txs, t.isCoinBase = false) (htx : ∀ t ∈ txs, t.Checked) (hfit : total < 2 ^ 63) :
    connectTxs V m rules s txs ≠ .error .overflow := by
  induction txs generalizing s with
  | nil => simp [connectTxs]
  | cons tx rest ih =>
    have htx₀ := htx tx List.mem_cons_self
    apply bind_ne_error (h.connectTx_ne_overflow htx₀ hfit)
    intro r hstep
    have hnext := h.other (hcb tx List.mem_cons_self) htx₀ hstep
    exact ih (hnext.record _) (fun t ht => hcb t (List.mem_cons_of_mem _ ht))
      (fun t ht => htx t (List.mem_cons_of_mem _ ht))

end MoneyInv

/-! ## One block -/

theorem shiftRight_bounds {n : Int} (h : 0 ≤ n) (k : Nat) : 0 ≤ n >>> k ∧ n >>> k ≤ n := by
  rw [Int.shiftRight_eq_div_pow]
  exact ⟨Int.ediv_nonneg h (by positivity), Int.ediv_le_self _ h⟩

/-- From block 69791 on a block is worth 10 coins at the most. -/
theorem nSubsidy_bounds (P : CChainParams) (nHeight : Nat) :
    0 ≤ nSubsidy P nHeight ∧
      nSubsidy P nHeight ≤ 10 * coin + (if nHeight < 69791 then 40 * coin else 0) := by
  have hcoin : coin = 100000000 := rfl
  have hfull := shiftRight_bounds (n := 50 * coin) (by decide) (nHeight / 210000)
  have hlow := shiftRight_bounds (n := 10 * coin) (by decide) (nHeight / 210000)
  have hmin : nBlockRewardMinimumCoin = 50000000 := rfl
  have hend : nBlockRewardEndCoin = 150000000 := rfl
  cases hP : P.fAllowMinDifficultyBlocks with
  | true =>
    simp only [nSubsidy, hP, true_and, not_true_eq_false, false_and, if_false]
    split_ifs <;> omega
  | false =>
    simp only [nSubsidy, hP, Bool.false_eq_true, not_false_eq_true, true_and, false_and, if_false]
    split_ifs <;> omega

section Block

variable {view view' : CoinsView} {block : CBlock}

theorem moneyInv_start (hview : view.InRange) : MoneyInv view.supply ⟨view, 0, 0, [], []⟩ :=
  ⟨hview, le_refl 0, (add_zero _).le⟩

/-- The coinbase is the only transaction that brings money in. -/
theorem connectVtx_money {coinbase : CTransaction} {rest : List CTransaction} {s : ConnectState}
    (hview : view.InRange) (hblock : block.Checked) (hvtx : block.vtx = coinbase :: rest)
    (hok : connectVtx V m rules view block.vtx = .ok s) :
    MoneyInv (view.supply + coinbase.valueOut) s := by
  rw [hvtx] at hok
  simp only [connectVtx, bind_eq_ok, Prod.exists] at hok
  rcases hok with ⟨s₁, undo, hfirst, hrun⟩
  have hcoinbase := (moneyInv_start hview).coinbase (hblock.coinbase coinbase (by simp [hvtx]))
    (hblock.transactions coinbase (by simp [hvtx])) hfirst
  exact hcoinbase.others (fun t ht => hblock.others t (by simp [hvtx, ht]))
    (fun t ht => hblock.transactions t (by simp [hvtx, ht])) hrun

theorem connectVtx_ne_overflow (hview : view.InRange) (hblock : block.Checked)
    (hfit : view.supply + maxMoney < 2 ^ 63) :
    connectVtx V m rules view block.vtx ≠ .error .overflow := by
  rcases List.exists_cons_of_ne_nil hblock.nonempty with ⟨coinbase, rest, hvtx⟩
  have htx := hblock.transactions coinbase (by simp [hvtx])
  have hmax := htx.valueOut.2
  have hsupply : view.supply < 2 ^ 63 := by
    have h0 := htx.valueOut.1
    omega
  rw [hvtx]
  apply bind_ne_error ((moneyInv_start hview).connectTx_ne_overflow htx hsupply)
  intro r hfirst
  have hcoinbase := (moneyInv_start hview).coinbase (hblock.coinbase coinbase (by simp [hvtx])) htx
    hfirst
  exact hcoinbase.others_ne_overflow (fun t ht => hblock.others t (by simp [hvtx, ht]))
    (fun t ht => hblock.transactions t (by simp [hvtx, ht])) (by omega)

variable {pindexBestHeader : Option UInt256} {pindex : UInt256} {fJustCheck : Bool}
  {undo : Option CBlockUndo}

/-- A block brings in its subsidy at the most. -/
theorem connectBlock_supply (hview : view.InRange)
    (hok : connectBlock V m pindexBestHeader block pindex view fJustCheck = .ok (view', undo)) :
    view'.InRange ∧ view'.supply ≤ view.supply + nSubsidy V.params (m.entry pindex).nHeight := by
  rcases connectBlock_ok hok with ⟨hblock, -, hrest⟩
  have hsubsidy := (nSubsidy_bounds V.params (m.entry pindex).nHeight).1
  split_ifs at hrest
  · rw [hrest.1, CoinsView.supply_setBestBlock]
    exact ⟨hview, by omega⟩
  rcases connectChecked_ok hrest with ⟨s, nValueOut, hvtx, hout, hpays, rfl, -⟩
  rcases List.exists_cons_of_ne_nil hblock.nonempty with ⟨coinbase, rest, hcons⟩
  have hmoney := connectVtx_money hview hblock hcons hvtx
  simp only [hcons, List.head?_cons, Option.map_some, Option.getD_some] at hout
  obtain rfl := getValueOut_ok hout
  -- What the coinbase pays out is the subsidy and fees that are no longer in the coins.
  have htotal := hmoney.total
  simp only [getBlockValue] at hpays
  have hsupply : s.view.supply ≤ view.supply + nSubsidy V.params (m.entry pindex).nHeight := by
    omega
  cases fJustCheck with
  | true => exact ⟨hmoney.inRange, hsupply⟩
  | false => exact ⟨hmoney.inRange, hsupply⟩

theorem connectBlock_ne_overflow (hview : view.InRange)
    (hfit : view.supply + maxMoney + nSubsidy V.params (m.entry pindex).nHeight < 2 ^ 63) :
    connectBlock V m pindexBestHeader block pindex view fJustCheck ≠ .error .overflow := by
  unfold connectBlock
  cases hcheck : checkBlock V.toEnv block (!fJustCheck) (!fJustCheck) with
  | error e => simp
  | ok u =>
    have hblock := checkBlock_ok hcheck
    have hsubsidy := (nSubsidy_bounds V.params (m.entry pindex).nHeight).1
    rcases List.exists_cons_of_ne_nil hblock.nonempty with ⟨coinbase, rest, hcons⟩
    have htx := hblock.transactions coinbase (by simp [hcons])
    apply bind_ne_error (rejectIf_ne_error (by simp))
    intro _ _
    split_ifs
    · exact fun hc => by cases hc
    apply bind_ne_error (rejectIf_ne_error (by simp))
    intro _ _
    apply bind_ne_error (connectVtx_ne_overflow hview hblock (by omega))
    intro s hvtx
    have hmoney := connectVtx_money hview hblock hcons hvtx
    have hfees0 := hmoney.fees
    have hfees := hmoney.fees_le
    have hmax := htx.valueOut.2
    apply bind_ne_error
    · simpa [hcons] using htx.getValueOut_ne_overflow
    intro nValueOut _
    apply bind_ne_error
    · have hlimit : fits64 (nSubsidy V.params (m.entry pindex).nHeight + s.nFees) =
          .ok (nSubsidy V.params (m.entry pindex).nHeight + s.nFees) :=
        fits64_of (by omega) (by omega)
      simp [getBlockValue, connectRules, hlimit]
    intro nLimit _
    apply bind_ne_error (rejectIf_ne_error (by simp))
    intro _ _
    apply bind_ne_error (rejectIf_ne_error (by simp))
    intro _ _
    split_ifs <;> simp

end Block

/-! ## Chains from genesis -/

/-- The coins after the blocks of heights 0 to `n`.  The block tree, the clock and the best header may be
others at every block. -/
inductive ConnectedChain (P : CChainParams) : Nat → CoinsView → Prop
  | genesis {V : ValidationEnv} {m : BlockMap} {pindexBestHeader : Option UInt256} {block : CBlock}
      {pindex : UInt256} {view : CoinsView} {undo : Option CBlockUndo} (params : V.params = P)
      (isGenesis : block.getHash V.crypto = P.hashGenesisBlock)
      (connected : connectBlock V m pindexBestHeader block pindex CoinsView.empty false =
        .ok (view, undo)) :
      ConnectedChain P 0 view
  | next {n : Nat} {V : ValidationEnv} {m : BlockMap} {pindexBestHeader : Option UInt256}
      {block : CBlock} {pindex : UInt256} {view view' : CoinsView} {undo : Option CBlockUndo}
      (chain : ConnectedChain P n view) (params : V.params = P)
      (height : (m.entry pindex).nHeight = n + 1)
      (connected : connectBlock V m pindexBestHeader block pindex view false = .ok (view', undo)) :
      ConnectedChain P (n + 1) view'

/-- The sum of `GetBlockValue(h, 0)` over the heights from 1 to `n`. -/
def totalSubsidy (P : CChainParams) (n : Nat) : Int :=
  ∑ h ∈ Finset.range n, getBlockValue P (h + 1) 0

theorem totalSubsidy_succ (P : CChainParams) (n : Nat) :
    totalSubsidy P (n + 1) = totalSubsidy P n + nSubsidy P (n + 1) := by
  simp [totalSubsidy, Finset.sum_range_succ, getBlockValue]

theorem totalSubsidy_le (P : CChainParams) (n : Nat) :
    totalSubsidy P n ≤ n * (10 * coin) + 69791 * (40 * coin) := by
  have hcoin : coin = 100000000 := rfl
  -- The blocks below 69791 are counted with their 40 coins more.
  have hsplit : totalSubsidy P n ≤ n * (10 * coin) + (min n 69791 : Nat) * (40 * coin) := by
    induction n with
    | zero => simp [totalSubsidy]
    | succ n ih =>
      have hstep := (nSubsidy_bounds P (n + 1)).2
      rw [totalSubsidy_succ]
      rw [hcoin] at ih hstep ⊢
      split_ifs at hstep <;> omega
  rw [hcoin] at hsplit ⊢
  omega

theorem ConnectedChain.money {P : CChainParams} {n : Nat} {view : CoinsView}
    (h : ConnectedChain P n view) : view.InRange ∧ view.supply ≤ totalSubsidy P n := by
  induction h with
  | @genesis V m best block pindex view undo params isGenesis connected =>
    rcases connectBlock_ok connected with ⟨-, -, hrest⟩
    rw [if_pos (by rw [params]; exact isGenesis)] at hrest
    rw [hrest.1, CoinsView.supply_setBestBlock, CoinsView.supply_empty]
    refine ⟨?_, by simp [totalSubsidy]⟩
    intro txid c hc
    cases hc
  | @next n V m best block pindex view view' undo chain params height connected ih =>
    rcases ih with ⟨hview, hsupply⟩
    rcases connectBlock_supply hview connected with ⟨hview', hsupply'⟩
    rw [params, height] at hsupply'
    refine ⟨hview', ?_⟩
    rw [totalSubsidy_succ]
    omega

/-- **No money creation.** -/
theorem no_money_creation (P : CChainParams) (n : Nat) (view : CoinsView)
    (h : ConnectedChain P n view) :
    view.supply ≤ totalSubsidy P n ∧ view.InRange ∧
      ((n + 1 : Nat) < 2 ^ 31 → ∀ (V : ValidationEnv) (m : BlockMap)
        (pindexBestHeader : Option UInt256) (block : CBlock) (pindex : UInt256) (fJustCheck : Bool),
        V.params = P → (m.entry pindex).nHeight = n + 1 →
          connectBlock V m pindexBestHeader block pindex view fJustCheck ≠ .error .overflow) := by
  rcases h.money with ⟨hview, hsupply⟩
  refine ⟨hsupply, hview, ?_⟩
  intro hn V m pindexBestHeader block pindex fJustCheck hP hheight
  apply connectBlock_ne_overflow hview
  have hcoin : coin = 100000000 := rfl
  have hmax : maxMoney = 1000000000000000000 := rfl
  have htotal := totalSubsidy_le P n
  have hsubsidy := (nSubsidy_bounds P (n + 1)).2
  rw [hcoin] at htotal hsubsidy
  rw [hP, hheight]
  split_ifs at hsubsidy <;> omega

/-- On the main net a block is worth 1.5 coins from block 951753 on. -/
theorem totalSubsidy_mainNet {P : CChainParams} (hP : P.fAllowMinDifficultyBlocks = false) (n : Nat) :
    totalSubsidy P n ≤ n * nBlockRewardEndCoin + (min n 951752 : Nat) * (50 * coin) := by
  have hcoin : coin = 100000000 := rfl
  have hend : nBlockRewardEndCoin = 150000000 := rfl
  induction n with
  | zero => simp [totalSubsidy]
  | succ n ih =>
    have hstep := (nSubsidy_bounds P (n + 1)).2
    have hlast : 951752 ≤ n → nSubsidy P (n + 1) = nBlockRewardEndCoin := by
      intro hn
      simp [nSubsidy, hP, show 951753 ≤ n + 1 by omega]
    rw [totalSubsidy_succ]
    rw [hcoin, hend] at ih ⊢
    split_ifs at hstep <;> omega

/-- **The supply stays in range** on a main net of any length, so no spend of existing coins is refused
for the value of its inputs. -/
theorem supply_le_maxMoney (P : CChainParams) (hP : P.fAllowMinDifficultyBlocks = false) (n : Nat)
    (hn : n < 2 ^ 31) (view : CoinsView) (h : ConnectedChain P n view) :
    view.supply ≤ maxMoney ∧ ∀ tx : CTransaction, tx.Checked → tx.isCoinBase = false →
      view.haveInputs tx = true → ∃ v, view.getValueIn tx = .ok v ∧ moneyRange v := by
  rcases h.money with ⟨hview, hsupply⟩
  have hmax : maxMoney = 1000000000000000000 := rfl
  have hcoin : coin = 100000000 := rfl
  have hend : nBlockRewardEndCoin = 150000000 := rfl
  have htotal := totalSubsidy_mainNet hP n
  rw [hcoin, hend] at htotal
  have hle : view.supply ≤ maxMoney := by omega
  refine ⟨hle, ?_⟩
  intro tx htx hcb hinputs
  rcases (moneyInv_start hview).getValueIn_eq hcb hinputs htx (by omega) with ⟨hin, hvalue⟩
  exact ⟨_, hin, hview.valueIn_nonneg tx.vin, hvalue.trans hle⟩

/-- A block of one coinbase after the genesis block. -/
def minedBlock : CBlock :=
  undoBlock 2 1 [undoCoinbase]

theorem exists_of_toBool {ε α : Type} {x : Except ε α} (h : x.toBool = true) : ∃ a, x = .ok a := by
  cases x with
  | error e => cases h
  | ok a => exact ⟨a, rfl⟩

set_option maxRecDepth 20000 in
theorem no_money_creation_minedBlock :
    ∃ view, view.supply ≤ totalSubsidy undoEnv.params 1 ∧ view.InRange ∧
      ((1 + 1 : Nat) < 2 ^ 31 → ∀ (V : ValidationEnv) (m : BlockMap)
        (pindexBestHeader : Option UInt256) (block : CBlock) (pindex : UInt256) (fJustCheck : Bool),
        V.params = undoEnv.params → (m.entry pindex).nHeight = 1 + 1 →
          connectBlock V m pindexBestHeader block pindex view fJustCheck ≠ .error .overflow) := by
  have hrun : (do
      let (view, _) ← connectBlock undoEnv undoTree none undoGenesis 1 CoinsView.empty false
      connectBlock undoEnv undoTree none minedBlock undoIndex view false).toBool = true := by
    decide
  rcases exists_of_toBool hrun with ⟨⟨view', undo'⟩, hok⟩
  simp only [bind_eq_ok, Prod.exists] at hok
  rcases hok with ⟨view, undo, hgenesis, hmined⟩
  have hchain : ConnectedChain undoEnv.params 1 view' :=
    .next (.genesis rfl (by decide) hgenesis) rfl (by decide) hmined
  exact ⟨view', no_money_creation undoEnv.params 1 view' hchain⟩

def mainEnv : ValidationEnv :=
  { undoEnv with params := { undoEnv.params with fAllowMinDifficultyBlocks := false } }

set_option maxRecDepth 20000 in
theorem supply_le_maxMoney_minedBlock :
    ∃ view : CoinsView, view.supply ≤ maxMoney ∧ ∀ tx : CTransaction, tx.Checked → tx.isCoinBase = false →
      view.haveInputs tx = true → ∃ v, view.getValueIn tx = .ok v ∧ moneyRange v := by
  have hrun : (do
      let (view, _) ← connectBlock mainEnv undoTree none undoGenesis 1 CoinsView.empty false
      connectBlock mainEnv undoTree none minedBlock undoIndex view false).toBool = true := by
    decide
  rcases exists_of_toBool hrun with ⟨⟨view', undo'⟩, hok⟩
  simp only [bind_eq_ok, Prod.exists] at hok
  rcases hok with ⟨view, undo, hgenesis, hmined⟩
  exact ⟨view', supply_le_maxMoney mainEnv.params rfl 1 (by decide) view'
    (.next (.genesis rfl (by decide) hgenesis) rfl (by decide) hmined)⟩

end Dobbscoin
