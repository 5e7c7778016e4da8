import Dobbscoin.Wallet.TotalBalance

/-!
# Where the two balances differ

The transactions of the wallet make and use coins; `getbalance` follows what the trusted ones have moved, `GetBalance` looks
for what is left.
-/

namespace Dobbscoin.WalletNode

open Flows
open AccountWallet (balanceEnv)

section

variable {E : BalanceEnv} {w : WalletNode} {hash : UInt256} {wtx : CWalletTx}

/-! ## Coins that are made and used -/

theorem mem_walletOrder : hash ∈ w.walletOrder ↔ hash ∈ w.mapWallet.keys :=
  (List.mergeSort_perm _ _).mem_iff

theorem walletOrder_nodup (w : WalletNode) : w.walletOrder.Nodup :=
  (List.mergeSort_perm _ _).nodup_iff.2 w.mapWallet.keys_nodup

theorem mem_coinsMade {outpoint : COutPoint} (h : outpoint ∈ w.coinsMade hash) : outpoint.hash = hash := by
  unfold coinsMade at h
  split at h
  · cases h
  · rcases List.mem_map.1 h with ⟨o, -, rfl⟩
    rfl

theorem madeBy_nodup (hw : WellKept E w) (p : UInt256 → Bool) : (w.walletFlow.madeBy p).Nodup := by
  refine List.nodup_flatMap.2 ⟨fun hash _ => ?_, ?_⟩
  · show (w.coinsMade hash).Nodup
    cases hlookup : w.mapWallet.lookup hash with
    | none =>
      rw [coinsMade, hlookup]
      exact List.nodup_nil
    | some wtx =>
      have hindexes : (wtx.tx.vout.zipIdx.map Prod.snd).Nodup := by
        rw [List.zipIdx_map_snd]
        exact List.nodup_range'
      rw [coinsMade_eq hlookup]
      refine List.Nodup.map_on (fun o hin o' hin' heq => ?_) hindexes.of_map
      have hindex : o.2 = o'.2 := by
        have hn := congrArg (fun outpoint : COutPoint => outpoint.n.toNat) heq
        dsimp only at hn
        rwa [toNat_ofNat_index (hw.sizes hash wtx hlookup) hin,
          toNat_ofNat_index (hw.sizes hash wtx hlookup) hin'] at hn
      exact List.inj_on_of_nodup_map hindexes hin hin' hindex
  · refine ((walletOrder_nodup w).filter p).imp fun {hash hash'} hne => ?_
    intro outpoint hin hin'
    exact hne ((mem_coinsMade hin).symm.trans (mem_coinsMade hin'))

theorem usedBy_nodup (hw : WellKept E w) : (w.walletFlow.usedBy (isLive E.toWalletEnv w)).Nodup := by
  refine List.nodup_flatMap.2 ⟨fun hash hin => ?_, ?_⟩
  · have hlive := (List.mem_filter.1 hin).2
    show (w.coinsUsed hash).Nodup
    unfold coinsUsed
    cases hlookup : w.mapWallet.lookup hash with
    | none => exact List.nodup_nil
    | some wtx =>
      dsimp only
      split_ifs
      · exact List.nodup_nil
      · exact (hw.checked hash wtx hlookup hlive).nodup
  · refine ((walletOrder_nodup w).filter _).imp_of_mem fun {hash hash'} hin hin' hne => ?_
    rcases List.mem_filter.1 hin with ⟨horder, hlive⟩
    rcases List.mem_filter.1 hin' with ⟨horder', hlive'⟩
    exact hw.apart hash (mem_walletOrder.1 horder) hash' (mem_walletOrder.1 horder') hne hlive hlive'

/-- An output is spent when it is used by a transaction in the chain or in the pool. -/
theorem isSpent_iff (hw : WellKept E w) {outpoint : COutPoint} :
    isSpent E.toWalletEnv w outpoint = true ↔ outpoint ∈ w.walletFlow.usedBy (isLive E.toWalletEnv w) := by
  have hused : ∀ hash wtx, w.mapWallet.lookup hash = some wtx →
      (hash ∈ w.mapTxSpends outpoint ↔ outpoint ∈ w.coinsUsed hash) := fun hash wtx hlookup => by
    rw [hw.spends hash wtx outpoint hlookup, coinsUsed, hlookup]
    dsimp only
    cases wtx.tx.isCoinBase with
    | false => exact ⟨fun h => h.2, fun h => ⟨rfl, h⟩⟩
    | true => exact ⟨fun h => absurd h.1.symm Bool.false_ne_true, fun h => absurd h List.not_mem_nil⟩
  rw [isSpent, List.any_eq_true, Flow.usedBy, List.mem_flatMap]
  constructor
  · rintro ⟨hash, hin, hlive⟩
    cases hlookup : w.mapWallet.lookup hash with
    | none =>
      rw [isLive, hlookup] at hlive
      cases hlive
    | some wtx =>
      have hkeys : hash ∈ w.mapWallet.keys := AList.mem_keys.1 (AList.lookup_isSome.1 (hlookup ▸ rfl))
      exact ⟨hash, List.mem_filter.2 ⟨mem_walletOrder.2 hkeys, hlive⟩, (hused hash wtx hlookup).1 hin⟩
  · rintro ⟨hash, hin, hcoin⟩
    rcases List.mem_filter.1 hin with ⟨horder, hlive⟩
    cases hlookup : w.mapWallet.lookup hash with
    | none =>
      rw [isLive, hlookup] at hlive
      cases hlive
    | some wtx => exact ⟨hash, (hused hash wtx hlookup).2 hcoin, hlive⟩

/-- The coins that are worth something have been made, when their transaction is counted. -/
theorem mem_madeBy_counts {outpoint : COutPoint} (hworth : coinValue E w outpoint ≠ 0) :
    outpoint ∈ w.walletFlow.madeBy (counts E w) ↔ counts E w outpoint.hash = true := by
  rw [Flow.madeBy, List.mem_flatMap]
  constructor
  · rintro ⟨hash, hin, hcoin⟩
    rw [mem_coinsMade hcoin]
    exact (List.mem_filter.1 hin).2
  · intro hcounts
    cases hlookup : w.mapWallet.lookup outpoint.hash with
    | none =>
      rw [counts, hlookup] at hcounts
      cases hcounts
    | some wtx =>
      have hkeys : outpoint.hash ∈ w.mapWallet.keys := AList.mem_keys.1 (AList.lookup_isSome.1 (hlookup ▸ rfl))
      refine ⟨outpoint.hash, List.mem_filter.2 ⟨mem_walletOrder.2 hkeys, hcounts⟩, ?_⟩
      show outpoint ∈ w.coinsMade outpoint.hash
      rw [coinsMade_eq hlookup, List.mem_map]
      cases hprev : wtx.tx.vout[outpoint.n.toNat]? with
      | none =>
        have hnone : w.prevOut ⟨outpoint, [], 0⟩ = none := by
          rw [prevOut, hlookup]
          exact hprev
        rw [coinValue, debitOf, hnone] at hworth
        exact absurd rfl hworth
      | some txout =>
        refine ⟨(txout, outpoint.n.toNat), List.mk_mem_zipIdx_iff_getElem?.2 hprev, ?_⟩
        show COutPoint.mk outpoint.hash (UInt32.ofNat outpoint.n.toNat) = outpoint
        rw [UInt32.ofNat_toNat]

theorem total_filter_congr {coins : List COutPoint} {p q : COutPoint → Bool}
    (h : ∀ outpoint, coinValue E w outpoint ≠ 0 → p outpoint = q outpoint) :
    total (coinValue E w) (coins.filter p) = total (coinValue E w) (coins.filter q) := by
  rw [total, total, sum_filter_eq, sum_filter_eq]
  refine congrArg List.sum (List.map_congr_left fun outpoint _ => ?_)
  by_cases hworth : coinValue E w outpoint = 0
  · rw [hworth, ite_self, ite_self]
  · rw [h outpoint hworth]

theorem total_filter_flatMap {ids : List UInt256} (coins : UInt256 → List COutPoint) (p : COutPoint → Bool) :
    total (coinValue E w) ((ids.flatMap coins).filter p) =
      (ids.map fun hash => total (coinValue E w) ((coins hash).filter p)).sum := by
  rw [List.filter_flatMap, total_flatMap]

theorem total_unspent (hw : WellKept E w) :
    total (coinValue E w) (outside (w.walletFlow.usedBy (isLive E.toWalletEnv w)) (w.walletFlow.madeBy (counts E w))) =
      ((w.walletOrder.filter (counts E w)).map (unspentValue E w)).sum := by
  rw [outside, Flow.madeBy, total_filter_flatMap]
  refine congrArg List.sum (List.map_congr_left fun hash _ => ?_)
  refine total_filter_congr fun outpoint _ => ?_
  rw [Bool.eq_iff_iff, decide_eq_true_iff, ← isSpent_iff hw, Bool.not_eq_true', Bool.not_eq_true]

theorem total_spentByOthers :
    total (coinValue E w) (inside (w.walletFlow.madeBy (counts E w))
      (w.walletFlow.usedBy fun hash => isLive E.toWalletEnv w hash && !counts E w hash)) = spentByOthers E w := by
  rw [inside, Flow.usedBy, total_filter_flatMap]
  refine congrArg List.sum (List.map_congr_left fun hash _ => ?_)
  refine total_filter_congr fun outpoint hworth => ?_
  rw [Bool.eq_iff_iff, decide_eq_true_iff, mem_madeBy_counts hworth]

theorem total_spentOfOthers :
    total (coinValue E w) (outside (w.walletFlow.madeBy (counts E w)) (w.walletFlow.usedBy (counts E w))) =
      spentOfOthers E w := by
  rw [outside, Flow.usedBy, total_filter_flatMap]
  refine congrArg List.sum (List.map_congr_left fun hash _ => ?_)
  refine total_filter_congr fun outpoint hworth => ?_
  rw [Bool.eq_iff_iff, decide_eq_true_iff, mem_madeBy_counts hworth, Bool.not_eq_true', Bool.not_eq_true]

theorem flowOf_add (hash : UInt256) :
    flowOf E w hash + total (coinValue E w) (w.coinsUsed hash) + unspentValue E w hash + outdatedOf E w hash =
      availableOf E w hash + total (coinValue E w) (w.coinsMade hash) + watchedChangeOf E w hash := by
  unfold flowOf availableOf watchedChangeOf outdatedOf unspentValue coinsMade coinsUsed
  cases w.mapWallet.lookup hash with
  | none => rfl
  | some wtx =>
    dsimp only
    ring

/-- The sums differ by what the transactions that only one of them knows of have moved. -/
theorem sum_flowOf (hw : WellKept E w) :
    ((w.walletOrder.filter (counts E w)).map (flowOf E w)).sum -
        ((w.walletOrder.filter (counts E w)).map (availableOf E w)).sum =
      watchedChange E w + spentByOthers E w - spentOfOthers E w - outdated E w := by
  have hbalance := w.walletFlow.balance (coinValue E w) (fun _ => isLive_of_counts hw) (madeBy_nodup hw (counts E w))
    (usedBy_nodup hw)
  rw [total_unspent hw, total_spentByOthers, total_spentOfOthers, Flow.madeBy, Flow.usedBy, total_flatMap,
    total_flatMap] at hbalance
  have hterms := congrArg List.sum (List.map_congr_left fun hash (_ : hash ∈ w.walletOrder.filter (counts E w)) =>
    flowOf_add (E := E) (w := w) hash)
  rw [List.sum_map_add, List.sum_map_add, List.sum_map_add, List.sum_map_add, List.sum_map_add] at hterms
  have hmade : ((w.walletFlow.entries.filter (counts E w)).map fun hash => total (coinValue E w) (w.walletFlow.made hash)) =
      (w.walletOrder.filter (counts E w)).map fun hash => total (coinValue E w) (w.coinsMade hash) := rfl
  have hused : ((w.walletFlow.entries.filter (counts E w)).map fun hash => total (coinValue E w) (w.walletFlow.used hash)) =
      (w.walletOrder.filter (counts E w)).map fun hash => total (coinValue E w) (w.coinsUsed hash) := rfl
  rw [hmade, hused] at hbalance
  rw [watchedChange, outdated]
  linarith

/-- `getbalance` and `GetBalance` return the same amount exactly when the change of watched scripts, and what transactions
that are not counted spend of those that are, make up for what the counted ones spend of others and for what the kept
amounts are off. -/
theorem getbalance_agrees_iff (hw : WellKept E w) :
    ∃ nBalance nTotal, getbalance E w 0 ismineSpendable = some nBalance ∧ getBalance E w = some nTotal ∧
      (nBalance = nTotal ↔ watchedChange E w + spentByOthers E w = spentOfOthers E w + outdated E w) := by
  refine ⟨_, _, foldlM_add w.walletOrder (fun n hash _ => addAmounts_eq hw n hash) 0,
    foldlM_add w.walletOrder (fun n hash _ => addAvailable_eq hw n hash) 0, ?_⟩
  have hsum := sum_flowOf hw
  rw [zero_add, zero_add]
  constructor
  · intro heq
    linarith
  · intro hzero
    linarith

/-! ## A wallet that is told of its transactions -/

/-- `mapTxSpends` has the transactions of the wallet under what they spend. -/
def SpendsKept (w : WalletNode) : Prop :=
  ∀ outpoint hash, hash ∈ w.mapTxSpends outpoint ↔ ∃ wtx, w.mapWallet.lookup hash = some wtx ∧
    wtx.tx.isCoinBase = false ∧ outpoint ∈ wtx.tx.vin.map CTxIn.prevout

theorem mem_foldl_update {hash hash' : UInt256} {outpoint : COutPoint} (vin : List CTxIn) :
    ∀ mapTxSpends : COutPoint → List UInt256,
      hash ∈ vin.foldl (fun mapTxSpends txin =>
          Function.update mapTxSpends txin.prevout (mapTxSpends txin.prevout ++ [hash'])) mapTxSpends outpoint ↔
        hash ∈ mapTxSpends outpoint ∨ hash = hash' ∧ outpoint ∈ vin.map CTxIn.prevout := by
  induction vin with
  | nil =>
    intro mapTxSpends
    exact ⟨.inl, fun h => h.elim id fun h => absurd h.2 List.not_mem_nil⟩
  | cons txin vin ih =>
    intro mapTxSpends
    rw [List.foldl_cons, ih, List.map_cons, List.mem_cons]
    by_cases heq : outpoint = txin.prevout
    · rw [heq, Function.update_self, List.mem_append, List.mem_singleton]
      tauto
    · rw [Function.update_of_ne heq]
      tauto

theorem mem_addToSpends {H : WalletEnv} {tx : CTransaction} {outpoint : COutPoint} :
    hash ∈ (addToSpends H w tx).mapTxSpends outpoint ↔ hash ∈ w.mapTxSpends outpoint ∨
      hash = tx.getHash H.H ∧ tx.isCoinBase = false ∧ outpoint ∈ tx.vin.map CTxIn.prevout := by
  unfold addToSpends
  cases hcoinbase : tx.isCoinBase with
  | true =>
    rw [if_pos rfl]
    exact ⟨.inl, fun h => h.elim id fun h => absurd h.2.1.symm Bool.false_ne_true⟩
  | false =>
    rw [if_neg Bool.false_ne_true]
    exact (mem_foldl_update _ _).trans (or_congr_right (and_congr_right fun _ => ⟨fun h => ⟨rfl, h⟩, fun h => h.2⟩))

theorem addToSpends_mapWallet (H : WalletEnv) (tx : CTransaction) : (addToSpends H w tx).mapWallet = w.mapWallet := by
  unfold addToSpends
  split_ifs <;> rfl

theorem SpendsKept.addToWallet {H : WalletEnv} (h : SpendsKept w) (wtxIn : CWalletTx) (fWrites : Bool) :
    SpendsKept (addToWallet H w wtxIn fWrites).2 := by
  intro outpoint hash
  unfold WalletNode.addToWallet
  dsimp only
  cases hlookup : w.mapWallet.lookup (wtxIn.tx.getHash H.H) with
  | none =>
    dsimp only
    rw [mem_addToSpends, addToSpends_mapWallet]
    show hash ∈ w.mapTxSpends outpoint ∨ _ ↔ _
    rw [h outpoint hash]
    by_cases heq : hash = wtxIn.tx.getHash H.H
    · rw [heq, hlookup, AList.lookup_insert]
      constructor
      · rintro (⟨wtx, hnone, -⟩ | ⟨-, hspends⟩)
        · cases hnone
        · exact ⟨_, rfl, hspends⟩
      · rintro ⟨wtx, hwtx, hspends⟩
        obtain rfl := Option.some.inj hwtx
        exact .inr ⟨rfl, hspends⟩
    · rw [AList.lookup_insert_ne heq]
      exact ⟨fun hcase => hcase.resolve_right fun hnew => heq hnew.1, .inl⟩
  | some old =>
    show hash ∈ w.mapTxSpends outpoint ↔ _
    rw [h outpoint hash]
    by_cases heq : hash = wtxIn.tx.getHash H.H
    · rw [heq, hlookup, AList.lookup_insert]
      constructor
      · rintro ⟨wtx, hwtx, hspends⟩
        obtain rfl := Option.some.inj hwtx
        exact ⟨_, rfl, hspends⟩
      · rintro ⟨wtx, hwtx, hspends⟩
        obtain rfl := Option.some.inj hwtx
        exact ⟨old, rfl, hspends⟩
    · rw [AList.lookup_insert_ne heq]

theorem pendingWallet_spendsKept (txs : List CTransaction) : SpendsKept (pendingWallet txs) := by
  refine List.foldlRecOn txs _ (fun outpoint hash => ⟨fun h => ?_, ?_⟩) fun w hkept tx _ => hkept.addToWallet (.ofTx tx) true
  · cases h
  · rintro ⟨wtx, hwtx, -⟩
    cases hwtx

theorem mem_of_pendingWallet {txs : List CTransaction} (h : (pendingWallet txs).mapWallet.lookup hash = some wtx) :
    wtx.tx ∈ txs := by
  refine List.foldlRecOn (motive := fun w => ∀ hash wtx, w.mapWallet.lookup hash = some wtx → wtx.tx ∈ txs) txs
    (fun w tx => (addToWallet reacceptEnv w (.ofTx tx) true).2) (fun hash wtx h => ?_) (fun w hw tx htx hash wtx h => ?_) hash wtx h
  · cases h
  · unfold addToWallet at h
    dsimp only at h
    by_cases heq : hash = tx.getHash reacceptEnv.H
    · cases hlookup : w.mapWallet.lookup (tx.getHash reacceptEnv.H) with
      | none =>
        rw [show (CWalletTx.ofTx tx).tx = tx from rfl, hlookup] at h
        dsimp only at h
        rw [addToSpends_mapWallet, heq, AList.lookup_insert] at h
        rwa [← Option.some.inj h]
      | some old =>
        rw [show (CWalletTx.ofTx tx).tx = tx from rfl, hlookup] at h
        dsimp only at h
        rw [heq, AList.lookup_insert] at h
        rw [← Option.some.inj h]
        exact hw _ old hlookup
    · refine hw hash wtx ?_
      rw [show (CWalletTx.ofTx tx).tx = tx from rfl] at h
      cases hlookup : w.mapWallet.lookup (tx.getHash reacceptEnv.H) with
      | none =>
        rw [hlookup] at h
        dsimp only at h
        rwa [addToSpends_mapWallet, AList.lookup_insert_ne heq] at h
      | some old =>
        rw [hlookup] at h
        dsimp only at h
        rwa [AList.lookup_insert_ne heq] at h

end

/-! ## A payment to oneself -/

/-- The wallet has received `40`, and has paid all of it to itself; both transactions are in the pool. -/
def selfPaid : WalletNode :=
  { pendingWallet [orphanTx 5 [7], orphanTx 6 [5]] with
    mempool := (CTxMemPool.empty.addUnchecked firstByteCrypto (orphanTx 5 [7])).addUnchecked firstByteCrypto
      (orphanTx 6 [5]) }

theorem selfPaid_keys : selfPaid.mapWallet.keys = [6, 5] := by
  decide

theorem selfPaid_used : selfPaid.coinsUsed 5 = [⟨7, 0⟩] ∧ selfPaid.coinsUsed 6 = [⟨5, 0⟩] := by
  decide

theorem selfPaid_fits : InputsFit selfPaid (orphanTx 5 [7]) ∧ InputsFit selfPaid (orphanTx 6 [5]) := by
  decide

theorem selfPaid_checked : (orphanTx 5 [7]).Checked ∧ (orphanTx 6 [5]).Checked :=
  ⟨checkTransaction_ok (by decide), checkTransaction_ok (by decide)⟩

theorem selfPaid_wellKept : WellKept balanceEnv selfPaid := by
  have htx : ∀ hash wtx, selfPaid.mapWallet.lookup hash = some wtx → wtx.tx = orphanTx 5 [7] ∨ wtx.tx = orphanTx 6 [5] :=
    fun hash wtx h => by
      rcases List.mem_cons.1 (mem_of_pendingWallet h) with heq | hin
      · exact .inl heq
      · exact .inr (List.mem_singleton.1 hin)
  refine ⟨fun hash wtx h => pendingWallet_keyed _ hash wtx h, fun hash wtx outpoint h => ?_, fun hash wtx h => ?_,
    fun hash wtx h _ => ?_, ?_, fun hash wtx h _ => ?_⟩
  · refine (pendingWallet_spendsKept _ outpoint hash).trans ⟨?_, fun hspends => ⟨wtx, h, hspends⟩⟩
    rintro ⟨wtx', hwtx', hspends⟩
    obtain rfl := Option.some.inj (hwtx'.symm.trans h)
    exact hspends
  · rcases htx hash wtx h with heq | heq
    · rw [heq]
      decide
    · rw [heq]
      decide
  · rcases htx hash wtx h with heq | heq
    · exact heq ▸ selfPaid_checked.1
    · exact heq ▸ selfPaid_checked.2
  · rw [selfPaid_keys]
    intro hash hin hash' hin' hne _ _
    have hcases : ∀ hash ∈ ([6, 5] : List UInt256), hash = 6 ∨ hash = 5 := fun hash hin =>
      (List.mem_cons.1 hin).imp_right List.mem_singleton.1
    rcases hcases hash hin with rfl | rfl <;> rcases hcases hash' hin' with rfl | rfl
    · exact absurd rfl hne
    · rw [selfPaid_used.1, selfPaid_used.2, List.singleton_disjoint]
      decide
    · rw [selfPaid_used.1, selfPaid_used.2, List.singleton_disjoint]
      decide
    · exact absurd rfl hne
  · rcases htx hash wtx h with heq | heq
    · exact heq ▸ selfPaid_fits.1
    · exact heq ▸ selfPaid_fits.2

theorem selfPaid_order : selfPaid.walletOrder = [5, 6] :=
  walletOrder_eq (by rw [selfPaid_keys]; decide) (by decide)

theorem getbalance_agrees_iff_selfPaid : ∃ nBalance nTotal,
    getbalance balanceEnv selfPaid 0 ismineSpendable = some nBalance ∧ getBalance balanceEnv selfPaid = some nTotal ∧
      (nBalance = nTotal ↔ watchedChange balanceEnv selfPaid + spentByOthers balanceEnv selfPaid =
        spentOfOthers balanceEnv selfPaid + outdated balanceEnv selfPaid) :=
  getbalance_agrees_iff selfPaid_wellKept

/-- The coin that has been received is not trusted, but the transaction that spends it is. -/
theorem selfPaid_differs : WellKept balanceEnv selfPaid ∧
    getbalance balanceEnv selfPaid 0 ismineSpendable = some 0 ∧ getBalance balanceEnv selfPaid = some 40 := by
  refine ⟨selfPaid_wellKept, ?_, ?_⟩
  · rw [getbalance, selfPaid_order]
    decide
  · rw [getBalance, selfPaid_order]
    decide

end Dobbscoin.WalletNode
