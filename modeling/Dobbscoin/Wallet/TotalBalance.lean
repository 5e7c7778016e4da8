import Dobbscoin.Lib.Flows
import Dobbscoin.Validation.TxMoney
import Dobbscoin.Wallet.AccountBalances

/-!
# The balance of the wallet

`getbalance` with the account `*` adds what the trusted transactions have received and sent; `GetBalance` of `wallet.cpp`
adds those of their outputs that are not spent.
-/

namespace Dobbscoin.WalletNode

open Flows Guard

section

variable (E : BalanceEnv) (w : WalletNode)

/-- One transaction in the loop of `getbalance`. -/
def addAmounts (nMinDepth : Int) (filter : IsMineFilter) (nBalance : Int) (hash : UInt256) : Option Int :=
  match w.mapWallet.lookup hash with
  | none => some nBalance
  | some wtx => do
    let fTrusted ← isTrusted E w wtx
    if fTrusted = false ∨ getBlocksToMaturity E.toWalletEnv w wtx > 0 then some nBalance
    else
      (getAmounts E w wtx filter).map fun a =>
        (if getDepthInMainChain E.toWalletEnv w wtx ≥ nMinDepth then nBalance + a.received else nBalance) -
          a.sent - a.nFee

/-- `getbalance` with the account `*`. -/
def getbalance (nMinDepth : Int) (filter : IsMineFilter) : Option Int :=
  w.walletOrder.foldlM (addAmounts E w nMinDepth filter) 0

/-- One transaction in the loop of `GetBalance`. -/
def addAvailable (nTotal : Int) (hash : UInt256) : Option Int :=
  match w.mapWallet.lookup hash with
  | none => some nTotal
  | some wtx => do
    let fTrusted ← isTrusted E w wtx
    if fTrusted then (get E.toWalletEnv w wtx (.getAvailableCredit true)).map fun r => nTotal + r.1 else some nTotal

def getBalance : Option Int :=
  w.walletOrder.foldlM (addAvailable E w) 0

/-! ## Coins of the wallet -/

/-- The transactions that both loops count. -/
def counts (hash : UInt256) : Bool :=
  match w.mapWallet.lookup hash with
  | none => false
  | some wtx => decide (isTrusted E w wtx = some true) && decide (getBlocksToMaturity E.toWalletEnv w wtx ≤ 0)

/-- What an outpoint is worth to the owner of the wallet. -/
def coinValue (outpoint : COutPoint) : Int :=
  debitOf E.toWalletEnv w ismineSpendable ⟨outpoint, [], 0⟩

def coinsMade (hash : UInt256) : List COutPoint :=
  match w.mapWallet.lookup hash with
  | none => []
  | some wtx => wtx.tx.vout.zipIdx.map fun o => ⟨hash, UInt32.ofNat o.2⟩

def coinsUsed (hash : UInt256) : List COutPoint :=
  match w.mapWallet.lookup hash with
  | none => []
  | some wtx => if wtx.tx.isCoinBase then [] else wtx.tx.vin.map CTxIn.prevout

def walletFlow : Flow UInt256 COutPoint where
  entries := w.walletOrder
  made := w.coinsMade
  used := w.coinsUsed

/-- What an input is worth, as far as the wallet knows the output. -/
def prevValue (txin : CTxIn) : Int :=
  match w.prevOut txin with
  | none => 0
  | some txout => txout.nValue.toInt

/-- The values of the inputs, and their sum, are in range. -/
def InputsFit (tx : CTransaction) : Prop :=
  (∀ txin ∈ tx.vin, 0 ≤ w.prevValue txin) ∧ (tx.vin.map w.prevValue).sum ≤ maxMoney

/-- What the wallet keeps true, and what the checks of blocks and of the pool ensure for the transactions there. -/
structure WellKept : Prop where
  keyed : Keyed E.toWalletEnv w
  spends : ∀ hash wtx outpoint, w.mapWallet.lookup hash = some wtx →
    (hash ∈ w.mapTxSpends outpoint ↔ wtx.tx.isCoinBase = false ∧ outpoint ∈ wtx.tx.vin.map CTxIn.prevout)
  sizes : ∀ hash wtx, w.mapWallet.lookup hash = some wtx → wtx.tx.vout.length ≤ maxSize
  checked : ∀ hash wtx, w.mapWallet.lookup hash = some wtx → isLive E.toWalletEnv w hash = true → wtx.tx.Checked
  apart : ∀ hash ∈ w.mapWallet.keys, ∀ hash' ∈ w.mapWallet.keys, hash ≠ hash' → isLive E.toWalletEnv w hash = true →
    isLive E.toWalletEnv w hash' = true → (w.coinsUsed hash).Disjoint (w.coinsUsed hash')
  inputs : ∀ hash wtx, w.mapWallet.lookup hash = some wtx → isLive E.toWalletEnv w hash = true →
    InputsFit w wtx.tx

/-! ## Where the two differ -/

/-- The debit that is kept for a transaction, or that is computed when none is kept. -/
def nDebit (wtx : CWalletTx) : Int :=
  if wtx.tx.vin.isEmpty then 0
  else (wtx.cached .debit).getD (wtx.tx.vin.map (debitOf E.toWalletEnv w ismineSpendable)).sum

/-- What the outputs are worth that are not spent. -/
def unspentValue (hash : UInt256) : Int :=
  total (coinValue E w) ((w.coinsMade hash).filter fun outpoint => !isSpent E.toWalletEnv w outpoint)

/-- Change that cannot be spent with the keys of the wallet. -/
def watchedChangeOf (hash : UInt256) : Int :=
  match w.mapWallet.lookup hash with
  | none => 0
  | some wtx =>
    if nDebit E w wtx > 0 then
      ((wtx.tx.vout.filter fun txout => isChange E w txout && !mine E.toWalletEnv w txout ismineSpendable).map
        fun txout => txout.nValue.toInt).sum
    else 0

/-- By how much the amounts that are kept for a transaction are off. -/
def outdatedOf (hash : UInt256) : Int :=
  match w.mapWallet.lookup hash with
  | none => 0
  | some wtx =>
    (max (nDebit E w wtx) 0 - total (coinValue E w) (w.coinsUsed hash)) +
      ((wtx.cached .availableCredit).getD (unspentValue E w hash) - unspentValue E w hash)

def watchedChange : Int :=
  ((w.walletOrder.filter (counts E w)).map (watchedChangeOf E w)).sum

def outdated : Int :=
  ((w.walletOrder.filter (counts E w)).map (outdatedOf E w)).sum

/-- What transactions in the chain or in the pool that are not counted spend of those that are. -/
def spentByOthers : Int :=
  ((w.walletOrder.filter fun hash => isLive E.toWalletEnv w hash && !counts E w hash).map fun hash =>
    total (coinValue E w) ((w.coinsUsed hash).filter fun outpoint => counts E w outpoint.hash)).sum

/-- What the counted transactions spend of those that are not. -/
def spentOfOthers : Int :=
  ((w.walletOrder.filter (counts E w)).map fun hash =>
    total (coinValue E w) ((w.coinsUsed hash).filter fun outpoint => !counts E w outpoint.hash)).sum

instance (tx : CTransaction) : Decidable (InputsFit w tx) :=
  inferInstanceAs (Decidable ((∀ txin ∈ tx.vin, 0 ≤ w.prevValue txin) ∧ (tx.vin.map w.prevValue).sum ≤ maxMoney))

end

/-! ## Sums -/

theorem foldlM_add {α : Type} {step : Int → α → Option Int} {p : α → Bool} {f : α → Int} (l : List α)
    (h : ∀ n, ∀ x ∈ l, step n x = some (n + if p x then f x else 0)) :
    ∀ n, l.foldlM step n = some (n + ((l.filter p).map f).sum) := by
  induction l with
  | nil => exact fun n => congrArg some (add_zero n).symm
  | cons x l ih =>
    intro n
    rw [List.foldlM_cons, h n x List.mem_cons_self]
    refine (ih (fun n y hy => h n y (List.mem_cons_of_mem _ hy)) _).trans ?_
    rw [List.filter_cons]
    cases hx : p x with
    | false => rw [if_neg Bool.false_ne_true, if_neg Bool.false_ne_true, add_zero]
    | true => rw [if_pos rfl, if_pos rfl, List.map_cons, List.sum_cons, add_assoc]

theorem sumMoney_eq {l : List Int} (h : ∀ n ∈ l, 0 ≤ n) :
    ∀ {n : Int}, 0 ≤ n → n + l.sum ≤ maxMoney → sumMoney n (l.map some) = some (n + l.sum) := by
  induction l with
  | nil => exact fun {n} _ _ => congrArg some (add_zero n).symm
  | cons k l ih =>
    intro n hn hmax
    rw [List.sum_cons, ← add_assoc] at hmax ⊢
    have hk := add_nonneg hn (h k List.mem_cons_self)
    have hl : 0 ≤ l.sum := List.sum_nonneg fun m hm => h m (List.mem_cons_of_mem _ hm)
    rw [List.map_cons, sumMoney, if_pos ⟨hk, (le_add_of_nonneg_right hl).trans hmax⟩]
    exact ih (fun m hm => h m (List.mem_cons_of_mem _ hm)) hk hmax

theorem sum_filter_le {α : Type} {l : List α} {p : α → Bool} {f g : α → Int} (h : ∀ x ∈ l, f x ≤ g x ∧ 0 ≤ g x) :
    ((l.filter p).map f).sum ≤ (l.map g).sum := by
  induction l with
  | nil => exact le_refl 0
  | cons x l ih =>
    have hl := ih fun y hy => h y (List.mem_cons_of_mem _ hy)
    rcases h x List.mem_cons_self with ⟨hle, hnonneg⟩
    rw [List.filter_cons, List.map_cons, List.sum_cons]
    split_ifs
    · rw [List.map_cons, List.sum_cons]
      exact add_le_add hle hl
    · exact hl.trans (le_add_of_nonneg_left hnonneg)

/-- Received minus sent, when everything is listed that is not change. -/
theorem sum_listed {α : Type} (l : List α) (listed wanted : α → Bool) (f : α → Int) :
    (((l.filter listed).filter wanted).map f).sum - ((l.filter listed).map f).sum + (l.map f).sum =
      ((l.filter wanted).map f).sum + ((l.filter fun x => !listed x && !wanted x).map f).sum := by
  induction l with
  | nil => rfl
  | cons x l ih =>
    rw [List.filter_filter] at ih ⊢
    simp only [List.filter_cons, List.map_cons, List.sum_cons]
    -- The value of `x` is in both sums of the left side or in neither, unless it is wanted or not listed.
    cases listed x <;> cases wanted x <;>
      simp only [Bool.not_true, Bool.not_false, Bool.and_true, Bool.and_false, Bool.false_eq_true, if_true, if_false,
        List.map_cons, List.sum_cons] <;> linarith

/-! ## One transaction -/

section

variable {E : BalanceEnv} {w : WalletNode} {hash : UInt256} {wtx : CWalletTx}

theorem debitOf_nonneg_le (E : BalanceEnv) (filter : IsMineFilter) {txin : CTxIn} (h : 0 ≤ w.prevValue txin) :
    0 ≤ debitOf E.toWalletEnv w filter txin ∧ debitOf E.toWalletEnv w filter txin ≤ w.prevValue txin := by
  unfold debitOf prevValue at *
  cases hprev : w.prevOut txin with
  | none => exact ⟨le_refl 0, le_refl 0⟩
  | some txout =>
    rw [hprev] at h
    dsimp only at h ⊢
    split_ifs
    · exact ⟨h, le_refl _⟩
    · exact ⟨le_refl 0, h⟩

theorem getDebit_eq {tx : CTransaction} (filter : IsMineFilter) (h : InputsFit w tx) :
    getDebit E.toWalletEnv w tx filter = some (tx.vin.map (debitOf E.toWalletEnv w filter)).sum := by
  have hbounds := fun txin hin => debitOf_nonneg_le E filter (h.1 txin hin)
  have hsum : (tx.vin.map (debitOf E.toWalletEnv w filter)).sum ≤ (tx.vin.map w.prevValue).sum :=
    List.sum_le_sum fun txin hin => (hbounds txin hin).2
  have hmoney : sumMoney 0 ((tx.vin.map (debitOf E.toWalletEnv w filter)).map some) =
      some (0 + (tx.vin.map (debitOf E.toWalletEnv w filter)).sum) := by
    refine sumMoney_eq (fun n hn => ?_) (le_refl 0) ?_
    · rcases List.mem_map.1 hn with ⟨txin, hin, rfl⟩
      exact (hbounds txin hin).1
    · rw [zero_add]
      exact hsum.trans h.2
  rw [List.map_map, zero_add] at hmoney
  exact hmoney

theorem fetch_eq {c : CachedAmount} {nAmount : Int} (h : recompute E.toWalletEnv w wtx.tx c = some nAmount) :
    (fetch E.toWalletEnv w true c wtx).map Prod.fst = some ((wtx.cached c).getD nAmount) := by
  rw [fetch, if_pos rfl]
  cases wtx.cached c with
  | some nCached => rfl
  | none =>
    dsimp only
    rw [h]
    rfl

theorem fetch_tx {fUseCache : Bool} {c : CachedAmount} {r : Int × CWalletTx}
    (h : fetch E.toWalletEnv w fUseCache c wtx = some r) : r.2.tx = wtx.tx := by
  unfold fetch at h
  split at h
  · rw [← Option.some.inj h]
  · rcases Option.map_eq_some_iff.1 h with ⟨nAmount, -, hr⟩
    rw [← hr]

theorem fetchBoth_spendable (spendable watchOnly : CachedAmount) :
    fetchBoth E.toWalletEnv w ismineSpendable spendable watchOnly wtx =
      (fetch E.toWalletEnv w true spendable wtx).map fun r => (r.1 + 0, r.2) := by
  rw [fetchBoth, if_pos (by decide)]
  cases fetch E.toWalletEnv w true spendable wtx <;> rfl

theorem fetchBoth_all (spendable watchOnly : CachedAmount) :
    fetchBoth E.toWalletEnv w ismineAll spendable watchOnly wtx =
      (fetch E.toWalletEnv w true spendable wtx).bind fun r =>
        (fetch E.toWalletEnv w true watchOnly r.2).map fun r' => (r.1 + r'.1, r'.2) := by
  rw [fetchBoth, if_pos (by decide)]
  cases fetch E.toWalletEnv w true spendable wtx with
  | none => rfl
  | some r =>
    show Option.bind (fetch E.toWalletEnv w true watchOnly r.2) _ = Option.map _ (fetch E.toWalletEnv w true watchOnly r.2)
    cases fetch E.toWalletEnv w true watchOnly r.2 <;> rfl

theorem get_getDebit_eq (h : InputsFit w wtx.tx) :
    (get E.toWalletEnv w wtx (.getDebit ismineSpendable)).map Prod.fst = some (nDebit E w wtx) := by
  rw [get, nDebit]
  cases hempty : wtx.tx.vin.isEmpty with
  | true => rfl
  | false =>
    have hfetch : (fetch E.toWalletEnv w true .debit wtx).map Prod.fst = _ := fetch_eq (getDebit_eq ismineSpendable h)
    rw [if_neg Bool.false_ne_true, if_neg Bool.false_ne_true, fetchBoth_spendable, ← hfetch, Option.map_map]
    exact congrFun (congrArg Option.map (funext fun r : Int × CWalletTx => add_zero r.1)) _

theorem get_getDebit_isSome (h : InputsFit w wtx.tx) :
    (get E.toWalletEnv w wtx (.getDebit ismineAll)).isSome = true := by
  rw [get]
  split_ifs
  · rfl
  · have hfetch : (fetch E.toWalletEnv w true .debit wtx).map Prod.fst = _ := fetch_eq (getDebit_eq ismineSpendable h)
    rcases Option.map_eq_some_iff.1 hfetch with ⟨r, hr, -⟩
    rw [← fetch_tx hr] at h
    have hfetch' : (fetch E.toWalletEnv w true .watchDebit r.2).map Prod.fst = _ :=
      fetch_eq (getDebit_eq ismineWatchOnly h)
    rcases Option.map_eq_some_iff.1 hfetch' with ⟨r', hr', -⟩
    rw [fetchBoth_all, hr, Option.bind_some, hr']
    rfl

/-- `IsTrusted` answers, and what it trusts is in the chain or in the pool. -/
theorem isTrusted_spec (hw : WellKept E w) (h : w.mapWallet.lookup hash = some wtx) :
    ∃ fTrusted, isTrusted E w wtx = some fTrusted ∧
      (fTrusted = true → getDepthInMainChain E.toWalletEnv w wtx ≥ 0) := by
  have hdistrusted : ∃ fTrusted, some false = some fTrusted ∧
      (fTrusted = true → getDepthInMainChain E.toWalletEnv w wtx ≥ 0) :=
    ⟨false, rfl, fun htrue => absurd htrue Bool.false_ne_true⟩
  unfold isTrusted
  dsimp only
  by_cases hfinal : isFinal E w wtx.tx = false
  · rwa [if_pos hfinal]
  · rw [if_neg hfinal]
    by_cases hdeep : getDepthInMainChain E.toWalletEnv w wtx ≥ 1
    · rw [if_pos hdeep]
      exact ⟨true, rfl, fun _ => (Int.zero_le_ofNat 1).trans hdeep⟩
    · rw [if_neg hdeep]
      by_cases hconflicted : getDepthInMainChain E.toWalletEnv w wtx < 0
      · rwa [if_pos hconflicted]
      · rw [if_neg hconflicted]
        by_cases hspend : E.fSpendZeroConfChange = false
        · rwa [if_pos hspend]
        · have hlive : isLive E.toWalletEnv w hash = true := by
            rw [isLive, h]
            exact decide_eq_true (not_lt.1 hconflicted)
          rcases Option.isSome_iff_exists.1 (get_getDebit_isSome (hw.inputs hash wtx h hlive)) with ⟨r, hr⟩
          rw [if_neg hspend, hr]
          exact ⟨_, rfl, fun _ => not_lt.1 hconflicted⟩

theorem isLive_of_counts (hw : WellKept E w) (h : counts E w hash = true) : isLive E.toWalletEnv w hash = true := by
  unfold counts at h
  unfold isLive
  cases hlookup : w.mapWallet.lookup hash with
  | none =>
    rw [hlookup] at h
    exact h
  | some wtx =>
    rw [hlookup] at h
    rcases Bool.and_eq_true_iff.1 h with ⟨htrusted, -⟩
    rcases isTrusted_spec hw hlookup with ⟨fTrusted, heq, hdepth⟩
    obtain rfl := Option.some.inj (heq.symm.trans (of_decide_eq_true htrusted))
    exact decide_eq_true (hdepth rfl)

/-! ## Amounts of one transaction -/

theorem zipIdx_filter_fst (l : List CTxOut) (p : CTxOut → Bool) :
    (l.zipIdx.filter fun o => p o.1).map Prod.fst = l.filter p := by
  have hfilter := List.filter_map (p := p) (f := Prod.fst) (l := l.zipIdx)
  rw [List.zipIdx_map_fst] at hfilter
  exact hfilter.symm

theorem sum_outputEntry (l : List (CTxOut × Nat)) :
    ((l.map (outputEntry E)).map COutputEntry.amount).sum = ((l.map Prod.fst).map fun o => o.nValue.toInt).sum := by
  rw [List.map_map, List.map_map]
  rfl

theorem addValuesOut_eq {outs : List CTxOut} (h : ∀ o ∈ outs, moneyRange o.nValue.toInt) : ∀ {n : Int}, 0 ≤ n →
    n + (outs.map fun o => o.nValue.toInt).sum ≤ maxMoney →
    addValuesOut n outs = .ok (n + (outs.map fun o => o.nValue.toInt).sum) := by
  induction outs with
  | nil => exact fun {n} _ _ => congrArg Except.ok (add_zero n).symm
  | cons o outs ih =>
    intro n hn hmax
    rw [List.map_cons, List.sum_cons, ← add_assoc] at hmax ⊢
    have ho := h o List.mem_cons_self
    have hrest : ∀ p ∈ outs, moneyRange p.nValue.toInt := fun p hp => h p (List.mem_cons_of_mem _ hp)
    have hsum : 0 ≤ (outs.map fun o => o.nValue.toInt).sum := List.sum_nonneg fun m hm => by
      rcases List.mem_map.1 hm with ⟨p, hp, rfl⟩
      exact (hrest p hp).1
    have hrange : moneyRange (n + o.nValue.toInt) := ⟨add_nonneg hn ho.1, (le_add_of_nonneg_right hsum).trans hmax⟩
    have hfits : fits64 (n + o.nValue.toInt) = .ok (n + o.nValue.toInt) := by
      have hsmall : maxMoney < 2 ^ 63 := by decide
      exact fits64_of hrange.1 (hrange.2.trans_lt hsmall)
    rw [addValuesOut, hfits]
    show (rejectIf (¬moneyRange o.nValue.toInt ∨ ¬moneyRange (n + o.nValue.toInt)) _).bind _ = _
    rw [rejectIf, if_neg (not_or.2 ⟨not_not.2 ho, not_not.2 hrange⟩)]
    exact ih hrest hrange.1 hmax

theorem getValueOut_eq {tx : CTransaction} (h : tx.Checked) : tx.getValueOut = .ok tx.valueOut := by
  have hsum : 0 + tx.valueOut ≤ maxMoney := (zero_add tx.valueOut).symm ▸ h.valueOut.2
  exact (addValuesOut_eq h.values (le_refl 0) hsum).trans (congrArg Except.ok (zero_add tx.valueOut))

/-- The lists of `GetAmounts`, once the debit and the fee are known. -/
theorem getAmounts_eq {r : Int × CWalletTx} {nFee : Int} {filter : IsMineFilter}
    (hdebit : get E.toWalletEnv w wtx (.getDebit filter) = some r)
    (hfee : (if r.1 > 0 then wtx.tx.getValueOut.toOption.map fun nValueOut => r.1 - nValueOut else some 0) = some nFee) :
    getAmounts E w wtx filter = some
      { listReceived := ((wtx.tx.vout.zipIdx.filter fun o => isListed E w filter r.1 o.1).filter fun o =>
          mine E.toWalletEnv w o.1 filter).map (outputEntry E)
        listSent := if r.1 > 0 then
          (wtx.tx.vout.zipIdx.filter fun o => isListed E w filter r.1 o.1).map (outputEntry E) else []
        nFee := nFee } := by
  rw [getAmounts, hdebit]
  show Option.bind (if r.1 > 0 then wtx.tx.getValueOut.toOption.map fun nValueOut => r.1 - nValueOut else some 0) _ = _
  rw [hfee]
  rfl

theorem isListed_eq (filter : IsMineFilter) (nDebit : Int) :
    (fun o : CTxOut × Nat => isListed E w filter nDebit o.1) =
      if nDebit > 0 then fun o => !isChange E w o.1 else fun o => mine E.toWalletEnv w o.1 filter := by
  unfold isListed
  split_ifs <;> rfl

/-- The amounts of a transaction, as `getbalance` adds them. -/
theorem getAmounts_spec (hchecked : wtx.tx.Checked) (hinputs : InputsFit w wtx.tx)
    (hlookup : w.mapWallet.lookup hash = some wtx) :
    ∃ a, getAmounts E w wtx ismineSpendable = some a ∧ a.received - a.sent - a.nFee =
      ((wtx.tx.vout.filter fun txout => mine E.toWalletEnv w txout ismineSpendable).map fun o => o.nValue.toInt).sum +
        watchedChangeOf E w hash - max (nDebit E w wtx) 0 := by
  rcases Option.map_eq_some_iff.1 (get_getDebit_eq (E := E) hinputs) with ⟨r, hr, hdebit⟩
  unfold watchedChangeOf
  rw [hlookup]
  dsimp only
  by_cases hpos : nDebit E w wtx > 0
  · refine ⟨_, getAmounts_eq hr (show _ = some (nDebit E w wtx - wtx.tx.valueOut) from ?_), ?_⟩
    · rw [hdebit, if_pos hpos, getValueOut_eq hchecked]
      rfl
    · rw [TxAmounts.received, TxAmounts.sent, hdebit, if_pos hpos, if_pos hpos, max_eq_left hpos.le, isListed_eq,
        if_pos hpos, sum_outputEntry, sum_outputEntry]
      have hlisted := zipIdx_filter_fst wtx.tx.vout fun txout => !isChange E w txout
      have hreceived : ((wtx.tx.vout.zipIdx.filter fun o => !isChange E w o.1).filter fun o =>
          mine E.toWalletEnv w o.1 ismineSpendable).map Prod.fst =
          (wtx.tx.vout.filter fun txout => !isChange E w txout).filter
            fun txout => mine E.toWalletEnv w txout ismineSpendable := by
        rw [List.filter_filter, List.filter_filter]
        exact zipIdx_filter_fst _ fun txout => mine E.toWalletEnv w txout ismineSpendable && !isChange E w txout
      have hsum := sum_listed wtx.tx.vout (fun txout => !isChange E w txout)
        (fun txout => mine E.toWalletEnv w txout ismineSpendable) fun o => o.nValue.toInt
      simp only [Bool.not_not] at hsum
      rw [hreceived, hlisted, CTransaction.valueOut]
      linarith
  · refine ⟨_, getAmounts_eq hr (show _ = some 0 from ?_), ?_⟩
    · rw [hdebit, if_neg hpos]
    · rw [TxAmounts.received, TxAmounts.sent, hdebit, if_neg hpos, if_neg hpos, max_eq_right (not_lt.1 hpos), isListed_eq,
        if_neg hpos, sum_outputEntry, List.filter_filter]
      simp only [Bool.and_self]
      rw [zipIdx_filter_fst _ fun txout => mine E.toWalletEnv w txout ismineSpendable]
      exact rfl

/-! ## Coins of one transaction -/

theorem sum_filter_eq {α : Type} (l : List α) (p : α → Bool) (f : α → Int) :
    ((l.filter p).map f).sum = (l.map fun x => if p x then f x else 0).sum := by
  induction l with
  | nil => rfl
  | cons x l ih =>
    rw [List.filter_cons, List.map_cons, List.sum_cons, ← ih]
    cases p x with
    | false => exact (zero_add _).symm
    | true => rw [if_pos rfl, if_pos rfl, List.map_cons, List.sum_cons]

theorem coinsMade_eq (h : w.mapWallet.lookup hash = some wtx) :
    w.coinsMade hash = wtx.tx.vout.zipIdx.map fun o => ⟨hash, UInt32.ofNat o.2⟩ := by
  rw [coinsMade, h]

theorem toNat_ofNat_index {l : List CTxOut} (hsize : l.length ≤ maxSize) {o : CTxOut × Nat} (h : o ∈ l.zipIdx) :
    (UInt32.ofNat o.2).toNat = o.2 := by
  have hlt : o.2 < l.length := (List.mem_zipIdx' h).1
  exact UInt32.toNat_ofNat_of_lt' (hlt.trans_le (hsize.trans (by decide)))

/-- The worth of a coin that has been made. -/
theorem coinValue_made (h : w.mapWallet.lookup hash = some wtx) (hsize : wtx.tx.vout.length ≤ maxSize)
    {o : CTxOut × Nat} (hin : o ∈ wtx.tx.vout.zipIdx) :
    coinValue E w ⟨hash, UInt32.ofNat o.2⟩ =
      if mine E.toWalletEnv w o.1 ismineSpendable then o.1.nValue.toInt else 0 := by
  have hprev : w.prevOut ⟨⟨hash, UInt32.ofNat o.2⟩, [], 0⟩ = some o.1 := by
    show (w.mapWallet.lookup hash).bind (fun prev => prev.tx.vout[(UInt32.ofNat o.2).toNat]?) = some o.1
    rw [h, Option.bind_some, toNat_ofNat_index hsize hin]
    exact List.mk_mem_zipIdx_iff_getElem?.1 hin
  rw [coinValue, debitOf, hprev]

theorem total_coinsMade (h : w.mapWallet.lookup hash = some wtx) (hsize : wtx.tx.vout.length ≤ maxSize) :
    total (coinValue E w) (w.coinsMade hash) =
      ((wtx.tx.vout.filter fun txout => mine E.toWalletEnv w txout ismineSpendable).map fun o => o.nValue.toInt).sum := by
  have hworth : wtx.tx.vout.zipIdx.map (fun o => coinValue E w ⟨hash, UInt32.ofNat o.2⟩) =
      wtx.tx.vout.zipIdx.map fun o => if mine E.toWalletEnv w o.1 ismineSpendable then o.1.nValue.toInt else 0 :=
    List.map_congr_left fun o hin => coinValue_made h hsize hin
  have houtputs : wtx.tx.vout.zipIdx.map (fun o => if mine E.toWalletEnv w o.1 ismineSpendable then o.1.nValue.toInt
      else 0) = wtx.tx.vout.map fun txout => if mine E.toWalletEnv w txout ismineSpendable then txout.nValue.toInt
      else 0 := by
    conv_rhs => rw [← List.zipIdx_map_fst 0 wtx.tx.vout, List.map_map]
    rfl
  rw [total, coinsMade_eq h, List.map_map, sum_filter_eq, ← houtputs, ← hworth]
  rfl

theorem unspentValue_eq (hw : WellKept E w) (h : w.mapWallet.lookup hash = some wtx) :
    unspentValue E w hash = ((wtx.tx.vout.zipIdx.filter fun o =>
      !isSpent E.toWalletEnv w ⟨wtx.tx.getHash E.H, UInt32.ofNat o.2⟩).map fun o =>
        if mine E.toWalletEnv w o.1 ismineSpendable then o.1.nValue.toInt else 0).sum := by
  rw [unspentValue, total, coinsMade_eq h, List.filter_map, List.map_map, hw.keyed hash wtx h]
  refine congrArg List.sum (List.map_congr_left fun o hin => ?_)
  exact coinValue_made h (hw.sizes hash wtx h) (List.mem_filter.1 hin).1

/-- `GetAvailableCredit`, when nothing is kept. -/
theorem getUnspentCredit_eq (hw : WellKept E w) (h : w.mapWallet.lookup hash = some wtx)
    (hlive : isLive E.toWalletEnv w hash = true) :
    getUnspentCredit E.toWalletEnv w wtx.tx ismineSpendable = some (unspentValue E w hash) := by
  have hchecked := hw.checked hash wtx h hlive
  have hvalues : ∀ o ∈ wtx.tx.vout.zipIdx, moneyRange o.1.nValue.toInt := fun o hin =>
    hchecked.values o.1 (List.fst_mem_of_mem_zipIdx hin)
  have hcredit : (unspentOutputs E.toWalletEnv w wtx.tx).map (creditOf E.toWalletEnv w ismineSpendable) =
      ((wtx.tx.vout.zipIdx.filter fun o => !isSpent E.toWalletEnv w ⟨wtx.tx.getHash E.H, UInt32.ofNat o.2⟩).map fun o =>
        if mine E.toWalletEnv w o.1 ismineSpendable then o.1.nValue.toInt else 0).map some := by
    rw [unspentOutputs, List.map_map, List.map_map]
    exact List.map_congr_left fun o hin => if_pos (hvalues o (List.mem_filter.1 hin).1)
  have hbound : unspentValue E w hash ≤ wtx.tx.valueOut := by
    have houtputs : wtx.tx.valueOut = (wtx.tx.vout.zipIdx.map fun o => o.1.nValue.toInt).sum := by
      conv_lhs => rw [CTransaction.valueOut, ← List.zipIdx_map_fst 0 wtx.tx.vout, List.map_map]
      rfl
    rw [unspentValue_eq hw h, houtputs]
    refine sum_filter_le fun o hin => ⟨?_, (hvalues o hin).1⟩
    split_ifs
    · exact le_refl _
    · exact (hvalues o hin).1
  rw [getUnspentCredit, hcredit, sumMoney_eq (fun n hn => ?_) (le_refl 0), zero_add, unspentValue_eq hw h]
  · rw [zero_add, ← unspentValue_eq hw h]
    exact hbound.trans hchecked.valueOut.2
  · rcases List.mem_map.1 hn with ⟨o, hin, rfl⟩
    split_ifs
    · exact (hvalues o (List.mem_filter.1 hin).1).1
    · exact le_refl 0

/-! ## The two loops -/

theorem immature_of_maturity (h : getBlocksToMaturity E.toWalletEnv w wtx > 0) :
    immature E.toWalletEnv w wtx = true := by
  refine Bool.and_eq_true_iff.2 ⟨?_, decide_eq_true h⟩
  rw [getBlocksToMaturity] at h
  split_ifs at h with hcoinbase
  · exact absurd h (lt_irrefl 0)
  · exact (Bool.not_eq_false _).mp hcoinbase

/-- `counts` is what the loops ask. -/
theorem counts_spec (hw : WellKept E w) (h : w.mapWallet.lookup hash = some wtx) :
    ∃ fTrusted, isTrusted E w wtx = some fTrusted ∧
      (counts E w hash = true ↔ fTrusted = true ∧ getBlocksToMaturity E.toWalletEnv w wtx ≤ 0) ∧
      (fTrusted = true → isLive E.toWalletEnv w hash = true ∧ getDepthInMainChain E.toWalletEnv w wtx ≥ 0) := by
  rcases isTrusted_spec hw h with ⟨fTrusted, heq, hdepth⟩
  refine ⟨fTrusted, heq, ?_, fun htrusted => ⟨?_, hdepth htrusted⟩⟩
  · rw [counts, h]
    dsimp only
    rw [Bool.and_eq_true_iff, decide_eq_true_iff, decide_eq_true_iff, heq, Option.some.injEq]
  · rw [isLive, h]
    exact decide_eq_true (hdepth htrusted)

/-- What `getbalance` adds for a transaction. -/
def flowOf (E : BalanceEnv) (w : WalletNode) (hash : UInt256) : Int :=
  match w.mapWallet.lookup hash with
  | none => 0
  | some wtx => total (coinValue E w) (w.coinsMade hash) + watchedChangeOf E w hash - max (nDebit E w wtx) 0

/-- What `GetBalance` adds. -/
def availableOf (E : BalanceEnv) (w : WalletNode) (hash : UInt256) : Int :=
  match w.mapWallet.lookup hash with
  | none => 0
  | some wtx => (wtx.cached .availableCredit).getD (unspentValue E w hash)

theorem addAmounts_eq (hw : WellKept E w) (nBalance : Int) (hash : UInt256) :
    addAmounts E w 0 ismineSpendable nBalance hash = some (nBalance + if counts E w hash then flowOf E w hash else 0) := by
  unfold addAmounts
  cases hlookup : w.mapWallet.lookup hash with
  | none =>
    have hcounts : counts E w hash = false := by rw [counts, hlookup]
    rw [hcounts, if_neg Bool.false_ne_true, add_zero]
  | some wtx =>
    rcases counts_spec hw hlookup with ⟨fTrusted, htrusted, hcounts, hlive⟩
    dsimp only
    rw [htrusted]
    show (if fTrusted = false ∨ getBlocksToMaturity E.toWalletEnv w wtx > 0 then some nBalance else _) = _
    by_cases hskip : fTrusted = false ∨ getBlocksToMaturity E.toWalletEnv w wtx > 0
    · have hnot : ¬counts E w hash = true := fun htrue => by
        rcases hcounts.1 htrue with ⟨hyes, hmature⟩
        rcases hskip with hno | himmature
        · exact Bool.false_ne_true (hno.symm.trans hyes)
        · exact absurd hmature (not_le.2 himmature)
      rw [if_pos hskip, if_neg hnot, add_zero]
    · rcases not_or.1 hskip with ⟨hyes, hmature⟩
      have htrue := (Bool.not_eq_false _).mp hyes
      rcases hlive htrue with ⟨hlive, hdepth⟩
      rcases getAmounts_spec (E := E) (hw.checked hash wtx hlookup hlive) (hw.inputs hash wtx hlookup hlive) hlookup with
        ⟨a, hamounts, hsum⟩
      rw [if_neg hskip, if_pos (hcounts.2 ⟨htrue, not_lt.1 hmature⟩), hamounts, Option.map_some, if_pos hdepth, flowOf, hlookup]
      dsimp only
      rw [total_coinsMade hlookup (hw.sizes hash wtx hlookup), ← hsum]
      exact congrArg some (by ring)

theorem addAvailable_eq (hw : WellKept E w) (nTotal : Int) (hash : UInt256) :
    addAvailable E w nTotal hash = some (nTotal + if counts E w hash then availableOf E w hash else 0) := by
  unfold addAvailable
  cases hlookup : w.mapWallet.lookup hash with
  | none =>
    have hcounts : counts E w hash = false := by rw [counts, hlookup]
    rw [hcounts, if_neg Bool.false_ne_true, add_zero]
  | some wtx =>
    rcases counts_spec hw hlookup with ⟨fTrusted, htrusted, hcounts, hlive⟩
    dsimp only
    rw [htrusted]
    show (if fTrusted = true then _ else some nTotal) = _
    by_cases hyes : fTrusted = true
    · rw [if_pos hyes, get]
      by_cases hmature : getBlocksToMaturity E.toWalletEnv w wtx > 0
      · rw [if_pos (immature_of_maturity hmature), if_neg fun htrue => absurd (hcounts.1 htrue).2 (not_le.2 hmature)]
        rfl
      · have hmatured : ¬immature E.toWalletEnv w wtx = true := fun himmature =>
          hmature (of_decide_eq_true (Bool.and_eq_true_iff.1 himmature).2)
        have hfetch : (fetch E.toWalletEnv w true .availableCredit wtx).map Prod.fst = _ :=
          fetch_eq (getUnspentCredit_eq hw hlookup (hlive hyes).1)
        rw [if_neg hmatured, if_pos (hcounts.2 ⟨hyes, not_lt.1 hmature⟩), availableOf, hlookup]
        rcases Option.map_eq_some_iff.1 hfetch with ⟨r, hr, hvalue⟩
        rw [hr, Option.map_some, hvalue]
    · rw [if_neg hyes, if_neg fun htrue => hyes (hcounts.1 htrue).1, add_zero]

end

end Dobbscoin.WalletNode
