import Dobbscoin.Net.OrphanRuns
import Dobbscoin.Wallet.Freshness

/-!
# Transactions that go back to the pool

`ReacceptWalletTransactions` of `wallet.cpp` goes through `mapWallet` once, in the order of the transaction ids.
-/

namespace Dobbscoin

open Backlog CTxMemPool

/-! ## What the checks see -/

/-- The coins that `HaveCoins` and `HaveInputs` have put into the cache for a transaction. -/
def CoinsView.inputsOf (view : CoinsView) (tx : CTransaction) : CoinsView where
  coins txid := if txid ∈ tx.vin.map (fun txin => txin.prevout.hash) then view.coins txid else none
  hashBlock := view.hashBlock
  unspent := by
    intro txid c hc
    split_ifs at hc
    exact view.unspent txid c hc

/-- `SetBackend(dummy)`: before the checks, the view is cut off from the chain and the pool. -/
def TxEnv.cutOff (rules : TxEnv) : TxEnv :=
  { rules with checkPolicy := fun tx view => rules.checkPolicy tx (view.inputsOf tx) }

/-- One call after the other, until one fails. -/
def acceptAll (rules : TxEnv) : CTxMemPool → List CTransaction → Option CTxMemPool
  | pool, [] => some pool
  | pool, tx :: txs =>
    match acceptToMemoryPool rules pool tx with
    | .accepted pool => acceptAll rules pool txs
    | .missingInputs | .rejected _ => none

namespace WalletNode

variable (E : WalletEnv) (rules : TxEnv) (fWrites : UInt256 → Bool) (w : WalletNode)

/-- The order of `mapWallet`, a `std::map`. -/
def walletOrder : List UInt256 :=
  w.mapWallet.keys.mergeSort fun a b => a.toNat ≤ b.toNat

/-- What is to be put into the pool for an entry. -/
def toReaccept (wtxid : UInt256) : Option CTransaction :=
  match w.mapWallet.lookup wtxid with
  | none => none
  | some wtx => if wtx.tx.isCoinBase = false ∧ getDepthInMainChain E w wtx < 0 then some wtx.tx else none

/-- One pass of the loop. -/
def reacceptOne (w : WalletNode) (wtxid : UInt256) : Option WalletNode :=
  match toReaccept E w wtxid with
  | none => some w
  | some tx => (acceptTransaction E w rules.cutOff fWrites tx).map Prod.snd

def reacceptWalletTransactions : Option WalletNode :=
  w.walletOrder.foldlM (reacceptOne E rules fWrites) w

/-- The transactions of the wallet that are neither in the chain nor in the pool. -/
def unconfirmed : List CTransaction :=
  w.walletOrder.filterMap (toReaccept E w)

end WalletNode

/-! ## Transactions that some order accepts -/

/-- The rules, with the hash function of the wallet. -/
abbrev TxEnv.under (rules : TxEnv) (H : Crypto) : TxEnv :=
  { rules.cutOff with H := H }

variable {R : TxEnv} {txs held held' : List CTransaction} {tx : CTransaction}

/-- What is known of transactions that one order accepts. -/
structure Acceptable (R : TxEnv) (txs : List CTransaction) : Prop where
  distinct : (txs.map (CTransaction.getHash R.H)).Nodup
  fit : ∀ tx ∈ txs, tx.FitFor R ∧ R.pcoinsTip.coins (tx.getHash R.H) = none
  apart : ∀ a ∈ txs, ∀ b ∈ txs, a ≠ b → ∀ txin ∈ a.vin, ∀ txin' ∈ b.vin, txin.prevout ≠ txin'.prevout
  accepted : ∀ tx ∈ txs, ∃ before ⊆ txs, before.Nodup ∧ tx ∉ before ∧ (∀ b ∈ txs, Spends R tx b → b ∈ before) ∧
    ∃ pool, acceptToMemoryPool R (ofList R.H before) tx = .accepted pool

theorem accepted_passes {pool pool' : CTxMemPool} (h : acceptToMemoryPool R pool tx = .accepted pool') :
    pool.has (tx.getHash R.H) = false ∧ (∀ txin ∈ tx.vin, pool.mapNextTx.lookup txin.prevout = none) ∧
      (∀ txin ∈ tx.vin, ((pool.view R.pcoinsTip).coins txin.prevout.hash).isSome) ∧
      (pool.view R.pcoinsTip).haveInputs tx = true ∧ R.checkPolicy tx (pool.view R.pcoinsTip) = .ok () := by
  unfold acceptToMemoryPool at h
  split at h
  · cases h
  · split_ifs at h with hcoinbase hstandard hexists hconflict hhave hmissing hinputs
    split at h
    · cases h
    · rename_i hpolicy
      refine ⟨by simpa using hexists, fun txin hin => ?_, fun txin hin => ?_, by simpa using hinputs, hpolicy⟩
      · rw [← Option.not_isSome_iff_eq_none]
        exact fun hsome => hconflict (List.any_eq_true.2 ⟨txin, hin, hsome⟩)
      · rw [Option.isSome_iff_ne_none]
        exact fun hnone => hmissing (List.any_eq_true.2 ⟨txin, hin, by rw [hnone]; rfl⟩)

/-- These checks are all there are. -/
theorem accept_of_checks {pool : CTxMemPool} (hfit : tx.FitFor R) (hfresh : pool.has (tx.getHash R.H) = false)
    (hapart : ∀ txin ∈ tx.vin, pool.mapNextTx.lookup txin.prevout = none)
    (hnone : (pool.view R.pcoinsTip).coins (tx.getHash R.H) = none)
    (hcoins : ∀ txin ∈ tx.vin, ((pool.view R.pcoinsTip).coins txin.prevout.hash).isSome)
    (hinputs : (pool.view R.pcoinsTip).haveInputs tx = true)
    (hpolicy : R.checkPolicy tx (pool.view R.pcoinsTip) = .ok ()) :
    acceptToMemoryPool R pool tx = .accepted (pool.addUnchecked R.H tx) := by
  rcases hfit with ⟨hcheck, hcoinbase, hstandard⟩
  have hconflict : ¬ tx.vin.any (fun txin => (pool.mapNextTx.lookup txin.prevout).isSome) = true := by
    rw [List.any_eq_true]
    rintro ⟨txin, hin, hsome⟩
    rw [hapart txin hin] at hsome
    cases hsome
  have hmissing : ¬ tx.vin.any (fun txin => ((pool.view R.pcoinsTip).coins txin.prevout.hash).isNone) = true := by
    rw [List.any_eq_true]
    rintro ⟨txin, hin, hisNone⟩
    have hsome := hcoins txin hin
    rw [Option.isNone_iff_eq_none.1 hisNone] at hsome
    cases hsome
  simp only [acceptToMemoryPool, hcheck, hcoinbase, hstandard, hfresh, hnone, hinputs, hpolicy, Option.isSome_none,
    Bool.false_eq_true, Bool.true_eq_false, if_false, if_neg hconflict, if_neg hmissing]

/-- The checks are about the coins that are spent, not about the rest of the view. -/
def TxEnv.Local (R : TxEnv) : Prop :=
  ∀ (tx : CTransaction) (view view' : CoinsView), view'.hashBlock = view.hashBlock →
    (∀ txin ∈ tx.vin, view'.coins txin.prevout.hash = view.coins txin.prevout.hash) →
    R.checkPolicy tx view' = R.checkPolicy tx view

theorem local_under (rules : TxEnv) (H : Crypto) : (rules.under H).Local := by
  intro tx view view' hblock hcoins
  have hsame : view'.inputsOf tx = view.inputsOf tx := by
    refine CoinsView.ext (fun txid => ?_) hblock
    simp only [CoinsView.inputsOf]
    split_ifs with hin
    · rcases List.mem_map.1 hin with ⟨txin, htxin, rfl⟩
      exact hcoins txin htxin
    · rfl
  show rules.checkPolicy tx (view'.inputsOf tx) = rules.checkPolicy tx (view.inputsOf tx)
  rw [hsame]

theorem haveInputs_congr {view view' : CoinsView}
    (hcoins : ∀ txin ∈ tx.vin, view'.coins txin.prevout.hash = view.coins txin.prevout.hash) :
    view'.haveInputs tx = view.haveInputs tx := by
  have houtput : ∀ txin ∈ tx.vin, view'.outputAt txin.prevout = view.outputAt txin.prevout := fun txin hin => by
    rw [CoinsView.outputAt, CoinsView.outputAt, hcoins txin hin]
  rw [CoinsView.haveInputs, CoinsView.haveInputs]
  refine congrArg _ ?_
  rw [Bool.eq_iff_iff, List.all_eq_true, List.all_eq_true]
  exact forall₂_congr fun txin hin => by rw [houtput txin hin]

namespace Acceptable

theorem hash_inj (h : Acceptable R txs) {a b : CTransaction} (ha : a ∈ txs) (hb : b ∈ txs)
    (heq : a.getHash R.H = b.getHash R.H) : a = b :=
  List.inj_on_of_nodup_map h.distinct ha hb heq

theorem map_nodup (h : Acceptable R txs) (hsub : held ⊆ txs) (hnodup : held.Nodup) :
    (held.map (CTransaction.getHash R.H)).Nodup :=
  hnodup.map_on fun _ ha _ hb heq => h.hash_inj (hsub ha) (hsub hb) heq

theorem has_iff (h : Acceptable R txs) (hsub : held ⊆ txs) (hnodup : held.Nodup) (htx : tx ∈ txs) :
    (ofList R.H held).has (tx.getHash R.H) = true ↔ tx ∈ held := by
  rw [has, Option.isSome_iff_exists]
  constructor
  · rintro ⟨tx', hmap⟩
    rcases (ofList_mapTx (h.map_nodup hsub hnodup) _ _).1 hmap with ⟨hin, heq⟩
    rwa [← h.hash_inj (hsub hin) htx heq]
  · exact fun hin => ⟨tx, (ofList_mapTx (h.map_nodup hsub hnodup) _ _).2 ⟨hin, rfl⟩⟩

/-- Pools that both have what `tx` needs show the same coins to it. -/
theorem coins_congr (h : Acceptable R txs) (hsub : held ⊆ txs) (hnodup : held.Nodup) (hsub' : held' ⊆ txs)
    (hnodup' : held'.Nodup) (hneeds : ∀ b ∈ txs, Spends R tx b → b ∈ held)
    (hneeds' : ∀ b ∈ txs, Spends R tx b → b ∈ held') {txin : CTxIn} (hin : txin ∈ tx.vin) :
    ((ofList R.H held').view R.pcoinsTip).coins txin.prevout.hash =
      ((ofList R.H held).view R.pcoinsTip).coins txin.prevout.hash := by
  have hlookup : (ofList R.H held').mapTx.lookup txin.prevout.hash = (ofList R.H held).mapTx.lookup txin.prevout.hash := by
    apply Option.ext
    intro b
    rw [ofList_mapTx (h.map_nodup hsub' hnodup'), ofList_mapTx (h.map_nodup hsub hnodup)]
    constructor
    · rintro ⟨hb, heq⟩
      exact ⟨hneeds b (hsub' hb) ⟨txin, hin, heq.symm⟩, heq⟩
    · rintro ⟨hb, heq⟩
      exact ⟨hneeds' b (hsub hb) ⟨txin, hin, heq.symm⟩, heq⟩
  simp only [CTxMemPool.view, hlookup]

/-- A transaction is accepted when what it needs is there, whatever else is. -/
theorem accept_of_needs (h : Acceptable R txs) (hlocal : R.Local) (hsub : held ⊆ txs) (hnodup : held.Nodup)
    (htx : tx ∈ txs) (hfresh : tx ∉ held) (hneeds : ∀ b ∈ txs, Spends R tx b → b ∈ held) :
    acceptToMemoryPool R (ofList R.H held) tx = .accepted (ofList R.H (held ++ [tx])) := by
  rcases h.accepted tx htx with ⟨before, hsub', hnodup', -, hneeds', pool, haccepted⟩
  rcases accepted_passes haccepted with ⟨-, -, hcoins, hinputs, hpolicy⟩
  have hsame : ∀ txin ∈ tx.vin, ((ofList R.H held).view R.pcoinsTip).coins txin.prevout.hash =
      ((ofList R.H before).view R.pcoinsTip).coins txin.prevout.hash := fun txin hin =>
    h.coins_congr hsub' hnodup' hsub hnodup hneeds' hneeds hin
  have hhas : (ofList R.H held).has (tx.getHash R.H) = false :=
    (Bool.not_eq_true _).mp (mt (h.has_iff hsub hnodup htx).1 hfresh)
  rw [ofList_concat]
  refine accept_of_checks (h.fit tx htx).1 hhas (fun txin hin => ?_) ?_ (fun txin hin => ?_) ?_ ?_
  · rw [← Option.not_isSome_iff_eq_none, ofList_mapNextTx]
    rintro ⟨a, ha, txin', hin', heq⟩
    exact h.apart tx htx a (hsub ha) (fun hsame => hfresh (hsame ▸ ha)) txin hin txin' hin' heq.symm
  · rw [view_coins hhas, (h.fit tx htx).2]
  · rw [hsame txin hin]
    exact hcoins txin hin
  · rw [haveInputs_congr hsame]
    exact hinputs
  · rw [hlocal tx ((ofList R.H before).view R.pcoinsTip) ((ofList R.H held).view R.pcoinsTip) rfl hsame]
    exact hpolicy

/-- Without its parents it is not. -/
theorem needs_of_accept (h : Acceptable R txs) (hsub : held ⊆ txs) (hnodup : held.Nodup) {pool : CTxMemPool}
    (haccepted : acceptToMemoryPool R (ofList R.H held) tx = .accepted pool) :
    ∀ b ∈ txs, Spends R tx b → b ∈ held := by
  rintro b hb ⟨txin, hin, heq⟩
  by_contra hnot
  have hhas : (ofList R.H held).has (b.getHash R.H) = false :=
    (Bool.not_eq_true _).mp (mt (h.has_iff hsub hnodup hb).1 hnot)
  have hsome := (accepted_passes haccepted).2.2.1 txin hin
  rw [heq, view_coins hhas, (h.fit b hb).2] at hsome
  cases hsome

end Acceptable

/-! ## From an order to what it shows -/

theorem acceptAll_append {pool pool' : CTxMemPool} {front back : List CTransaction}
    (h : acceptAll R pool (front ++ back) = some pool') :
    ∃ between, acceptAll R pool front = some between ∧ acceptAll R between back = some pool' := by
  induction front generalizing pool with
  | nil => exact ⟨pool, rfl, h⟩
  | cons tx front ih =>
    rw [List.cons_append, acceptAll] at h
    cases haccepted : acceptToMemoryPool R pool tx with
    | accepted next =>
      rw [haccepted] at h
      rcases ih h with ⟨between, hfront, hback⟩
      exact ⟨between, by rw [acceptAll, haccepted]; exact hfront, hback⟩
    | missingInputs =>
      rw [haccepted] at h
      cases h
    | rejected nDoS =>
      rw [haccepted] at h
      cases h

theorem acceptAll_eq {front : List CTransaction} {pool : CTxMemPool} (h : acceptAll R .empty front = some pool) :
    pool = ofList R.H front := by
  induction front using List.reverseRecOn generalizing pool with
  | nil => exact (Option.some.inj h).symm
  | append_singleton front tx ih =>
    rcases acceptAll_append h with ⟨between, hfront, hlast⟩
    rw [acceptAll] at hlast
    cases haccepted : acceptToMemoryPool R between tx with
    | accepted next =>
      rw [haccepted] at hlast
      obtain rfl := Option.some.inj hlast
      rw [(accepted_checks haccepted).2.2, ih hfront, ofList_concat]
    | missingInputs =>
      rw [haccepted] at hlast
      cases hlast
    | rejected nDoS =>
      rw [haccepted] at hlast
      cases hlast

theorem acceptAll_at {front back : List CTransaction} {pool : CTxMemPool}
    (h : acceptAll R .empty (front ++ tx :: back) = some pool) :
    ∃ next, acceptToMemoryPool R (ofList R.H front) tx = .accepted next := by
  rcases acceptAll_append h with ⟨between, hfront, hback⟩
  rw [acceptAll_eq hfront, acceptAll] at hback
  cases haccepted : acceptToMemoryPool R (ofList R.H front) tx with
  | accepted next => exact ⟨next, rfl⟩
  | missingInputs =>
    rw [haccepted] at hback
    cases hback
  | rejected nDoS =>
    rw [haccepted] at hback
    cases hback

/-- What has been accepted in some order can be accepted whenever its parents are there. -/
theorem acceptable_of_order {order : List CTransaction} (hdistinct : (order.map (CTransaction.getHash R.H)).Nodup)
    (h : (acceptAll R .empty order).isSome) : Acceptable R order := by
  rcases Option.isSome_iff_exists.1 h with ⟨pool, hpool⟩
  have hat : ∀ front tx back, order = front ++ tx :: back →
      ∃ next, acceptToMemoryPool R (ofList R.H front) tx = .accepted next := by
    rintro front tx back rfl
    exact acceptAll_at hpool
  have hfit : ∀ tx ∈ order, tx.FitFor R ∧ R.pcoinsTip.coins (tx.getHash R.H) = none := by
    intro tx htx
    rcases List.append_of_mem htx with ⟨front, back, hsplit⟩
    rcases hat front tx back hsplit with ⟨next, haccepted⟩
    rcases accepted_checks haccepted with ⟨hchecks, hnone, -⟩
    rw [view_coins (accepted_passes haccepted).1] at hnone
    exact ⟨hchecks, hnone⟩
  -- The later one of two transactions has been accepted while the earlier one was there.
  have hapart : ∀ front a back, order = front ++ a :: back → ∀ b ∈ front, ∀ txin ∈ a.vin, ∀ txin' ∈ b.vin,
      txin.prevout ≠ txin'.prevout := by
    intro front a back hsplit b hb txin hin txin' hin' heq
    rcases hat front a back hsplit with ⟨next, haccepted⟩
    have hnone := (accepted_passes haccepted).2.1 txin hin
    have hsome := (ofList_mapNextTx R.H txin.prevout front).2 ⟨b, hb, txin', hin', heq.symm⟩
    rw [hnone] at hsome
    cases hsome
  have hfront : ∀ front tx back, order = front ++ tx :: back → (front.map (CTransaction.getHash R.H)).Nodup ∧
      ∀ b ∈ front, b.getHash R.H ≠ tx.getHash R.H := by
    rintro front tx back rfl
    rw [List.map_append, List.map_cons, List.nodup_append] at hdistinct
    exact ⟨hdistinct.1, fun b hb => hdistinct.2.2 _ (List.mem_map_of_mem hb) _ List.mem_cons_self⟩
  refine ⟨hdistinct, hfit, fun a ha b hb hne txin hin txin' hin' => ?_, fun tx htx => ?_⟩
  · rcases List.append_of_mem ha with ⟨front, back, hsplit⟩
    rw [hsplit] at hb
    rcases List.mem_append.1 hb with hb | hb
    · exact hapart front a back hsplit b hb txin hin txin' hin'
    · rcases List.mem_cons.1 hb with rfl | hb
      · exact absurd rfl hne
      · rcases List.append_of_mem hb with ⟨between, rest, rfl⟩
        have hlater : order = (front ++ a :: between) ++ b :: rest := by rw [hsplit, List.append_assoc, List.cons_append]
        have ha' : a ∈ front ++ a :: between := List.mem_append_right _ List.mem_cons_self
        exact (hapart _ b rest hlater a ha' txin' hin' txin hin).symm
  · rcases List.append_of_mem htx with ⟨front, back, hsplit⟩
    rcases hat front tx back hsplit with ⟨next, haccepted⟩
    rcases hfront front tx back hsplit with ⟨hnodup, hother⟩
    refine ⟨front, fun b hb => ?_, hnodup.of_map _, fun hin => hother tx hin rfl, ?_, next, haccepted⟩
    · rw [hsplit]
      exact List.mem_append_left _ hb
    · rintro b hb ⟨txin, hin, heq⟩
      have hsome := (accepted_passes haccepted).2.2.1 txin hin
      by_contra hnot
      -- A parent that is neither in the pool nor in the chain has no coins.
      have hlookup : (ofList R.H front).has (b.getHash R.H) = false := by
        rw [has_eq_false, Option.eq_none_iff_forall_ne_some]
        intro c hc
        rcases (ofList_mapTx hnodup _ c).1 hc with ⟨hcfront, hhash⟩
        have hcorder : c ∈ order := by
          rw [hsplit]
          exact List.mem_append_left _ hcfront
        exact hnot (List.inj_on_of_nodup_map hdistinct hcorder hb hhash ▸ hcfront)
      rw [heq, view_coins hlookup, (hfit b hb).2] at hsome
      cases hsome

end Dobbscoin
