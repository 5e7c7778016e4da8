import Dobbscoin.Wallet.Reaccept

/-!
# The loop over mapWallet

The pool after `ReacceptWalletTransactions` is a single pass of `Lib/Backlog.lean` over the transactions that are not
confirmed.
-/

namespace Dobbscoin

open Backlog CTxMemPool

namespace WalletNode

variable {E : WalletEnv} {rules : TxEnv} {fWrites : UInt256 → Bool} {w w' w'' : WalletNode} {tx : CTransaction}

/-! ## What a transaction of the wallet leaves as it is -/

/-- `mapWallet` up to the amounts that are kept in it. -/
structure SameEntries (w w' : WalletNode) : Prop where
  entry : ∀ hash, (w'.mapWallet.lookup hash).map uncached = (w.mapWallet.lookup hash).map uncached
  chain : w'.chainActive = w.chainActive

theorem SameEntries.refl (w : WalletNode) : SameEntries w w :=
  ⟨fun _ => rfl, rfl⟩

theorem SameEntries.trans (h : SameEntries w w') (h' : SameEntries w' w'') : SameEntries w w'' :=
  ⟨fun hash => (h'.entry hash).trans (h.entry hash), h'.chain.trans h.chain⟩

theorem sameEntries_insert {hash : UInt256} {wtx wtx' : CWalletTx} (hlookup : w.mapWallet.lookup hash = some wtx)
    (hsame : uncached wtx' = uncached wtx) :
    SameEntries w { w with mapWallet := w.mapWallet.insert hash wtx' } := by
  refine ⟨fun hash' => ?_, rfl⟩
  show ((w.mapWallet.insert hash wtx').lookup hash').map uncached = _
  by_cases heq : hash' = hash
  · subst heq
    rw [AList.lookup_insert, hlookup, Option.map_some, Option.map_some, hsame]
  · rw [AList.lookup_insert_ne heq]

theorem markDirtyAt_spec (w : WalletNode) (hash : UInt256) :
    SameEntries w (w.markDirtyAt hash) ∧ (w.markDirtyAt hash).mempool = w.mempool := by
  unfold markDirtyAt
  cases hlookup : w.mapWallet.lookup hash with
  | none => exact ⟨.refl w, rfl⟩
  | some wtx => exact ⟨sameEntries_insert hlookup rfl, rfl⟩

theorem markDirtyInputs_spec (vin : List CTxIn) (w : WalletNode) :
    SameEntries w (vin.foldl (fun w txin => w.markDirtyAt txin.prevout.hash) w) ∧
      (vin.foldl (fun w txin => w.markDirtyAt txin.prevout.hash) w).mempool = w.mempool := by
  induction vin generalizing w with
  | nil => exact ⟨.refl w, rfl⟩
  | cons txin vin ih =>
    rcases markDirtyAt_spec w txin.prevout.hash with ⟨hsame, hpool⟩
    rcases ih (w.markDirtyAt txin.prevout.hash) with ⟨hrest, hrestPool⟩
    exact ⟨hsame.trans hrest, hrestPool.trans hpool⟩

/-- A transaction that is in no block changes nothing in its own entry. -/
theorem merge_ofTx (tx : CTransaction) (wtx : CWalletTx) : merge (.ofTx tx) wtx = (wtx, false) := by
  simp [merge, CWalletTx.ofTx]

/-- `SyncTransaction` for a transaction that the wallet has. -/
theorem syncTransaction_known {wtx : CWalletTx} (hlookup : w.mapWallet.lookup (tx.getHash E.H) = some wtx) :
    ∃ w', syncTransaction E fWrites none w tx = some w' ∧ SameEntries w w' ∧ w'.mempool = w.mempool := by
  have hadd : addToWalletIfInvolvingMe E w tx none (fWrites (tx.getHash E.H)) =
      some (true, { w with mapWallet := w.mapWallet.insert (tx.getHash E.H) wtx.markDirty }) := by
    have hwallet : addToWallet E w (.ofTx tx) (fWrites (tx.getHash E.H)) =
        (true, { w with mapWallet := w.mapWallet.insert (tx.getHash E.H) wtx.markDirty }) := by
      have hentry : w.mapWallet.lookup ((CWalletTx.ofTx tx).tx.getHash E.H) = some wtx := hlookup
      rw [addToWallet]
      dsimp only
      rw [hentry]
      dsimp only
      rw [merge_ofTx]
      rfl
    simp [addToWalletIfInvolvingMe, hlookup, hwallet]
  have hinsert : SameEntries w { w with mapWallet := w.mapWallet.insert (tx.getHash E.H) wtx.markDirty } :=
    sameEntries_insert hlookup rfl
  rcases markDirtyInputs_spec tx.vin { w with mapWallet := w.mapWallet.insert (tx.getHash E.H) wtx.markDirty } with
    ⟨hsame, hpool⟩
  refine ⟨_, ?_, hinsert.trans hsame, hpool⟩
  rw [syncTransaction, hadd]
  rfl

/-- `AcceptToMemoryPool` for a transaction that the wallet has. -/
theorem acceptTransaction_known (rules : TxEnv) (fWrites : UInt256 → Bool) {wtx : CWalletTx}
    (hlookup : w.mapWallet.lookup (tx.getHash E.H) = some wtx) :
    ∃ r, acceptTransaction E w rules fWrites tx = some r ∧ SameEntries w r.2 ∧
      r.2.mempool = (match acceptToMemoryPool { rules with H := E.H } w.mempool tx with
        | .accepted pool => pool
        | .missingInputs | .rejected _ => w.mempool) := by
  cases haccept : acceptToMemoryPool { rules with H := E.H } w.mempool tx with
  | accepted pool =>
    have hnode : ({ w with mempool := pool } : WalletNode).mapWallet.lookup (tx.getHash E.H) = some wtx := hlookup
    have hknown : ∃ w', syncTransaction E fWrites none { w with mempool := pool } tx = some w' ∧
        SameEntries { w with mempool := pool } w' ∧ w'.mempool = pool := syncTransaction_known hnode
    rcases hknown with ⟨w', hsync, hsame, hpool⟩
    refine ⟨(true, w'), ?_, ⟨hsame.entry, hsame.chain⟩, hpool⟩
    simp only [acceptTransaction, haccept, hsync, Option.map_some]
  | missingInputs => exact ⟨(false, w), by simp only [acceptTransaction, haccept], .refl w, rfl⟩
  | rejected nDoS => exact ⟨(false, w), by simp only [acceptTransaction, haccept], .refl w, rfl⟩

/-! ## What is to be put into the pool -/

/-- Each entry of `mapWallet` is stored under the hash of its transaction, as the loop asserts. -/
def Keyed (E : WalletEnv) (w : WalletNode) : Prop :=
  ∀ hash wtx, w.mapWallet.lookup hash = some wtx → wtx.tx.getHash E.H = hash

theorem toReaccept_eq_some {wtxid : UInt256} :
    toReaccept E w wtxid = some tx ↔ ∃ wtx, w.mapWallet.lookup wtxid = some wtx ∧ wtx.tx = tx ∧
      tx.isCoinBase = false ∧ getDepthInMainChain E w wtx < 0 := by
  unfold toReaccept
  cases hlookup : w.mapWallet.lookup wtxid with
  | none => simp
  | some wtx =>
    simp only [Option.ite_none_right_eq_some, Option.some.injEq, exists_eq_left']
    constructor
    · rintro ⟨⟨hcoinbase, hdepth⟩, rfl⟩
      exact ⟨rfl, hcoinbase, hdepth⟩
    · rintro ⟨rfl, hcoinbase, hdepth⟩
      exact ⟨⟨hcoinbase, hdepth⟩, rfl⟩

theorem tx_of_uncached {wtx wtx' : CWalletTx} (hsame : uncached wtx' = uncached wtx) : wtx'.tx = wtx.tx := by
  calc wtx'.tx = (uncached wtx').tx := rfl
    _ = (uncached wtx).tx := by rw [hsame]
    _ = wtx.tx := rfl

theorem getDepthInMainChain_congr {wtx wtx' : CWalletTx} (hchain : w'.chainActive = w.chainActive)
    (hsame : uncached wtx' = uncached wtx)
    (hpool : w'.mempool.has (wtx.tx.getHash E.H) = w.mempool.has (wtx.tx.getHash E.H)) :
    getDepthInMainChain E w' wtx' = getDepthInMainChain E w wtx := by
  have hinternal : getDepthInMainChainInternal E w' wtx' = getDepthInMainChainInternal E w wtx := by
    calc getDepthInMainChainInternal E w' wtx' = getDepthInMainChainInternal E w' (uncached wtx') := rfl
      _ = getDepthInMainChainInternal E w (uncached wtx) := by
        rw [hsame, getDepthInMainChainInternal, getDepthInMainChainInternal, hchain]
      _ = getDepthInMainChainInternal E w wtx := rfl
  rw [getDepthInMainChain, getDepthInMainChain, hinternal, tx_of_uncached hsame, hpool]

/-- Only the pool decides whether an entry is tried. -/
theorem toReaccept_congr (h : SameEntries w w') (hkeyed : Keyed E w) {wtxid : UInt256}
    (hpool : w'.mempool.has wtxid = w.mempool.has wtxid) : toReaccept E w' wtxid = toReaccept E w wtxid := by
  have hentry := h.entry wtxid
  unfold toReaccept
  cases hlookup : w.mapWallet.lookup wtxid with
  | none =>
    rw [hlookup, Option.map_none, Option.map_eq_none_iff] at hentry
    rw [hentry]
  | some wtx =>
    rw [hlookup, Option.map_some] at hentry
    rcases Option.map_eq_some_iff.1 hentry with ⟨wtx', hlookup', hsame⟩
    have hdepth : getDepthInMainChain E w' wtx' = getDepthInMainChain E w wtx :=
      getDepthInMainChain_congr h.chain hsame (by rw [hkeyed wtxid wtx hlookup]; exact hpool)
    rw [hlookup']
    dsimp only
    rw [tx_of_uncached hsame, hdepth]

theorem Keyed.of_toReaccept (hkeyed : Keyed E w) {wtxid : UInt256} (h : toReaccept E w wtxid = some tx) :
    tx.getHash E.H = wtxid := by
  rcases toReaccept_eq_some.1 h with ⟨wtx, hlookup, rfl, -⟩
  exact hkeyed wtxid wtx hlookup

/-! ## The loop -/

variable {order : List CTransaction}

/-- The pool after the entries of `ids` is what a pass over their transactions takes. -/
theorem reacceptLoop_spec (hkeyed : Keyed E w) (hempty : w.mempool = .empty)
    (hacceptable : Acceptable (rules.under E.H) order) (ids : List UInt256) (hnodup : ids.Nodup)
    (hin : ∀ tx ∈ ids.filterMap (toReaccept E w), tx ∈ order) :
    ∃ w', ids.foldlM (reacceptOne E rules fWrites) w = some w' ∧ SameEntries w w' ∧
      w'.mempool = ofList E.H (pass (Needs (rules.under E.H) order) (ids.filterMap (toReaccept E w))) := by
  induction ids using List.reverseRecOn with
  | nil => exact ⟨w, rfl, .refl w, hempty⟩
  | append_singleton ids wtxid ih =>
    rw [← List.concat_eq_append, List.nodup_concat] at hnodup
    rw [List.filterMap_append] at hin ⊢
    rcases ih hnodup.2 fun tx htx => hin tx (List.mem_append_left _ htx) with ⟨w', hrun, hsame, hpool⟩
    rw [List.foldlM_append, hrun]
    show ∃ w'', [wtxid].foldlM (reacceptOne E rules fWrites) w' = some w'' ∧ _
    rw [List.foldlM_cons]
    have hheld : (pass (Needs (rules.under E.H) order) (ids.filterMap (toReaccept E w))).Sublist
        (ids.filterMap (toReaccept E w)) := pass_sublist _
    have hsub : pass (Needs (rules.under E.H) order) (ids.filterMap (toReaccept E w)) ⊆ order :=
      fun tx htx => hin tx (List.mem_append_left _ (hheld.subset htx))
    have hids : ∀ tx ∈ ids.filterMap (toReaccept E w), tx.getHash E.H ∈ ids := by
      intro tx htx
      rcases List.mem_filterMap.1 htx with ⟨id, hid, htry⟩
      rwa [hkeyed.of_toReaccept htry]
    have hheldNodup : (pass (Needs (rules.under E.H) order) (ids.filterMap (toReaccept E w))).Nodup := by
      refine hheld.nodup (List.Nodup.filterMap (fun id id' tx htry htry' => ?_) hnodup.2)
      exact (hkeyed.of_toReaccept htry).symm.trans (hkeyed.of_toReaccept htry')
    -- The pool has nothing under a hash that has not been visited.
    have hnot : w'.mempool.has wtxid = false := by
      rw [hpool, has_eq_false, Option.eq_none_iff_forall_ne_some]
      intro tx htx
      rcases (ofList_mapTx (hacceptable.map_nodup hsub hheldNodup) wtxid tx).1 htx with ⟨hmem, rfl⟩
      exact hnodup.1 (hids tx (hheld.subset hmem))
    have hfresh : toReaccept E w' wtxid = toReaccept E w wtxid :=
      toReaccept_congr hsame hkeyed (by rw [hnot, hempty]; rfl)
    cases htry : toReaccept E w wtxid with
    | none =>
      refine ⟨w', ?_, hsame, ?_⟩
      · rw [reacceptOne, hfresh, htry]
        rfl
      · rw [hpool, List.filterMap_cons_none htry, List.filterMap_nil, List.append_nil]
    | some tx =>
      have hhash := hkeyed.of_toReaccept htry
      have htx : tx ∈ order := by
        refine hin tx (List.mem_append_right _ ?_)
        rw [List.filterMap_cons_some htry]
        exact List.mem_cons_self
      have hnew : tx ∉ pass (Needs (rules.under E.H) order) (ids.filterMap (toReaccept E w)) := by
        intro hmem
        have hvisited := hids tx (hheld.subset hmem)
        rw [hhash] at hvisited
        exact hnodup.1 hvisited
      rcases toReaccept_eq_some.1 (hfresh.trans htry) with ⟨wtx, hlookup, -⟩
      rw [← hhash] at hlookup
      rcases acceptTransaction_known rules.cutOff fWrites hlookup with ⟨r, hr, hrsame, hrpool⟩
      refine ⟨r.2, ?_, hsame.trans hrsame, ?_⟩
      · rw [reacceptOne, hfresh, htry]
        dsimp only
        rw [hr]
        rfl
      · rw [hrpool, List.filterMap_cons_some htry, List.filterMap_nil, pass_concat, passStep, hpool]
        split_ifs with hready
        · rw [hacceptable.accept_of_needs (local_under rules E.H) hsub hheldNodup htx hnew fun b hb hspends =>
            hready b ⟨hb, hspends⟩]
        · cases haccept : acceptToMemoryPool (rules.under E.H)
              (ofList E.H (pass (Needs (rules.under E.H) order) (ids.filterMap (toReaccept E w)))) tx with
          | accepted pool =>
            exact absurd (fun b hb => hacceptable.needs_of_accept hsub hheldNodup haccept b hb.1 hb.2) hready
          | missingInputs => rfl
          | rejected nDoS => rfl

/-! ## Everything is taken again -/

theorem walletOrder_sorted (w : WalletNode) : w.walletOrder.Pairwise fun a b => a.toNat < b.toNat := by
  have hsorted : w.walletOrder.Pairwise fun a b => a.toNat ≤ b.toNat := by
    have hmerge := @List.pairwise_mergeSort UInt256 (fun a b => decide (a.toNat ≤ b.toNat))
      (fun a b c hab hbc => by simp only [decide_eq_true_eq] at *; exact hab.trans hbc)
      (fun a b => by simp only [Bool.or_eq_true, decide_eq_true_eq]; exact Nat.le_total _ _) w.mapWallet.keys
    exact hmerge.imp fun h => by simpa using h
  have hnodup : w.walletOrder.Nodup := (List.mergeSort_perm _ _).nodup_iff.2 w.mapWallet.keys_nodup
  refine (hsorted.and hnodup).imp fun {a b} h => lt_of_le_of_ne h.1 fun heq => h.2 (BitVec.eq_of_toNat_eq heq)

theorem Keyed.unconfirmed_sorted (hkeyed : Keyed E w) :
    (unconfirmed E w).Pairwise fun a b => (a.getHash E.H).toNat < (b.getHash E.H).toNat := by
  refine List.Pairwise.filterMap _ (fun id id' hlt tx htry tx' htry' => ?_) w.walletOrder_sorted
  rw [hkeyed.of_toReaccept htry, hkeyed.of_toReaccept htry']
  exact hlt

/-- One pass in the order of the ids puts everything back exactly when no transaction comes before one that it
spends. -/
theorem reacceptWalletTransactions_iff (hkeyed : Keyed E w) (hempty : w.mempool = .empty)
    (hperm : order.Perm (unconfirmed E w)) (haccept : (acceptAll (rules.under E.H) .empty order).isSome) :
    ∃ w', reacceptWalletTransactions E rules fWrites w = some w' ∧
      ((∀ tx ∈ order, w'.mempool.has (tx.getHash E.H) = true) ↔
        ∀ a ∈ order, ∀ b ∈ order, Spends (rules.under E.H) a b →
          (b.getHash E.H).toNat < (a.getHash E.H).toNat) := by
  have hsorted := hkeyed.unconfirmed_sorted
  have hnodup : (unconfirmed E w).Nodup := hsorted.imp fun h heq => absurd (heq ▸ h) (Nat.lt_irrefl _)
  have hdistinct : (order.map (CTransaction.getHash E.H)).Nodup := by
    refine (hperm.map _).nodup_iff.2 (List.pairwise_map.2 (hsorted.imp fun h heq => ?_))
    rw [heq] at h
    exact absurd h (Nat.lt_irrefl _)
  have hacceptable : Acceptable (rules.under E.H) order := acceptable_of_order hdistinct haccept
  have hids : w.walletOrder.Nodup := (List.mergeSort_perm _ _).nodup_iff.2 w.mapWallet.keys_nodup
  rcases reacceptLoop_spec hkeyed hempty hacceptable w.walletOrder hids (fun tx htx => hperm.mem_iff.2 htx) with
    ⟨w', hrun, -, hpool⟩
  refine ⟨w', hrun, ?_⟩
  have htaken : (pass (Needs (rules.under E.H) order) (unconfirmed E w)).Sublist (unconfirmed E w) := pass_sublist _
  have hsub : pass (Needs (rules.under E.H) order) (unconfirmed E w) ⊆ order :=
    fun tx htx => hperm.mem_iff.2 (htaken.subset htx)
  have hhas : ∀ tx ∈ order, w'.mempool.has (tx.getHash E.H) = true ↔
      tx ∈ pass (Needs (rules.under E.H) order) (unconfirmed E w) := fun tx htx => by
    rw [hpool]
    exact hacceptable.has_iff hsub (htaken.nodup hnodup) htx
  calc (∀ tx ∈ order, w'.mempool.has (tx.getHash E.H) = true)
      ↔ ∀ tx ∈ unconfirmed E w, tx ∈ pass (Needs (rules.under E.H) order) (unconfirmed E w) := by
        refine forall_congr' fun tx => ?_
        rw [hperm.mem_iff]
        exact forall_congr' fun htx => hhas tx (hperm.mem_iff.2 htx)
    _ ↔ pass (Needs (rules.under E.H) order) (unconfirmed E w) = unconfirmed E w := mem_pass_iff hnodup
    _ ↔ ∀ a ∈ unconfirmed E w, ∀ b, Needs (rules.under E.H) order a b →
          (b.getHash E.H).toNat < (a.getHash E.H).toNat :=
        pass_eq_self_iff_of_sorted hsorted fun a _ b hb => hperm.mem_iff.1 hb.1
    _ ↔ ∀ a ∈ order, ∀ b ∈ order, Spends (rules.under E.H) a b →
          (b.getHash E.H).toNat < (a.getHash E.H).toNat := by
        refine forall_congr' fun a => ?_
        rw [hperm.mem_iff]
        exact forall_congr' fun _ => ⟨fun h b hb hspends => h b ⟨hb, hspends⟩, fun h b hb => h b hb.1 hb.2⟩

theorem Keyed.addToWallet (hkeyed : Keyed E w) (wtxIn : CWalletTx) (fWrites : Bool) :
    Keyed E (addToWallet E w wtxIn fWrites).2 := by
  intro hash wtx h
  by_cases heq : hash = wtxIn.tx.getHash E.H
  · subst heq
    unfold WalletNode.addToWallet at h
    cases hlookup : w.mapWallet.lookup (wtxIn.tx.getHash E.H) with
    | none =>
      simp only [hlookup, addToSpends] at h
      split_ifs at h
      · rw [AList.lookup_insert, Option.some.injEq] at h
        rw [← h]
        rfl
      · rw [AList.lookup_insert, Option.some.injEq] at h
        rw [← h]
        rfl
    | some old =>
      simp only [hlookup, AList.lookup_insert, Option.some.injEq] at h
      rw [← h]
      exact hkeyed _ old hlookup
  · refine hkeyed hash wtx ?_
    unfold WalletNode.addToWallet at h
    cases hlookup : w.mapWallet.lookup (wtxIn.tx.getHash E.H) with
    | none =>
      simp only [hlookup, addToSpends] at h
      split_ifs at h
      · rwa [AList.lookup_insert_ne heq] at h
      · rwa [AList.lookup_insert_ne heq] at h
    | some old =>
      simp only [hlookup] at h
      rwa [AList.lookup_insert_ne heq] at h

/-! ## A child that comes before its parent -/

def reacceptEnv : WalletEnv where
  H := firstByteCrypto
  C := bareCrypto
  isMine _ _ := ismineSpendable
  readBlock _ := none
  readBlock_hash := by
    intro hash block h
    cases h

/-- A wallet that has been told of some transactions, which are in no block. -/
def pendingWallet (txs : List CTransaction) : WalletNode :=
  txs.foldl (fun w tx => (addToWallet reacceptEnv w (.ofTx tx) true).2) (start oneKeyWallet [])

theorem pendingWallet_keyed (txs : List CTransaction) : Keyed reacceptEnv (pendingWallet txs) := by
  refine List.foldlRecOn txs _ (fun hash wtx h => ?_) fun w hkeyed tx _ => hkeyed.addToWallet (.ofTx tx) true
  cases h

theorem unconfirmed_perm (E : WalletEnv) (w : WalletNode) :
    (unconfirmed E w).Perm (w.mapWallet.keys.filterMap (toReaccept E w)) :=
  (List.mergeSort_perm _ _).filterMap _

theorem reacceptWalletTransactions_iff_parentFirst :
    ∃ w', reacceptWalletTransactions reacceptEnv orphanEnv (fun _ => true)
        (pendingWallet [orphanTx 1 [7], orphanTx 3 [1]]) = some w' ∧
      ((∀ tx ∈ [orphanTx 1 [7], orphanTx 3 [1]], w'.mempool.has (tx.getHash firstByteCrypto) = true) ↔
        ∀ a ∈ [orphanTx 1 [7], orphanTx 3 [1]], ∀ b ∈ [orphanTx 1 [7], orphanTx 3 [1]],
          Spends (orphanEnv.under firstByteCrypto) a b →
            (b.getHash firstByteCrypto).toNat < (a.getHash firstByteCrypto).toNat) := by
  refine reacceptWalletTransactions_iff (pendingWallet_keyed _) rfl ?_ (by decide)
  refine List.Perm.trans ?_ (unconfirmed_perm _ _).symm
  decide

theorem walletOrder_eq {ids : List UInt256} (hperm : w.mapWallet.keys.Perm ids)
    (hsorted : ids.Pairwise fun a b => a.toNat < b.toNat) : w.walletOrder = ids := by
  refine ((List.mergeSort_perm _ _).trans hperm).eq_of_pairwise (fun a b _ _ hab hba => ?_) w.walletOrder_sorted hsorted
  exact absurd hab (Nat.lt_asymm hba)

/-- The pool would take the parent and then the child, but the loop comes to the child first. -/
theorem childFirst_left_out :
    (acceptAll (orphanEnv.under firstByteCrypto) .empty [orphanTx 3 [7], orphanTx 1 [3]]).isSome = true ∧
      [orphanTx 3 [7], orphanTx 1 [3]].Perm
        (unconfirmed reacceptEnv (pendingWallet [orphanTx 3 [7], orphanTx 1 [3]])) ∧
      ∃ w', reacceptWalletTransactions reacceptEnv orphanEnv (fun _ => true)
          (pendingWallet [orphanTx 3 [7], orphanTx 1 [3]]) = some w' ∧
        w'.mempool.has ((orphanTx 3 [7]).getHash firstByteCrypto) = true ∧
        w'.mempool.has ((orphanTx 1 [3]).getHash firstByteCrypto) = false := by
  refine ⟨by decide, List.Perm.trans (by decide) (unconfirmed_perm _ _).symm, ?_⟩
  have hids : (pendingWallet [orphanTx 3 [7], orphanTx 1 [3]]).walletOrder = [1, 3] :=
    walletOrder_eq (by decide) (by decide)
  have hrun : ([1, 3].foldlM (reacceptOne reacceptEnv orphanEnv fun _ => true)
      (pendingWallet [orphanTx 3 [7], orphanTx 1 [3]])).map
        (fun w' => (w'.mempool.has ((orphanTx 3 [7]).getHash firstByteCrypto),
          w'.mempool.has ((orphanTx 1 [3]).getHash firstByteCrypto))) = some (true, false) := by
    decide
  rcases Option.map_eq_some_iff.1 hrun with ⟨w', hloop, hpool⟩
  refine ⟨w', ?_, congrArg Prod.fst hpool, congrArg Prod.snd hpool⟩
  rw [reacceptWalletTransactions, hids]
  exact hloop

end WalletNode

end Dobbscoin
