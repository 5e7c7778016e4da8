import Dobbscoin.Chain.ActiveChain
import Dobbscoin.Wallet.BalanceFlow
import Dobbscoin.Wallet.ListTransactions

/-!
# Polling for new transactions

`listsinceblock` of `rpcwallet.cpp` takes a transaction to be new by its number of confirmations, which it compares
with a depth that is computed from the height of the block that it is given.  A block that is no longer in the
active chain can be higher than the fork.
-/

namespace Dobbscoin

/-- `uint256` of a block that there is not. -/
def nullHash : UInt256 := 0

/-- The parameters, with their defaults. -/
structure SinceParams where
  blockhash : Option UInt256 := none
  targetConfirms : Int := 1
  fWatchonly : Bool := false

def SinceParams.filter (p : SinceParams) : IsMineFilter :=
  if p.fWatchonly then ismineSpendable ||| ismineWatchOnly else ismineSpendable

structure SinceResult where
  transactions : List Entry
  lastblock : UInt256

namespace HistoryWallet

open WalletNode

variable (E : HistoryEnv) (w : HistoryWallet)

/-- `chainActive`, from the genesis block on. -/
def chain : CChain :=
  w.chainActive.reverse

/-- The block of the parameter, when it is in `mapBlockIndex`. -/
def findBlock (blockhash : Option UInt256) : Option UInt256 :=
  blockhash.filter fun blockId => (E.mapBlockIndex.lookup blockId).isSome

def sinceDepth : Option UInt256 → Int
  | none => -1
  | some pindex => 1 + w.chain.height - (E.mapBlockIndex.entry pindex).nHeight

/-- The transaction is passed to `ListTransactions`. -/
def isReported (pindex : Option UInt256) (wtx : CWalletTx) : Bool :=
  sinceDepth E w pindex = -1 ∨ getDepthInMainChain E.toWalletEnv w.toWalletNode wtx < sinceDepth E w pindex

/-- One transaction in the loop. -/
def sinceOne (pindex : Option UInt256) (filter : IsMineFilter) (transactions : List Entry) (hash : UInt256) :
    Option (List Entry) :=
  match w.mapWallet.lookup hash with
  | none => some transactions
  | some wtx =>
    if isReported E w pindex wtx then
      (listTransactions E w hash wtx strAllAccounts 0 true filter).map fun entries => transactions ++ entries
    else some transactions

/-- The block that is named to the caller. -/
def lastblock (targetConfirms : Int) : UInt256 :=
  (w.chain.atHeight (w.chain.height + 1 - targetConfirms)).getD nullHash

/-- `listsinceblock`. -/
def listsinceblock (p : SinceParams) : Except ListError SinceResult :=
  if p.targetConfirms < 1 then .error (.rpc ⟨rpcInvalidParameter, "Invalid parameter"⟩)
  else
    match w.walletOrder.foldlM (sinceOne E w (findBlock E p.blockhash) p.filter) [] with
    | none => .error .thrown
    | some transactions => .ok ⟨transactions, w.lastblock p.targetConfirms⟩

/-! ## What is reported -/

/-- The transactions that are passed to `ListTransactions`. -/
def Reported (pindex : Option UInt256) (hash : UInt256) : Prop :=
  ∃ wtx, w.mapWallet.lookup hash = some wtx ∧ isReported E w pindex wtx = true

/-- A transaction of the wallet is confirmed in a block of the active chain. -/
def ConfirmedIn (hash q : UInt256) : Prop :=
  ∃ wtx, w.mapWallet.lookup hash = some wtx ∧ wtx.hashBlock = q ∧
    0 < getDepthInMainChain E.toWalletEnv w.toWalletNode wtx

/-- Nothing is missed that is not in a block or its ancestors. -/
def MissesNothing (pindex : UInt256) : Prop :=
  ∀ hash q, ConfirmedIn E w hash q → ¬ E.mapBlockIndex.Ancestor q pindex → Reported E w (some pindex) hash

/-- No transaction of the wallet is in a block above the fork that is not higher than the given one; or the given
block is two higher than the tip, and its depth is the one that stands for no block. -/
def SinceSafe (pindex : UInt256) : Prop :=
  ((E.mapBlockIndex.entry pindex).nHeight : Int) = w.chain.height + 2 ∨
    ∀ hash q, ConfirmedIn E w hash q →
      (E.mapBlockIndex.entry q).nHeight ≤ (E.mapBlockIndex.entry pindex).nHeight → E.mapBlockIndex.Ancestor q pindex

/-! ## Depths -/

section Depths

variable {E w}

/-- The depth of a confirmed transaction counts the blocks from its own to the tip. -/
theorem getDepthInMainChain_of_pos (hlinked : w.chain.Linked E.mapBlockIndex) {wtx : CWalletTx}
    (h : 0 < getDepthInMainChain E.toWalletEnv w.toWalletNode wtx) :
    wtx.hashBlock ∈ w.chain ∧ getDepthInMainChain E.toWalletEnv w.toWalletNode wtx =
      w.chain.height + 1 - (E.mapBlockIndex.entry wtx.hashBlock).nHeight := by
  have hinternal : getDepthInMainChain E.toWalletEnv w.toWalletNode wtx =
      getDepthInMainChainInternal E.toWalletEnv w.toWalletNode wtx := by
    unfold getDepthInMainChain at h ⊢
    dsimp only at h ⊢
    split_ifs at h ⊢
    · exact absurd h (by decide)
    · rfl
  rw [hinternal] at h ⊢
  rcases (getDepthInMainChainInternal_spec E.toWalletEnv w.toWalletNode wtx).2.1 h.ne' with
    ⟨hblock, hindex, block, hread, hactive, hmerkle⟩
  have hvalue : getDepthInMainChainInternal E.toWalletEnv w.toWalletNode wtx =
      w.chainActive.idxOf wtx.hashBlock + 1 := by
    rw [getDepthInMainChainInternal, if_neg (not_or.2 ⟨hblock, hindex⟩), hread]
    dsimp only
    rw [if_neg (not_not.2 hactive), if_neg (ne_false_of_eq_true hmerkle)]
  have hlt := List.idxOf_lt_length_of_mem hactive
  have hget : w.chain[w.chain.length - 1 - w.chainActive.idxOf wtx.hashBlock]? = some wtx.hashBlock := by
    rw [chain, List.length_reverse, List.getElem?_reverse (by omega)]
    have hback : w.chainActive.length - 1 - (w.chainActive.length - 1 - w.chainActive.idxOf wtx.hashBlock) =
        w.chainActive.idxOf wtx.hashBlock := by omega
    rw [hback, List.getElem?_idxOf hactive]
  refine ⟨List.mem_reverse.2 hactive, ?_⟩
  rw [hvalue, hlinked.nHeight _ _ hget, CChain.height, chain, List.length_reverse]
  omega

theorem ConfirmedIn.mem (hlinked : w.chain.Linked E.mapBlockIndex) {hash q : UInt256} (h : ConfirmedIn E w hash q) :
    q ∈ w.chain := by
  rcases h with ⟨wtx, -, hblock, hdepth⟩
  exact hblock ▸ (getDepthInMainChain_of_pos hlinked hdepth).1

/-- A confirmed transaction is reported if and only if its block is higher than the given one, or the depth is the
one that stands for no block. -/
theorem reported_iff (hlinked : w.chain.Linked E.mapBlockIndex) {hash q pindex : UInt256}
    (h : ConfirmedIn E w hash q) :
    Reported E w (some pindex) hash ↔
      ((E.mapBlockIndex.entry pindex).nHeight : Int) = w.chain.height + 2 ∨
        (E.mapBlockIndex.entry pindex).nHeight < (E.mapBlockIndex.entry q).nHeight := by
  rcases h with ⟨wtx, hlookup, rfl, hdepth⟩
  have hcount := (getDepthInMainChain_of_pos hlinked hdepth).2
  have hone : Reported E w (some pindex) hash ↔ isReported E w (some pindex) wtx = true :=
    ⟨fun ⟨wtx', hlookup', hreported⟩ => Option.some.inj (hlookup'.symm.trans hlookup) ▸ hreported,
      fun hreported => ⟨wtx, hlookup, hreported⟩⟩
  rw [hone, isReported, decide_eq_true_iff, hcount, sinceDepth]
  omega

/-- Without a block everything is reported. -/
theorem reported_none {hash q : UInt256} (h : ConfirmedIn E w hash q) : Reported E w none hash := by
  rcases h with ⟨wtx, hlookup, -, -⟩
  exact ⟨wtx, hlookup, decide_eq_true (.inl rfl)⟩

theorem missesNothing_iff (hlinked : w.chain.Linked E.mapBlockIndex) (pindex : UInt256) :
    MissesNothing E w pindex ↔ SinceSafe E w pindex := by
  constructor
  · intro hall
    by_cases hhigh : ((E.mapBlockIndex.entry pindex).nHeight : Int) = w.chain.height + 2
    · exact .inl hhigh
    · refine .inr fun hash q hq hle => ?_
      by_contra hother
      rcases (reported_iff hlinked hq).1 (hall hash q hq hother) with hhigh' | hlt
      · exact hhigh hhigh'
      · exact absurd hle (Nat.not_le.2 hlt)
  · rintro hsafe hash q hq hother
    refine (reported_iff hlinked hq).2 (hsafe.imp id fun hbelow => ?_)
    by_contra hnot
    exact hother (hbelow hash q hq (Nat.not_lt.1 hnot))

/-- Nothing is missed for a block of the active chain. -/
theorem sinceSafe_of_mem (hm : E.mapBlockIndex.WellFormed) (hlinked : w.chain.Linked E.mapBlockIndex)
    {pindex : UInt256} (hmem : pindex ∈ w.chain) : SinceSafe E w pindex := by
  refine .inr fun hash q hq hle => ?_
  rcases hm.exists_ancestor pindex hle with ⟨a, ha, hheight⟩
  have hget := hlinked.getElem? (hlinked.ancestor_mem hmem ha)
  rw [hheight, hlinked.getElem? (hq.mem hlinked)] at hget
  rwa [Option.some.inj hget]

end Depths

/-! ## The result -/

/-- What `ListTransactions` makes of the transaction is in the result, if it is to be reported. -/
def Listed (pindex : Option UInt256) (filter : IsMineFilter) (hash : UInt256) (transactions : List Entry) : Prop :=
  ∀ wtx, w.mapWallet.lookup hash = some wtx → isReported E w pindex wtx = true →
    ∃ entries, listTransactions E w hash wtx strAllAccounts 0 true filter = some entries ∧ entries ⊆ transactions

section

variable {E w} {pindex : Option UInt256} {filter : IsMineFilter}

theorem Listed.mono {hash : UInt256} {before after : List Entry} (h : Listed E w pindex filter hash before)
    (hsub : before ⊆ after) : Listed E w pindex filter hash after := by
  intro wtx hwtx hnew
  rcases h wtx hwtx hnew with ⟨entries, hentries, hin⟩
  exact ⟨entries, hentries, List.Subset.trans hin hsub⟩

theorem sinceOne_spec {hash : UInt256} {before after : List Entry}
    (h : sinceOne E w pindex filter before hash = some after) : before ⊆ after ∧ Listed E w pindex filter hash after := by
  unfold sinceOne at h
  cases hlookup : w.mapWallet.lookup hash with
  | none =>
    rw [hlookup] at h
    rw [Option.some.inj h]
    exact ⟨List.Subset.refl _, fun wtx hwtx => by rw [hlookup] at hwtx; cases hwtx⟩
  | some wtx =>
    rw [hlookup] at h
    dsimp only at h
    split_ifs at h with hreported
    · rcases Option.map_eq_some_iff.1 h with ⟨entries, hentries, rfl⟩
      refine ⟨List.subset_append_left _ _, fun wtx' hwtx _ => ?_⟩
      obtain rfl := Option.some.inj (hlookup.symm.trans hwtx)
      exact ⟨entries, hentries, List.subset_append_right _ _⟩
    · rw [Option.some.inj h]
      refine ⟨List.Subset.refl _, fun wtx' hwtx hnew => ?_⟩
      exact absurd (Option.some.inj (hlookup.symm.trans hwtx) ▸ hnew) hreported

/-- The loop keeps what it has, and takes all that is to be reported. -/
theorem foldlM_sinceOne {hashes : List UInt256} {before after : List Entry}
    (h : hashes.foldlM (sinceOne E w pindex filter) before = some after) :
    before ⊆ after ∧ ∀ hash ∈ hashes, Listed E w pindex filter hash after := by
  induction hashes generalizing before with
  | nil =>
    rw [← Option.some.inj h]
    exact ⟨List.Subset.refl _, fun hash hmem => absurd hmem List.not_mem_nil⟩
  | cons hash hashes ih =>
    rw [List.foldlM_cons] at h
    rcases Option.bind_eq_some_iff.1 h with ⟨between, hstep, hrest⟩
    rcases sinceOne_spec hstep with ⟨hkept, hnew⟩
    rcases ih hrest with ⟨hkeeps, hall⟩
    exact ⟨List.Subset.trans hkept hkeeps, List.forall_mem_cons.2 ⟨hnew.mono hkeeps, hall⟩⟩

/-- What `ListTransactions` makes of the transactions that are passed to it is in the result. -/
theorem listsinceblock_transactions {p : SinceParams} {r : SinceResult} (h : listsinceblock E w p = .ok r)
    {hash : UInt256} (hreported : Reported E w (findBlock E p.blockhash) hash) :
    ∃ wtx entries, w.mapWallet.lookup hash = some wtx ∧
      listTransactions E w hash wtx strAllAccounts 0 true p.filter = some entries ∧ entries ⊆ r.transactions := by
  rcases hreported with ⟨wtx, hlookup, hnew⟩
  unfold listsinceblock at h
  split_ifs at h
  cases hloop : w.walletOrder.foldlM (sinceOne E w (findBlock E p.blockhash) p.filter) [] with
  | none =>
    rw [hloop] at h
    cases h
  | some transactions =>
    rw [hloop] at h
    have hkeys : hash ∈ w.mapWallet.keys := AList.mem_keys.2 (AList.lookup_isSome.1 (by rw [hlookup]; rfl))
    rcases (foldlM_sinceOne hloop).2 hash (mem_walletOrder.2 hkeys) wtx hlookup hnew with ⟨entries, hentries, hsub⟩
    refine ⟨wtx, entries, hlookup, hentries, ?_⟩
    rw [← Except.ok.inj h]
    exact hsub

end

/-- **After a block of the active chain nothing is missing:** the answer has the entries of every transaction of the
wallet that is confirmed in a later block, or in any block when none was given. -/
theorem listsinceblock_complete (p : SinceParams) (r : SinceResult) (hm : E.mapBlockIndex.WellFormed)
    (hlinked : w.chain.Linked E.mapBlockIndex) (hactive : ∀ pindex ∈ findBlock E p.blockhash, pindex ∈ w.chain)
    (h : listsinceblock E w p = .ok r) (hash q : UInt256) (hq : ConfirmedIn E w hash q)
    (hnew : ∀ pindex ∈ findBlock E p.blockhash, ¬ E.mapBlockIndex.Ancestor q pindex) :
    ∃ wtx entries, w.mapWallet.lookup hash = some wtx ∧
      listTransactions E w hash wtx strAllAccounts 0 true p.filter = some entries ∧ entries ⊆ r.transactions := by
  refine listsinceblock_transactions h ?_
  cases hfound : findBlock E p.blockhash with
  | none => exact reported_none hq
  | some pindex =>
    have hsafe := sinceSafe_of_mem hm hlinked (hactive pindex hfound)
    exact (missesNothing_iff hlinked pindex).2 hsafe hash q hq (hnew pindex hfound)

end HistoryWallet

/-! ## Polls -/

/-- One call of a client, with the node as it is then. -/
structure Poll where
  env : HistoryEnv
  wallet : HistoryWallet
  targetConfirms : Int

namespace Poll

open HistoryWallet

def tree (poll : Poll) : BlockMap :=
  poll.env.mapBlockIndex

def lastblock (poll : Poll) : UInt256 :=
  poll.wallet.lastblock poll.targetConfirms

/-- The tree and the active chain are sound, and no block has the hash that stands for none. -/
structure Valid (poll : Poll) : Prop where
  tree : poll.tree.WellFormed
  linked : poll.wallet.chain.Linked poll.tree
  stored : ∀ q ∈ poll.wallet.chain, (poll.tree.lookup q).isSome
  null : poll.tree.lookup nullHash = none

/-- Blocks stay in the tree, where they are. -/
def Grows (poll poll' : Poll) : Prop :=
  ∀ q, (poll.tree.lookup q).isSome →
    (poll'.tree.lookup q).isSome ∧ (poll'.tree.entry q).pprev = (poll.tree.entry q).pprev

/-- What the client passes: nothing at first, then what it has received last. -/
def passedBack (polls : List Poll) : Nat → Option UInt256
  | 0 => none
  | k + 1 => polls[k]?.map lastblock

/-- What the node is asked for in the call with a number. -/
def asked (polls : List Poll) (k : Nat) (poll : Poll) : Option UInt256 :=
  findBlock poll.env (passedBack polls k)

/-- The client is told of all transactions that are confirmed in a block. -/
def Tells (polls : List Poll) (k : Nat) (poll : Poll) (q : UInt256) : Prop :=
  ∀ hash, ConfirmedIn poll.env poll.wallet hash q → Reported poll.env poll.wallet (asked polls k poll) hash

theorem Grows.ancestor {poll poll' : Poll} (h : poll.Grows poll') (hm : poll.tree.WellFormed) {q b : UInt256}
    (hb : (poll.tree.lookup b).isSome) (hancestor : poll'.tree.Ancestor q b) : poll.tree.Ancestor q b := by
  induction hancestor using Relation.ReflTransGen.head_induction_on with
  | refl => exact BlockMap.Ancestor.refl _ _
  | @head a c hac hcb ih =>
    have hc : (poll.tree.lookup c).isSome := hm.stored_of_ancestor ih hb
    have hparent : (poll.tree.entry c).pprev = some a := by
      rw [← (h c hc).2]
      exact hac
    exact Relation.ReflTransGen.head hparent ih

/-- The block that is named is in the active chain, or it is none. -/
theorem mem_of_lastblock {poll : Poll} {pindex : UInt256} (h : poll.lastblock = pindex) (hnull : pindex ≠ nullHash) :
    pindex ∈ poll.wallet.chain := by
  unfold lastblock HistoryWallet.lastblock CChain.atHeight at h
  split_ifs at h
  · exact absurd h.symm hnull
  · cases hget : poll.wallet.chain[(poll.wallet.chain.height + 1 - poll.targetConfirms).toNat]? with
    | none =>
      rw [hget] at h
      exact absurd h.symm hnull
    | some b =>
      rw [hget] at h
      rw [← h]
      exact List.mem_of_getElem? hget

/-- **Run.**  When each call is safe, every block of the active chain has been told of, at the latest by the call
that finds it there. -/
theorem told_of_safe {polls : List Poll} (hvalid : ∀ poll ∈ polls, poll.Valid) (hgrows : polls.IsChain Grows)
    (hsafe : ∀ k poll, polls[k]? = some poll → ∀ pindex, asked polls k poll = some pindex →
      SinceSafe poll.env poll.wallet pindex) (k : Nat) :
    ∀ poll, polls[k]? = some poll → ∀ q ∈ poll.wallet.chain,
      ∃ j ≤ k, ∃ poll', polls[j]? = some poll' ∧ q ∈ poll'.wallet.chain ∧ Tells polls j poll' q := by
  induction k with
  | zero =>
    intro poll hpoll q hq
    exact ⟨0, le_refl 0, poll, hpoll, hq, fun hash hconfirmed => reported_none hconfirmed⟩
  | succ k ih =>
    intro poll hpoll q hq
    have hlt := (List.getElem?_eq_some_iff.1 hpoll).1
    have hbefore : ∃ last, polls[k]? = some last := ⟨_, List.getElem?_eq_getElem (Nat.lt_of_succ_lt hlt)⟩
    rcases hbefore with ⟨last, hlast⟩
    cases hasked : asked polls (k + 1) poll with
    | none =>
      refine ⟨k + 1, le_refl _, poll, hpoll, hq, fun hash hconfirmed => ?_⟩
      rw [hasked]
      exact reported_none hconfirmed
    | some pindex =>
      have hpassed : asked polls (k + 1) poll = findBlock poll.env (some last.lastblock) := by
        rw [asked, passedBack, hlast, Option.map_some]
      rcases Option.filter_eq_some_iff.1 (hpassed.symm.trans hasked) with ⟨hpindex, hfound⟩
      have hvalidLast := hvalid last (List.mem_of_getElem? hlast)
      have hmem : pindex ∈ last.wallet.chain := by
        refine mem_of_lastblock (Option.some.inj hpindex) fun hnull => ?_
        rw [hnull, show poll.env.mapBlockIndex.lookup nullHash = none from
          (hvalid poll (List.mem_of_getElem? hpoll)).null] at hfound
        cases hfound
      by_cases hancestor : poll.tree.Ancestor q pindex
      · -- The block has been at or below the one that was named last.
        have hgrow : last.Grows poll := by
          have hstep := List.isChain_iff_getElem.1 hgrows k hlt
          rwa [(List.getElem?_eq_some_iff.1 hlast).2, (List.getElem?_eq_some_iff.1 hpoll).2] at hstep
        have hback := hgrow.ancestor hvalidLast.tree (hvalidLast.stored pindex hmem) hancestor
        rcases ih last hlast q (hvalidLast.linked.ancestor_mem hmem hback) with ⟨j, hj, told⟩
        exact ⟨j, Nat.le_succ_of_le hj, told⟩
      · refine ⟨k + 1, le_refl _, poll, hpoll, hq, fun hash hconfirmed => ?_⟩
        have hlinked := (hvalid poll (List.mem_of_getElem? hpoll)).linked
        rw [hasked]
        exact (missesNothing_iff hlinked pindex).2 (hsafe (k + 1) poll hpoll pindex hasked) hash q hconfirmed hancestor

/-- Two blocks on top of the first one. -/
def twoBranches : BlockMap :=
  [{ CBlockIndex.null with phashBlock := 1 },
    { CBlockIndex.null with phashBlock := 2, pprev := some 1, nHeight := 1 },
    { CBlockIndex.null with phashBlock := 3, pprev := some 1, nHeight := 1 }]

/-- The block `3` has a payment to the wallet. -/
def branchBlock : CBlock :=
  { listBlock [orphanTx 5 [7]] with nVersion := 3 }

def branchEnv : HistoryEnv where
  toBalanceEnv :=
    { AccountWallet.balanceEnv with
      readBlock := fun hash => if branchBlock.getHash firstByteCrypto = hash then some branchBlock else none
      readBlock_hash := fun hash block h => by
        split_ifs at h with heq
        rw [← Option.some.inj h]
        exact heq }
  mapBlockIndex := twoBranches

/-- The wallet knows the payment, and the chain is the one with the given tip. -/
def branchPoll (tip : UInt256) : Poll where
  env := branchEnv
  wallet :=
    { onePayment with
      mapWallet := AList.insert 5 { CWalletTx.ofTx (orphanTx 5 [7]) with
        hashBlock := 3, nIndex := 0, fMerkleVerified := true } ∅
      chainActive := [tip, 1] }
  targetConfirms := 1

theorem twoBranches_wellFormed : twoBranches.WellFormed := by
  refine BlockMap.wellFormed_of_check (by decide) fun i hi q hq => ?_
  have hnone : ∀ i ∈ twoBranches, i.pskip = none := by decide
  rw [hnone i hi] at hq
  cases hq

theorem branchPoll_valid {tip : UInt256} (h : tip = 2 ∨ tip = 3) : (branchPoll tip).Valid := by
  rcases h with rfl | rfl
  · have hstored : (branchPoll 2).wallet.chain.all (fun q => ((branchPoll 2).tree.lookup q).isSome) = true := by decide
    exact ⟨twoBranches_wellFormed, CChain.linked_of_check (by decide), List.all_eq_true.1 hstored, by decide⟩
  · have hstored : (branchPoll 3).wallet.chain.all (fun q => ((branchPoll 3).tree.lookup q).isSome) = true := by decide
    exact ⟨twoBranches_wellFormed, CChain.linked_of_check (by decide), List.all_eq_true.1 hstored, by decide⟩

theorem branchPolls_grow : [branchPoll 2, branchPoll 3].IsChain Grows :=
  List.isChain_pair.2 fun _ h => ⟨h, rfl⟩

theorem branchPolls_valid : ∀ poll ∈ [branchPoll 2, branchPoll 3], poll.Valid := by
  intro poll hpoll
  rcases List.mem_cons.1 hpoll with rfl | hlast
  · exact branchPoll_valid (.inl rfl)
  · rw [List.mem_singleton.1 hlast]
    exact branchPoll_valid (.inr rfl)

theorem listsinceblock_complete_branch :
    ∃ r wtx entries, listsinceblock branchEnv (branchPoll 3).wallet { blockhash := some 1 } = .ok r ∧
      (branchPoll 3).wallet.mapWallet.lookup 5 = some wtx ∧
      listTransactions branchEnv (branchPoll 3).wallet 5 wtx strAllAccounts 0 true ismineSpendable = some entries ∧
      entries ⊆ r.transactions := by
  have horder : (branchPoll 3).wallet.walletOrder = [5] := List.mergeSort_singleton 5
  obtain ⟨r, h⟩ : ∃ r, listsinceblock branchEnv (branchPoll 3).wallet { blockhash := some 1 } = .ok r := by
    unfold listsinceblock
    rw [horder]
    exact ⟨_, rfl⟩
  have hvalid := branchPoll_valid (.inr rfl)
  have hfound : findBlock branchEnv (some 1) = some 1 := rfl
  have hnew : ∀ pindex ∈ findBlock branchEnv (some 1), ¬ twoBranches.Ancestor 3 pindex := by
    intro pindex hpindex hbelow
    obtain rfl := Option.some.inj (hfound.symm.trans hpindex)
    exact absurd (BlockMap.Ancestor.height_le twoBranches_wellFormed hbelow) (by decide)
  rcases listsinceblock_complete branchEnv (branchPoll 3).wallet { blockhash := some 1 } r hvalid.tree hvalid.linked
    (fun pindex hpindex => Option.some.inj (hfound.symm.trans hpindex) ▸ List.mem_cons_self) h 5 3
    ⟨_, rfl, rfl, by decide⟩ hnew with ⟨wtx, entries, hall⟩
  exact ⟨r, wtx, entries, h, hall⟩

end Poll

end Dobbscoin
