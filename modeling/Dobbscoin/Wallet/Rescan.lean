import Dobbscoin.Wallet.BalanceFlow

/-!
# Rescanning the chain

`ScanForWalletTransactions`.  After each block the loop moves on to the next one and then reads the clock; when
a minute has gone by it logs the height of the next block, also when there is none.  `rescan_iff` says for which
readings of the clock a rescan is safe and complete.
-/

namespace Dobbscoin

namespace WalletNode

/-- `AddToWalletIfInvolvingMe`. -/
def addIfInvolvingMe (E : WalletEnv) (fUpdate : Bool) (w : WalletNode) (tx : CTransaction) (pblock : CBlock)
    (fWrites : Bool) : Option (Bool × WalletNode) :=
  if (w.mapWallet.lookup (tx.getHash E.H)).isSome && !fUpdate then some (false, w)
  else addToWalletIfInvolvingMe E w tx (some pblock) fWrites

end WalletNode

namespace Rescan

open WalletNode
open AccountWallet (balanceEnv)

/-- How a rescan can end other than by returning: a null pointer is used, `GetDebit` throws, or the loop has not
ended in the passes it is given. -/
inductive ScanError
  | nullPointer
  | thrown
  | notEnded

/-- What a rescan asks of the rest of the program. -/
structure ScanEnv where
  wallet : BalanceEnv
  mapBlockIndex : BlockMap
  chainActive : CChain
  /-- What is in the block after a `ReadBlockFromDisk` that has failed. -/
  leftover : UInt256 → CBlock
  /-- Whether the wallet file can be written, for the transaction in the block. -/
  fWrites : UInt256 → UInt256 → Bool
  nTimeFirstKey : Int
  /-- The readings of `GetTime`, one after the other. -/
  getTime : Nat → Int

/-- The variables of the scan; `visited` are the blocks that have been read, `reads` counts the readings. -/
structure ScanState where
  w : WalletNode
  ret : Int
  nNow : Int
  reads : Nat
  visited : List UInt256

variable (S : ScanEnv) (fUpdate : Bool)

/-- The block after `ReadBlockFromDisk`, whose result is not looked at. -/
def blockAt (pindex : UInt256) : CBlock :=
  (S.wallet.readBlock pindex).getD (S.leftover pindex)

/-- The block was created before the wallet. -/
def beforeBirthday (pindex : UInt256) : Bool :=
  S.nTimeFirstKey ≠ 0 && (S.mapBlockIndex.entry pindex).getBlockTime < S.nTimeFirstKey - 7200

/-- The loop over the blocks that need not be read. -/
def skipLoop : Nat → Option UInt256 → Except ScanError (Option UInt256)
  | 0, _ => .error .notEnded
  | _ + 1, none => .ok none
  | passes + 1, some pindex =>
    if beforeBirthday S pindex then skipLoop passes (S.chainActive.next S.mapBlockIndex pindex)
    else .ok (some pindex)

/-- The body of the loop over the transactions of a block. -/
def scanTx (pindex : UInt256) (s : ScanState) (tx : CTransaction) : Except ScanError ScanState :=
  match addIfInvolvingMe S.wallet.toWalletEnv fUpdate s.w tx (blockAt S pindex)
      (S.fWrites pindex (tx.getHash S.wallet.H)) with
  | none => .error .thrown
  | some (fAdded, w) => .ok { s with w := w, ret := if fAdded then s.ret + 1 else s.ret }

def scanBlock (pindex : UInt256) (s : ScanState) : Except ScanError ScanState :=
  (blockAt S pindex).vtx.foldlM (scanTx S fUpdate pindex) { s with visited := s.visited ++ [pindex] }

/-- The clock has been read after a block: whether progress is logged, and the variables then. -/
def tick (s : ScanState) : Bool × ScanState :=
  if S.getTime s.reads ≥ s.nNow + 60 then
    (true, { s with nNow := S.getTime (s.reads + 1), reads := s.reads + 2 })
  else (false, { s with reads := s.reads + 1 })

/-- The loop over the blocks. -/
def scanLoop : Nat → Option UInt256 → ScanState → Except ScanError ScanState
  | 0, _, _ => .error .notEnded
  | _ + 1, none, s => .ok s
  | passes + 1, some pindex, s => do
    let s ← scanBlock S fUpdate pindex s
    let pindex := S.chainActive.next S.mapBlockIndex pindex
    -- What is logged is the height of the next block.
    if (tick S s).1 = true ∧ pindex = none then .error .nullPointer
    else scanLoop passes pindex (tick S s).2

/-- `ScanForWalletTransactions`.  The loops are given one pass for each block and one to end with. -/
def scanForWalletTransactions (w : WalletNode) (pindexStart : UInt256) : Except ScanError ScanState := do
  let first ← skipLoop S (S.chainActive.length + 1) (some pindexStart)
  scanLoop S fUpdate (S.chainActive.length + 1) first ⟨w, 0, S.getTime 0, 1, []⟩

/-! ## What a rescan should do -/

/-- The blocks from the first one that is not older than the wallet. -/
def blocksToScan (pindexStart : UInt256) : List UInt256 :=
  (S.chainActive.drop (S.mapBlockIndex.entry pindexStart).nHeight).dropWhile (beforeBirthday S)

/-- The transactions of blocks, each with its block. -/
def transactions (blocks : List UInt256) : List (UInt256 × CTransaction) :=
  blocks.flatMap fun pindex => (blockAt S pindex).vtx.map fun tx => (pindex, tx)

/-- The wallet after transactions have been looked at. -/
def walletAfter (w : WalletNode) (txs : List (UInt256 × CTransaction)) : Option WalletNode :=
  txs.foldlM (fun w e => (addIfInvolvingMe S.wallet.toWalletEnv fUpdate w e.2 (blockAt S e.1)
    (S.fWrites e.1 (e.2.getHash S.wallet.H))).map Prod.snd) w

/-- The transaction pays to the wallet, or spends some of its money. -/
def Involves (E : WalletEnv) (w : WalletNode) (tx : CTransaction) : Prop :=
  (∃ txout ∈ tx.vout, mine E w txout ismineAll = true) ∨ ∃ txin ∈ tx.vin, 0 < debitOf E w ismineAll txin

/-- The scan returns, it has visited each block once, in order, and if the blocks can be read the wallet has
every transaction that involved it when it was looked at. -/
def SafeAndComplete (w : WalletNode) (pindexStart : UInt256) : Prop :=
  ∃ s, scanForWalletTransactions S fUpdate w pindexStart = .ok s ∧ s.visited = blocksToScan S pindexStart ∧
    ((∀ pindex ∈ blocksToScan S pindexStart, (S.wallet.readBlock pindex).isSome) →
      ∀ before pindex tx after,
        transactions S (blocksToScan S pindexStart) = before ++ (pindex, tx) :: after →
          ∃ w', walletAfter S fUpdate w before = some w' ∧
            (Involves S.wallet.toWalletEnv w' tx →
              (s.w.mapWallet.lookup (tx.getHash S.wallet.H)).isSome))

/-- The reading after the last of `n` blocks is a minute or more after the one that the minute is counted from. -/
def overdue (getTime : Nat → Int) : Nat → Int → Nat → Bool
  | _, _, 0 => false
  | reads, nNow, 1 => getTime reads ≥ nNow + 60
  | reads, nNow, n + 2 =>
    if getTime reads ≥ nNow + 60 then overdue getTime (reads + 2) (getTime (reads + 1)) (n + 1)
    else overdue getTime (reads + 1) nNow (n + 1)

/-- The transactions of a wallet are those of another wallet or come from a list. -/
def DrawnFrom (w : WalletNode) (txs : List (UInt256 × CTransaction)) (w' : WalletNode) : Prop :=
  ∀ hash wtx, w'.mapWallet.lookup hash = some wtx →
    (w.mapWallet.lookup hash).map CWalletTx.tx = some wtx.tx ∨
      wtx.tx ∈ txs.map Prod.snd ∧ wtx.tx.getHash S.wallet.H = hash

/-- `CheckInputs` has made sure of the inputs when the blocks were connected: with any of the transactions of the
wallet and of the chain at hand, no sum of inputs is out of range. -/
def DebitsFit (w : WalletNode) (txs : List (UInt256 × CTransaction)) : Prop :=
  ∀ w', DrawnFrom S w txs w' → ∀ e ∈ txs, InputsFit w' e.2

/-! ## The loops over the chain -/

section Loops

variable {S : ScanEnv} {fUpdate : Bool}

variable (S fUpdate) in
/-- The scan of a list of blocks. -/
def scanAll : List UInt256 → ScanState → Except ScanError ScanState
  | [], s => .ok s
  | pindex :: rest, s => do
    let s ← scanBlock S fUpdate pindex s
    if (tick S s).1 = true ∧ rest = [] then .error .nullPointer else scanAll rest (tick S s).2

theorem next_eq (hchain : CChain.Linked S.mapBlockIndex S.chainActive) {i : Nat} {p : UInt256}
    (hp : S.chainActive[i]? = some p) :
    S.chainActive.next S.mapBlockIndex p = S.chainActive[i + 1]? := by
  have hcontains := hchain.contains_iff.2 (List.mem_of_getElem? hp)
  rw [CChain.next, if_pos hcontains, hchain.nHeight i p hp]

theorem drop_eq_cons {i : Nat} {p : UInt256} (hp : S.chainActive[i]? = some p) :
    S.chainActive.drop i = p :: S.chainActive.drop (i + 1) := by
  rcases List.getElem?_eq_some_iff.1 hp with ⟨hlt, heq⟩
  rw [List.drop_eq_getElem_cons hlt, heq]

/-- The blocks before the birthday are skipped. -/
theorem skipLoop_eq (hchain : CChain.Linked S.mapBlockIndex S.chainActive) (passes i : Nat)
    (hpasses : S.chainActive.length < i + passes) (hpos : 0 < passes) :
    ∃ j, skipLoop S passes S.chainActive[i]? = .ok S.chainActive[j]? ∧
      S.chainActive.drop j = (S.chainActive.drop i).dropWhile (beforeBirthday S) := by
  induction passes generalizing i with
  | zero => omega
  | succ passes ih =>
    cases hp : S.chainActive[i]? with
    | none =>
      refine ⟨i, by rw [hp]; rfl, ?_⟩
      rw [List.drop_eq_nil_of_le (List.getElem?_eq_none_iff.1 hp), List.dropWhile_nil]
    | some p =>
      have hlt := (List.getElem?_eq_some_iff.1 hp).1
      rw [skipLoop, drop_eq_cons hp, List.dropWhile_cons]
      split_ifs with hbefore
      · rw [next_eq hchain hp]
        exact ih (i + 1) (by omega) (by omega)
      · exact ⟨i, by rw [hp], drop_eq_cons hp⟩

/-- From a block of the chain on the loop scans the rest of the chain. -/
theorem scanLoop_eq (hchain : CChain.Linked S.mapBlockIndex S.chainActive) (passes i : Nat)
    (hpasses : S.chainActive.length < i + passes) (hpos : 0 < passes) (s : ScanState) :
    scanLoop S fUpdate passes S.chainActive[i]? s = scanAll S fUpdate (S.chainActive.drop i) s := by
  induction passes generalizing i s with
  | zero => omega
  | succ passes ih =>
    cases hp : S.chainActive[i]? with
    | none =>
      rw [List.drop_eq_nil_of_le (List.getElem?_eq_none_iff.1 hp)]
      rfl
    | some p =>
      have hlt := (List.getElem?_eq_some_iff.1 hp).1
      rw [scanLoop, drop_eq_cons hp, scanAll]
      refine Guard.bind_congr_ok fun s' _ => ?_
      have hend : S.chainActive[i + 1]? = none ↔ S.chainActive.drop (i + 1) = [] := by
        rw [List.getElem?_eq_none_iff, List.drop_eq_nil_iff]
      dsimp only
      rw [next_eq hchain hp]
      exact if_congr (and_congr Iff.rfl hend) rfl (ih (i + 1) (by omega) (by omega) _)

end Loops

/-! ## The transactions of a block -/

section Blocks

variable {S : ScanEnv} {fUpdate : Bool}

theorem walletAfter_append (w : WalletNode) (txs txs' : List (UInt256 × CTransaction)) :
    walletAfter S fUpdate w (txs ++ txs') =
      (walletAfter S fUpdate w txs).bind fun w => walletAfter S fUpdate w txs' :=
  List.foldlM_append

theorem walletAfter_cons (w : WalletNode) (e : UInt256 × CTransaction) (txs : List (UInt256 × CTransaction)) :
    walletAfter S fUpdate w (e :: txs) = (walletAfter S fUpdate w [e]).bind fun w => walletAfter S fUpdate w txs :=
  walletAfter_append w [e] txs

/-- The loop over transactions changes the wallet and the count, and nothing else. -/
theorem scanTxs_ok {p : UInt256} (txs : List CTransaction) {s s' : ScanState}
    (h : txs.foldlM (scanTx S fUpdate p) s = .ok s') :
    walletAfter S fUpdate s.w (txs.map fun tx => (p, tx)) = some s'.w ∧ s'.visited = s.visited ∧
      s'.nNow = s.nNow ∧ s'.reads = s.reads := by
  induction txs generalizing s with
  | nil =>
    rw [← Except.ok.inj h]
    exact ⟨rfl, rfl, rfl, rfl⟩
  | cons tx txs ih =>
    rw [List.foldlM_cons, Guard.bind_eq_ok] at h
    rcases h with ⟨s₁, hstep, hrest⟩
    rw [scanTx] at hstep
    cases hadd : addIfInvolvingMe S.wallet.toWalletEnv fUpdate s.w tx (blockAt S p)
        (S.fWrites p (tx.getHash S.wallet.H)) with
    | none =>
      rw [hadd] at hstep
      cases hstep
    | some r =>
      rw [hadd] at hstep
      rcases ih hrest with ⟨hw, hvisited, hnow, hreads⟩
      rw [← Except.ok.inj hstep] at hw hvisited hnow hreads
      refine ⟨?_, hvisited, hnow, hreads⟩
      have hone : walletAfter S fUpdate s.w [(p, tx)] = some r.2 := by
        simp [walletAfter, hadd]
      rw [List.map_cons, walletAfter_cons, hone]
      exact hw

theorem scanTxs_exists {p : UInt256} (txs : List CTransaction) {s : ScanState} {w' : WalletNode}
    (h : walletAfter S fUpdate s.w (txs.map fun tx => (p, tx)) = some w') :
    ∃ s', txs.foldlM (scanTx S fUpdate p) s = .ok s' := by
  induction txs generalizing s with
  | nil => exact ⟨s, rfl⟩
  | cons tx txs ih =>
    rw [List.map_cons, walletAfter_cons, Option.bind_eq_some_iff] at h
    rcases h with ⟨w₁, hone, hrest⟩
    rw [List.foldlM_cons, scanTx]
    cases hadd : addIfInvolvingMe S.wallet.toWalletEnv fUpdate s.w tx (blockAt S p)
        (S.fWrites p (tx.getHash S.wallet.H)) with
    | none => simp [walletAfter, hadd] at hone
    | some r =>
      have hsame : r.2 = w₁ := by simpa [walletAfter, hadd] using hone
      rw [← hsame] at hrest
      exact ih hrest

theorem transactions_cons (p : UInt256) (rest : List UInt256) :
    transactions S (p :: rest) = (blockAt S p).vtx.map (fun tx => (p, tx)) ++ transactions S rest :=
  List.flatMap_cons

/-- **Run.**  A scan that returns has visited its blocks in order, and the clock was not overdue. -/
theorem scanAll_ok (todo : List UInt256) {s s' : ScanState} (h : scanAll S fUpdate todo s = .ok s') :
    overdue S.getTime s.reads s.nNow todo.length = false ∧ s'.visited = s.visited ++ todo ∧
      walletAfter S fUpdate s.w (transactions S todo) = some s'.w := by
  induction todo generalizing s with
  | nil =>
    rw [← Except.ok.inj h]
    exact ⟨rfl, (List.append_nil _).symm, rfl⟩
  | cons p rest ih =>
    rw [scanAll, Guard.bind_eq_ok] at h
    rcases h with ⟨s₁, hblock, hrest⟩
    rcases scanTxs_ok _ hblock with ⟨hw, hvisited, hnow, hreads⟩
    by_cases hnull : (tick S s₁).1 = true ∧ rest = []
    · rw [if_pos hnull] at hrest
      cases hrest
    rw [if_neg hnull] at hrest
    rcases ih hrest with ⟨hclock, hvis, hwallet⟩
    have htick : (tick S s₁).2.visited = s₁.visited ∧ (tick S s₁).2.w = s₁.w := by
      unfold tick
      split_ifs <;> exact ⟨rfl, rfl⟩
    refine ⟨?_, ?_, ?_⟩
    · cases rest with
      | nil =>
        rw [List.length_singleton, overdue, decide_eq_false_iff_not, ← hnow, ← hreads]
        intro hlate
        exact hnull ⟨by rw [tick, if_pos hlate], rfl⟩
      | cons q rest =>
        rw [List.length_cons, List.length_cons, overdue, ← hnow, ← hreads]
        unfold tick at hclock
        split_ifs at hclock ⊢ <;> exact hclock
    · rw [hvis, htick.1, hvisited]
      exact List.append_assoc _ [p] rest
    · rw [transactions_cons, walletAfter_append, hw, Option.bind_some, ← htick.2]
      exact hwallet

/-- **Progress.**  When the transactions can be looked at and the clock is not overdue, the scan returns. -/
theorem scanAll_exists (todo : List UInt256) {s : ScanState} {w' : WalletNode}
    (hclock : overdue S.getTime s.reads s.nNow todo.length = false)
    (hwallet : walletAfter S fUpdate s.w (transactions S todo) = some w') :
    ∃ s', scanAll S fUpdate todo s = .ok s' := by
  induction todo generalizing s with
  | nil => exact ⟨s, rfl⟩
  | cons p rest ih =>
    rw [transactions_cons, walletAfter_append, Option.bind_eq_some_iff] at hwallet
    rcases hwallet with ⟨w₁, hone, hrest⟩
    rcases scanTxs_exists _ (s := { s with visited := s.visited ++ [p] }) hone with ⟨s₁, hblock⟩
    rcases scanTxs_ok _ hblock with ⟨hw, -, hnow, hreads⟩
    have hsame : s₁.w = w₁ := Option.some.inj (hw.symm.trans hone)
    have hscan : scanBlock S fUpdate p s = .ok s₁ := hblock
    rw [scanAll, hscan]
    change ∃ s', (if (tick S s₁).1 = true ∧ rest = [] then _ else scanAll S fUpdate rest (tick S s₁).2) = .ok s'
    have hnow : s₁.nNow = s.nNow := hnow
    have hreads : s₁.reads = s.reads := hreads
    cases rest with
    | nil =>
      rw [List.length_singleton, overdue, ← hnow, ← hreads, decide_eq_false_iff_not] at hclock
      have hquiet : (tick S s₁).1 = false := by rw [tick, if_neg hclock]
      rw [hquiet, if_neg fun h => Bool.false_ne_true h.1]
      exact ⟨_, rfl⟩
    | cons q rest =>
      rw [if_neg fun h => List.cons_ne_nil q rest h.2]
      have hwallet₂ : (tick S s₁).2.w = w₁ := by
        unfold tick
        split_ifs <;> exact hsame
      rw [← hwallet₂] at hrest
      refine ih ?_ hrest
      rw [List.length_cons, List.length_cons, overdue, ← hnow, ← hreads] at hclock
      unfold tick
      split_ifs at hclock ⊢ <;> exact hclock

end Blocks

/-! ## What is added to the wallet -/

section Additions

variable {S : ScanEnv} {fUpdate : Bool}

theorem addToWallet_lookup (E : WalletEnv) (w : WalletNode) (wtxIn : CWalletTx) (fWrites : Bool) (hash : UInt256) :
    ((addToWallet E w wtxIn fWrites).2.mapWallet.lookup hash).map CWalletTx.tx =
      if hash = wtxIn.tx.getHash E.H then some (((w.mapWallet.lookup hash).map CWalletTx.tx).getD wtxIn.tx)
      else (w.mapWallet.lookup hash).map CWalletTx.tx := by
  unfold addToWallet
  dsimp only
  by_cases hown : hash = wtxIn.tx.getHash E.H
  · rw [if_pos hown, hown]
    cases w.mapWallet.lookup (wtxIn.tx.getHash E.H) with
    | none =>
      rw [addToSpends_mapWallet, AList.lookup_insert]
      rfl
    | some wtx =>
      dsimp only
      rw [AList.lookup_insert]
      rfl
  · rw [if_neg hown]
    cases w.mapWallet.lookup (wtxIn.tx.getHash E.H) with
    | none =>
      dsimp only
      rw [addToSpends_mapWallet, AList.lookup_insert_ne hown]
    | some wtx =>
      dsimp only
      rw [AList.lookup_insert_ne hown]

theorem setMerkleBranch_tx (H : Crypto) (wtx : CWalletTx) (block : CBlock) :
    (wtx.setMerkleBranch H block).tx = wtx.tx := by
  unfold CWalletTx.setMerkleBranch
  split <;> rfl

/-- What a transaction that is looked at can do to the wallet: nothing, or add itself. -/
theorem addIfInvolvingMe_lookup {E : WalletEnv} {w : WalletNode} {tx : CTransaction} {block : CBlock}
    {fWrites : Bool} {r : Bool × WalletNode} (h : addIfInvolvingMe E fUpdate w tx block fWrites = some r)
    (hash : UInt256) :
    (r.2.mapWallet.lookup hash).map CWalletTx.tx = (w.mapWallet.lookup hash).map CWalletTx.tx ∨
      hash = tx.getHash E.H ∧ w.mapWallet.lookup hash = none ∧
        (r.2.mapWallet.lookup hash).map CWalletTx.tx = some tx := by
  have htx : (((some block).map ((CWalletTx.ofTx tx).setMerkleBranch E.H)).getD (CWalletTx.ofTx tx)).tx = tx :=
    setMerkleBranch_tx E.H (CWalletTx.ofTx tx) block
  unfold addIfInvolvingMe at h
  split_ifs at h
  · exact .inl (by rw [← Option.some.inj h])
  rw [addToWalletIfInvolvingMe] at h
  rcases Option.bind_eq_some_iff.1 h with ⟨fInvolves, -, h⟩
  cases fInvolves with
  | false => exact .inl (by rw [← Option.some.inj h])
  | true =>
    rw [← Option.some.inj h, addToWallet_lookup, htx]
    split_ifs with hown
    · cases hold : w.mapWallet.lookup hash with
      | none => exact .inr ⟨hown, rfl, rfl⟩
      | some wtx => exact .inl rfl
    · exact .inl rfl

theorem involvesMe_exists {E : BalanceEnv} {w : WalletNode} {tx : CTransaction} (h : InputsFit w tx) :
    ∃ fInvolves, involvesMe E.toWalletEnv w tx = some fInvolves := by
  rw [involvesMe, getDebit_eq ismineAll h]
  split_ifs
  · exact ⟨true, rfl⟩
  · exact ⟨_, rfl⟩

theorem involvesMe_of_involves {E : BalanceEnv} {w : WalletNode} {tx : CTransaction} (h : InputsFit w tx)
    (hinvolves : Involves E.toWalletEnv w tx) : involvesMe E.toWalletEnv w tx = some true := by
  rw [involvesMe, getDebit_eq ismineAll h]
  split_ifs with hpays
  · rfl
  rcases hinvolves with hmine | ⟨txin, hin, hdebit⟩
  · exact absurd (List.any_eq_true.2 hmine) hpays
  · have hle : debitOf E.toWalletEnv w ismineAll txin ≤ (tx.vin.map (debitOf E.toWalletEnv w ismineAll)).sum :=
      List.single_le_sum (fun n hn => by
        rcases List.mem_map.1 hn with ⟨txin', hin', rfl⟩
        exact (debitOf_nonneg_le E ismineAll (h.1 txin' hin')).1) _ (List.mem_map_of_mem hin)
    rw [Option.map_some, decide_eq_true (lt_of_lt_of_le hdebit hle)]

variable (fUpdate) in
theorem addIfInvolvingMe_exists {E : BalanceEnv} {w : WalletNode} {tx : CTransaction} (h : InputsFit w tx)
    (block : CBlock) (fWrites : Bool) :
    ∃ r, addIfInvolvingMe E.toWalletEnv fUpdate w tx block fWrites = some r ∧
      (Involves E.toWalletEnv w tx → (r.2.mapWallet.lookup (tx.getHash E.H)).isSome) := by
  unfold addIfInvolvingMe
  split_ifs with hskip
  · rw [Bool.and_eq_true] at hskip
    exact ⟨_, rfl, fun _ => hskip.1⟩
  have hnow : ∀ wtxIn : CWalletTx, wtxIn.tx = tx →
      ((addToWallet E.toWalletEnv w wtxIn fWrites).2.mapWallet.lookup (tx.getHash E.H)).isSome := fun wtxIn hwtx => by
    rw [← Option.isSome_map, addToWallet_lookup, hwtx, if_pos rfl]
    rfl
  have hadded := hnow _ (setMerkleBranch_tx E.H (CWalletTx.ofTx tx) block)
  rw [addToWalletIfInvolvingMe]
  by_cases hexists : (w.mapWallet.lookup (tx.getHash E.H)).isSome
  · rw [if_pos hexists]
    exact ⟨_, rfl, fun _ => hadded⟩
  · rw [if_neg hexists]
    rcases involvesMe_exists h with ⟨fInvolves, heq⟩
    rw [heq]
    cases fInvolves with
    | true => exact ⟨_, rfl, fun _ => hadded⟩
    | false =>
      refine ⟨_, rfl, fun hinvolves => ?_⟩
      exact absurd (heq.symm.trans (involvesMe_of_involves h hinvolves)) (by decide)

end Additions

/-! ## The wallet after a run of transactions -/

section Runs

variable {S : ScanEnv} {fUpdate : Bool} {w : WalletNode} {txs : List (UInt256 × CTransaction)}

theorem DrawnFrom.refl (w : WalletNode) (txs : List (UInt256 × CTransaction)) : DrawnFrom S w txs w := by
  intro hash wtx h
  exact .inl (by rw [h]; rfl)

theorem walletAfter_singleton (w : WalletNode) (e : UInt256 × CTransaction) :
    walletAfter S fUpdate w [e] = (addIfInvolvingMe S.wallet.toWalletEnv fUpdate w e.2 (blockAt S e.1)
      (S.fWrites e.1 (e.2.getHash S.wallet.H))).map Prod.snd :=
  bind_pure _

/-- **Step.**  The wallet is drawn from the same transactions as before. -/
theorem DrawnFrom.step {w₁ w₂ : WalletNode} {e : UInt256 × CTransaction} (h : DrawnFrom S w txs w₁) (he : e ∈ txs)
    (hstep : walletAfter S fUpdate w₁ [e] = some w₂) : DrawnFrom S w txs w₂ := by
  intro hash wtx hlookup
  rw [walletAfter_singleton, Option.map_eq_some_iff] at hstep
  rcases hstep with ⟨r, hadd, rfl⟩
  rcases addIfInvolvingMe_lookup hadd hash with hsame | ⟨hown, -, hnew⟩
  · rw [hlookup, Option.map_some] at hsame
    rcases Option.map_eq_some_iff.1 hsame.symm with ⟨wtx₁, hlookup₁, htx⟩
    rw [← htx]
    exact h hash wtx₁ hlookup₁
  · rw [hlookup, Option.map_some, Option.some.injEq] at hnew
    rw [hnew]
    exact .inr ⟨List.mem_map_of_mem he, hown.symm⟩

/-- **Run.**  Every transaction can be looked at. -/
theorem walletAfter_exists (hfits : DebitsFit S w txs) (todo : List (UInt256 × CTransaction)) (htodo : todo ⊆ txs)
    {w₁ : WalletNode} (h : DrawnFrom S w txs w₁) :
    ∃ w₂, walletAfter S fUpdate w₁ todo = some w₂ ∧ DrawnFrom S w txs w₂ := by
  induction todo generalizing w₁ with
  | nil => exact ⟨w₁, rfl, h⟩
  | cons e todo ih =>
    have he : e ∈ txs := htodo List.mem_cons_self
    rcases addIfInvolvingMe_exists fUpdate (hfits w₁ h e he) (blockAt S e.1)
      (S.fWrites e.1 (e.2.getHash S.wallet.H)) with ⟨r, hadd, -⟩
    have hone : walletAfter S fUpdate w₁ [e] = some r.2 := by rw [walletAfter_singleton, hadd, Option.map_some]
    rw [walletAfter_cons, hone]
    exact ih (fun x hx => htodo (List.mem_cons_of_mem e hx)) (h.step he hone)

/-- Nothing leaves the wallet. -/
theorem walletAfter_keeps (todo : List (UInt256 × CTransaction)) {w₁ w₂ : WalletNode} {hash : UInt256}
    (h : walletAfter S fUpdate w₁ todo = some w₂) (hmem : (w₁.mapWallet.lookup hash).isSome) :
    (w₂.mapWallet.lookup hash).isSome := by
  induction todo generalizing w₁ with
  | nil => rwa [← Option.some.inj h]
  | cons e todo ih =>
    rw [walletAfter_cons, walletAfter_singleton, Option.bind_eq_some_iff] at h
    rcases h with ⟨w', hone, hrest⟩
    rcases Option.map_eq_some_iff.1 hone with ⟨r, hadd, rfl⟩
    refine ih hrest ?_
    rw [← Option.isSome_map (f := CWalletTx.tx)] at hmem ⊢
    rcases addIfInvolvingMe_lookup hadd hash with hsame | ⟨-, hnone, -⟩
    · rwa [hsame]
    · rw [hnone] at hmem
      exact absurd hmem Bool.false_ne_true

end Runs

/-! ## Rescans -/

section

variable {S : ScanEnv} {fUpdate : Bool} {w : WalletNode} {pindexStart : UInt256}

/-- The two loops together scan the blocks that are to be scanned. -/
theorem scanForWalletTransactions_eq (hchain : CChain.Linked S.mapBlockIndex S.chainActive)
    (hstart : pindexStart ∈ S.chainActive) :
    scanForWalletTransactions S fUpdate w pindexStart =
      scanAll S fUpdate (blocksToScan S pindexStart) ⟨w, 0, S.getTime 0, 1, []⟩ := by
  rcases List.getElem?_of_mem hstart with ⟨i, hi⟩
  rcases skipLoop_eq hchain (S.chainActive.length + 1) i (by omega) (Nat.succ_pos _) with ⟨j, hskip, hdrop⟩
  rw [scanForWalletTransactions, ← hi, hskip, blocksToScan, hchain.nHeight i pindexStart hi, ← hdrop]
  exact scanLoop_eq hchain (S.chainActive.length + 1) j (by omega) (Nat.succ_pos _) _

/-- For every chain, wallet and sequence of clock readings, a rescan is safe and complete if and only if the
clock does not ask for progress to be logged after the tip. -/
theorem rescan_iff (hchain : CChain.Linked S.mapBlockIndex S.chainActive) (hstart : pindexStart ∈ S.chainActive)
    (hfits : DebitsFit S w (transactions S (blocksToScan S pindexStart))) :
    SafeAndComplete S fUpdate w pindexStart ↔
      overdue S.getTime 1 (S.getTime 0) (blocksToScan S pindexStart).length = false := by
  rw [SafeAndComplete, scanForWalletTransactions_eq hchain hstart]
  constructor
  · rintro ⟨s, hscan, -, -⟩
    exact (scanAll_ok _ hscan).1
  · intro hclock
    have hdrawn := DrawnFrom.refl (S := S) w (transactions S (blocksToScan S pindexStart))
    rcases walletAfter_exists hfits _ (List.Subset.refl _) hdrawn with ⟨wEnd, hall, -⟩
    rcases scanAll_exists _ (s := ⟨w, 0, S.getTime 0, 1, []⟩) hclock hall with ⟨s, hscan⟩
    rcases scanAll_ok _ hscan with ⟨-, hvisited, hwallet⟩
    refine ⟨s, hscan, hvisited, fun _ before pindex tx after hsplit => ?_⟩
    rw [hsplit] at hfits hdrawn hwallet
    have hbefore : before ⊆ before ++ (pindex, tx) :: after := List.subset_append_left _ _
    have hmem : (pindex, tx) ∈ before ++ (pindex, tx) :: after := List.mem_append_right _ List.mem_cons_self
    rcases walletAfter_exists hfits before hbefore hdrawn with ⟨w₁, hreach, hdrawn₁⟩
    refine ⟨w₁, hreach, fun hinvolves => ?_⟩
    rcases addIfInvolvingMe_exists fUpdate (hfits w₁ hdrawn₁ _ hmem) (blockAt S pindex)
      (S.fWrites pindex (tx.getHash S.wallet.H)) with ⟨r, hadd, hadded⟩
    rw [walletAfter_append, hreach, Option.bind_some, walletAfter_cons, walletAfter_singleton, hadd] at hwallet
    exact walletAfter_keeps after hwallet (hadded hinvolves)

end

/-! ## A chain of one block -/

/-- The clock is read before the scan, after the block and when progress is logged. -/
def oneBlockScan (getTime : Nat → Int) : ScanEnv where
  wallet :=
    { balanceEnv with
      readBlock := fun hash => if (listBlock [orphanTx 5 [7]]).getHash firstByteCrypto = hash then some (listBlock [orphanTx 5 [7]]) else none
      readBlock_hash := fun hash block h => by
        split_ifs at h with heq
        rw [← Option.some.inj h]
        exact heq }
  mapBlockIndex := [{ CBlockIndex.null with phashBlock := 1 }]
  chainActive := [1]
  leftover _ := (listBlock [orphanTx 5 [7]])
  fWrites _ _ := true
  nTimeFirstKey := 0
  getTime := getTime

theorem oneBlockScan_linked (getTime : Nat → Int) :
    CChain.Linked (oneBlockScan getTime).mapBlockIndex (oneBlockScan getTime).chainActive :=
  have h : CChain.Linked [{ CBlockIndex.null with phashBlock := 1 }] [1] := CChain.linked_of_check (by decide)
  h

theorem oneBlockScan_fits (getTime : Nat → Int) :
    DebitsFit (oneBlockScan getTime) (start oneKeyWallet [])
      (transactions (oneBlockScan getTime) (blocksToScan (oneBlockScan getTime) 1)) := by
  have htxs : transactions (oneBlockScan getTime) (blocksToScan (oneBlockScan getTime) 1) = [(1, orphanTx 5 [7])] :=
    rfl
  rw [htxs]
  intro w' hdrawn e he
  rw [List.mem_singleton.1 he]
  -- Nothing that the wallet can hold has the hash that is spent.
  have hnone : w'.mapWallet.lookup 7 = none := by
    cases hlookup : w'.mapWallet.lookup 7 with
    | none => rfl
    | some wtx =>
      rcases hdrawn 7 wtx hlookup with hold | ⟨hin, hhash⟩
      · cases hold
      · rw [List.mem_singleton.1 hin] at hhash
        have hother : (orphanTx 5 [7]).getHash firstByteCrypto ≠ 7 := by decide
        exact absurd hhash hother
  have hvalue : ∀ txin ∈ (orphanTx 5 [7]).vin, w'.prevValue txin = 0 := fun txin hin => by
    rw [List.mem_singleton.1 hin, prevValue, prevOut, hnone]
    rfl
  refine ⟨fun txin hin => (hvalue txin hin).ge, ?_⟩
  rw [List.map_congr_left hvalue]
  decide

theorem rescan_oneBlock : SafeAndComplete (oneBlockScan fun _ => 0) true (start oneKeyWallet []) 1 ↔
    overdue (oneBlockScan fun _ => 0).getTime 1 ((oneBlockScan fun _ => 0).getTime 0)
      (blocksToScan (oneBlockScan fun _ => 0) 1).length = false :=
  rescan_iff (oneBlockScan_linked _) (List.mem_singleton_self _) (oneBlockScan_fits _)

/-- A minute has gone by when the tip has been scanned: the height that is logged is that of no block. -/
theorem rescan_unsafe :
    (match scanForWalletTransactions (oneBlockScan fun reads => if reads = 0 then 0 else 60) true
      (start oneKeyWallet []) 1 with | .error .nullPointer => true | _ => false) = true ∧
      ¬ SafeAndComplete (oneBlockScan fun reads => if reads = 0 then 0 else 60) true (start oneKeyWallet []) 1 := by
  have hnull : (match scanForWalletTransactions (oneBlockScan fun reads => if reads = 0 then 0 else 60) true
      (start oneKeyWallet []) 1 with | .error .nullPointer => true | _ => false) = true := by decide
  refine ⟨hnull, ?_⟩
  rintro ⟨s, hscan, -⟩
  rw [hscan] at hnull
  exact absurd hnull Bool.false_ne_true

end Rescan

end Dobbscoin
