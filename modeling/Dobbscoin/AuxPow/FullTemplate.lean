import Dobbscoin.AuxPow.Templates
import Dobbscoin.Validation.MoneySupply

/-!
# A template without room for its proof

A chain whose pool fills a template to the limit, and a proof of 10000 bytes for it.  With it
`roomForProof_iff` says for which settings of `-blockmaxsize` a template leaves room.
-/

namespace Dobbscoin

open ByteCodec Guard

namespace FullTemplate

/-! ## The network -/

def regTestParams : CChainParams :=
  { testNetParams with
    bnProofOfWorkLimit := ~~~0#256 >>> 1
    nEnforceBlockUpgradeMajority := 750
    nRejectBlockOutdatedMajority := 950
    nToCheckBlockUpgradeMajority := 1000
    fPowNoRetargeting := true }

/-- Of a message that is a transaction this reads the low half of the first hash in it. -/
def crypto : Crypto where
  hash msg := BitVec.ofNat 256 (2 ^ 255 + leNat ((msg.drop 5).take 8))
  hashScrypt _ := 0

def env (now : Int) : ValidationEnv where
  params := regTestParams
  crypto := crypto
  horizon := fun _ _ _ => false
  adjustedTime := now
  fCheckpointsEnabled := false
  newAddress := id
  verifyScript := fun _ _ _ _ _ => .ok ()
  nScriptCheckThreads := 0
  hashAssumeValid := 0

/-! ## Transactions that each spend a coin of their own -/

/-- The coins that are spent: one output of no value that anyone can spend. -/
def coinId (i : Nat) : UInt256 :=
  BitVec.ofNat 256 (i + 1)

def anyoneCoin : CCoins :=
  ⟨false, [⟨0, [0x51]⟩], 1, 1⟩

/-- A transaction that makes `k` empty outputs of the coin `i`. -/
def spender (k i : Nat) : CTransaction where
  nVersion := 1
  vin := [⟨⟨coinId i, 0⟩, [], 0xffffffff⟩]
  vout := List.replicate k ⟨0, []⟩
  nLockTime := 0

theorem coinId_toNat {i : Nat} (hi : i < 252) : (coinId i).toNat = i + 1 := by
  rw [coinId, BitVec.toNat_ofNat]
  exact Nat.mod_eq_of_lt (by omega)

theorem coinId_inj {i j : Nat} (hi : i < 252) (hj : j < 252) (h : coinId i = coinId j) : i = j := by
  have hnat := congrArg BitVec.toNat h
  rw [coinId_toNat hi, coinId_toNat hj] at hnat
  omega

theorem spender_hash (k : Nat) {i : Nat} (hi : i < 252) :
    (spender k i).getHash crypto = BitVec.ofNat 256 (2 ^ 255 + (i + 1)) := by
  have hput : ((CTransaction.codec.put (spender k i)).drop 5).take 8 = leBytes 8 (coinId i).toNat := rfl
  show BitVec.ofNat 256 (2 ^ 255 + leNat (((CTransaction.codec.put (spender k i)).drop 5).take 8)) = _
  rw [hput, leNat_leBytes, coinId_toNat hi, Nat.mod_eq_of_lt (by omega)]

/-- No transaction has the hash of a coin. -/
theorem spender_hash_ne (k : Nat) {i j : Nat} (hi : i < 252) (hj : j < 252) :
    (spender k i).getHash crypto ≠ coinId j := by
  intro h
  have hnat := congrArg BitVec.toNat h
  rw [spender_hash k hi, coinId_toNat hj, BitVec.toNat_ofNat, Nat.mod_eq_of_lt (by omega)] at hnat
  omega

theorem spender_size {k i : Nat} :
    (spender k i).getSerializeSize = 50 + getSizeOfCompactSize k + 9 * k := by
  have hout : (CTxOut.getSerializeSize ⟨0, []⟩) = 9 := rfl
  have hin : (CTxIn.getSerializeSize ⟨⟨coinId i, 0⟩, [], 0xffffffff⟩) = 41 := rfl
  have hone : getSizeOfCompactSize 1 = 1 := rfl
  simp only [CTransaction.getSerializeSize, spender, vecSize, List.map_cons, List.map_nil, List.length_cons,
    List.length_nil, List.sum_cons, List.sum_nil, List.map_replicate, List.length_replicate, List.sum_replicate_nat,
    hin, hout, Nat.zero_add, hone]
  omega

theorem spender_sigOps (k i : Nat) : getLegacySigOpCount (spender k i) = 0 := by
  simp [getLegacySigOpCount, spender, CScript.getSigOpCount, CScript.sigOpLoop]

theorem spender_not_coinBase (k i : Nat) : (spender k i).isCoinBase = false := by
  simp [CTransaction.isCoinBase, spender, COutPoint.isNull]

theorem addValuesOut_empty (k : Nat) : addValuesOut 0 (List.replicate k ⟨0, []⟩) = .ok 0 := by
  induction k with
  | zero => rfl
  | succ k ih => exact ih

theorem spender_valueOut (k i : Nat) : (spender k i).getValueOut = .ok 0 :=
  addValuesOut_empty k

section

variable {view : CoinsView} {i : Nat}

theorem outputAt_coin (h : view.coins (coinId i) = some anyoneCoin) :
    view.outputAt ⟨coinId i, 0⟩ = some ⟨0, [0x51]⟩ := by
  unfold CoinsView.outputAt
  rw [h]
  rfl

theorem spender_haveInputs (k : Nat) (h : view.coins (coinId i) = some anyoneCoin) :
    view.haveInputs (spender k i) = true := by
  simp [CoinsView.haveInputs, spender, outputAt_coin h]

theorem spender_valueIn (k : Nat) (h : view.coins (coinId i) = some anyoneCoin) :
    view.getValueIn (spender k i) = .ok 0 := by
  rw [CoinsView.getValueIn, spender_not_coinBase k i]
  simp only [spender, addValuesIn, CoinsView.getOutputFor, outputAt_coin h]
  rfl

theorem spender_p2sh (k : Nat) (h : view.coins (coinId i) = some anyoneCoin) :
    getP2SHSigOpCount (spender k i) view = .ok 0 := by
  rw [getP2SHSigOpCount, spender_not_coinBase k i]
  simp only [spender, addP2SHSigOps, CoinsView.getOutputFor, outputAt_coin h]
  rfl

/-- The scripts of a spender pass at once. -/
theorem spender_checkInputs (k : Nat) (now : Int) (m : BlockMap) (fScriptChecks : Bool) (flags : UInt32)
    (h : view.coins (coinId i) = some anyoneCoin) :
    checkInputs (env now) m (spender k i) view fScriptChecks flags = .ok [] := by
  have hout := spender_valueOut k i
  have hhave := spender_haveInputs k h
  rw [checkInputs, spender_not_coinBase k i]
  simp only [hhave, hout]
  cases fScriptChecks with
  | false =>
    simp only [spender, checkInputValues, h]
    rfl
  | true =>
    simp only [spender, checkInputValues, scriptChecks, CoinsView.getOutputFor, outputAt_coin h, h]
    rfl

/-- Spending a coin leaves the other coins. -/
theorem spender_updateCoins (k : Nat) (nHeight : Nat) (hi : i < 252) (h : view.coins (coinId i) = some anyoneCoin) :
    ∃ view' undo, updateCoins crypto (spender k i) view nHeight = .ok (view', undo) ∧
      view'.hashBlock = view.hashBlock ∧
      ∀ j < 252, j ≠ i → view'.coins (coinId j) = view.coins (coinId j) := by
  have hentry : view.entry (coinId i) = anyoneCoin := by
    rw [CoinsView.entry, h]
    rfl
  have hspend : spendInputs view (spender k i).vin =
      .ok (view.set (coinId i) ⟨false, [], 1, 1⟩, [⟨⟨0, [0x51]⟩, false, 1, 1⟩]) := by
    simp only [spender, spendInputs, hentry]
    rfl
  refine ⟨(view.set (coinId i) ⟨false, [], 1, 1⟩).set ((spender k i).getHash crypto)
    (CCoins.fromTx (spender k i) nHeight), ⟨[⟨⟨0, [0x51]⟩, false, 1, 1⟩]⟩, ?_, rfl, ?_⟩
  · rw [updateCoins, spender_not_coinBase k i, hspend]
    rfl
  · intro j hj hne
    have hcoin : coinId j ≠ coinId i := fun heq => hne (coinId_inj hj hi heq)
    rw [CoinsView.set_coins_of_ne _ (spender_hash_ne k hi hj).symm, CoinsView.set_coins_of_ne _ hcoin]

end

/-- The transactions of the pool: the first one makes `k` outputs, the others one. -/
def poolTx (k i : Nat) : CTransaction :=
  spender (if i = 0 then k else 1) i

/-- The coins of these transactions are there. -/
def Available (view : CoinsView) (is : List Nat) : Prop :=
  ∀ i ∈ is, view.coins (coinId i) = some anyoneCoin

/-- Spending the first coin leaves those of the others. -/
theorem poolTx_updateCoins {view : CoinsView} {i : Nat} {is : List Nat} (k nHeight : Nat) (hlt : ∀ j ∈ i :: is, j < 252)
    (hnodup : (i :: is).Nodup) (h : Available view (i :: is)) :
    ∃ view' undo, updateCoins crypto (poolTx k i) view nHeight = .ok (view', undo) ∧
      view'.hashBlock = view.hashBlock ∧ Available view' is := by
  rcases spender_updateCoins (if i = 0 then k else 1) nHeight (hlt i List.mem_cons_self) (h i List.mem_cons_self) with
    ⟨view', undo, hupdate, hbest, hothers⟩
  refine ⟨view', undo, hupdate, hbest, fun j hj => ?_⟩
  have hne : j ≠ i := by
    rintro rfl
    exact (List.nodup_cons.1 hnodup).1 hj
  rw [hothers j (hlt j (List.mem_cons_of_mem _ hj)) hne]
  exact h j (List.mem_cons_of_mem _ hj)

/-! ## Connecting them -/

section

variable {now : Int} {m : BlockMap} {rules : ConnectRules} {k : Nat}

/-- One transaction is connected; it adds no fee, no signature operation and no open check. -/
theorem connectTx_poolTx {s : ConnectState} {i : Nat} {is : List Nat} (hlt : ∀ j ∈ i :: is, j < 252)
    (hnodup : (i :: is).Nodup) (h : Available s.view (i :: is)) (hsigops : s.nSigOps ≤ maxBlockSigOps)
    (hfees : s.nFees = 0) :
    ∃ s' undo, connectTx (env now) m rules s (poolTx k i) = .ok (s', undo) ∧ s'.nSigOps = s.nSigOps ∧
      s'.nFees = 0 ∧ s'.checks = s.checks ∧ Available s'.view is := by
  have hcoin := h i List.mem_cons_self
  rcases poolTx_updateCoins k rules.nHeight hlt hnodup h with ⟨view', undo, hupdate, -, havailable⟩
  have hfew : ¬ s.nSigOps > maxBlockSigOps := not_lt.2 hsigops
  have hin : s.view.getValueIn (poolTx k i) = .ok 0 := spender_valueIn _ hcoin
  have hout : (poolTx k i).getValueOut = .ok 0 := spender_valueOut _ i
  have hhave : s.view.haveInputs (poolTx k i) = true := spender_haveInputs _ hcoin
  have hp2sh : (if rules.fStrictPayToScriptHash then getP2SHSigOpCount (poolTx k i) s.view else .ok 0) = .ok 0 := by
    split_ifs
    · exact spender_p2sh _ hcoin
    · rfl
  have hchecks : checkInputs (env now) m (poolTx k i) s.view rules.fScriptChecks rules.flags = .ok [] :=
    spender_checkInputs _ now m _ _ hcoin
  have hcb : (poolTx k i).isCoinBase = false := spender_not_coinBase _ i
  have hlegacy : getLegacySigOpCount (poolTx k i) = 0 := spender_sigOps _ i
  have hupdate' : updateCoins (env now).crypto (poolTx k i) s.view rules.nHeight = .ok (view', undo) := hupdate
  refine ⟨⟨view', 0, s.nSigOps, s.vtxundo, s.checks ++ []⟩, undo, ?_, rfl, rfl, List.append_nil _, havailable⟩
  unfold connectTx
  simp only [hlegacy, Nat.add_zero, rejectIf_of_not _ hfew, hcb, hhave, hp2sh, hin, hout, hchecks, hupdate', hfees,
    Bool.false_eq_true, Bool.true_eq_false, if_false, rejectIf_of_not _ not_false, bind, Except.bind]
  rfl

/-- **All of them** are connected. -/
theorem connectTxs_poolTx {is : List Nat} {s : ConnectState} (hlt : ∀ j ∈ is, j < 252) (hnodup : is.Nodup)
    (h : Available s.view is) (hsigops : s.nSigOps ≤ maxBlockSigOps) (hfees : s.nFees = 0) :
    ∃ s', connectTxs (env now) m rules s (is.map (poolTx k)) = .ok s' ∧ s'.nFees = 0 ∧ s'.checks = s.checks := by
  induction is generalizing s with
  | nil => exact ⟨s, rfl, hfees, rfl⟩
  | cons i is ih =>
    rcases connectTx_poolTx hlt hnodup h hsigops hfees with ⟨s₁, undo, hconnect, hsigops₁, hfees₁, hchecks₁, havailable⟩
    rcases ih (s := { s₁ with vtxundo := s₁.vtxundo ++ [undo] }) (fun j hj => hlt j (List.mem_cons_of_mem _ hj))
      (List.nodup_cons.1 hnodup).2 havailable (hsigops₁.trans_le hsigops) hfees₁ with ⟨s₂, hrest, hfees₂, hchecks₂⟩
    refine ⟨s₂, ?_, hfees₂, hchecks₂.trans hchecks₁⟩
    rw [List.map_cons, connectTxs, hconnect]
    exact hrest

end

/-! ## Selecting them -/

/-- All entries that are compared here are equal, so any of them is a greatest one. -/
def fifo : PriorityHeap where
  pop _ a l := (a, l)
  perm _ _ _ := List.Perm.refl _

/-- The entry of a transaction without value. -/
def entryOf (k i : Nat) : TxPriority :=
  ⟨some 0, ⟨0⟩, poolTx k i⟩

section

variable {c : MinerCall} {now : Int} {k : Nat}

/-- One round adds the transaction. -/
theorem collectTx_poolTx (henv : c.env = env now) (hmin : c.options.nBlockMinSize = c.options.nBlockMaxSize)
    {s : Selection} {i : Nat} {is : List Nat} (hlt : ∀ j ∈ i :: is, j < 252) (hnodup : (i :: is).Nodup)
    (h : Available s.view (i :: is)) (horphans : s.vOrphan = []) (hsigops : s.nBlockSigOps < maxBlockSigOps)
    (hsize : (poolTx k i).getSerializeSize < 2 ^ 32)
    (hroom : s.nBlockSize + (poolTx k i).getSerializeSize < c.options.nBlockMaxSize) :
    ∃ s', c.collectTx (entryOf k i) s = .ok s' ∧ s'.vtx = s.vtx ++ [poolTx k i] ∧
      s'.nBlockSize = s.nBlockSize + (poolTx k i).getSerializeSize ∧ s'.nBlockSigOps = s.nBlockSigOps ∧
      s'.nFees = s.nFees ∧ s'.vecPriority = s.vecPriority ∧ s'.vOrphan = [] ∧ Available s'.view is := by
  have hcoin := h i List.mem_cons_self
  rcases poolTx_updateCoins k c.nHeight hlt hnodup h with ⟨view', undo, hupdate, -, havailable⟩
  have hcount : (entryOf k i).tx.serializeSize % 2 ^ 32 = (poolTx k i).getSerializeSize := by
    rw [CTransaction.serializeSize_eq]
    exact Nat.mod_eq_of_lt hsize
  have hfits : ¬ s.nBlockSize + (poolTx k i).getSerializeSize ≥ c.options.nBlockMaxSize := not_le.2 hroom
  have hlegacy : getLegacySigOpCount (entryOf k i).tx = 0 := spender_sigOps _ i
  have hfew : ¬ s.nBlockSigOps + 0 ≥ maxBlockSigOps := not_le.2 hsigops
  have hkept : c.skipsFree s (entryOf k i) (poolTx k i).getSerializeSize = false := by
    have hbelow : ¬ s.nBlockSize + (poolTx k i).getSerializeSize ≥ c.options.nBlockMinSize := by
      rw [hmin]
      exact hfits
    simp [MinerCall.skipsFree, hbelow]
  have hin : s.view.getValueIn (poolTx k i) = .ok 0 := spender_valueIn _ hcoin
  have hout : (poolTx k i).getValueOut = .ok 0 := spender_valueOut _ i
  have hhave : ¬ s.view.haveInputs (poolTx k i) = false := by
    rw [Bool.not_eq_false]
    exact spender_haveInputs _ hcoin
  have hp2sh : getP2SHSigOpCount (poolTx k i) s.view = .ok 0 := spender_p2sh _ hcoin
  have hchecks : checkInputs c.env.inline c.mapBlockIndex (poolTx k i) s.view true mandatoryScriptVerifyFlags =
      .ok [] := by
    rw [henv]
    exact spender_checkInputs _ now _ _ _ hcoin
  have hupdate' : updateCoins c.env.crypto (poolTx k i) s.view c.nHeight = .ok (view', undo) := by
    rw [henv]
    exact hupdate
  have hround : c.collectTx (entryOf k i) s =
      .ok ((({ s with fSortedByFee := c.sortsByFee s (entryOf k i) (poolTx k i).getSerializeSize } : Selection).add view'
        (poolTx k i) (poolTx k i).getSerializeSize 0 0).release ((poolTx k i).getHash c.env.crypto)) := by
    unfold MinerCall.collectTx
    simp only [hcount, hlegacy, if_neg hfits, if_neg hfew, hkept, Bool.false_eq_true, if_false]
    unfold MinerCall.addTx
    have htx : (entryOf k i).tx = poolTx k i := rfl
    simp only [htx, if_neg hhave, hin, hout, hp2sh, bind, Except.bind, Nat.add_zero, hchecks, hupdate']
    rw [if_neg (not_le.2 hsigops)]
    rfl
  refine ⟨_, hround, rfl, rfl, rfl, Int.add_zero _, ?_, ?_, havailable⟩
  · simp [Selection.release, Selection.add, horphans]
  · simp [Selection.release, Selection.add, horphans]

/-- **The loop** takes all of them, when they fit together. -/
theorem collect_poolTx (henv : c.env = env now) (hmin : c.options.nBlockMinSize = c.options.nBlockMaxSize)
    (hheap : c.heap = fifo) {is : List Nat} {s : Selection} {fuel : Nat} (hfuel : is.length ≤ fuel)
    (hlt : ∀ j ∈ is, j < 252) (hnodup : is.Nodup) (h : Available s.view is)
    (hqueue : s.vecPriority = is.map (entryOf k)) (horphans : s.vOrphan = []) (hsigops : s.nBlockSigOps < maxBlockSigOps)
    (hsize : ∀ j ∈ is, (poolTx k j).getSerializeSize < 2 ^ 32)
    (hroom : is ≠ [] → s.nBlockSize + (is.map fun j => (poolTx k j).getSerializeSize).sum < c.options.nBlockMaxSize) :
    ∃ s', c.collect fuel s = .ok s' ∧ s'.vtx = s.vtx ++ is.map (poolTx k) ∧ s'.nFees = s.nFees := by
  induction is generalizing s fuel with
  | nil =>
    refine ⟨s, ?_, (List.append_nil _).symm, rfl⟩
    cases fuel with
    | zero => rfl
    | succ fuel =>
      rw [MinerCall.collect, hqueue]
      rfl
  | cons i is ih =>
    have hall := hroom (List.cons_ne_nil i is)
    rw [List.map_cons, List.sum_cons] at hall
    cases fuel with
    | zero => exact absurd hfuel (by simp)
    | succ fuel =>
      rcases collectTx_poolTx henv hmin (s := { s with vecPriority := is.map (entryOf k) }) hlt hnodup h horphans hsigops
        (hsize i List.mem_cons_self) (show s.nBlockSize + _ < _ by omega) with
        ⟨s₁, hround, hvtx₁, hsize₁, hsigops₁, hfees₁, hqueue₁, horphans₁, havailable₁⟩
      have hsigops' : s₁.nBlockSigOps < maxBlockSigOps := by
        rw [hsigops₁]
        exact hsigops
      have hroom' : is ≠ [] →
          s₁.nBlockSize + (is.map fun j => (poolTx k j).getSerializeSize).sum < c.options.nBlockMaxSize := by
        intro _
        rw [hsize₁]
        exact lt_of_le_of_lt (by rw [Nat.add_assoc]) hall
      rcases ih (Nat.le_of_succ_le_succ hfuel) (fun j hj => hlt j (List.mem_cons_of_mem _ hj))
        (List.nodup_cons.1 hnodup).2 havailable₁ hqueue₁ horphans₁ hsigops'
        (fun j hj => hsize j (List.mem_cons_of_mem _ hj)) hroom' with ⟨s₂, hrest, hvtx₂, hfees₂⟩
      refine ⟨s₂, ?_, ?_, hfees₂.trans hfees₁⟩
      · rw [MinerCall.collect, hqueue, hheap]
        show (do
          let s ← c.collectTx (entryOf k i) { s with vecPriority := is.map (entryOf k) }
          c.collect fuel s) = _
        rw [hround]
        exact hrest
      · rw [hvtx₂, hvtx₁, List.map_cons, List.append_assoc]
        rfl

end

/-! ## The chain -/

def blockId (nHeight : Nat) : UInt256 :=
  BitVec.ofNat 256 (nHeight + 1)

/-- A block every second. -/
def chainEntry (nHeight : Nat) : CBlockIndex :=
  { CBlockIndex.null with
    phashBlock := blockId nHeight
    pprev := if nHeight = 0 then none else some (blockId (nHeight - 1))
    nHeight := nHeight
    nVersion := 3
    nTime := UInt32.ofNat (1600000000 + nHeight)
    nBits := 0x207fffff }

def chainTo : Nat → BlockMap
  | 0 => [chainEntry 0]
  | n + 1 => chainEntry (n + 1) :: chainTo n

theorem chainTo_cons (h : Nat) : ∃ rest, chainTo h = chainEntry h :: rest := by
  cases h with
  | zero => exact ⟨[], rfl⟩
  | succ n => exact ⟨chainTo n, rfl⟩

theorem entry_tip (h : Nat) : (chainTo h).entry (blockId h) = chainEntry h := by
  rcases chainTo_cons h with ⟨rest, hrest⟩
  simp [BlockMap.entry, BlockMap.lookup, hrest, chainEntry]

theorem nTime_chainEntry {h n : Nat} (hh : h < 2 ^ 31) (hn : n ≤ h) :
    (chainEntry n).getBlockTime = 1600000000 + n := by
  have hfits : (UInt32.ofNat (1600000000 + n)).toNat = 1600000000 + n := by
    simpa using Nat.mod_eq_of_lt (show 1600000000 + n < 2 ^ 32 by omega)
  show ((UInt32.ofNat (1600000000 + n)).toNat : Int) = _
  rw [hfits]
  rfl

theorem chainTo_time {h : Nat} (hh : h < 2 ^ 31) {i : CBlockIndex} (hi : i ∈ chainTo h) :
    i.getBlockTime ≤ 1600000000 + h := by
  induction h with
  | zero =>
    obtain rfl := List.mem_singleton.1 hi
    exact le_of_eq (nTime_chainEntry hh (le_refl 0))
  | succ n ih =>
    rcases List.mem_cons.1 hi with rfl | hi
    · exact le_of_eq (nTime_chainEntry hh (le_refl _))
    · have hle := ih (by omega) hi
      push_cast
      omega

/-- Whatever lies on a branch is stored, or the null entry. -/
theorem branch_entry (m : BlockMap) {fuel : Nat} {p : Option UInt256} {i : CBlockIndex} (hi : i ∈ m.branch fuel p) :
    i ∈ m ∨ i = CBlockIndex.null := by
  induction fuel generalizing p with
  | zero => cases hi
  | succ fuel ih =>
    cases p with
    | none => cases hi
    | some p =>
      rcases List.mem_cons.1 hi with rfl | hi
      · cases hl : m.lookup p with
        | none => exact Or.inr (by simp [BlockMap.entry, hl])
        | some i =>
          rw [BlockMap.entry_of_lookup hl]
          exact Or.inl (BlockMap.lookup_mem hl).1
      · exact ih hi

/-- The median time is the time of one of the blocks. -/
theorem getMedianTimePast_lt {chain : List CBlockIndex} {t : Int} (hpos : 0 < t)
    (h : ∀ i ∈ chain, i.getBlockTime < t) : getMedianTimePast chain < t := by
  have hall : ∀ x ∈ ((chain.take medianTimeSpan).map CBlockIndex.getBlockTime).insertionSort (· ≤ ·),
      x < t := by
    intro x hx
    rcases List.mem_map.1 ((List.mem_insertionSort (· ≤ ·)).1 hx) with ⟨i, hi, rfl⟩
    exact h i (List.mem_of_mem_take hi)
  unfold getMedianTimePast
  dsimp only
  rw [List.getD_eq_getElem?_getD]
  cases hget : (((chain.take medianTimeSpan).map CBlockIndex.getBlockTime).insertionSort (· ≤ ·))[
      (((chain.take medianTimeSpan).map CBlockIndex.getBlockTime).insertionSort (· ≤ ·)).length / 2]? with
  | none => exact hpos
  | some x => exact hall x (List.mem_of_getElem? hget)

/-- The next block, a second later, is behind the median time. -/
theorem chain_median {h : Nat} (hh : h < 2 ^ 31) :
    getMedianTimePast ((chainTo h).chainOf (blockId h)) < 1600000001 + h := by
  refine getMedianTimePast_lt (by omega) fun i hi => ?_
  rcases branch_entry _ hi with hmem | rfl
  · have hle := chainTo_time hh hmem
    omega
  · show (0 : Int) < _
    omega

/-- The tip and what is below it. -/
theorem chain_tip (h : Nat) : ∃ rest, (chainTo h).chainOf (blockId h) = chainEntry h :: rest := by
  have hheight : ((chainTo h).entry (blockId h)).nHeight = h := by
    rw [entry_tip]
    rfl
  rw [BlockMap.chainOf, hheight, BlockMap.branch, entry_tip]
  exact ⟨_, rfl⟩

/-- The header of the template. -/
def header (h : Nat) : CBlockHeader :=
  ⟨⟨0x00B00003, blockId h, 0, UInt32.ofNat (1600000001 + h), 0x207fffff, 0⟩, none⟩

def minerArgs : MinerArgs :=
  ⟨true, none⟩

section

variable {h : Nat}

/-- The clock of the node: a second after the tip. -/
def clock (h : Nat) : Int :=
  1600000001 + h

theorem templateTime_eq (hh : h < 2 ^ 31) :
    templateTime (env (clock h)).toEnv ((chainTo h).chainOf (blockId h)) = UInt32.ofNat (1600000001 + h) := by
  have hmedian := chain_median hh
  have hmax : max (getMedianTimePast ((chainTo h).chainOf (blockId h)) + 1) (clock h) = clock h :=
    max_eq_right (by simp only [clock]; omega)
  have hclock : (clock h % 2 ^ 32).toNat = 1600000001 + h := by
    simp only [clock]
    omega
  rw [templateTime, show (env (clock h)).toEnv.adjustedTime = clock h from rfl, hmax, hclock]

theorem nTime_next (hh : h < 2 ^ 31) : ((UInt32.ofNat (1600000001 + h)).toNat : Int) = 1600000001 + h := by
  have hfits : (UInt32.ofNat (1600000001 + h)).toNat = 1600000001 + h := by
    simpa using Nat.mod_eq_of_lt (show 1600000001 + h < 2 ^ 32 by omega)
  rw [hfits]
  push_cast
  rfl

theorem window_closed (hh : h < 2 ^ 31) {block : CBlockHeader} (htime : block.nTime = UInt32.ofNat (1600000001 + h)) :
    emergencyDifficultyWindow regTestParams block ((chainTo h).chainOf (blockId h)) = false := by
  rcases chain_tip h with ⟨rest, hrest⟩
  have hentry := nTime_chainEntry hh (le_refl h)
  have hnext : (block.nTime.toNat : Int) = 1600000001 + h := by
    rw [htime, nTime_next hh]
  have hgap : ¬ (block.nTime.toNat : Int) - (chainEntry h).nTime.toNat > emergencyDifficultyGap := by
    have hprev : ((chainEntry h).nTime.toNat : Int) = 1600000000 + h := hentry
    rw [hnext, hprev, emergencyDifficultyGap]
    omega
  rw [hrest, emergencyDifficultyWindow]
  split_ifs
  · rfl
  · exact decide_eq_false hgap

/-- The network does not retarget. -/
theorem required_eq (block : CBlockHeader) :
    getNextWorkRequired (env (clock h)).horizon regTestParams ((chainTo h).chainOf (blockId h)) block = 0x207fffff := by
  rcases chain_tip h with ⟨rest, hrest⟩
  rw [hrest]
  rfl

theorem requiredForMining_eq (hh : h < 2 ^ 31) {block : CBlockHeader}
    (htime : block.nTime = UInt32.ofNat (1600000001 + h)) :
    getNextWorkRequiredForMining (env (clock h)).horizon regTestParams ((chainTo h).chainOf (blockId h)) block =
      0x207fffff := by
  rw [getNextWorkRequiredForMining, window_closed hh htime]
  exact required_eq block

theorem createNewHeader_eq (hfork : 9 ≤ h) (hh : h < 2 ^ 31) :
    createNewHeader (env (clock h)).toEnv minerArgs (chainTo h) (blockId h) = header h := by
  have hactive : ((chainTo h).entry (blockId h)).nHeight + 1 ≥ auxPowForkHeight (env (clock h)).toEnv.params := by
    rw [entry_tip]
    show h + 1 ≥ 10
    omega
  have hbits : ∀ block : CBlockHeader, block.nTime = UInt32.ofNat (1600000001 + h) →
      getNextWorkRequiredForMining (env (clock h)).toEnv.horizon (env (clock h)).toEnv.params
        ((chainTo h).chainOf (blockId h)) block = 0x207fffff := fun block => requiredForMining_eq hh
  unfold createNewHeader
  dsimp only
  rw [if_pos hactive]
  unfold updateTime
  dsimp only
  rw [templateTime_eq hh, hbits _ rfl]
  rfl

end

/-! ## The template passes its test -/

def template (h k : Nat) (address : CTxDestination) : CBlock :=
  { header h with
    vtx := MinerCall.coinbase (pushHeight (h + 1) ++ [0]) address.script (getBlockValue regTestParams (h + 1) 0) ::
      (List.range 252).map (poolTx k) }

/-- Hashes are in the upper half. -/
theorem le_hash (msg : Bytes) : 2 ^ 255 ≤ (crypto.hash msg).toNat := by
  have hlen : ((msg.drop 5).take 8).length ≤ 8 := List.length_take_le _ _
  have hlt : leNat ((msg.drop 5).take 8) < 256 ^ 8 :=
    lt_of_lt_of_le (leNat_lt _) (Nat.pow_le_pow_right (by decide) hlen)
  have hval : (crypto.hash msg).toNat = 2 ^ 255 + leNat ((msg.drop 5).take 8) := by
    show (BitVec.ofNat 256 (2 ^ 255 + leNat ((msg.drop 5).take 8))).toNat = _
    rw [BitVec.toNat_ofNat]
    exact Nat.mod_eq_of_lt (by omega)
  rw [hval]
  exact Nat.le_add_right _ _

theorem hash_ne_genesis (msg : Bytes) : crypto.hash msg ≠ regTestParams.hashGenesisBlock := by
  intro h
  have hle := le_hash msg
  rw [h] at hle
  exact absurd hle (by decide)

section

variable {h k : Nat} {address : CTxDestination}

theorem header_valid (hfork : 9 ≤ h) (hh : h < 2 ^ 31) :
    contextualCheckBlockHeader (env (clock h)).toEnv (chainTo h) (header h) (blockId h) = .ok () := by
  have hgenesis : ¬ (header h).getHash (env (clock h)).toEnv.crypto =
      (env (clock h)).toEnv.params.hashGenesisBlock := hash_ne_genesis _
  have hbits : ¬ ((env (clock h)).toEnv.params.fSkipProofOfWorkCheck = false ∧
      (header h).nBits ≠ getNextWorkRequired (env (clock h)).toEnv.horizon (env (clock h)).toEnv.params
        ((chainTo h).chainOf (blockId h)) (header h) ∧
      isEmergencyDifficultyBlock (env (clock h)).toEnv.params (header h) ((chainTo h).chainOf (blockId h)) = false) := by
    rintro ⟨-, hne, -⟩
    exact hne (required_eq (header h)).symm
  have hheight : ((chainTo h).entry (blockId h)).nHeight = h := by
    rw [entry_tip]
    rfl
  have hactive : ¬ h + 1 < auxPowForkHeight (env (clock h)).toEnv.params := by
    show ¬ h + 1 < 10
    omega
  have hchain : (header h).getChainId = auxpowChainId := by
    show (0x00B00003 : Int32) >>> 16 = 0x00B0
    decide
  have htime : ¬ (header h).getBlockTime ≤ getMedianTimePast ((chainTo h).chainOf (blockId h)) := by
    have hmedian := chain_median hh
    have hnext : (header h).getBlockTime = 1600000001 + h := nTime_next hh
    omega
  have hversion : (header h).getBaseVersion = 3 := by
    show (0x00B00003 : Int32) % 256 = 3
    decide
  have htwo : ¬ (header h).getBaseVersion < 2 := by
    rw [hversion]
    decide
  have hthree : ¬ (header h).getBaseVersion < 3 := by
    rw [hversion]
    decide
  have hcheckpoint : ∀ hash, ¬ checkpointsCheckBlock (env (clock h)).toEnv (h + 1) hash = false := by
    intro hash hfalse
    cases hfalse
  have hlast : ¬ ∃ pcheckpoint ∈ getLastCheckpoint (env (clock h)).toEnv (chainTo h), h + 1 < pcheckpoint.nHeight := by
    rintro ⟨pcheckpoint, hmem, -⟩
    cases hmem
  unfold contextualCheckBlockHeader
  dsimp only
  rw [if_neg hgenesis, hheight]
  simp only [bind_eq_ok, exists_unit, rejectIf_eq_ok]
  refine ⟨hbits, fun hand => hactive hand.1, fun hand => hactive hand.1, fun hand => hand.2 hchain, htime,
    hcheckpoint _, hlast, fun hand => htwo hand.1, fun hand => hthree hand.1⟩

/-! ### The coinbase -/

theorem subsidy_bounds (n : Nat) : 0 ≤ getBlockValue regTestParams n 0 ∧
    getBlockValue regTestParams n 0 ≤ 50 * coin := by
  have hbounds := nSubsidy_bounds regTestParams n
  have hcoin : coin = 100000000 := rfl
  rw [getBlockValue, Int.add_zero]
  refine ⟨hbounds.1, hbounds.2.trans ?_⟩
  split_ifs <;> omega

theorem subsidy_toInt (n : Nat) :
    (Int64.ofInt (getBlockValue regTestParams n 0)).toInt = getBlockValue regTestParams n 0 := by
  have hbounds := subsidy_bounds n
  have hcoin : coin = 100000000 := rfl
  exact Int64.toInt_ofInt_of_le (by omega) (by omega)

theorem pushHeight_pos (n : Nat) : 1 ≤ (pushHeight n).length := by
  unfold pushHeight
  split_ifs
  · exact le_refl 1
  · exact le_refl 1
  · exact Nat.le_add_left 1 _

theorem sigOpLoop_le (fAccurate : Bool) (fuel lastOpcode : Nat) (pc : Bytes) :
    CScript.sigOpLoop fAccurate fuel lastOpcode pc ≤ 20 * fuel := by
  induction fuel generalizing lastOpcode pc with
  | zero => exact le_refl _
  | succ fuel ih =>
    unfold CScript.sigOpLoop
    split
    · exact Nat.zero_le _
    next opcode data pc' _ =>
      have hrest := ih opcode pc'
      dsimp only
      split_ifs with h₁ h₂ h₃
      · omega
      · have hmax : op16 = 0x60 := rfl
        have hmin : op1 = 0x51 := rfl
        omega
      · omega
      · omega

/-- The signature operations of a coinbase are few. -/
theorem coinbase_sigOps {scriptSig scriptPubKey : CScript} (hsig : scriptSig.length ≤ 100)
    (hkey : scriptPubKey.length ≤ 100) (nValue : Int) :
    getLegacySigOpCount (MinerCall.coinbase scriptSig scriptPubKey nValue) ≤ 4000 := by
  have hin := sigOpLoop_le false scriptSig.length opInvalidOpcode scriptSig
  have hout := sigOpLoop_le false scriptPubKey.length opInvalidOpcode scriptPubKey
  simp only [getLegacySigOpCount, MinerCall.coinbase, List.map_cons, List.map_nil, List.sum_cons, List.sum_nil,
    CScript.getSigOpCount]
  omega

/-- The sum of the sizes in the pool. -/
def poolSize (k : Nat) : Nat :=
  15110 + getSizeOfCompactSize k + 9 * k

theorem pool_size (k : Nat) : ((List.range 252).map fun i => (poolTx k i).getSerializeSize).sum = poolSize k := by
  have hfirst : (poolTx k 0).getSerializeSize = 50 + getSizeOfCompactSize k + 9 * k := spender_size
  have hothers : ((List.range 251).map fun i => (poolTx k (i + 1)).getSerializeSize) = List.replicate 251 60 := by
    rw [List.eq_replicate_iff]
    refine ⟨by simp, fun n hn => ?_⟩
    rcases List.mem_map.1 hn with ⟨i, -, rfl⟩
    exact spender_size
  rw [show (252 : Nat) = 251 + 1 from rfl, List.range_succ_eq_map, List.map_cons, List.map_map, List.sum_cons, hfirst,
    show (fun i => (poolTx k i).getSerializeSize) ∘ Nat.succ = fun i => (poolTx k (i + 1)).getSerializeSize from rfl,
    hothers, List.sum_replicate_nat, poolSize]
  omega

theorem poolTx_size_le (k : Nat) {i : Nat} (hi : i < 252) : (poolTx k i).getSerializeSize ≤ poolSize k := by
  rw [← pool_size k]
  exact List.single_le_sum (fun _ _ => Nat.zero_le _) _
    (List.mem_map.2 ⟨i, List.mem_range.2 hi, rfl⟩)

theorem checkOutputs_empty (k : Nat) : checkOutputs 0 (List.replicate k ⟨0, []⟩) = .ok () := by
  induction k with
  | zero => rfl
  | succ k ih => exact ih

theorem poolTx_checked (hk : 0 < k) (hsize : poolSize k ≤ maxBlockSize) {i : Nat} (hi : i < 252) :
    checkTransaction (poolTx k i) = .ok () := by
  have hpos : (if i = 0 then k else 1) ≠ 0 := by
    split_ifs <;> omega
  have hvout : ¬ (poolTx k i).vout.isEmpty = true := by
    intro hempty
    have hnil := List.isEmpty_iff.1 hempty
    exact hpos ((List.replicate_eq_nil_iff _).1 hnil)
  have hle : ¬ (poolTx k i).serializeSize > maxBlockSize := by
    rw [CTransaction.serializeSize_eq]
    exact not_lt.2 ((poolTx_size_le k hi).trans hsize)
  have hout : checkOutputs 0 (poolTx k i).vout = .ok () := checkOutputs_empty _
  have hcb : (poolTx k i).isCoinBase = false := spender_not_coinBase _ i
  have hnull : ¬ (poolTx k i).vin.any (fun txin => txin.prevout.isNull) = true := by
    simp [poolTx, spender, COutPoint.isNull]
  unfold checkTransaction
  simp only [hcb, Bool.false_eq_true, if_false, bind_eq_ok, exists_unit, rejectIf_eq_ok]
  exact ⟨Bool.false_ne_true, hvout, hle, hout, rfl, hnull⟩

theorem coinbase_checked {scriptSig scriptPubKey : CScript} (hlow : 2 ≤ scriptSig.length)
    (hsig : scriptSig.length ≤ 100) (hkey : scriptPubKey.length ≤ 100) (n : Nat) :
    checkTransaction (MinerCall.coinbase scriptSig scriptPubKey (getBlockValue regTestParams n 0)) = .ok () := by
  have hbounds := subsidy_bounds n
  have hmoney : moneyRange (getBlockValue regTestParams n 0) := by
    refine ⟨hbounds.1, hbounds.2.trans ?_⟩
    decide
  have hsize : ¬ (MinerCall.coinbase scriptSig scriptPubKey (getBlockValue regTestParams n 0)).serializeSize >
      maxBlockSize := by
    rw [CTransaction.serializeSize_eq, size_coinbase hsig hkey]
    simp only [maxBlockSize]
    omega
  have hcb : (MinerCall.coinbase scriptSig scriptPubKey (getBlockValue regTestParams n 0)).isCoinBase = true := rfl
  have hout : checkOutputs 0 (MinerCall.coinbase scriptSig scriptPubKey (getBlockValue regTestParams n 0)).vout =
      .ok () := by
    simp only [MinerCall.coinbase, checkOutputs, subsidy_toInt, bind_eq_ok, exists_unit, rejectIf_eq_ok, Int.zero_add,
      not_not]
    exact ⟨not_lt.2 hmoney.1, not_lt.2 hmoney.2, hmoney, trivial⟩
  unfold checkTransaction
  simp only [hcb, if_true, bind_eq_ok, exists_unit, rejectIf_eq_ok]
  refine ⟨Bool.false_ne_true, Bool.false_ne_true, hsize, hout, rfl, ?_⟩
  rintro (hshort | hlong)
  · exact absurd hshort (not_lt.2 hlow)
  · exact absurd hlong (not_lt.2 hsig)

/-- The script of the coinbase before the extra nonce. -/
theorem heightScript_bounds (hh : h + 1 < 2 ^ 31) :
    2 ≤ (pushHeight (h + 1) ++ [0]).length ∧ (pushHeight (h + 1) ++ [0]).length ≤ 6 := by
  have hpos := pushHeight_pos (h + 1)
  have hle := length_pushHeight hh
  rw [List.length_append, List.length_singleton]
  omega

theorem template_size (hh : h + 1 < 2 ^ 31) (hsize : poolSize k ≤ 998000) :
    (template h k address).serializeSize ≤ maxBlockSize := by
  have hscript := heightScript_bounds hh
  have haddress := length_script address
  have hheader : (CBlockHeader.codec.put (template h k address).toCBlockHeader).length = 80 := by
    have hflag : (header h).isAuxpow = false := by
      show ((0x00B00003 : Int32) &&& 256 != 0) = false
      decide
    rw [show (template h k address).toCBlockHeader = header h from rfl, CBlockHeader.put_of_not_auxpow hflag,
      CPureBlockHeader.length_put]
    rfl
  have hcoinbase := size_coinbase (show (pushHeight (h + 1) ++ [0]).length ≤ 100 by omega)
    (show address.script.length ≤ 100 by omega) (getBlockValue regTestParams (h + 1) 0)
  have hpool : (((List.range 252).map (poolTx k)).map CTransaction.getSerializeSize).sum = poolSize k := by
    rw [List.map_map]
    exact pool_size k
  have hcount : getSizeOfCompactSize 253 = 3 := rfl
  rw [CBlock.length_put, hheader]
  simp only [template, vtxSize, vecSize, List.map_cons, List.length_cons, List.length_map, List.length_range,
    List.sum_cons, hpool, hcoinbase, hcount, maxBlockSize]
  omega

theorem template_checkVtx (hk : 0 < k) (hh : h + 1 < 2 ^ 31) (hsize : poolSize k ≤ 998000) :
    checkVtx (template h k address) = .ok () := by
  have hscript := heightScript_bounds hh
  have haddress := length_script address
  have hsig : (pushHeight (h + 1) ++ [0]).length ≤ 100 := by omega
  have hkey : address.script.length ≤ 100 := by omega
  have hlimit : poolSize k ≤ maxBlockSize := by
    simp only [maxBlockSize]
    omega
  have hblock := @template_size h k address hh hsize
  have hmany : ¬ ((template h k address).vtx.isEmpty = true ∨ (template h k address).vtx.length > maxBlockSize ∨
      (template h k address).serializeSize > maxBlockSize) := by
    rintro (hempty | hlong | hbig)
    · cases hempty
    · simp [template, maxBlockSize] at hlong
    · exact absurd hbig (not_lt.2 hblock)
  have hothers : ¬ ((List.range 252).map (poolTx k)).any CTransaction.isCoinBase = true := by
    intro hany
    rcases List.any_eq_true.1 hany with ⟨tx, htx, hcb⟩
    rcases List.mem_map.1 htx with ⟨i, -, rfl⟩
    rw [show (poolTx k i).isCoinBase = false from spender_not_coinBase _ i] at hcb
    cases hcb
  have hall : ∀ tx ∈ (template h k address).vtx, checkTransaction tx = .ok () := by
    intro tx htx
    rcases List.mem_cons.1 htx with rfl | htx
    · exact coinbase_checked hscript.1 hsig hkey (h + 1)
    · rcases List.mem_map.1 htx with ⟨i, hi, rfl⟩
      exact poolTx_checked hk hlimit (List.mem_range.1 hi)
  have hzero : (((List.range 252).map (poolTx k)).map getLegacySigOpCount).sum = 0 := by
    rw [List.sum_eq_zero_iff]
    intro n hn
    rcases List.mem_map.1 hn with ⟨tx, htx, rfl⟩
    rcases List.mem_map.1 htx with ⟨i, -, rfl⟩
    exact spender_sigOps _ i
  have hsigops : ¬ ((template h k address).vtx.map getLegacySigOpCount).sum > maxBlockSigOps := by
    have hfew := coinbase_sigOps hsig hkey (getBlockValue regTestParams (h + 1) 0)
    rw [template, List.map_cons, List.sum_cons, hzero]
    simp only [maxBlockSigOps, maxBlockSize]
    omega
  unfold checkVtx
  simp only [bind_eq_ok, exists_unit, rejectIf_eq_ok, checkEach_eq_ok]
  exact ⟨hmany, fun hfalse => Bool.false_ne_true hfalse.symm, hothers, hall, hsigops⟩

theorem template_checkBlock (hk : 0 < k) (hh : h + 1 < 2 ^ 31) (hsize : poolSize k ≤ 998000) :
    checkBlock (env (clock h)).toEnv (template h k address) false false = .ok () := by
  have htime : ¬ (header h).getBlockTime > (env (clock h)).toEnv.adjustedTime + 2 * 60 * 60 := by
    show ¬ ((UInt32.ofNat (1600000001 + h)).toNat : Int) > clock h + 2 * 60 * 60
    rw [nTime_next (by omega), clock]
    omega
  have hheader : checkBlockHeader (env (clock h)).toEnv (template h k address).toCBlockHeader false = .ok () := by
    unfold checkBlockHeader
    simp only [bind_eq_ok, exists_unit, rejectIf_eq_ok]
    exact ⟨fun hand => Bool.false_ne_true hand.1, htime⟩
  unfold checkBlock
  simp only [bind_eq_ok, exists_unit]
  exact ⟨hheader, rfl, template_checkVtx hk hh hsize⟩

theorem template_contextual :
    contextualCheckBlock (env (clock h)).toEnv (chainTo h) ((chainTo h).entry (blockId h)).nHeight
      (template h k address) (some (blockId h)) = .ok () := by
  have hfinal : ¬ (template h k address).vtx.any (fun tx => !isFinalTx (env (clock h)).toEnv
      ((chainTo h).entry (blockId h)).nHeight tx ((chainTo h).entry (blockId h)).nHeight.succ
      (template h k address).getBlockTime) = true := by
    intro hany
    rcases List.any_eq_true.1 hany with ⟨tx, htx, hnot⟩
    have hlock : tx.nLockTime = 0 := by
      rcases List.mem_cons.1 htx with rfl | htx
      · rfl
      · rcases List.mem_map.1 htx with ⟨i, -, rfl⟩
        rfl
    rw [isFinalTx, if_pos hlock] at hnot
    cases hnot
  have hheight : ((chainTo h).entry (blockId h)).nHeight = h := by
    rw [entry_tip]
    rfl
  unfold contextualCheckBlock
  simp only [bind_eq_ok, exists_unit, rejectIf_eq_ok]
  refine ⟨hfinal, ?_⟩
  rintro ⟨-, -, hnot⟩
  have hscript : List.isPrefixOf (pushHeight (h + 1)) (pushHeight (h + 1) ++ [0]) = true :=
    List.isPrefixOf_iff_prefix.2 (List.prefix_append _ _)
  rw [Option.map_some, Option.getD_some, hheight] at hnot
  exact Bool.false_ne_true (hnot.symm.trans hscript)

/-! ### Connecting it -/

/-- The coins under the tip. -/
def coinsView (h : Nat) : CoinsView where
  coins txid := if 1 ≤ txid.toNat ∧ txid.toNat ≤ 252 then some anyoneCoin else none
  hashBlock := blockId h
  unspent := by
    intro txid c hc
    split_ifs at hc
    obtain rfl := Option.some.inj hc
    exact ⟨⟨0, [0x51]⟩, rfl, rfl⟩

theorem coins_available (h : Nat) : Available (coinsView h) (List.range 252) := by
  intro i hi
  have hlt := List.mem_range.1 hi
  have hval := coinId_toNat hlt
  show (if 1 ≤ (coinId i).toNat ∧ (coinId i).toNat ≤ 252 then some anyoneCoin else none) = some anyoneCoin
  rw [if_pos ⟨by omega, by omega⟩]

/-- No transaction with the hash of anything is there. -/
theorem coins_hash (h : Nat) (msg : Bytes) : (coinsView h).coins (crypto.hash msg) = none := by
  have hle := le_hash msg
  show (if 1 ≤ (crypto.hash msg).toNat ∧ (crypto.hash msg).toNat ≤ 252 then some anyoneCoin else none) = none
  rw [if_neg (by rintro ⟨-, hsmall⟩; omega)]

/-- The coins after the coinbase was added. -/
theorem available_after_coinbase {tx : CTransaction} {c : CCoins} (h : Nat) :
    Available ((coinsView h).set (tx.getHash crypto) c) (List.range 252) := by
  intro i hi
  have hlt := List.mem_range.1 hi
  have hne : coinId i ≠ tx.getHash crypto := by
    intro heq
    have hle := le_hash (CTransaction.codec.put tx)
    rw [show crypto.hash (CTransaction.codec.put tx) = coinId i from heq.symm, coinId_toNat hlt] at hle
    omega
  rw [CoinsView.set_coins_of_ne _ hne]
  exact coins_available h i hi

theorem connectVtx_cons {V : ValidationEnv} {m : BlockMap} {rules : ConnectRules} {view : CoinsView}
    {coinbase : CTransaction} {rest : List CTransaction} {s : ConnectState} {undo : CTxUndo}
    (h : connectTx V m rules ⟨view, 0, 0, [], []⟩ coinbase = .ok (s, undo)) :
    connectVtx V m rules view (coinbase :: rest) = connectTxs V m rules s rest := by
  rw [connectVtx, h]
  rfl

theorem template_connectVtx (hh : h + 1 < 2 ^ 31) (m : BlockMap) (rules : ConnectRules) :
    ∃ s, connectVtx (env (clock h)) m rules (coinsView h) (template h k address).vtx = .ok s ∧ s.nFees = 0 ∧
      s.checks = [] := by
  have hscript := heightScript_bounds hh
  have haddress := length_script address
  generalize hcoinbase : MinerCall.coinbase (pushHeight (h + 1) ++ [0]) address.script
    (getBlockValue regTestParams (h + 1) 0) = tx
  have hfew : getLegacySigOpCount tx ≤ 4000 := by
    rw [← hcoinbase]
    exact coinbase_sigOps (by omega) (by omega) _
  have hcb : tx.isCoinBase = true := by
    rw [← hcoinbase]
    rfl
  have hroom : ¬ 0 + getLegacySigOpCount tx > maxBlockSigOps := by
    simp only [maxBlockSigOps, maxBlockSize]
    omega
  have hfirst : connectTx (env (clock h)) m rules ⟨coinsView h, 0, 0, [], []⟩ tx =
      .ok (⟨(coinsView h).set (tx.getHash crypto) (CCoins.fromTx tx rules.nHeight), 0,
        0 + getLegacySigOpCount tx, [], []⟩, ⟨[]⟩) := by
    unfold connectTx
    simp only [rejectIf_of_not _ hroom, hcb, updateCoins, if_true]
    rfl
  rcases @connectTxs_poolTx (clock h) m rules k (List.range 252)
    ⟨(coinsView h).set (tx.getHash crypto) (CCoins.fromTx tx rules.nHeight), 0, 0 + getLegacySigOpCount tx, [], []⟩
    (fun j hj => List.mem_range.1 hj) List.nodup_range (available_after_coinbase h) (not_lt.1 hroom) rfl with
    ⟨s, hrest, hfees, hchecks⟩
  refine ⟨s, ?_, hfees, hchecks⟩
  have hvtx : (template h k address).vtx = tx :: (List.range 252).map (poolTx k) := by
    rw [← hcoinbase]
    rfl
  rw [hvtx, connectVtx_cons hfirst]
  exact hrest

theorem template_connects (hk : 0 < k) (hh : h + 1 < 2 ^ 31) (hsize : poolSize k ≤ 998000) (i : CBlockIndex)
    (m : BlockMap) (hhash : i.phashBlock = (template h k address).getHash crypto) (hprev : i.pprev = some (blockId h))
    (hheight : i.nHeight = h + 1) :
    ∃ r, connectBlock (env (clock h)) (i :: m) none (template h k address) ((template h k address).getHash crypto)
      (coinsView h) true = .ok r := by
  have hentry : BlockMap.entry (i :: m) ((template h k address).getHash crypto) = i := by
    simp [BlockMap.entry, BlockMap.lookup, hhash]
  have hgenesis : ¬ (template h k address).getHash (env (clock h)).crypto =
      (env (clock h)).params.hashGenesisBlock := hash_ne_genesis _
  have hfree : ¬ (isBIP30Exception i = false ∧ (template h k address).vtx.any
      (fun tx => ((coinsView h).coins (tx.getHash (env (clock h)).crypto)).isSome) = true) := by
    rintro ⟨-, hany⟩
    rcases List.any_eq_true.1 hany with ⟨tx, -, hsome⟩
    rw [show (coinsView h).coins (tx.getHash (env (clock h)).crypto) = none from coins_hash h _] at hsome
    cases hsome
  rcases @template_connectVtx h k address hh (i :: m)
    (connectRules (env (clock h)) (i :: m) none (template h k address) ((template h k address).getHash crypto)) with
    ⟨s, hvtx, hfees, hchecks⟩
  have hbounds := subsidy_bounds (h + 1)
  have hcoin : coin = 100000000 := rfl
  have hlimit : fits64 (getBlockValue regTestParams (h + 1) 0) = .ok (getBlockValue regTestParams (h + 1) 0) :=
    if_pos ⟨by omega, by omega⟩
  have hmoney : moneyRange (getBlockValue regTestParams (h + 1) 0) := ⟨hbounds.1, hbounds.2.trans (by decide)⟩
  have hout : ((template h k address).vtx.head?.map CTransaction.getValueOut).getD (.error .assertFailed) =
      .ok (getBlockValue regTestParams (h + 1) 0) := by
    show addValuesOut 0 [⟨Int64.ofInt (getBlockValue regTestParams (h + 1) 0), address.script⟩] = _
    rw [addValuesOut, subsidy_toInt, Int.zero_add, hlimit]
    simp only [bind, Except.bind, rejectIf_of_not _ (show ¬ (¬ moneyRange _ ∨ ¬ moneyRange _) from
      not_or.2 ⟨not_not.2 hmoney, not_not.2 hmoney⟩)]
    rfl
  have hrulesHeight : (connectRules (env (clock h)) (i :: m) none (template h k address)
      ((template h k address).getHash crypto)).nHeight = h + 1 := by
    rw [connectRules, hentry]
    exact hheight
  have hvalue : fits64 (getBlockValue (env (clock h)).params (connectRules (env (clock h)) (i :: m) none
      (template h k address) ((template h k address).getHash crypto)).nHeight s.nFees) =
      .ok (getBlockValue regTestParams (h + 1) 0) := by
    rw [hrulesHeight, hfees]
    exact hlimit
  have hnone : ¬ ∃ check ∈ s.checks, check.run (env (clock h)) ≠ .ok () := by
    rw [hchecks]
    rintro ⟨check, hmem, -⟩
    cases hmem
  have hprevious : ¬ (BlockMap.entry (i :: m) ((template h k address).getHash crypto)).pprev.getD 0 ≠
      (coinsView h).hashBlock := by
    rw [hentry, hprev]
    exact fun hne => hne rfl
  refine ⟨(s.view, none), ?_⟩
  unfold connectBlock
  rw [show checkBlock (env (clock h)).toEnv (template h k address) (!true) (!true) = .ok () from
    template_checkBlock hk hh hsize]
  dsimp only
  rw [rejectIf_of_not _ hprevious, if_neg hgenesis]
  simp only [connectChecked, hentry, bind_eq_ok, exists_unit, rejectIf_eq_ok]
  exact ⟨trivial, hfree, s, hvtx, _, hout, _, hvalue, lt_irrefl _, hnone, rfl⟩

end

/-! ## The call -/

/-- The entries of the pool. -/
def poolEntries (k : Nat) : List (Sigma fun _ : UInt256 => CTransaction) :=
  (List.range 252).map fun i => ⟨(poolTx k i).getHash crypto, poolTx k i⟩

theorem poolEntries_nodup (k : Nat) : (poolEntries k).NodupKeys := by
  have hkeys : (poolEntries k).keys = (List.range 252).map fun i => (poolTx k i).getHash crypto := by
    rw [poolEntries, List.keys, List.map_map]
    rfl
  rw [List.NodupKeys, hkeys]
  refine List.Nodup.map_on ?_ List.nodup_range
  intro i hi j hj heq
  have hlt := List.mem_range.1 hi
  have hlt' := List.mem_range.1 hj
  have hnat := congrArg BitVec.toNat heq
  rw [poolTx, poolTx, spender_hash _ hlt, spender_hash _ hlt', BitVec.toNat_ofNat, BitVec.toNat_ofNat,
    Nat.mod_eq_of_lt (by omega), Nat.mod_eq_of_lt (by omega)] at hnat
  omega

/-- A node whose pool has all of these transactions in it. -/
def call (h k : Nat) (blockmaxsize : Int) : AuxCall where
  env := env (clock h)
  options := ⟨blockmaxsize, 50000, 1000000, ⟨1000⟩, minerArgs⟩
  mapBlockIndex := chainTo h
  tip := blockId h
  pindexBestHeader := none
  pcoinsTip := coinsView h
  mapTx := ⟨poolEntries k, poolEntries_nodup k⟩
  dPriority := fun _ => some 0
  deltas := fun _ => (some 0, 0)
  heap := fifo
  fConnected := true
  fInitialBlockDownload := false
  getTime := clock h
  transactionsUpdated := 0

section

variable {h k : Nat} {blockmaxsize : Int} {address : CTxDestination}

theorem call_nHeight : (call h k blockmaxsize).nHeight = h + 1 := by
  show ((chainTo h).entry (blockId h)).nHeight + 1 = h + 1
  rw [entry_tip]
  rfl

theorem limit_le (blockmaxsize : Int) : limitBlockMaxSize blockmaxsize ≤ 999000 :=
  max_le (by decide) (Nat.min_le_left _ _)

/-- The minimum is as large as the limit, so free transactions are taken. -/
theorem call_nBlockMinSize :
    (call h k blockmaxsize).options.nBlockMinSize = (call h k blockmaxsize).options.nBlockMaxSize := by
  have hle := limit_le blockmaxsize
  have hmin : toUnsignedInt 1000000 = 1000000 := rfl
  exact Nat.min_eq_left (hle.trans (by rw [show (call h k blockmaxsize).options.blockminsize = 1000000 from rfl, hmin]; decide))

/-- A transaction of the pool depends on none of the others and pays nothing. -/
theorem candidate_poolTx {i : Nat} (hi : i < 252) :
    (call h k blockmaxsize).candidate (poolTx k i) =
      .ok (some (entryOf k i, [])) := by
  have hcoin : (coinsView h).coins (coinId i) = some anyoneCoin := coins_available h i (List.mem_range.2 hi)
  have hgather : (call h k blockmaxsize).gatherInputs (poolTx k i).vin = some ([], 0) := by
    show (call h k blockmaxsize).gatherInputs [⟨⟨coinId i, 0⟩, [], 0xffffffff⟩] = _
    simp only [MinerCall.gatherInputs]
    rw [show (call h k blockmaxsize).pcoinsTip.coins (coinId i) = some anyoneCoin from hcoin]
    rfl
  have hfinal : ∀ n : Int, isFinalTx (call h k blockmaxsize).env.toEnv n (poolTx k i)
      (call h k blockmaxsize).nHeight 0 = true := fun _ => if_pos rfl
  have hcb : (poolTx k i).isCoinBase = false := spender_not_coinBase _ i
  have hrate : CFeeRate.ofPaid 0 ((poolTx k i).serializeSize % 2 ^ 32) = ⟨0⟩ := by
    unfold CFeeRate.ofPaid
    split_ifs
    · rw [show ((0 : CAmount) * 1000).toUInt64 = 0 from rfl, UInt64.zero_div]
      rfl
    · rfl
  unfold MinerCall.candidate
  simp only [hcb, hfinal, Bool.not_true, Bool.or_self, Bool.false_eq_true, if_false, hgather]
  rw [show (poolTx k i).getValueOut = .ok 0 from spender_valueOut _ i]
  show (Except.ok (some ((⟨some 0, CFeeRate.ofPaid 0 ((poolTx k i).serializeSize % 2 ^ 32), poolTx k i⟩ : TxPriority),
    ([] : List UInt256))) : Except ConnectStop _) = _
  rw [hrate]
  rfl

theorem candidates_poolTx {is : List Nat} (hlt : ∀ i ∈ is, i < 252) :
    (call h k blockmaxsize).candidates (is.map (poolTx k)) = .ok (is.map fun i => (entryOf k i, ([] : List UInt256))) := by
  induction is with
  | nil => rfl
  | cons i is ih =>
    rw [List.map_cons, MinerCall.candidates, candidate_poolTx (hlt i List.mem_cons_self),
      ih fun j hj => hlt j (List.mem_cons_of_mem _ hj)]
    rfl

theorem start_pool (is : List Nat) :
    ((call h k blockmaxsize).start (is.map fun i => (entryOf k i, []))).vecPriority = is.map (entryOf k) ∧
      ((call h k blockmaxsize).start (is.map fun i => (entryOf k i, []))).vOrphan = [] := by
  constructor
  · show ((is.map fun i => (entryOf k i, ([] : List UInt256))).filter fun o => o.2.isEmpty).map Prod.fst = _
    rw [List.filter_eq_self.2, List.map_map]
    · rfl
    · intro o ho
      rcases List.mem_map.1 ho with ⟨i, -, rfl⟩
      rfl
  · show (is.map fun i => (entryOf k i, ([] : List UInt256))).filter (fun o => !o.2.isEmpty) = []
    rw [List.filter_eq_nil_iff]
    intro o ho
    rcases List.mem_map.1 ho with ⟨i, -, rfl⟩
    exact Bool.false_ne_true

/-- **The whole pool** is selected, when it fits. -/
theorem select_pool (hroom : 1000 + poolSize k < limitBlockMaxSize blockmaxsize) :
    ∃ s, (call h k blockmaxsize).select = .ok s ∧ s.vtx = (List.range 252).map (poolTx k) ∧ s.nFees = 0 := by
  have hle := limit_le blockmaxsize
  have hpool : poolSize k ≤ maxBlockSize := by
    simp only [maxBlockSize]
    omega
  have hentries : (call h k blockmaxsize).mapTx.entries.map (fun e => e.2) = (List.range 252).map (poolTx k) := by
    show (poolEntries k).map (fun e => e.2) = _
    rw [poolEntries, List.map_map]
    rfl
  have hsum := pool_size k
  have havailable := coins_available h
  have hlt : ∀ i ∈ List.range 252, i < 252 := fun i hi => List.mem_range.1 hi
  have hnodup : (List.range 252).Nodup := List.nodup_range
  -- The list of the indices is not looked into any more.
  generalize List.range 252 = is at hentries hsum havailable hlt hnodup ⊢
  have hstart := @start_pool h k blockmaxsize is
  have hwork : is.length ≤ ((call h k blockmaxsize).start (is.map fun i => (entryOf k i, []))).work := by
    rw [Selection.work, hstart.1, List.length_map]
    exact Nat.le_add_right _ _
  rcases collect_poolTx (show (call h k blockmaxsize).env = env (clock h) from rfl) call_nBlockMinSize rfl hwork hlt hnodup
    havailable hstart.1 hstart.2 (show 100 < maxBlockSigOps by decide)
    (fun j hj => lt_of_le_of_lt (poolTx_size_le k (hlt j hj)) (by simp only [maxBlockSize] at hpool; omega))
    (fun _ => by rw [hsum]; exact hroom) with ⟨s, hcollect, hvtx, hfees⟩
  refine ⟨s, ?_, hvtx, hfees⟩
  unfold MinerCall.select
  rw [hentries, candidates_poolTx hlt]
  exact hcollect

/-- **The template passes** `TestBlockValidity`. -/
theorem template_valid (hk : 0 < k) (hfork : 9 ≤ h) (hh : h + 1 < 2 ^ 31) (hsize : poolSize k ≤ 998000) :
    (call h k blockmaxsize).testBlockValidity (template h k address) false false = .ok () := by
  have hheader : contextualCheckBlockHeader (call h k blockmaxsize).env.toEnv (call h k blockmaxsize).mapBlockIndex
      (template h k address).toCBlockHeader (call h k blockmaxsize).tip = .ok () :=
    header_valid hfork (by omega)
  have hblock : checkBlock (call h k blockmaxsize).env.toEnv (template h k address) false false = .ok () :=
    template_checkBlock hk hh hsize
  have hcontext : contextualCheckBlock (call h k blockmaxsize).env.toEnv (call h k blockmaxsize).mapBlockIndex
      ((call h k blockmaxsize).mapBlockIndex.entry (call h k blockmaxsize).tip).nHeight (template h k address)
      (some (call h k blockmaxsize).tip) = .ok () :=
    template_contextual
  rcases template_connects hk hh hsize ((call h k blockmaxsize).indexDummy (template h k address)) (chainTo h) rfl rfl
    call_nHeight with ⟨r, hconnect⟩
  unfold MinerCall.testBlockValidity
  rw [hheader, hblock, hcontext]
  show (do
    let _ ← connectBlock (env (clock h)) ((call h k blockmaxsize).indexDummy (template h k address) :: chainTo h) none
      (template h k address) ((template h k address).getHash crypto) (coinsView h) true
    Except.ok ()) = _
  rw [hconnect]
  rfl

theorem assemble_pool (hfork : 9 ≤ h) (hh : h < 2 ^ 31) {s : Selection} (hvtx : s.vtx = (List.range 252).map (poolTx k))
    (hfees : s.nFees = 0) : (call h k blockmaxsize).assemble address.script s = template h k address := by
  have hheader : createNewHeader (call h k blockmaxsize).env.toEnv (call h k blockmaxsize).options.args
      (call h k blockmaxsize).mapBlockIndex (call h k blockmaxsize).tip = header h := createNewHeader_eq hfork hh
  rw [MinerCall.assemble, hheader, call_nHeight, hvtx, hfees]
  rfl

theorem createNewBlock_pool (hk : 0 < k) (hfork : 9 ≤ h) (hh : h + 1 < 2 ^ 31)
    (hroom : 1000 + poolSize k < limitBlockMaxSize blockmaxsize) :
    ∃ t, createNewBlock (call h k blockmaxsize).toMinerCall address.script = .ok t ∧
      t.block = template h k address := by
  have hle := limit_le blockmaxsize
  rcases select_pool hroom with ⟨s, hselect, hvtx, hfees⟩
  have hblock := @assemble_pool h k blockmaxsize address hfork (by omega) s hvtx hfees
  have hvalid := @template_valid h k blockmaxsize address hk hfork hh (by omega)
  refine ⟨⟨template h k address, -s.nFees :: s.vTxFees,
    (((template h k address).vtx.head?.map getLegacySigOpCount).getD 0) :: s.vTxSigOps⟩, ?_, rfl⟩
  unfold createNewBlock
  rw [hselect]
  dsimp only [bind, Except.bind]
  rw [hblock, hvalid]

theorem createNewBlock_spec_pool : ∃ (t : CBlockTemplate) (s : Selection), (call 9 1 999000).select = .ok s ∧
    t.block = (call 9 1 999000).assemble (CTxDestination.keyID 0).script s ∧ t.block.Checked ∧
    (call 9 1 999000).Connecting s ∧ s.vecPriority = [] ∧ t.vTxFees.sum = 0 := by
  rcases @createNewBlock_pool 9 1 999000 (.keyID 0) (by decide) (by decide) (by decide) (by decide) with ⟨t, h, -⟩
  rcases createNewBlock_spec _ _ t h with ⟨s, hs, hblock, hchecked, hconnecting, -, hall, hfees⟩
  exact ⟨t, s, hs, hblock, hchecked, hconnecting, hall, hfees⟩

end

/-! ## The proof -/

/-- The height of the tip: that of the block takes four bytes in its script. -/
def tipHeight : Nat := 8388607

/-- The extra nonce, which takes five bytes in the script. -/
def extraNonce : UInt32 := 2147483648

/-- The key that is paid; every key has a script of 25 bytes. -/
def payee : CTxDestination := .keyID 0

/-- The hash of the block on that tip, and of every other one. -/
def auxHash : UInt256 := BitVec.ofNat 256 (2 ^ 255 + 32768)

/-- The coinbase of the parent block: its outputs fill the proof up to 10000 bytes. -/
def parentCoinbase : CTransaction where
  nVersion := 1
  vin := [⟨⟨0, 0xffffffff⟩, mergedMiningHeader ++ (UInt256.bytes auxHash).reverse ++ [1, 0, 0, 0, 0, 0, 0, 0], 0⟩]
  vout := ⟨0, List.replicate 7 0⟩ :: List.replicate 1085 ⟨0, []⟩
  nLockTime := 0

def proof : CAuxPow where
  tx := parentCoinbase
  hashBlock := 0
  vMerkleBranch := []
  nIndex := 0
  vChainMerkleBranch := []
  nChainIndex := 0
  parentBlock := ⟨1, 0, parentCoinbase.getHash crypto, 0, 0, 0⟩

theorem proof_size : proof.getSerializeSize = 10000 := by
  have hsig : (mergedMiningHeader ++ (UInt256.bytes auxHash).reverse ++ [1, 0, 0, 0, 0, 0, 0, 0]).length = 44 := by
    simp [mergedMiningHeader]
  have hin : CTxIn.getSerializeSize ⟨⟨0, 0xffffffff⟩, mergedMiningHeader ++ (UInt256.bytes auxHash).reverse ++
      [1, 0, 0, 0, 0, 0, 0, 0], 0⟩ = 85 := by
    rw [CTxIn.getSerializeSize, hsig]
    rfl
  have hout : CTxOut.getSerializeSize ⟨0, []⟩ = 9 := rfl
  have hlast : CTxOut.getSerializeSize ⟨0, List.replicate 7 0⟩ = 16 := rfl
  have htx : parentCoinbase.getSerializeSize = 9878 := by
    simp only [CTransaction.getSerializeSize, parentCoinbase, vecSize, List.map_cons, List.map_nil, List.length_cons,
      List.length_nil, List.sum_cons, List.sum_nil, List.map_replicate, List.length_replicate, List.sum_replicate_nat,
      hin, hout, hlast]
    rfl
  rw [CAuxPow.getSerializeSize, show proof.tx = parentCoinbase from rfl, htx]
  rfl

/-- The script commits to the block, alone in its tree. -/
theorem proof_check : proof.check crypto auxHash auxpowChainId = .ok () := by
  have hchain : ¬ proof.parentBlock.getChainId = auxpowChainId := by
    show ¬ (1 : Int32) >>> 16 = 0x00B0
    decide
  have hroot : ¬ checkMerkleBranch crypto (proof.tx.getHash crypto) proof.vMerkleBranch proof.nIndex ≠
      proof.parentBlock.hashMerkleRoot := fun hne => hne rfl
  have hscript : proof.checkScript auxpowChainId
      (mergedMiningHeader ++ (UInt256.bytes auxHash).reverse ++ [1, 0, 0, 0, 0, 0, 0, 0])
      (UInt256.bytes auxHash).reverse = .ok () := by
    decide
  unfold CAuxPow.check
  simp only [bind_eq_ok, exists_unit, rejectIf_eq_ok]
  exact ⟨fun hne => hne rfl, hchain, by decide, hroot, hscript⟩

theorem proof_work : checkProofOfWork regTestParams (proof.parentBlock.getPoWHash crypto) 0x207fffff = true := by
  show checkProofOfWork regTestParams 0 0x207fffff = true
  decide

/-! ## The block -/

theorem setAuxpowFlag_idem (header : CPureBlockHeader) : header.setAuxpowFlag.setAuxpowFlag = header.setAuxpowFlag := by
  have hor : (header.nVersion ||| versionAuxpow) ||| versionAuxpow = header.nVersion ||| versionAuxpow := by
    rw [Int32.or_assoc, Int32.or_self]
  show { header with nVersion := (header.nVersion ||| versionAuxpow) ||| versionAuxpow } =
    { header with nVersion := header.nVersion ||| versionAuxpow }
  rw [hor]

section

variable {k : Nat} {blockmaxsize : Int}

/-- The block that is handed out. -/
def fullBlock (k : Nat) (blockmaxsize : Int) : CBlock :=
  auxTemplate (call tipHeight k blockmaxsize) (template tipHeight k payee) extraNonce

/-- The tip is the one that the last call saw. -/
def start : AuxState :=
  ⟨[], none, 0, 0, ⟨blockId tipHeight, extraNonce - 1⟩⟩

/-- Of a header the hash reads some bytes of the hash before. -/
theorem header_hash (header : CPureBlockHeader) :
    header.getHash crypto = BitVec.ofNat 256 (2 ^ 255 +
      leNat (((leBytes 32 header.hashPrevBlock.toNat).drop 1).take 8)) :=
  rfl

theorem fullBlock_hash : (fullBlock k blockmaxsize).getHash crypto = auxHash := by
  have hprev : (fullBlock k blockmaxsize).hashPrevBlock = blockId tipHeight := rfl
  rw [header_hash, hprev]
  decide

theorem fullBlock_nBits : (fullBlock k blockmaxsize).nBits = 0x207fffff :=
  rfl

theorem fullBlock_vtx : (fullBlock k blockmaxsize).vtx =
    MinerCall.coinbase (extraNonceScript 8388608 extraNonce) payee.script
      (getBlockValue regTestParams 8388608 0) :: (List.range 252).map (poolTx k) := by
  have hheight : (call tipHeight k blockmaxsize).nHeight = 8388608 := call_nHeight
  rw [fullBlock, auxTemplate, hheight]
  rfl

theorem fullBlock_vtxSize : vtxSize (fullBlock k blockmaxsize).vtx = 106 + poolSize k := by
  have hsig : (extraNonceScript 8388608 extraNonce).length = 18 := by decide
  have hkey : payee.script.length = 25 := by decide
  have hcoinbase := size_coinbase (show (extraNonceScript 8388608 extraNonce).length ≤ 100 by rw [hsig]; decide)
    (show payee.script.length ≤ 100 by rw [hkey]; decide) (getBlockValue regTestParams 8388608 0)
  have hpool : (((List.range 252).map (poolTx k)).map CTransaction.getSerializeSize).sum = poolSize k := by
    rw [List.map_map]
    exact pool_size k
  have hcount : getSizeOfCompactSize 253 = 3 := rfl
  rw [fullBlock_vtx]
  simp only [vtxSize, vecSize, List.map_cons, List.length_cons, List.length_map, List.length_range, List.sum_cons, hpool,
    hcoinbase, hsig, hkey, hcount]
  omega

/-! ## The calls -/

theorem check_passes : auxMiningCheck (call tipHeight k blockmaxsize) = .ok () := by
  have hactive : ¬ (call tipHeight k blockmaxsize).nHeight < auxPowForkHeight
      (call tipHeight k blockmaxsize).env.params := by
    rw [call_nHeight]
    show ¬ tipHeight + 1 < 10
    decide
  unfold auxMiningCheck
  simp only [bind_eq_ok, exists_unit, rejectIf_eq_ok]
  exact ⟨fun hand => Bool.false_ne_true (show false = true from hand.1.symm),
    fun hand => Bool.false_ne_true (show false = true from hand.2.symm), hactive⟩

/-- `createauxblock` answers with the full block, and keeps it. -/
theorem createAuxBlock_full (hk : 0 < k) (hroom : 1000 + poolSize k < limitBlockMaxSize blockmaxsize) :
    ∃ σ answer, createAuxBlock (call tipHeight k blockmaxsize) payee start = (σ, .ok answer) ∧
      answer.hash = auxHash ∧ σ.mapAuxBlocks = [(auxHash, fullBlock k blockmaxsize)] := by
  rcases @createNewBlock_pool tipHeight k blockmaxsize payee hk (by decide) (by decide) hroom with ⟨t, hnew, hblock⟩
  have hrefreshed : start.refreshed (call tipHeight k blockmaxsize) = start := by
    unfold AuxState.refreshed
    split_ifs
    · rfl
    · rfl
  have hnext : start.extraNonce.next (template tipHeight k payee).hashPrevBlock = ⟨blockId tipHeight, extraNonce⟩ := by
    show (⟨blockId tipHeight, (if blockId tipHeight ≠ blockId tipHeight then 0 else extraNonce - 1) + 1⟩ : ExtraNonce) = _
    rw [if_neg (fun hne => hne rfl)]
    rfl
  have hanswer : ∃ answer, auxBlock (call tipHeight k blockmaxsize) (fullBlock k blockmaxsize) = .ok answer ∧
      answer.hash = auxHash := by
    have htarget : ¬ (compactNegative (fullBlock k blockmaxsize).nBits = true ∨
        compactOverflow (fullBlock k blockmaxsize).nBits = true ∨ setCompact (fullBlock k blockmaxsize).nBits = 0) := by
      rw [fullBlock_nBits]
      decide
    unfold auxBlock
    simp only [rejectIf_of_not _ htarget]
    exact ⟨_, rfl, fullBlock_hash⟩
  rcases hanswer with ⟨answer, hanswer, hhash⟩
  refine ⟨⟨[(auxHash, fullBlock k blockmaxsize)], some (blockId tipHeight), clock tipHeight, 0,
    ⟨blockId tipHeight, extraNonce⟩⟩, answer, ?_, hhash, rfl⟩
  unfold createAuxBlock
  rw [check_passes]
  dsimp only
  rw [hrefreshed, hnew]
  dsimp only
  rw [hblock, hnext]
  show ((⟨[((fullBlock k blockmaxsize).getHash crypto, fullBlock k blockmaxsize)], some (blockId tipHeight),
    clock tipHeight, 0, ⟨blockId tipHeight, extraNonce⟩⟩ : AuxState),
    auxBlock (call tipHeight k blockmaxsize) (fullBlock k blockmaxsize)) = _
  rw [hanswer, fullBlock_hash]

/-- `submitauxblock` passes it on with the proof. -/
theorem submitAuxBlock_full {σ : AuxState} (hσ : σ.mapAuxBlocks = [(auxHash, fullBlock k blockmaxsize)]) :
    (submitAuxBlock (call tipHeight k blockmaxsize) auxHash proof σ).2 =
      .ok ((fullBlock k blockmaxsize).setAuxpow proof) := by
  have hfound : σ.mapAuxBlocks.lookup auxHash = some (fullBlock k blockmaxsize) := by
    rw [hσ, List.lookup_cons_self]
  have hflag : ((fullBlock k blockmaxsize).setAuxpow proof).toCPureBlockHeader =
      (fullBlock k blockmaxsize).toCPureBlockHeader := setAuxpowFlag_idem _
  have hhash : ¬ ((fullBlock k blockmaxsize).setAuxpow proof).getHash (call tipHeight k blockmaxsize).env.crypto ≠
      auxHash := by
    rw [hflag]
    exact fun hne => hne fullBlock_hash
  unfold submitAuxBlock
  rw [check_passes]
  dsimp only
  rw [hfound]
  dsimp only
  rw [if_neg hhash]

theorem proof_acceptable : AcceptableProof (call tipHeight k blockmaxsize).env.toEnv
    ((fullBlock k blockmaxsize).setAuxpow proof) auxHash proof :=
  ⟨proof_size.le, proof_check, proof_work⟩

theorem full_size : ((fullBlock k blockmaxsize).setAuxpow proof).serializeSize = 10186 + poolSize k := by
  rw [CBlock.serializeSize_setAuxpow, proof_size, fullBlock_vtxSize]
  omega

/-- The block with its proof is too long, when the pool is large enough. -/
theorem full_overruns (hlarge : 989815 ≤ poolSize k) :
    ((fullBlock k blockmaxsize).setAuxpow proof).vtx.isEmpty = true ∨
      ((fullBlock k blockmaxsize).setAuxpow proof).vtx.length > maxBlockSize ∨
      ((fullBlock k blockmaxsize).setAuxpow proof).serializeSize > maxBlockSize := by
  have hsize := @full_size k blockmaxsize
  refine Or.inr (Or.inr ?_)
  simp only [maxBlockSize]
  omega

theorem full_refused (hlarge : 989815 ≤ poolSize k) :
    checkVtx ((fullBlock k blockmaxsize).setAuxpow proof) = .error (.doS 100 rejectInvalid "bad-blk-length") := by
  unfold checkVtx
  rw [rejectIf_of _ (full_overruns hlarge)]
  rfl

theorem full_admits (op : AuxOp) (hop : op ∈ [AuxOp.create (call tipHeight k blockmaxsize) payee]) :
    op.Admits blockmaxsize := by
  obtain rfl := List.mem_singleton.1 hop
  refine ⟨rfl, ?_⟩
  rw [call_nHeight]
  decide

end

theorem run_create (σ : AuxState) (call : AuxCall) (address : CTxDestination) :
    σ.run [.create call address] = (createAuxBlock call address σ).1 :=
  rfl

/-- The largest pool that is selected below a limit of 990816 bytes. -/
theorem poolSize_full : poolSize 108300 = 989815 :=
  rfl

/-- **No room**: from a limit of 990816 bytes on, this template is filled too far. -/
theorem not_roomForProof {blockmaxsize : Int} (h : 990815 < limitBlockMaxSize blockmaxsize) :
    ¬ RoomForProof blockmaxsize := by
  intro hroom
  have hfits : 1000 + poolSize 108300 < limitBlockMaxSize blockmaxsize := by
    rw [poolSize_full]
    omega
  rcases createAuxBlock_full (by decide) hfits with ⟨σ, answer, hcreate, -, hσ⟩
  have hrun : start.run [.create (call tipHeight 108300 blockmaxsize) payee] = σ := by
    rw [run_create, hcreate]
  have hsubmit : (submitAuxBlock (call tipHeight 108300 blockmaxsize) auxHash proof
      (start.run [.create (call tipHeight 108300 blockmaxsize) payee])).2 =
      .ok ((fullBlock 108300 blockmaxsize).setAuxpow proof) := by
    rw [hrun]
    exact submitAuxBlock_full hσ
  have hwithin := hroom start rfl [.create (call tipHeight 108300 blockmaxsize) payee] full_admits
    (call tipHeight 108300 blockmaxsize) auxHash proof ((fullBlock 108300 blockmaxsize).setAuxpow proof) hsubmit
    proof_acceptable
  exact hwithin (full_overruns poolSize_full.ge)

end FullTemplate

/-- **Which settings leave room**: those that limit a template to 990815 bytes, and no others. -/
theorem roomForProof_iff (blockmaxsize : Int) :
    RoomForProof blockmaxsize ↔ limitBlockMaxSize blockmaxsize ≤ 990815 :=
  ⟨fun hroom => not_lt.1 fun hlt => FullTemplate.not_roomForProof hlt hroom, roomForProof_of_le⟩

open FullTemplate in
/-- With `-blockmaxsize=999000` a solved block of merge mining is refused for its size. -/
theorem solvedTemplate_refused :
    (∃ σ answer, createAuxBlock (call tipHeight 108300 999000) payee start = (σ, .ok answer) ∧
      AcceptableProof (call tipHeight 108300 999000).env.toEnv ((fullBlock 108300 999000).setAuxpow proof) answer.hash
        proof ∧
      (submitAuxBlock (call tipHeight 108300 999000) answer.hash proof σ).2 =
        .ok ((fullBlock 108300 999000).setAuxpow proof) ∧
      checkVtx ((fullBlock 108300 999000).setAuxpow proof) = .error (.doS 100 rejectInvalid "bad-blk-length")) ∧
    ¬ RoomForProof 999000 := by
  have hlimit : limitBlockMaxSize 999000 = 999000 := by decide
  have hfits : 1000 + poolSize 108300 < limitBlockMaxSize 999000 := by
    rw [poolSize_full, hlimit]
    decide
  rcases createAuxBlock_full (by decide) hfits with ⟨σ, answer, hcreate, hhash, hσ⟩
  refine ⟨⟨σ, answer, hcreate, ?_, ?_, full_refused poolSize_full.ge⟩, not_roomForProof (by rw [hlimit]; decide)⟩
  · rw [hhash]
    exact proof_acceptable
  · rw [hhash]
    exact submitAuxBlock_full hσ

end Dobbscoin
