import Dobbscoin.Lib.MerkleTree
import Dobbscoin.Pow.Retarget
import Dobbscoin.Script.SigOps
import Dobbscoin.Validation.NodeState

/-!
# Context-free checks

`CheckTransaction`, `CheckBlockHeader` and `CheckBlock`.  The transactions of a block are bound to its
header by the merkle root; `vtx_unique` says that two blocks with one root that both pass hold the
same transactions.
-/

namespace Dobbscoin

open Guard

/-- What validation reads besides the block tree and the coins: the network, the hash functions, the
clock and the allocator. -/
structure Env where
  params : CChainParams
  crypto : Crypto
  horizon : Horizon
  /-- `GetAdjustedTime()`. -/
  adjustedTime : Int
  /-- `Checkpoints::fEnabled`. -/
  fCheckpointsEnabled : Bool
  /-- Where the allocator puts the next entry of the block index. -/
  newAddress : Nat → Nat

def maxBlockSize : Nat := 1000000

/-- `MAX_BLOCK_SIGOPS`. -/
def maxBlockSigOps : Nat := maxBlockSize / 50

/-! ## Transactions -/

/-- The loop over the outputs; `nValueOut` is the sum so far. -/
def checkOutputs : Int → List CTxOut → Except CValidationError Unit
  | _, [] => .ok ()
  | nValueOut, txout :: rest => do
    rejectIf (txout.nValue.toInt < 0) (.doS 100 rejectInvalid "bad-txns-vout-negative")
    rejectIf (txout.nValue.toInt > maxMoney) (.doS 100 rejectInvalid "bad-txns-vout-toolarge")
    rejectIf (¬ moneyRange (nValueOut + txout.nValue.toInt))
      (.doS 100 rejectInvalid "bad-txns-txouttotal-toolarge")
    checkOutputs (nValueOut + txout.nValue.toInt) rest

/-- The loop over the inputs; `vInOutPoints` holds the outpoints seen. -/
def checkDuplicateInputs : List COutPoint → List CTxIn → Except CValidationError Unit
  | _, [] => .ok ()
  | vInOutPoints, txin :: rest => do
    rejectIf (txin.prevout ∈ vInOutPoints) (.doS 100 rejectInvalid "bad-txns-inputs-duplicate")
    checkDuplicateInputs (txin.prevout :: vInOutPoints) rest

def checkTransaction (tx : CTransaction) : Except CValidationError Unit := do
  rejectIf (tx.vin.isEmpty = true) (.doS 10 rejectInvalid "bad-txns-vin-empty")
  rejectIf (tx.vout.isEmpty = true) (.doS 10 rejectInvalid "bad-txns-vout-empty")
  rejectIf (tx.serializeSize > maxBlockSize) (.doS 100 rejectInvalid "bad-txns-oversize")
  checkOutputs 0 tx.vout
  checkDuplicateInputs [] tx.vin
  if tx.isCoinBase then
    let scriptSize := (tx.vin.head?.map fun i => i.scriptSig.length).getD 0
    rejectIf (scriptSize < 2 ∨ scriptSize > 100) (.doS 100 rejectInvalid "bad-cb-length")
  else
    rejectIf (tx.vin.any (fun i => i.prevout.isNull) = true)
      (.doS 10 rejectInvalid "bad-txns-prevout-null")

/-- The sum of the outputs, as an integer. -/
def CTransaction.valueOut (tx : CTransaction) : Int :=
  (tx.vout.map fun o => o.nValue.toInt).sum

theorem checkOutputs_ok {outs : List CTxOut} {n : Int} (h : checkOutputs n outs = .ok ()) :
    (∀ o ∈ outs, moneyRange o.nValue.toInt) ∧
      (outs ≠ [] → moneyRange (n + (outs.map fun o => o.nValue.toInt).sum)) := by
  induction outs generalizing n with
  | nil => simp
  | cons o rest ih =>
    simp only [checkOutputs, bind_eq_ok, exists_unit, rejectIf_eq_ok, not_not] at h
    rcases h with ⟨hneg, hbig, hsum, hrest⟩
    rcases ih hrest with ⟨hall, htotal⟩
    refine ⟨?_, ?_⟩
    · intro p hp
      rcases List.mem_cons.1 hp with rfl | hp
      · exact ⟨not_lt.1 hneg, not_lt.1 hbig⟩
      · exact hall p hp
    · intro _
      rw [List.map_cons, List.sum_cons, ← add_assoc]
      cases rest with
      | nil => simpa using hsum
      | cons q rest => exact htotal (by simp)

theorem checkDuplicateInputs_ok {seen : List COutPoint} {ins : List CTxIn}
    (h : checkDuplicateInputs seen ins = .ok ()) :
    (ins.map CTxIn.prevout).Nodup ∧ ∀ i ∈ ins, i.prevout ∉ seen := by
  induction ins generalizing seen with
  | nil => simp
  | cons i rest ih =>
    simp only [checkDuplicateInputs, bind_eq_ok, exists_unit, rejectIf_eq_ok] at h
    rcases h with ⟨hnew, hrest⟩
    rcases ih hrest with ⟨hnodup, hdisj⟩
    constructor
    · rw [List.map_cons, List.nodup_cons]
      refine ⟨?_, hnodup⟩
      intro hmem
      rcases List.mem_map.1 hmem with ⟨j, hj, hij⟩
      exact hdisj j hj (by simp [hij])
    · intro j hj
      rcases List.mem_cons.1 hj with rfl | hj
      · exact hnew
      · exact fun hmem => hdisj j hj (List.mem_cons_of_mem _ hmem)

/-- What a transaction that passes looks like. -/
structure CTransaction.Checked (tx : CTransaction) : Prop where
  vin : tx.vin ≠ []
  vout : tx.vout ≠ []
  values : ∀ o ∈ tx.vout, moneyRange o.nValue.toInt
  valueOut : moneyRange tx.valueOut
  nodup : (tx.vin.map CTxIn.prevout).Nodup
  prevout : tx.isCoinBase = false → ∀ i ∈ tx.vin, i.prevout.isNull = false

theorem checkTransaction_ok {tx : CTransaction} (h : checkTransaction tx = .ok ()) : tx.Checked := by
  simp only [checkTransaction, bind_eq_ok, exists_unit, rejectIf_eq_ok,
    List.isEmpty_iff] at h
  rcases h with ⟨hvin, hvout, -, hout, hin, hrest⟩
  rcases checkOutputs_ok hout with ⟨hvalues, hsum⟩
  refine ⟨hvin, hvout, hvalues, ?_, (checkDuplicateInputs_ok hin).1, ?_⟩
  · simpa [CTransaction.valueOut] using hsum hvout
  · intro hcb i hi
    simp only [hcb, if_false, Bool.false_eq_true, rejectIf_eq_ok] at hrest
    by_contra hnull
    exact hrest (List.any_eq_true.2 ⟨i, hi, by simpa using hnull⟩)

/-! ## The merkle root -/

/-- `Hash(BEGIN(left), END(left), BEGIN(right), END(right))`. -/
def merkleNode (H : Crypto) (p : UInt256 × UInt256) : UInt256 :=
  H.hash (UInt256.bytes p.1 ++ UInt256.bytes p.2)

/-- Pairs whose messages do not collide have different nodes. -/
theorem merkleNode_injOn {H : Crypto} {S : List (UInt256 × UInt256)} {M : Set Bytes} (hM : CollisionFreeOn H M)
    (hS : ∀ p ∈ S, UInt256.bytes p.1 ++ UInt256.bytes p.2 ∈ M) : MerkleTree.InjOn (merkleNode H) S := by
  intro p hp q hq hpq
  have hbytes := hM _ (hS p hp) _ (hS q hq) hpq
  rcases List.append_inj hbytes (by simp) with ⟨h₁, h₂⟩
  exact Prod.ext (UInt256.bytes_inj h₁) (UInt256.bytes_inj h₂)

def CBlock.txids (H : Crypto) (block : CBlock) : List UInt256 :=
  block.vtx.map (CTransaction.getHash H)

/-- The levels above the transaction ids. -/
def CBlock.merkleTree (H : Crypto) (block : CBlock) :
    List UInt256 × Bool × List (UInt256 × UInt256) :=
  MerkleTree.build (merkleNode H) (block.txids H).length (block.txids H)

/-- `BuildMerkleTree`: the root and `mutated`. -/
def CBlock.buildMerkleTree (H : Crypto) (block : CBlock) : UInt256 × Bool :=
  ((block.merkleTree H).1.getLastD 0, (block.merkleTree H).2.1)

/-- The messages that are hashed for the ids and the tree of a block. -/
def CBlock.hashedMessages (H : Crypto) (block : CBlock) : Set Bytes :=
  { m | (∃ tx ∈ block.vtx, m = CTransaction.codec.put tx) ∨
    ∃ p ∈ (block.merkleTree H).2.2, m = UInt256.bytes p.1 ++ UInt256.bytes p.2 }

/-- No transaction id is an interior node of a merkle tree of the two blocks. -/
def NoLeafIsNode (H : Crypto) (a b : CBlock) : Prop :=
  ∀ x ∈ a.txids H ++ b.txids H, ∀ p ∈ (a.merkleTree H).2.2 ++ (b.merkleTree H).2.2,
    x ≠ merkleNode H p

/-- Blocks with one root and no mutation have the same transaction ids. -/
theorem txids_unique {H : Crypto} {a b : CBlock}
    (hH : CollisionFreeOn H (a.hashedMessages H ∪ b.hashedMessages H)) (hleaf : NoLeafIsNode H a b)
    (hane : a.vtx ≠ []) (hbne : b.vtx ≠ []) (hclean : (a.buildMerkleTree H).2 = false)
    (hclean' : (b.buildMerkleTree H).2 = false)
    (hroot : (a.buildMerkleTree H).1 = (b.buildMerkleTree H).1) : a.txids H = b.txids H := by
  have hnode : MerkleTree.InjOn (merkleNode H) ((a.merkleTree H).2.2 ++ (b.merkleTree H).2.2) := by
    refine merkleNode_injOn hH fun p hp => ?_
    rcases List.mem_append.1 hp with hp | hp
    · exact Or.inl (Or.inr ⟨p, hp, rfl⟩)
    · exact Or.inr (Or.inr ⟨p, hp, rfl⟩)
  have hxs : a.txids H ≠ [] := by simpa [CBlock.txids] using hane
  have hys : b.txids H ≠ [] := by simpa [CBlock.txids] using hbne
  have htop : (a.merkleTree H).1 = (b.merkleTree H).1 := by
    rcases MerkleTree.build_top (merkleNode H) (Nat.le_succ _) hxs with ⟨r, hr⟩
    rcases MerkleTree.build_top (merkleNode H) (Nat.le_succ _) hys with ⟨t, ht⟩
    have hr' : (a.merkleTree H).1 = [r] := hr
    have ht' : (b.merkleTree H).1 = [t] := ht
    simp only [CBlock.buildMerkleTree, hr', ht'] at hroot
    rw [hr', ht']
    simpa using hroot
  exact MerkleTree.build_inj (Nat.le_succ _) (Nat.le_succ _) hxs hys hclean hclean' hnode hleaf htop

/-- Blocks with one root and no mutation hold the same transactions. -/
theorem vtx_unique {H : Crypto} {a b : CBlock}
    (hH : CollisionFreeOn H (a.hashedMessages H ∪ b.hashedMessages H)) (hleaf : NoLeafIsNode H a b)
    (ha : ∀ tx ∈ a.vtx, CTransaction.codec.Fits tx) (hb : ∀ tx ∈ b.vtx, CTransaction.codec.Fits tx)
    (hane : a.vtx ≠ []) (hbne : b.vtx ≠ []) (hclean : (a.buildMerkleTree H).2 = false)
    (hclean' : (b.buildMerkleTree H).2 = false)
    (hroot : (a.buildMerkleTree H).1 = (b.buildMerkleTree H).1) : a.vtx = b.vtx := by
  have hids := txids_unique hH hleaf hane hbne hclean hclean' hroot
  -- Equal ids are equal transactions.
  have hput : ∀ tx ∈ a.vtx ++ b.vtx,
      CTransaction.codec.put tx ∈ a.hashedMessages H ∪ b.hashedMessages H := by
    intro tx htx
    rcases List.mem_append.1 htx with htx | htx
    · exact Or.inl (Or.inl ⟨tx, htx, rfl⟩)
    · exact Or.inr (Or.inl ⟨tx, htx, rfl⟩)
  have hinj : ∀ s ∈ a.vtx, ∀ t ∈ b.vtx,
      CTransaction.getHash H s = CTransaction.getHash H t → s = t := by
    intro s hs t ht hst
    exact CTransaction.getHash_inj hH (ha s hs) (hb t ht) (hput s (List.mem_append_left _ hs))
      (hput t (List.mem_append_right _ ht)) hst
  refine List.ext_getElem ?_ ?_
  · simpa [CBlock.txids] using congrArg List.length hids
  · intro i hi hi'
    have hat : CTransaction.getHash H a.vtx[i] = CTransaction.getHash H b.vtx[i] := by
      have hget := congrArg (fun l => l[i]?) hids
      simpa [CBlock.txids, hi, hi'] using hget
    exact hinj _ (List.getElem_mem hi) _ (List.getElem_mem hi') hat

/-! ## Blocks -/

def CBlockHeader.getBlockTime (block : CBlockHeader) : Int :=
  block.nTime.toNat

def checkBlockHeader (E : Env) (block : CBlockHeader) (fCheckPOW : Bool) :
    Except CValidationError Unit := do
  rejectIf (fCheckPOW = true ∧ checkAuxPowProofOfWork E.crypto E.params block = false)
    (.doS 50 rejectInvalid "high-hash")
  rejectIf (block.getBlockTime > E.adjustedTime + 2 * 60 * 60)
    (.invalid 0 rejectInvalid "time-too-new" false)

/-- The merkle root and its malleability (CVE-2012-2459); a failure may be a corrupted copy. -/
def checkMerkleRoot (E : Env) (block : CBlock) : Except CValidationError Unit := do
  rejectIf (block.hashMerkleRoot ≠ (block.buildMerkleTree E.crypto).1)
    (.invalid 100 rejectInvalid "bad-txnmrklroot" true)
  rejectIf ((block.buildMerkleTree E.crypto).2 = true)
    (.invalid 100 rejectInvalid "bad-txns-duplicate" true)

/-- The checks of the transactions and of the size, which counts the AuxPoW trailer. -/
def checkVtx (block : CBlock) : Except CValidationError Unit := do
  rejectIf (block.vtx.isEmpty = true ∨ block.vtx.length > maxBlockSize ∨
      block.serializeSize > maxBlockSize)
    (.doS 100 rejectInvalid "bad-blk-length")
  rejectIf ((block.vtx.head?.map CTransaction.isCoinBase).getD false = false)
    (.doS 100 rejectInvalid "bad-cb-missing")
  rejectIf (block.vtx.tail.any CTransaction.isCoinBase = true)
    (.doS 100 rejectInvalid "bad-cb-multiple")
  checkEach checkTransaction block.vtx
  rejectIf ((block.vtx.map getLegacySigOpCount).sum > maxBlockSigOps)
    (.invalid 100 rejectInvalid "bad-blk-sigops" true)

def checkBlock (E : Env) (block : CBlock) (fCheckPOW fCheckMerkleRoot : Bool) :
    Except CValidationError Unit := do
  checkBlockHeader E block.toCBlockHeader fCheckPOW
  (if fCheckMerkleRoot then checkMerkleRoot E block else .ok ())
  checkVtx block

/-- What a block that passes looks like. -/
structure CBlock.Checked (block : CBlock) : Prop where
  nonempty : block.vtx ≠ []
  size : block.serializeSize ≤ maxBlockSize
  coinbase : ∀ tx ∈ block.vtx.head?, tx.isCoinBase = true
  others : ∀ tx ∈ block.vtx.tail, tx.isCoinBase = false
  transactions : ∀ tx ∈ block.vtx, tx.Checked

theorem checkBlock_ok {E : Env} {block : CBlock} {fCheckPOW fCheckMerkleRoot : Bool}
    (h : checkBlock E block fCheckPOW fCheckMerkleRoot = .ok ()) : block.Checked := by
  simp only [checkBlock, bind_eq_ok, exists_unit] at h
  rcases h with ⟨-, -, hvtx⟩
  simp only [checkVtx, bind_eq_ok, exists_unit, rejectIf_eq_ok, checkEach_eq_ok,
    List.isEmpty_iff, not_or, not_lt, gt_iff_lt] at hvtx
  rcases hvtx with ⟨⟨hne, -, hsize⟩, hhead, htail, htxs, -⟩
  refine ⟨hne, hsize, ?_, ?_, fun tx htx => checkTransaction_ok (htxs tx htx)⟩
  · intro tx htx
    rw [Option.mem_def] at htx
    simpa [htx] using hhead
  · intro tx htx
    by_contra hcb
    exact htail (List.any_eq_true.2 ⟨tx, htx, by simpa using hcb⟩)

/-- The size limit of a block is far below what a vector of the wire format may hold. -/
theorem CBlock.Checked.fits {block : CBlock} (h : block.Checked) {tx : CTransaction}
    (htx : tx ∈ block.vtx) : CTransaction.codec.Fits tx := by
  apply CTransaction.fits_of_size
  calc
    tx.serializeSize ≤ (ByteCodec.putAll CTransaction.codec block.vtx).length :=
      ByteCodec.length_put_le CTransaction.codec htx
    _ ≤ block.serializeSize := by
      have hput : CBlock.codec.put block = CBlockHeader.codec.put block.toCBlockHeader ++
          (writeCompactSize block.vtx.length ++ ByteCodec.putAll CTransaction.codec block.vtx) := rfl
      rw [CBlock.serializeSize, hput, List.length_append, List.length_append]
      omega
    _ ≤ maxSize := h.size.trans (by decide)

end Dobbscoin
