import Dobbscoin.Validation.AcceptHeader
import Dobbscoin.Validation.ActivateBestChain

/-!
# Accepting blocks

`ContextualCheckBlock`, `ReceivedBlockTransactions` and `AcceptBlock`.  Finding a place in the block
files and writing the block there is one operation of `BlockStore`; positions are left out.
-/

namespace Dobbscoin

open Guard

/-! ## Contextual checks -/

def locktimeThreshold : Int := 500000000

def CTxIn.isFinal (txin : CTxIn) : Bool :=
  txin.nSequence == 0xffffffff

/-- `IsFinalTx`; height and time 0 stand for the current ones. -/
def isFinalTx (E : Env) (chainHeight : Int) (tx : CTransaction) (nBlockHeight nBlockTime : Int) :
    Bool :=
  if tx.nLockTime = 0 then true
  else
    let nBlockHeight := if nBlockHeight = 0 then chainHeight else nBlockHeight
    let nBlockTime := if nBlockTime = 0 then E.adjustedTime else nBlockTime
    let nLockTime : Int := tx.nLockTime.toNat
    if nLockTime < (if nLockTime < locktimeThreshold then nBlockHeight else nBlockTime) then true
    else tx.vin.all CTxIn.isFinal

/-- The bytes of `CScriptNum::serialize` of a number that is not negative. -/
def scriptNumBytes : Nat → Nat → Bytes
  | 0, _ => []
  | fuel + 1, value =>
    if value = 0 then []
    else if value < 128 then [UInt8.ofNat value]
    else if value < 256 then [UInt8.ofNat value, 0]
    else UInt8.ofNat (value % 256) :: scriptNumBytes fuel (value / 256)

/-- `CScript() << n` for a height. -/
def pushHeight (n : Nat) : CScript :=
  if n = 0 then [0]
  else if n ≤ 16 then [UInt8.ofNat (n + (op1 - 1))]
  else
    let bytes := scriptNumBytes 9 n
    UInt8.ofNat bytes.length :: bytes

/-- `ContextualCheckBlock`; the genesis block has no parent. -/
def contextualCheckBlock (E : Env) (m : BlockMap) (chainHeight : Int) (block : CBlock)
    (pindexPrev : Option UInt256) : Except CValidationError Unit := do
  let nHeight := (pindexPrev.map fun p => (m.entry p).nHeight + 1).getD 0
  let chain := (pindexPrev.map m.chainOf).getD []
  rejectIf (block.vtx.any (fun tx =>
      !isFinalTx E chainHeight tx nHeight block.getBlockTime) = true)
    (.doS 10 rejectInvalid "bad-txns-nonfinal")
  let scriptSig := ((block.vtx.head?.bind fun tx => tx.vin.head?).map CTxIn.scriptSig).getD []
  rejectIf (2 ≤ block.getBaseVersion ∧
      isSuperMajority E.params 2 chain E.params.nEnforceBlockUpgradeMajority = true ∧
      (pushHeight nHeight).isPrefixOf scriptSig = false)
    (.doS 100 rejectInvalid "bad-cb-height")

/-! ## Updates of the block map -/

/-- Assignments to the fields of an entry. -/
def BlockMap.modify (m : BlockMap) (h : UInt256) (f : CBlockIndex → CBlockIndex) : BlockMap :=
  m.map fun i => if i.phashBlock = h then f i else i

namespace NodeState

variable {W : Type}

def modify (s : NodeState W) (p : UInt256) (f : CBlockIndex → CBlockIndex) : NodeState W :=
  { s with mapBlockIndex := s.mapBlockIndex.modify p f }

/-! ## ReceivedBlockTransactions -/

/-- `setBlockIndexCandidates.insert`. -/
def insertCandidate (s : NodeState W) (p : UInt256) : NodeState W :=
  { s with setBlockIndexCandidates := s.setBlockIndexCandidates.insert p }

/-- The block sorts at least as high as the tip; without a tip every block does. -/
def notWorseThanTip (s : NodeState W) (p : UInt256) : Bool :=
  match s.tip with
  | none => true
  | some tip => !worse (s.idx p) (s.idx tip)

/-- The transactions of the branch of a block, as its parent has counted them. -/
def parentChainTx (s : NodeState W) (p : UInt256) : Nat :=
  ((s.idx p).pprev.map fun q => (s.idx q).nChainTx).getD 0

/-- One block that is eligible to be connected. -/
def linkBlock (s : NodeState W) (pindex : UInt256) : NodeState W :=
  let s' := { s.modify pindex (fun i =>
      { i with
        nChainTx := s.parentChainTx pindex + i.nTx
        nSequenceId := s.nBlockSequenceId }) with
    nBlockSequenceId := s.nBlockSequenceId + 1 }
  if s'.notWorseThanTip pindex then s'.insertCandidate pindex else s'

/-- `mapBlocksUnlinked.equal_range(pindex)`. -/
def unlinkedAt (s : NodeState W) (pindex : UInt256) : List UInt256 :=
  (s.mapBlocksUnlinked.filter fun e => e.1 = pindex).map Prod.snd

def dropUnlinked (s : NodeState W) (pindex : UInt256) : NodeState W :=
  { s with mapBlocksUnlinked := s.mapBlocksUnlinked.filter fun e => e.1 ≠ pindex }

/-- The queue of descendants that now may be eligible to be connected.  Every pass takes one block off
the queue, and a block comes onto it with a pair that is taken out of `mapBlocksUnlinked`. -/
def linkLoop : Nat → List UInt256 → NodeState W → NodeState W
  | 0, _, s => s
  | _ + 1, [], s => s
  | fuel + 1, pindex :: queue, s =>
    let s' := s.linkBlock pindex
    linkLoop fuel (queue ++ s'.unlinkedAt pindex) (s'.dropUnlinked pindex)

/-- Mark a block as having its data received and checked. -/
def markReceived (s : NodeState W) (block : CBlock) (pindexNew : UInt256) : NodeState W :=
  s.modify pindexNew fun i =>
    { i with
      nTx := block.vtx.length
      nChainTx := 0
      nStatus := ({ i.nStatus with haveData := true } : BlockStatus).raiseValidity
        BlockStatus.validTransactions }

def receivedBlockTransactions (s : NodeState W) (block : CBlock) (pindexNew : UInt256) :
    NodeState W :=
  let s := s.markReceived block pindexNew
  match (s.idx pindexNew).pprev with
  | none => linkLoop (s.mapBlocksUnlinked.length + 1) [pindexNew] s
  | some pprev =>
    if (s.idx pprev).nChainTx ≠ 0 then linkLoop (s.mapBlocksUnlinked.length + 1) [pindexNew] s
    else if (s.idx pprev).nStatus.isValid BlockStatus.validTree then
      { s with mapBlocksUnlinked := s.mapBlocksUnlinked ++ [(pprev, pindexNew)] }
    else s

/-! ## AcceptBlock -/

/-- `FindBlockPos` and `WriteBlockToDisk`. -/
structure BlockStore (W : Type) where
  store : W → UInt256 → CBlock → Except CValidationError Unit × W

/-- `state.IsInvalid() && !state.CorruptionPossible()`. -/
def condemns : CValidationError → Bool
  | .invalid _ _ _ corruptionPossible => !corruptionPossible
  | .error _ => false

/-- The checks of `AcceptBlock`. -/
def checkNewBlock (E : Env) (s : NodeState W) (block : CBlock) (pindex : UInt256) :
    Except CValidationError Unit := do
  checkBlock E block true true
  contextualCheckBlock E s.mapBlockIndex s.chainActive.height block (s.idx pindex).pprev

/-- `AcceptBlock`; the pointer is what is left in `*ppindex` on success. -/
def acceptBlock (E : Env) (store : BlockStore W) (s : NodeState W) (block : CBlock) :
    Except CValidationError UInt256 × NodeState W :=
  match s.acceptBlockHeader E block.toCBlockHeader with
  | .error e => (.error e, s)
  | .ok (pindex, s) =>
    if (s.idx pindex).nStatus.haveData then (.ok pindex, s)
    else
      match checkNewBlock E s block pindex with
      | .error e =>
        (.error e,
          if condemns e then s.setStatus pindex fun n => { n with failedValid := true } else s)
      | .ok () =>
        match store.store s.world pindex block with
        | (.error e, w) => (.error e, { s with world := w })
        | (.ok _, w) =>
          (.ok pindex, ({ s with world := w } : NodeState W).receivedBlockTransactions block pindex)

end NodeState

end Dobbscoin
