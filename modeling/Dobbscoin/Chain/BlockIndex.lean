import Dobbscoin.Primitives.Block
import Mathlib.Data.List.Sort

/-!
# Block index entries

`CBlockIndex` of `chain.h`.  A pointer to an entry is the hash the entry is filed under in
`mapBlockIndex`; code that only walks back from an entry takes the list of what it visits instead,
newest first.
-/

namespace Dobbscoin

/-- `enum BlockStatus`: the validity level (`BLOCK_VALID_MASK`) and the flags. -/
structure BlockStatus where
  valid : Nat
  haveData : Bool
  haveUndo : Bool
  failedValid : Bool
  failedChild : Bool
  deriving DecidableEq

namespace BlockStatus

def validTree : Nat := 2
def validTransactions : Nat := 3
def validScripts : Nat := 5

def null : BlockStatus := ⟨0, false, false, false, false⟩

/-- `nStatus & BLOCK_FAILED_MASK`. -/
def failed (s : BlockStatus) : Bool :=
  s.failedValid || s.failedChild

/-- `IsValid(nUpTo)`. -/
def isValid (s : BlockStatus) (nUpTo : Nat) : Bool :=
  if s.failed then false else decide (nUpTo ≤ s.valid)

/-- `RaiseValidity(nUpTo)`: failed entries stay as they are. -/
def raiseValidity (s : BlockStatus) (nUpTo : Nat) : BlockStatus :=
  if s.failed then s else { s with valid := max s.valid nUpTo }

@[simp] theorem raiseValidity_failed (s : BlockStatus) (n : Nat) :
    (s.raiseValidity n).failed = s.failed := by
  unfold raiseValidity
  split_ifs <;> rfl

@[simp] theorem raiseValidity_haveData (s : BlockStatus) (n : Nat) :
    (s.raiseValidity n).haveData = s.haveData := by
  unfold raiseValidity
  split_ifs <;> rfl

end BlockStatus

structure CBlockIndex where
  phashBlock : UInt256
  pprev : Option UInt256
  pskip : Option UInt256
  nHeight : Nat
  nChainWork : UInt256
  nTx : Nat
  nChainTx : Nat
  nStatus : BlockStatus
  nVersion : Int32
  hashMerkleRoot : UInt256
  nTime : UInt32
  nBits : UInt32
  nNonce : UInt32
  nSequenceId : UInt32
  /-- Where the entry lives; the candidate order breaks its last ties by it. -/
  address : Nat
  deriving DecidableEq

namespace CBlockIndex

/-- `SetNull`. -/
def null : CBlockIndex where
  phashBlock := 0
  pprev := none
  pskip := none
  nHeight := 0
  nChainWork := 0
  nTx := 0
  nChainTx := 0
  nStatus := BlockStatus.null
  nVersion := 0
  hashMerkleRoot := 0
  nTime := 0
  nBits := 0
  nNonce := 0
  nSequenceId := 0
  address := 0

/-- The constructor from a header: nothing but the header's own fields is set. -/
def ofHeader (block : CBlockHeader) : CBlockIndex :=
  { null with
    nVersion := block.nVersion
    hashMerkleRoot := block.hashMerkleRoot
    nTime := block.nTime
    nBits := block.nBits
    nNonce := block.nNonce }

def getBlockTime (i : CBlockIndex) : Int :=
  i.nTime.toNat

def getBaseVersion (i : CBlockIndex) : Int32 :=
  i.nVersion % versionAuxpow

/-- `GetBlockHeader`: `pprev` supplies the previous hash; the AuxPoW trailer is gone. -/
def getBlockHeader (i : CBlockIndex) : CBlockHeader where
  nVersion := i.nVersion
  hashPrevBlock := i.pprev.getD 0
  hashMerkleRoot := i.hashMerkleRoot
  nTime := i.nTime
  nBits := i.nBits
  nNonce := i.nNonce
  auxpow := none

end CBlockIndex

/-- `nMedianTimeSpan`. -/
def medianTimeSpan : Nat := 11

/-- `GetMedianTimePast` of the first entry of a chain, newest first. -/
def getMedianTimePast (pindex : List CBlockIndex) : Int :=
  let pmedian := ((pindex.take medianTimeSpan).map CBlockIndex.getBlockTime).insertionSort (· ≤ ·)
  pmedian.getD (pmedian.length / 2) 0

end Dobbscoin
