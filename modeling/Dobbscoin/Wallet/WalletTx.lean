import Dobbscoin.Net.Orphans
import Dobbscoin.Validation.MerkleBranch
import Dobbscoin.Wallet.RemoveKey

/-!
# Wallet transactions

`CWalletTx` of `wallet.h`: the amounts of a transaction, and the copies of them that it keeps.
-/

namespace Dobbscoin

/-- The bits of `isminetype` and `isminefilter`. -/
abbrev IsMineFilter := UInt8

def ismineNo : IsMineFilter := 0
def ismineWatchOnly : IsMineFilter := 1
def ismineSpendable : IsMineFilter := 2
def ismineAll : IsMineFilter := 3

/-- What the wallet asks of the rest of the program. -/
structure WalletEnv where
  H : Crypto
  C : WalletCrypto
  /-- `::IsMine`; nothing is used of it but that it depends on the key store. -/
  isMine : CCryptoKeyStore → CScript → IsMineFilter
  /-- The block of an index entry, whose hash `ReadBlockFromDisk` compares. -/
  readBlock : UInt256 → Option CBlock
  readBlock_hash : ∀ hash block, readBlock hash = some block → block.getHash H = hash

/-- The amounts that are kept in a `CWalletTx`, by their fields. -/
inductive CachedAmount where
  | debit
  | credit
  | immatureCredit
  | availableCredit
  | watchDebit
  | watchCredit
  | immatureWatchCredit
  | availableWatchCredit
  deriving DecidableEq

namespace CachedAmount

/-- The outputs that the amount is about. -/
def filter : CachedAmount → IsMineFilter
  | debit | credit | immatureCredit | availableCredit => ismineSpendable
  | watchDebit | watchCredit | immatureWatchCredit | availableWatchCredit => ismineWatchOnly

end CachedAmount

/-- A `CMerkleTx` with the amounts of `CWalletTx` whose flags are set. -/
structure CWalletTx where
  tx : CTransaction
  hashBlock : UInt256
  vMerkleBranch : List UInt256
  nIndex : Int32
  fMerkleVerified : Bool
  cached : CachedAmount → Option Int

namespace CWalletTx

/-- `CWalletTx(pwallet, tx)`. -/
def ofTx (tx : CTransaction) : CWalletTx :=
  ⟨tx, 0, [], -1, false, fun _ => none⟩

/-- `MarkDirty`.  `fImmatureCreditCached` is not among the flags that it clears. -/
def markDirty (wtx : CWalletTx) : CWalletTx :=
  { wtx with cached := fun
      | .immatureCredit => wtx.cached .immatureCredit
      | .credit | .availableCredit | .watchDebit | .watchCredit | .availableWatchCredit | .immatureWatchCredit
      | .debit => none }

/-- `SetMerkleBranch`. -/
def setMerkleBranch (H : Crypto) (wtx : CWalletTx) (block : CBlock) : CWalletTx :=
  match block.vtx.findIdx? fun tx => tx.getHash H = wtx.tx.getHash H with
  | none => { wtx with hashBlock := block.getHash H, vMerkleBranch := [], nIndex := -1 }
  | some nIndex =>
    { wtx with
      hashBlock := block.getHash H
      vMerkleBranch := block.getMerkleBranch H (Int32.ofNat nIndex)
      nIndex := Int32.ofNat nIndex }

end CWalletTx

/-- The wallet, with the chain and the pool that it looks at. -/
structure WalletNode where
  keys : CWallet
  mapWallet : Table UInt256 CWalletTx
  /-- The transactions that spend an outpoint. -/
  mapTxSpends : COutPoint → List UInt256
  /-- From the tip to the genesis block. -/
  chainActive : List UInt256
  mempool : CTxMemPool

namespace WalletNode

variable (E : WalletEnv) (w : WalletNode)

/-! ## Depth -/

/-- The merkle branch is the one of the transaction in the block, as far as it has not been looked at before. -/
def merkleOk (wtx : CWalletTx) (block : CBlock) : Bool :=
  wtx.fMerkleVerified ||
    checkMerkleBranch E.H (wtx.tx.getHash E.H) wtx.vMerkleBranch wtx.nIndex == block.hashMerkleRoot

def getDepthInMainChainInternal (wtx : CWalletTx) : Int :=
  if wtx.hashBlock = 0 ∨ wtx.nIndex = -1 then 0
  else
    match E.readBlock wtx.hashBlock with
    | none => 0
    | some block =>
      if wtx.hashBlock ∉ w.chainActive then 0
      else if merkleOk E wtx block = false then 0
      else w.chainActive.idxOf wtx.hashBlock + 1

def getDepthInMainChain (wtx : CWalletTx) : Int :=
  let nResult := getDepthInMainChainInternal E w wtx
  if nResult = 0 ∧ w.mempool.has (wtx.tx.getHash E.H) = false then -1 else nResult

def getBlocksToMaturity (wtx : CWalletTx) : Int :=
  if wtx.tx.isCoinBase = false then 0 else max 0 (coinbaseMaturity + 1 - getDepthInMainChain E w wtx)

def isInMainChain (wtx : CWalletTx) : Bool :=
  getDepthInMainChain E w wtx > 0

/-- A transaction of the wallet is in the chain or in the pool. -/
def isLive (wtxid : UInt256) : Bool :=
  match w.mapWallet.lookup wtxid with
  | none => false
  | some wtx => getDepthInMainChain E w wtx ≥ 0

def isSpent (outpoint : COutPoint) : Bool :=
  (w.mapTxSpends outpoint).any (isLive E w)

/-! ## Amounts -/

/-- A sum of amounts; it is `none` when one of them, or a sum on the way, is out of range. -/
def sumMoney : Int → List (Option Int) → Option Int
  | n, [] => some n
  | _, none :: _ => none
  | n, some nValue :: rest => if moneyRange (n + nValue) then sumMoney (n + nValue) rest else none

/-- `IsMine(txout) & filter`. -/
def mine (txout : CTxOut) (filter : IsMineFilter) : Bool :=
  E.isMine w.keys.keystore txout.scriptPubKey &&& filter ≠ 0

/-- The output of a wallet transaction that an input spends. -/
def prevOut (txin : CTxIn) : Option CTxOut :=
  (w.mapWallet.lookup txin.prevout.hash).bind fun prev => prev.tx.vout[txin.prevout.n.toNat]?

/-- `GetDebit` of an input. -/
def debitOf (filter : IsMineFilter) (txin : CTxIn) : Int :=
  match w.prevOut txin with
  | none => 0
  | some txout => if mine E w txout filter then txout.nValue.toInt else 0

/-- `GetCredit` of an output. -/
def creditOf (filter : IsMineFilter) (txout : CTxOut) : Option Int :=
  if moneyRange txout.nValue.toInt then some (if mine E w txout filter then txout.nValue.toInt else 0) else none

def getDebit (tx : CTransaction) (filter : IsMineFilter) : Option Int :=
  sumMoney 0 (tx.vin.map fun txin => some (debitOf E w filter txin))

def getCredit (tx : CTransaction) (filter : IsMineFilter) : Option Int :=
  sumMoney 0 (tx.vout.map (creditOf E w filter))

/-- The outputs that are not spent. -/
def unspentOutputs (tx : CTransaction) : List CTxOut :=
  (tx.vout.zipIdx.filter fun o => !isSpent E w ⟨tx.getHash E.H, UInt32.ofNat o.2⟩).map Prod.fst

def getUnspentCredit (tx : CTransaction) (filter : IsMineFilter) : Option Int :=
  sumMoney 0 ((unspentOutputs E w tx).map (creditOf E w filter))

/-- What is put into a field when its flag is not set. -/
def recompute (tx : CTransaction) (c : CachedAmount) : Option Int :=
  match c with
  | .debit | .watchDebit => getDebit E w tx c.filter
  | .credit | .immatureCredit | .watchCredit | .immatureWatchCredit => getCredit E w tx c.filter
  | .availableCredit | .availableWatchCredit => getUnspentCredit E w tx c.filter

/-! ## Amounts of a wallet transaction -/

/-- A field, and the transaction after it has been filled. -/
def fetch (fUseCache : Bool) (c : CachedAmount) (wtx : CWalletTx) : Option (Int × CWalletTx) :=
  match (if fUseCache then wtx.cached c else none) with
  | some nAmount => some (nAmount, wtx)
  | none =>
    (recompute E w wtx.tx c).map fun nAmount =>
      (nAmount, { wtx with cached := Function.update wtx.cached c (some nAmount) })

/-- The sum of the fields that a filter asks for. -/
def fetchBoth (filter : IsMineFilter) (spendable watchOnly : CachedAmount) (wtx : CWalletTx) :
    Option (Int × CWalletTx) := do
  let first ← (if filter &&& ismineSpendable ≠ 0 then fetch E w true spendable wtx else some (0, wtx))
  let second ← (if filter &&& ismineWatchOnly ≠ 0 then fetch E w true watchOnly first.2 else some (0, first.2))
  pure (first.1 + second.1, second.2)

/-- The functions of `CWalletTx` for amounts, with their arguments. -/
inductive Getter where
  | getDebit (filter : IsMineFilter)
  | getCredit (filter : IsMineFilter)
  | getImmatureCredit (fUseCache : Bool)
  | getAvailableCredit (fUseCache : Bool)
  | getImmatureWatchOnlyCredit (fUseCache : Bool)
  | getAvailableWatchOnlyCredit (fUseCache : Bool)

/-- A coinbase that is not deep enough. -/
def immature (wtx : CWalletTx) : Bool :=
  wtx.tx.isCoinBase && decide (getBlocksToMaturity E w wtx > 0)

def get (wtx : CWalletTx) : Getter → Option (Int × CWalletTx)
  | .getDebit filter =>
    if wtx.tx.vin.isEmpty then some (0, wtx) else fetchBoth E w filter .debit .watchDebit wtx
  | .getCredit filter =>
    if immature E w wtx then some (0, wtx) else fetchBoth E w filter .credit .watchCredit wtx
  | .getImmatureCredit fUseCache =>
    if immature E w wtx && isInMainChain E w wtx then fetch E w fUseCache .immatureCredit wtx else some (0, wtx)
  | .getAvailableCredit fUseCache =>
    if immature E w wtx then some (0, wtx) else fetch E w fUseCache .availableCredit wtx
  | .getImmatureWatchOnlyCredit fUseCache =>
    if immature E w wtx && isInMainChain E w wtx then fetch E w fUseCache .immatureWatchCredit wtx else some (0, wtx)
  | .getAvailableWatchOnlyCredit fUseCache =>
    if immature E w wtx then some (0, wtx) else fetch E w fUseCache .availableWatchCredit wtx

/-- The transaction without what is kept in it. -/
def uncached (wtx : CWalletTx) : CWalletTx :=
  { wtx with cached := fun _ => none }

end WalletNode

end Dobbscoin

/-!
# What changes the wallet's transactions

`SyncTransaction` of `wallet.cpp`, and the steps of the node that end in it or change what the amounts depend on.
-/

namespace Dobbscoin

namespace WalletNode

variable (E : WalletEnv) (w : WalletNode)

/-! ## SyncTransaction -/

/-- An entry of `mapWallet` is marked dirty, when there is one. -/
def markDirtyAt (hash : UInt256) : WalletNode :=
  match w.mapWallet.lookup hash with
  | none => w
  | some wtx => { w with mapWallet := w.mapWallet.insert hash wtx.markDirty }

/-- `AddToSpends`. -/
def addToSpends (tx : CTransaction) : WalletNode :=
  if tx.isCoinBase then w
  else { w with mapTxSpends := tx.vin.foldl (fun mapTxSpends txin =>
    Function.update mapTxSpends txin.prevout (mapTxSpends txin.prevout ++ [tx.getHash E.H])) w.mapTxSpends }

/-- The merge of `AddToWallet` with an entry that is there already, and `fUpdated`. -/
def merge (wtxIn wtx : CWalletTx) : CWalletTx × Bool :=
  let fBlock := wtxIn.hashBlock ≠ 0 ∧ wtxIn.hashBlock ≠ wtx.hashBlock
  let fBranch := wtxIn.nIndex ≠ -1 ∧ (wtxIn.vMerkleBranch ≠ wtx.vMerkleBranch ∨ wtxIn.nIndex ≠ wtx.nIndex)
  ({ wtx with
      hashBlock := if fBlock then wtxIn.hashBlock else wtx.hashBlock
      vMerkleBranch := if fBranch then wtxIn.vMerkleBranch else wtx.vMerkleBranch
      nIndex := if fBranch then wtxIn.nIndex else wtx.nIndex }, decide (fBlock ∨ fBranch))

/-- `AddToWallet` outside of loading; `fWrites` says whether the wallet file can be written. -/
def addToWallet (wtxIn : CWalletTx) (fWrites : Bool) : Bool × WalletNode :=
  let hash := wtxIn.tx.getHash E.H
  match w.mapWallet.lookup hash with
  | none =>
    (fWrites, addToSpends E { w with mapWallet := w.mapWallet.insert hash wtxIn.markDirty } wtxIn.tx)
  | some wtx =>
    let merged := merge wtxIn wtx.markDirty
    (!merged.2 || fWrites, { w with mapWallet := w.mapWallet.insert hash merged.1 })

/-- `IsMine(tx) || IsFromMe(tx)`; `none` when the sum of the inputs is out of range. -/
def involvesMe (tx : CTransaction) : Option Bool :=
  if tx.vout.any (fun txout => mine E w txout ismineAll) then some true
  else (getDebit E w tx ismineAll).map fun nDebit => decide (nDebit > 0)

/-- `AddToWalletIfInvolvingMe` with `fUpdate`. -/
def addToWalletIfInvolvingMe (tx : CTransaction) (pblock : Option CBlock) (fWrites : Bool) :
    Option (Bool × WalletNode) := do
  let fExisted := (w.mapWallet.lookup (tx.getHash E.H)).isSome
  let fInvolves ← (if fExisted then some true else involvesMe E w tx)
  if fInvolves then
    let wtx := CWalletTx.ofTx tx
    let wtx := (pblock.map (wtx.setMerkleBranch E.H)).getD wtx
    pure (addToWallet E w wtx fWrites)
  else pure (false, w)

/-- `SyncTransaction`. -/
def syncTransaction (fWrites : UInt256 → Bool) (pblock : Option CBlock) (w : WalletNode) (tx : CTransaction) :
    Option WalletNode :=
  (addToWalletIfInvolvingMe E w tx pblock (fWrites (tx.getHash E.H))).map fun r =>
    if r.1 = false then r.2
    else tx.vin.foldl (fun w txin => w.markDirtyAt txin.prevout.hash) r.2

/-! ## The chain and the pool -/

/-- `AcceptToMemoryPool`, for the hash function of the node. -/
def acceptTransaction (rules : TxEnv) (fWrites : UInt256 → Bool) (tx : CTransaction) : Option (Bool × WalletNode) :=
  match acceptToMemoryPool { rules with H := E.H } w.mempool tx with
  | .accepted pool => (syncTransaction E fWrites none { w with mempool := pool } tx).map fun w => (true, w)
  | .missingInputs | .rejected _ => some (false, w)

/-! ## Runs -/

/-- A wallet without transactions. -/
def start (keys : CWallet) (chainActive : List UInt256) : WalletNode :=
  ⟨keys, ∅, fun _ => [], chainActive, .empty⟩

end WalletNode

end Dobbscoin
