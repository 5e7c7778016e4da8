import Dobbscoin.Validation.CheckInputs

/-!
# Connecting and disconnecting a block

`ConnectBlock` and `DisconnectBlock` on a plain coin map.  The undo record is passed from the one to the
other; its place on disk, the transaction index and the address index are left out.
-/

namespace Dobbscoin

open Guard

/-- What the loop over the transactions has gathered. -/
structure ConnectState where
  view : CoinsView
  nFees : Int
  nSigOps : Nat
  vtxundo : List CTxUndo
  checks : List ScriptCheck

/-- What stays the same during the loop. -/
structure ConnectRules where
  nHeight : Nat
  fScriptChecks : Bool
  fStrictPayToScriptHash : Bool
  flags : UInt32

/-- The body of the loop, without the bookkeeping of undo records. -/
def connectTx (V : ValidationEnv) (m : BlockMap) (rules : ConnectRules) (s : ConnectState)
    (tx : CTransaction) : Except ConnectStop (ConnectState × CTxUndo) := do
  let nSigOps := s.nSigOps + getLegacySigOpCount tx
  rejectIf (nSigOps > maxBlockSigOps) (.rejected (.doS 100 rejectInvalid "bad-blk-sigops"))
  if tx.isCoinBase then do
    let (view, txundo) ← updateCoins V.crypto tx s.view rules.nHeight
    .ok ({ s with view := view, nSigOps := nSigOps }, txundo)
  else do
    rejectIf (s.view.haveInputs tx = false)
      (.rejected (.doS 100 rejectInvalid "bad-txns-inputs-missingorspent"))
    let nP2SH ← (if rules.fStrictPayToScriptHash then getP2SHSigOpCount tx s.view else .ok 0)
    let nSigOps := nSigOps + nP2SH
    rejectIf (nSigOps > maxBlockSigOps) (.rejected (.doS 100 rejectInvalid "bad-blk-sigops"))
    let nValueIn ← s.view.getValueIn tx
    let nValueOut ← tx.getValueOut
    let nFee ← fits64 (nValueIn - nValueOut)
    let nFees ← fits64 (s.nFees + nFee)
    let vChecks ← checkInputs V m tx s.view rules.fScriptChecks rules.flags
    let (view, txundo) ← updateCoins V.crypto tx s.view rules.nHeight
    .ok (⟨view, nFees, nSigOps, s.vtxundo, s.checks ++ vChecks⟩, txundo)

/-- The transactions after the coinbase; each leaves its undo record. -/
def connectTxs (V : ValidationEnv) (m : BlockMap) (rules : ConnectRules) :
    ConnectState → List CTransaction → Except ConnectStop ConnectState
  | s, [] => .ok s
  | s, tx :: rest => do
    let (s', txundo) ← connectTx V m rules s tx
    connectTxs V m rules { s' with vtxundo := s'.vtxundo ++ [txundo] } rest

/-- `Checkpoints::GetTotalBlocksEstimate`. -/
def getTotalBlocksEstimate (E : Env) : Nat :=
  if !E.fCheckpointsEnabled then 0
  else (E.params.mapCheckpoints.getLast?.map Prod.fst).getD 0

/-- Whether scripts are checked: not below the last checkpoint, nor below an `-assumevalid` block that
the best header chain goes through. -/
def needScriptChecks (V : ValidationEnv) (m : BlockMap) (pindexBestHeader : Option UInt256)
    (pindex : UInt256) : Bool :=
  let nHeight := (m.entry pindex).nHeight
  let assumed := match m.lookup V.hashAssumeValid, pindexBestHeader with
    | some it, some best =>
      m.getAncestor V.hashAssumeValid nHeight == some pindex &&
        m.getAncestor best nHeight == some pindex &&
        decide (it.nChainWork ≤ (m.entry best).nChainWork)
    | _, _ => false
  decide (getTotalBlocksEstimate V.toEnv ≤ nHeight) && !(V.hashAssumeValid != 0 && assumed)

/-- The two blocks that violate BIP30. -/
def isBIP30Exception (i : CBlockIndex) : Bool :=
  (i.nHeight == 91842 && i.phashBlock ==
      0x00000000000a4d0a398161ffc163c503763b1f4360639393e0e4c8e300e0caec#256) ||
    (i.nHeight == 91880 && i.phashBlock ==
      0x00000000000743f190a18c5577a3c2d2a1f610ae9601ac046a38084ccb7cd721#256)

def nBIP16SwitchTime : Int := 1333238400

def connectRules (V : ValidationEnv) (m : BlockMap) (pindexBestHeader : Option UInt256)
    (block : CBlock) (pindex : UInt256) : ConnectRules :=
  let i := m.entry pindex
  let prevChain := (i.pprev.map m.chainOf).getD []
  let fStrictPayToScriptHash := decide (i.getBlockTime ≥ nBIP16SwitchTime)
  let p2sh := if fStrictPayToScriptHash then scriptVerifyP2SH else 0
  let derSig :=
    if 3 ≤ block.getBaseVersion ∧
        isSuperMajority V.params 3 prevChain V.params.nEnforceBlockUpgradeMajority = true then
      scriptVerifyDerSig
    else 0
  let cltv := if i.nHeight ≥ cltvForkHeight V.params then scriptVerifyCheckLockTimeVerify else 0
  ⟨i.nHeight, needScriptChecks V m pindexBestHeader pindex, fStrictPayToScriptHash,
    p2sh ||| derSig ||| cltv⟩

/-- The loop over the transactions, from the coins the block is connected to. -/
def connectVtx (V : ValidationEnv) (m : BlockMap) (rules : ConnectRules) (view : CoinsView) :
    List CTransaction → Except ConnectStop ConnectState
  | [] => .ok ⟨view, 0, 0, [], []⟩
  | coinbase :: rest => do
    -- The coinbase leaves no undo record.
    let (s, _) ← connectTx V m rules ⟨view, 0, 0, [], []⟩ coinbase
    connectTxs V m rules s rest

/-- `ConnectBlock` after `CheckBlock`, for a block that is not the genesis block. -/
def connectChecked (V : ValidationEnv) (m : BlockMap) (pindexBestHeader : Option UInt256)
    (block : CBlock) (pindex : UInt256) (view : CoinsView) (fJustCheck : Bool) :
    Except ConnectStop (CoinsView × Option CBlockUndo) := do
  let rules := connectRules V m pindexBestHeader block pindex
  rejectIf (isBIP30Exception (m.entry pindex) = false ∧
      block.vtx.any (fun tx => (view.coins (tx.getHash V.crypto)).isSome) = true)
    (.rejected (.doS 100 rejectInvalid "bad-txns-BIP30"))
  let s ← connectVtx V m rules view block.vtx
  let nValueOut ← ((block.vtx.head?.map CTransaction.getValueOut).getD (.error .assertFailed))
  let nLimit ← fits64 (getBlockValue V.params rules.nHeight s.nFees)
  rejectIf (nValueOut > nLimit) (.rejected (.doS 100 rejectInvalid "bad-cb-amount"))
  -- `control.Wait()`
  rejectIf (∃ check ∈ s.checks, check.run V ≠ .ok ()) (.rejected (.doS 100 0 ""))
  .ok (if fJustCheck then (s.view, none) else (s.view.setBestBlock pindex, some ⟨s.vtxundo⟩))

/-- `ConnectBlock`: the coins after the block, and the undo record if one is written. -/
def connectBlock (V : ValidationEnv) (m : BlockMap) (pindexBestHeader : Option UInt256)
    (block : CBlock) (pindex : UInt256) (view : CoinsView) (fJustCheck : Bool) :
    Except ConnectStop (CoinsView × Option CBlockUndo) :=
  match checkBlock V.toEnv block (!fJustCheck) (!fJustCheck) with
  | .error e => .error (.rejected e)
  | .ok () => do
    rejectIf ((m.entry pindex).pprev.getD 0 ≠ view.hashBlock) .assertFailed
    if block.getHash V.crypto = V.params.hashGenesisBlock then
      .ok (view.setBestBlock pindex, none)
    else connectChecked V m pindexBestHeader block pindex view fJustCheck

/-! ## Disconnecting -/

/-- A view under repair, and `fClean`. -/
structure DisconnectState where
  view : CoinsView
  fClean : Bool

/-- Check that the outputs of a transaction are there as it made them, and remove them. -/
def removeOutputs (H : Crypto) (nHeight : Nat) (tx : CTransaction) (s : DisconnectState) :
    DisconnectState :=
  let hash := tx.getHash H
  let outs := (s.view.entry hash).clearUnspendable
  let outsBlock := CCoins.fromTx tx nHeight
  let outs := if outsBlock.nVersion < 0 then { outs with nVersion := outsBlock.nVersion } else outs
  ⟨s.view.set hash CCoins.empty, s.fClean && outs.same outsBlock⟩

/-- Restore one spent output. -/
def restoreInput (out : COutPoint) (undo : CTxInUndo) (s : DisconnectState) : DisconnectState :=
  let n := out.n.toNat
  let coins := s.view.entry out.hash
  let fClean := s.fClean && (if undo.nHeight ≠ 0 then coins.isPruned else !coins.isPruned)
  let coins := if undo.nHeight ≠ 0 then ⟨undo.fCoinBase, [], undo.nHeight, undo.nVersion⟩ else coins
  let fClean := fClean && !coins.isAvailable n
  let vout := coins.vout ++ List.replicate (n + 1 - coins.vout.length) CTxOut.null
  ⟨s.view.set out.hash { coins with vout := vout.set n undo.txout }, fClean⟩

/-- The inputs of a transaction, the last one first. -/
def restoreInputs : List (CTxIn × CTxInUndo) → DisconnectState → DisconnectState
  | [], s => s
  | (txin, undo) :: rest, s => restoreInput txin.prevout undo (restoreInputs rest s)

/-- One transaction; the coinbase has no undo record. -/
def disconnectTx (H : Crypto) (nHeight : Nat) (tx : CTransaction) (txundo : Option CTxUndo)
    (s : DisconnectState) : Except ConnectStop DisconnectState :=
  let s := removeOutputs H nHeight tx s
  match txundo with
  | none => .ok s
  | some txundo =>
    if txundo.vprevout.length ≠ tx.vin.length then
      .error (.failed "DisconnectBlock() : transaction and undo data inconsistent")
    else .ok (restoreInputs (tx.vin.zip txundo.vprevout) s)

/-- The transactions of a block, the last one first. -/
def disconnectTxs (H : Crypto) (nHeight : Nat) :
    List (CTransaction × Option CTxUndo) → DisconnectState → Except ConnectStop DisconnectState
  | [], s => .ok s
  | (tx, txundo) :: rest, s => do
    let s ← disconnectTxs H nHeight rest s
    disconnectTx H nHeight tx txundo s

/-- `DisconnectBlock` with the undo record of the block, and what it leaves in `*pfClean`. -/
def disconnectBlock (H : Crypto) (m : BlockMap) (block : CBlock) (blockUndo : Option CBlockUndo)
    (pindex : UInt256) (view : CoinsView) : Except ConnectStop (CoinsView × Bool) := do
  rejectIf (pindex ≠ view.hashBlock) .assertFailed
  match blockUndo, (m.entry pindex).pprev with
  | none, _ => .error (.failed "DisconnectBlock() : no undo data available")
  -- `pindex->pprev` is followed without a test.
  | some _, none => .error .assertFailed
  | some blockUndo, some pprev => do
    rejectIf (blockUndo.vtxundo.length + 1 ≠ block.vtx.length)
      (.failed "DisconnectBlock() : block and undo data inconsistent")
    let s ← disconnectTxs H (m.entry pindex).nHeight
      (block.vtx.zip (none :: blockUndo.vtxundo.map some)) ⟨view, true⟩
    .ok (s.view.setBestBlock pprev, s.fClean)

end Dobbscoin
