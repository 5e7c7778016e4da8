import Dobbscoin.Wallet.AccountBalances
import Dobbscoin.Wallet.CoinSelection
import Dobbscoin.Wallet.Salvage

/-!
# Sending

`CreateTransaction` of `wallet.cpp`, with `AvailableCoins`, `SelectCoins`, `GetMinimumFee` and the key that is reserved
for the change.
-/

namespace Dobbscoin

/-! ## Fees -/

structure CFeeRate where
  nSatoshisPerK : CAmount

/-- `GetFee`.  The product and the quotient are those of unsigned numbers, as the size is one. -/
def CFeeRate.getFee (rate : CFeeRate) (nSize : Nat) : CAmount :=
  let nFee := (rate.nSatoshisPerK.toUInt64 * UInt64.ofNat nSize / 1000).toInt64
  if nFee = 0 ∧ rate.nSatoshisPerK > 0 then rate.nSatoshisPerK else nFee

/-- The settings for fees; the ranges are those of what `ParseMoney` reads. -/
structure FeeSettings where
  payTxFee : CFeeRate
  fPayAtLeastCustomFee : Bool
  minTxFee : CFeeRate
  minRelayTxFee : CFeeRate
  maxTxFee : CAmount
  fSendFreeTransactions : Bool
  relay_range : moneyRange minRelayTxFee.nSatoshisPerK.toInt
  max_range : moneyRange maxTxFee.toInt

/-- `GetMinimumFee`; `estimate` is what `estimateFee` of the pool says. -/
def FeeSettings.getMinimumFee (fees : FeeSettings) (estimate : CFeeRate) (nTxBytes : Nat) : CAmount :=
  let nFeeNeeded := fees.payTxFee.getFee nTxBytes
  let nFeeNeeded :=
    if fees.fPayAtLeastCustomFee = true ∧ nFeeNeeded > 0 ∧ nFeeNeeded < fees.payTxFee.nSatoshisPerK then
      fees.payTxFee.nSatoshisPerK
    else nFeeNeeded
  let nFeeNeeded := if nFeeNeeded = 0 then estimate.getFee nTxBytes else nFeeNeeded
  let nFeeNeeded := if nFeeNeeded = 0 then fees.minTxFee.getFee nTxBytes else nFeeNeeded
  let nFeeNeeded :=
    if nFeeNeeded < fees.minRelayTxFee.getFee nTxBytes then fees.minRelayTxFee.getFee nTxBytes else nFeeNeeded
  if nFeeNeeded > fees.maxTxFee then fees.maxTxFee else nFeeNeeded

/-- `IsDust`. -/
def CTxOut.isDust (txout : CTxOut) (minRelayTxFee : CFeeRate) : Bool :=
  txout.nValue < 3 * minRelayTxFee.getFee ((CTxOut.codec.put txout).length + 148)

def maxStandardTxSize : Nat := 100000
def maxFreeTransactionCreateSize : Nat := 1000

/-! ## The wallet -/

structure CCoinControl where
  destChange : CTxDestination
  setSelected : List COutPoint

def CCoinControl.hasSelected (coinControl : CCoinControl) : Bool :=
  !coinControl.setSelected.isEmpty

structure SendWallet extends WalletNode where
  setLockedCoins : List COutPoint

/-- `nIndex` is `-1` when no key is reserved. -/
structure CReserveKey where
  nIndex : Int
  vchPubKey : CPubKey

/-- What one repetition of `CreateTransaction` leaves to chance. -/
structure PassDraws where
  /-- One for each call of `SelectCoinsMinConf`. -/
  select : Nat → SelectDraws
  /-- The set of the coins is gone through in the order of the pointers. -/
  order : List COutPoint → List COutPoint
  order_perm : ∀ setCoins, (order setCoins).Perm setCoins
  /-- `GetRandInt`. -/
  getRandInt : Nat → Nat
  getRandInt_lt : ∀ nMax, 0 < nMax → getRandInt nMax < nMax

/-- What sending asks of the rest of the program. -/
structure SendEnv extends BalanceEnv where
  fees : FeeSettings
  /-- `mempool.estimateFee(nTxConfirmTarget)`. -/
  estimateFee : CFeeRate
  /-- Whether the priority of the transaction, with these coins, is enough to send it for free. -/
  enoughPriority : List COutPoint → CTransaction → Bool
  /-- `SignSignature`: the `scriptSig` that it puts into an input. -/
  signSignature : CWallet → COutPoint → CTransaction → Nat → Option CScript
  /-- `TopUpKeyPool`, which adds keys; `none` when it throws. -/
  topUpKeyPool : Nat → CWallet → Option CWallet
  topUpKeyPool_keeps : ∀ nPass keys keys', topUpKeyPool nPass keys = some keys' →
    ∀ nIndex ∈ keys.setKeyPool, nIndex ∈ keys'.setKeyPool
  draws : Nat → PassDraws

namespace SendWallet

open WalletNode

variable (E : SendEnv) (w : SendWallet)

/-! ## The coins -/

/-- What `SelectCoinsMinConf` reads.  `IsFromMe` throws where here a debit that is out of range counts as none. -/
def coinView : CoinView where
  nValue coin := ((w.prevOut ⟨coin, [], 0⟩).map CTxOut.nValue).getD 0
  isFromMe hash :=
    match w.mapWallet.lookup hash with
    | none => false
    | some wtx => ((get E.toWalletEnv w.toWalletNode wtx (.getDebit ismineAll)).map fun r => decide (r.1 > 0)).getD false

/-- The outputs of a transaction that are not skipped by `AvailableCoins`. -/
def isAvailable (coinControl : Option CCoinControl) (wtxid : UInt256) (o : CTxOut × Nat) : Bool :=
  let coin : COutPoint := ⟨wtxid, UInt32.ofNat o.2⟩
  !isSpent E.toWalletEnv w.toWalletNode coin && E.isMine w.keys.keystore o.1.scriptPubKey ≠ ismineNo &&
    !w.setLockedCoins.contains coin && decide (o.1.nValue > 0) &&
    match coinControl with
    | none => true
    | some coinControl => !coinControl.hasSelected || coinControl.setSelected.contains coin

def availableOutputs (coinControl : Option CCoinControl) (wtxid : UInt256) (wtx : CWalletTx) (nDepth : Int) :
    List COutput :=
  (wtx.tx.vout.zipIdx.filter (isAvailable E w coinControl wtxid)).map fun o =>
    ⟨wtxid, UInt32.ofNat o.2, nDepth, mine E.toWalletEnv w.toWalletNode o.1 ismineSpendable⟩

/-- One transaction in the loop of `AvailableCoins`. -/
def availableOf (fOnlyConfirmed : Bool) (coinControl : Option CCoinControl) (wtxid : UInt256) :
    Option (List COutput) :=
  match w.mapWallet.lookup wtxid with
  | none => some []
  | some wtx =>
    if isFinal E.toBalanceEnv w.toWalletNode wtx.tx = false then some []
    else
      (if fOnlyConfirmed then isTrusted E.toBalanceEnv w.toWalletNode wtx else some true).map fun fTrusted =>
        let nDepth := getDepthInMainChain E.toWalletEnv w.toWalletNode wtx
        if fTrusted = false then []
        else if wtx.tx.isCoinBase = true ∧ getBlocksToMaturity E.toWalletEnv w.toWalletNode wtx > 0 then []
        else if nDepth < 0 then []
        else availableOutputs E w coinControl wtxid wtx nDepth

/-- `AvailableCoins`; the order of the coins does not matter to those that call it. -/
def availableCoins (fOnlyConfirmed : Bool) (coinControl : Option CCoinControl) : Option (List COutput) :=
  (w.mapWallet.keys.mapM (availableOf E w fOnlyConfirmed coinControl)).map List.flatten

/-- The three calls of `SelectCoinsMinConf`. -/
def selectConfirmed (draws : PassDraws) (nTargetValue : CAmount) (vCoins : List COutput) : Bool × CoinSet :=
  let first := selectCoinsMinConf (coinView E w) (draws.select 0) nTargetValue 1 6 vCoins
  if first.1 then first
  else
    let second := selectCoinsMinConf (coinView E w) (draws.select 1) nTargetValue 1 1 vCoins
    if second.1 then second
    else if E.fSpendZeroConfChange then selectCoinsMinConf (coinView E w) (draws.select 2) nTargetValue 0 1 vCoins
    else second

/-- The coins that are selected by hand go into the transaction, all of them. -/
def selectAll (nTargetValue : CAmount) (vCoins : List COutput) : Bool × CoinSet :=
  let ret := CoinSet.empty.addAll ((vCoins.filter COutput.fSpendable).map (coinView E w).valued)
  (ret.nValueRet ≥ nTargetValue, ret)

def byHand (coinControl : Option CCoinControl) : Bool :=
  coinControl.any CCoinControl.hasSelected

def selectCoins (draws : PassDraws) (nTargetValue : CAmount) (coinControl : Option CCoinControl) :
    Option (Bool × CoinSet) :=
  (availableCoins E w true coinControl).map fun vCoins =>
    if byHand coinControl then selectAll E w nTargetValue vCoins else selectConfirmed E w draws nTargetValue vCoins

end SendWallet

/-! ## The key for the change -/

section ReserveKey

variable (E : SendEnv)

/-- `ReserveKeyFromKeyPool`: the index is `-1` when the pool is empty, and nothing is returned when it throws. -/
def reserveKeyFromKeyPool (nPass : Nat) (keys : CWallet) : Option (Int × CPubKey × CWallet) := do
  let keys ← (if keys.isLocked then some keys else E.topUpKeyPool nPass keys)
  match keys.setKeyPool.min? with
  | none => some (-1, [], keys)
  | some nIndex =>
    let keypool ← keys.file.pool.lookup nIndex
    if keys.keystore.haveKey (CPubKey.getID E.C keypool.vchPubKey) && CPubKey.isValid keypool.vchPubKey then
      some (nIndex, keypool.vchPubKey, { keys with setKeyPool := keys.setKeyPool.filter (· ≠ nIndex) })
    else none

/-- `GetReservedKey`, which is asserted to return true. -/
def getReservedKey (nPass : Nat) (keys : CWallet) (reservekey : CReserveKey) :
    Option (CPubKey × CWallet × CReserveKey) :=
  if reservekey.nIndex = -1 then
    (reserveKeyFromKeyPool E nPass keys).bind fun r =>
      if r.1 = -1 then none else some (r.2.1, r.2.2, ⟨r.1, r.2.1⟩)
  else if CPubKey.isValid reservekey.vchPubKey then some (reservekey.vchPubKey, keys, reservekey)
  else none

/-- `ReturnKey`. -/
def returnKey (keys : CWallet) (reservekey : CReserveKey) : CWallet × CReserveKey :=
  (if reservekey.nIndex ≠ -1 then { keys with setKeyPool := keys.setKeyPool.insert reservekey.nIndex } else keys,
    ⟨-1, []⟩)

end ReserveKey

/-! ## CreateTransaction -/

/-- The arguments of `CreateTransaction`. -/
structure SendRequest where
  vecSend : List (CScript × CAmount)
  reservekey : CReserveKey
  coinControl : Option CCoinControl

/-- The state between two repetitions. -/
structure PassState where
  nFeeRet : CAmount
  keys : CWallet
  reservekey : CReserveKey
  nPass : Nat

/-- What is there when `CreateTransaction` returns true. -/
structure Created where
  tx : CTransaction
  nFeeRet : CAmount
  keys : CWallet
  reservekey : CReserveKey

/-- `strFailReason`, or an exception or an assertion that fails. -/
inductive SendError where
  | fails (strFailReason : String)
  | throws
  deriving DecidableEq

/-- How a repetition ends. -/
inductive PassOutcome where
  | done (created : Created)
  | again (s : PassState)
  | stops (error : SendError)

/-- The loop that adds the amounts; `none` when a sum is negative. -/
def sumAmounts : CAmount → List (CScript × CAmount) → Option CAmount
  | nValue, [] => some nValue
  | nValue, s :: vecSend => if nValue < 0 then none else sumAmounts (nValue + s.2) vecSend

/-- `nValue`. -/
def SendRequest.nValue (R : SendRequest) : Option CAmount :=
  (sumAmounts 0 R.vecSend).bind fun nValue => if R.vecSend.isEmpty = true ∨ nValue < 0 then none else some nValue

/-- The outputs for the recipients. -/
def SendRequest.outputs (R : SendRequest) : List CTxOut :=
  R.vecSend.map fun s => ⟨s.2, s.1⟩

namespace SendWallet

open WalletNode

variable (E : SendEnv) (w : SendWallet) (R : SendRequest)

/-- The wallet with the keys that it has now. -/
def withKeys (keys : CWallet) : SendWallet :=
  { w with keys := keys }

/-- `scriptChange`, with the keys and the reserved key afterwards. -/
def scriptChange (s : PassState) : Option (CScript × CWallet × CReserveKey) :=
  match R.coinControl with
  | some ⟨.keyID id, _⟩ => some (CTxDestination.script (.keyID id), s.keys, s.reservekey)
  | some ⟨.scriptID id, _⟩ => some (CTxDestination.script (.scriptID id), s.keys, s.reservekey)
  | some ⟨.noDestination, _⟩ | none =>
    (getReservedKey E s.nPass s.keys s.reservekey).map fun r =>
      (CTxDestination.script (.keyID (CPubKey.getID E.C r.1)), r.2)

/-- The outputs with the change; change that would be dust is added to the fee. -/
def addChange (nChange : CAmount) (s : PassState) : Option (List CTxOut × PassState) :=
  if nChange > 0 then
    (scriptChange E R s).map fun r =>
      let newTxOut : CTxOut := ⟨nChange, r.1⟩
      if newTxOut.isDust E.fees.minRelayTxFee then
        let returned := returnKey r.2.1 r.2.2
        (R.outputs, { s with nFeeRet := s.nFeeRet + nChange, keys := returned.1, reservekey := returned.2 })
      else
        (R.outputs.insertIdx ((E.draws s.nPass).getRandInt (R.outputs.length + 1)) newTxOut,
          { s with keys := r.2.1, reservekey := r.2.2 })
  else
    let returned := returnKey s.keys s.reservekey
    some (R.outputs, { s with keys := returned.1, reservekey := returned.2 })

/-- `coin.first->GetHash()`. -/
def coinHash (coin : COutPoint) : UInt256 :=
  match w.mapWallet.lookup coin.hash with
  | none => coin.hash
  | some wtx => wtx.tx.getHash E.H

/-- The loop that signs the inputs. -/
def signInputs (keys : CWallet) : Nat → List COutPoint → CTransaction → Option CTransaction
  | _, [], txNew => some txNew
  | nIn, coin :: setCoins, txNew =>
    (E.signSignature keys coin txNew nIn).bind fun scriptSig =>
      signInputs keys (nIn + 1) setCoins
        { txNew with vin := txNew.vin.modify nIn fun txin => { txin with scriptSig := scriptSig } }

/-- The transaction before it is signed. -/
def unsigned (setCoins : List COutPoint) (vout : List CTxOut) : CTransaction where
  nVersion := 1
  vin := setCoins.map fun coin => ⟨⟨coinHash E w coin, coin.n⟩, [], 0xffffffff⟩
  vout := vout
  nLockTime := 0

/-- Whether the transaction is sent with the fee that there is, because it is small and has priority. -/
def sendsFree (setCoins : List COutPoint) (tx : CTransaction) : Bool :=
  E.fees.fSendFreeTransactions && decide (tx.serializeSize ≤ maxFreeTransactionCreateSize) &&
    E.enoughPriority setCoins tx

/-- The end of a repetition: is the fee enough? -/
def checkFee (setCoins : List COutPoint) (tx : CTransaction) (s : PassState) : PassOutcome :=
  let nBytes := tx.serializeSize
  if nBytes ≥ maxStandardTxSize then .stops (.fails "Transaction too large")
  else if sendsFree E setCoins tx then .done ⟨tx, s.nFeeRet, s.keys, s.reservekey⟩
  else
    let nFeeNeeded := E.fees.getMinimumFee E.estimateFee nBytes
    if nFeeNeeded < E.fees.minRelayTxFee.getFee nBytes then .stops (.fails "Transaction too large for fee policy")
    else if s.nFeeRet ≥ nFeeNeeded then .done ⟨tx, s.nFeeRet, s.keys, s.reservekey⟩
    else .again { s with nFeeRet := nFeeNeeded, nPass := s.nPass + 1 }

/-- The part of a repetition after the coins have been chosen. -/
def buildTx (nValue : CAmount) (ret : CoinSet) (s : PassState) : PassOutcome :=
  match addChange E R (ret.nValueRet - nValue - s.nFeeRet) s with
  | none => .stops .throws
  | some (vout, s') =>
    let setCoins := (E.draws s.nPass).order ret.setCoinsRet
    match signInputs E s'.keys 0 setCoins (unsigned E w setCoins vout) with
    | none => .stops (.fails "Signing transaction failed")
    | some tx => checkFee E setCoins tx s'

/-- One repetition. -/
def createPass (nValue : CAmount) (s : PassState) : PassOutcome :=
  if R.outputs.any (CTxOut.isDust · E.fees.minRelayTxFee) then .stops (.fails "Transaction amount too small")
  else
    match selectCoins E (w.withKeys s.keys) (E.draws s.nPass) (nValue + s.nFeeRet) R.coinControl with
    | none => .stops .throws
    | some (false, _) => .stops (.fails "Insufficient funds")
    | some (true, ret) => buildTx E w R nValue ret s

/-- `while (true)`, for a number of repetitions; `none` when these are not enough. -/
def createLoop (nValue : CAmount) : Nat → PassState → Option (Except SendError Created)
  | 0, _ => none
  | fuel + 1, s =>
    match createPass E w R nValue s with
    | .done created => some (.ok created)
    | .stops error => some (.error error)
    | .again s' => createLoop nValue fuel s'

/-- The state before the first repetition. -/
def firstPass : PassState :=
  ⟨0, w.keys, R.reservekey, 0⟩

def createTransaction : Option (Except SendError Created) :=
  match R.nValue with
  | none => some (.error (.fails "Transaction amounts must be positive"))
  | some nValue => createLoop E w R nValue (E.fees.maxTxFee.toInt.toNat + 1) (firstPass w R)

end SendWallet

end Dobbscoin
