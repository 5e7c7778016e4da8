import Dobbscoin.Coins.CoinsView
import Dobbscoin.Script.Encoding
import Dobbscoin.Validation.AcceptHeader

/-!
# Transactions against the coins

`GetBlockValue`, `HaveInputs`, `GetValueIn`, `GetValueOut`, `CheckInputs` and `UpdateCoins`.  Amounts are
integers here; every place where the code adds or subtracts them goes through `fits64`, which stops
where a 64-bit sum would overflow.
-/

namespace Dobbscoin

open Guard

/-- How a step of connecting or disconnecting a block ends when it does not go on. -/
inductive ConnectStop where
  | rejected (e : CValidationError)
  /-- `return error(..)`, with the state left as it is. -/
  | failed (message : String)
  | assertFailed
  /-- A signed 64-bit overflow. -/
  | overflow
  | threw (what : String)
  deriving DecidableEq

/-- What connecting a block reads besides the coins and the block tree. -/
structure ValidationEnv extends Env where
  /-- `VerifyScript` of input `nIn` under some flags; the text is `ScriptErrorString`. -/
  verifyScript : CScript → CScript → CTransaction → Nat → UInt32 → Except String Unit
  nScriptCheckThreads : Nat
  hashAssumeValid : UInt256

def standardNotMandatoryVerifyFlags : UInt32 :=
  scriptVerifyDerSig ||| scriptVerifyStrictEnc ||| scriptVerifyMinimalData |||
    scriptVerifyNullDummy ||| scriptVerifyDiscourageUpgradableNops ||| scriptVerifyCheckLockTimeVerify

def coinbaseMaturity : Int := 100

def rejectNonstandard : UInt8 := 0x40

/-! ## Amounts -/

def int64Range (n : Int) : Prop :=
  -2 ^ 63 ≤ n ∧ n < 2 ^ 63

instance (n : Int) : Decidable (int64Range n) :=
  inferInstanceAs (Decidable (_ ∧ _))

/-- The result of an addition or subtraction of two `CAmount`s. -/
def fits64 (n : Int) : Except ConnectStop Int :=
  if int64Range n then .ok n else .error .overflow

def nBlockRewardMinimumCoin : Int := 50000000
def nBlockRewardEndCoin : Int := 150000000

/-- `nSubsidy` before the last line of `GetBlockValue`. -/
def nSubsidy (P : CChainParams) (nHeight : Nat) : Int :=
  let nSubsidy := 50 * coin
  let nSubsidy := if P.fAllowMinDifficultyBlocks ∧ nHeight ≥ 350 then 10 * coin else nSubsidy
  let nSubsidy := if P.fAllowMinDifficultyBlocks ∧ nHeight = 205 then 9 * coin else nSubsidy
  let nSubsidy := if ¬ P.fAllowMinDifficultyBlocks ∧ nHeight = 68425 then 10 * coin else nSubsidy
  let nSubsidy := if ¬ P.fAllowMinDifficultyBlocks ∧ nHeight ≥ 69791 then 10 * coin else nSubsidy
  let nSubsidy :=
    if ¬ P.fAllowMinDifficultyBlocks ∧ nHeight ≤ 951752 then nSubsidy >>> (nHeight / 210000)
    else nSubsidy
  let nSubsidy :=
    if ¬ P.fAllowMinDifficultyBlocks ∧ nHeight ≥ 951753 then nBlockRewardEndCoin else nSubsidy
  if nSubsidy ≤ nBlockRewardMinimumCoin then nBlockRewardEndCoin else nSubsidy

def getBlockValue (P : CChainParams) (nHeight : Nat) (nFees : Int) : Int :=
  nSubsidy P nHeight + nFees

/-- The loop of `GetValueOut`. -/
def addValuesOut : Int → List CTxOut → Except ConnectStop Int
  | nValueOut, [] => .ok nValueOut
  | nValueOut, txout :: rest => do
    let nValueOut ← fits64 (nValueOut + txout.nValue.toInt)
    rejectIf (¬ moneyRange txout.nValue.toInt ∨ ¬ moneyRange nValueOut)
      (.threw "CTransaction::GetValueOut() : value out of range")
    addValuesOut nValueOut rest

def CTransaction.getValueOut (tx : CTransaction) : Except ConnectStop Int :=
  addValuesOut 0 tx.vout

/-! ## Inputs -/

/-- The output an input refers to, while it is unspent. -/
def CoinsView.outputAt (view : CoinsView) (prevout : COutPoint) : Option CTxOut :=
  match view.coins prevout.hash with
  | none => none
  | some coins =>
    if coins.isAvailable prevout.n.toNat then coins.vout[prevout.n.toNat]? else none

def CoinsView.haveInputs (view : CoinsView) (tx : CTransaction) : Bool :=
  tx.isCoinBase || tx.vin.all fun txin => (view.outputAt txin.prevout).isSome

/-- `GetOutputFor`. -/
def CoinsView.getOutputFor (view : CoinsView) (txin : CTxIn) : Except ConnectStop CTxOut :=
  match view.outputAt txin.prevout with
  | none => .error .assertFailed
  | some out => .ok out

theorem getOutputFor_of_outputAt {v : CoinsView} {txin : CTxIn} {o : CTxOut}
    (h : v.outputAt txin.prevout = some o) : v.getOutputFor txin = .ok o := by
  simp [CoinsView.getOutputFor, h]

/-- The loop of `GetValueIn`. -/
def addValuesIn (view : CoinsView) : Int → List CTxIn → Except ConnectStop Int
  | nResult, [] => .ok nResult
  | nResult, txin :: rest => do
    let out ← view.getOutputFor txin
    let nResult ← fits64 (nResult + out.nValue.toInt)
    addValuesIn view nResult rest

def CoinsView.getValueIn (view : CoinsView) (tx : CTransaction) : Except ConnectStop Int :=
  if tx.isCoinBase then .ok 0 else addValuesIn view 0 tx.vin

/-- The loop of `GetP2SHSigOpCount`. -/
def addP2SHSigOps (view : CoinsView) : List CTxIn → Except ConnectStop Nat
  | [] => .ok 0
  | txin :: rest => do
    let prevout ← view.getOutputFor txin
    let n ← addP2SHSigOps view rest
    .ok ((if CScript.isPayToScriptHash prevout.scriptPubKey then
      CScript.getP2SHSigOpCount prevout.scriptPubKey txin.scriptSig else 0) + n)

def getP2SHSigOpCount (tx : CTransaction) (view : CoinsView) : Except ConnectStop Nat :=
  if tx.isCoinBase then .ok 0 else addP2SHSigOps view tx.vin

/-! ## CheckInputs -/

/-- `CScriptCheck`. -/
structure ScriptCheck where
  scriptPubKey : CScript
  tx : CTransaction
  nIn : Nat
  nFlags : UInt32

def ScriptCheck.run (V : ValidationEnv) (check : ScriptCheck) : Except String Unit :=
  V.verifyScript ((check.tx.vin[check.nIn]?.map CTxIn.scriptSig).getD []) check.scriptPubKey check.tx
    check.nIn check.nFlags

/-- A check that is made on the spot, and what its failure says. -/
def ScriptCheck.runNow (V : ValidationEnv) (check : ScriptCheck) : Except ConnectStop Unit :=
  match check.run V with
  | .ok () => .ok ()
  | .error reason =>
    let relaxed := { check with nFlags := check.nFlags &&& ~~~standardNotMandatoryVerifyFlags }
    if check.nFlags &&& standardNotMandatoryVerifyFlags ≠ 0 then
      match relaxed.run V with
      | .ok () => .error (.rejected (.invalid 0 rejectNonstandard
          "non-mandatory-script-verify-flag (No error)" false))
      | .error _ => .error (.rejected (.doS 100 rejectInvalid
          ("mandatory-script-verify-flag-failed (" ++ reason ++ ")")))
    else .error (.rejected (.doS 100 rejectInvalid
      ("mandatory-script-verify-flag-failed (" ++ reason ++ ")")))

/-- The loop of the inexpensive checks; `nValueIn` is the sum so far. -/
def checkInputValues (inputs : CoinsView) (nSpendHeight : Int) :
    Int → List CTxIn → Except ConnectStop Int
  | nValueIn, [] => .ok nValueIn
  | nValueIn, txin :: rest =>
    match inputs.coins txin.prevout.hash with
    | none => .error .assertFailed
    | some coins => do
      rejectIf (coins.fCoinBase = true ∧ nSpendHeight - coins.nHeight < coinbaseMaturity)
        (.rejected (.invalid 0 rejectInvalid "bad-txns-premature-spend-of-coinbase" false))
      let nValue := (coins.vout.getD txin.prevout.n.toNat CTxOut.null).nValue.toInt
      let nValueIn ← fits64 (nValueIn + nValue)
      rejectIf (¬ moneyRange nValue ∨ ¬ moneyRange nValueIn)
        (.rejected (.doS 100 rejectInvalid "bad-txns-inputvalues-outofrange"))
      checkInputValues inputs nSpendHeight nValueIn rest

/-- The script checks of a transaction, one for each input. -/
def scriptChecks (inputs : CoinsView) (tx : CTransaction) (flags : UInt32) :
    Nat → List CTxIn → Except ConnectStop (List ScriptCheck)
  | _, [] => .ok []
  | nIn, txin :: rest => do
    let prevout ← inputs.getOutputFor txin
    let checks ← scriptChecks inputs tx flags (nIn + 1) rest
    .ok (⟨prevout.scriptPubKey, tx, nIn, flags⟩ :: checks)

/-- `CheckInputs`; the result is what is pushed to `pvChecks`. -/
def checkInputs (V : ValidationEnv) (m : BlockMap) (tx : CTransaction) (inputs : CoinsView)
    (fScriptChecks : Bool) (flags : UInt32) : Except ConnectStop (List ScriptCheck) :=
  if tx.isCoinBase then .ok []
  else do
    rejectIf (inputs.haveInputs tx = false) (.rejected (.invalid 0 0 "" false))
    let nSpendHeight : Int := (m.entry inputs.hashBlock).nHeight + 1
    let nValueIn ← checkInputValues inputs nSpendHeight 0 tx.vin
    let nValueOut ← tx.getValueOut
    rejectIf (nValueIn < nValueOut) (.rejected (.doS 100 rejectInvalid "bad-txns-in-belowout"))
    let nTxFee ← fits64 (nValueIn - nValueOut)
    rejectIf (nTxFee < 0) (.rejected (.doS 100 rejectInvalid "bad-txns-fee-negative"))
    let nFees ← fits64 (0 + nTxFee)
    rejectIf (¬ moneyRange nFees) (.rejected (.doS 100 rejectInvalid "bad-txns-fee-outofrange"))
    if fScriptChecks then do
      let checks ← scriptChecks inputs tx flags 0 tx.vin
      if V.nScriptCheckThreads ≠ 0 then .ok checks
      else do
        checkEach (ScriptCheck.runNow V) checks
        .ok []
    else .ok []

/-! ## UpdateCoins -/

structure CTxUndo where
  vprevout : List CTxInUndo
  deriving DecidableEq

structure CBlockUndo where
  vtxundo : List CTxUndo
  deriving DecidableEq

def spendInputs (inputs : CoinsView) :
    List CTxIn → Except ConnectStop (CoinsView × List CTxInUndo)
  | [] => .ok (inputs, [])
  | txin :: rest =>
    match (inputs.entry txin.prevout.hash).spend txin.prevout.n.toNat with
    | none => .error .assertFailed
    | some (coins, undo) => do
      let (inputs', undos) ← spendInputs (inputs.set txin.prevout.hash coins) rest
      .ok (inputs', undo :: undos)

def updateCoins (H : Crypto) (tx : CTransaction) (inputs : CoinsView) (nHeight : Nat) :
    Except ConnectStop (CoinsView × CTxUndo) := do
  let (inputs', vprevout) ← (if tx.isCoinBase then .ok (inputs, []) else spendInputs inputs tx.vin)
  .ok (inputs'.set (tx.getHash H) (CCoins.fromTx tx nHeight), ⟨vprevout⟩)

end Dobbscoin
